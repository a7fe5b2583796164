import InlineArrays.Proofs.Scenario.Tables
import InlineArrays.Proofs.Types.Keys
import Mathlib.Data.List.TakeWhile

/-!
# Names of types, written and read

A type is written as a name inside the brackets of span types.  What is read may have blanks around
the whole and just inside each bracket; without them it is what the type is written as.  A declared
name may have brackets itself, and then they are part of the name: at every level declared names are
tried before spans.
-/

namespace InlineArrays

namespace Text

/-! ## Blanks around a text -/

def Blanks (text : List Char) : Prop := ∀ c ∈ text, isBlank c = true

/-- The text neither begins nor ends with a blank. -/
def Trimmed (text : List Char) : Prop := trim text = text

variable {pre post text : List Char}

theorem trimEnd_append (hpost : Blanks post) : trimEnd (text ++ post) = trimEnd text := by
  have hreverse : ∀ c ∈ post.reverse, isBlank c = true := fun c hc ↦ hpost c (by simpa using hc)
  rw [trimEnd, trimEnd, List.reverse_append, List.dropWhile_append_of_pos hreverse]

theorem trim_append (hpre : Blanks pre) (hpost : Blanks post) :
    trim (pre ++ text ++ post) = trim text := by
  rw [trim, trim, List.append_assoc, List.dropWhile_append_of_pos hpre, List.dropWhile_append]
  split
  · rename_i hempty
    rw [List.isEmpty_iff.1 hempty, List.dropWhile_eq_nil_iff.2 hpost]
  · exact trimEnd_append hpost

theorem blanks_takeWhile (text : List Char) : Blanks (text.takeWhile isBlank) := by
  intro c hc
  exact List.all_eq_true.1 List.all_takeWhile c hc

/-- A text is what trimming leaves, between blanks. -/
theorem exists_trim (text : List Char) :
    ∃ pre post, text = pre ++ trim text ++ post ∧ Blanks pre ∧ Blanks post := by
  have hend (text : List Char) :
      text = trimEnd text ++ (text.reverse.takeWhile isBlank).reverse := by
    rw [trimEnd, ← List.reverse_append, List.takeWhile_append_dropWhile, List.reverse_reverse]
  refine ⟨text.takeWhile isBlank, ((text.dropWhile isBlank).reverse.takeWhile isBlank).reverse,
    ?_, blanks_takeWhile text, fun c hc ↦ blanks_takeWhile _ c (by simpa using hc)⟩
  rw [List.append_assoc, trim, ← hend, List.takeWhile_append_dropWhile]

theorem trimmed_trim (text : List Char) : Trimmed (trim text) := by
  obtain ⟨pre, post, htext, hpre, hpost⟩ := exists_trim text
  unfold Trimmed
  conv_rhs => rw [htext]
  exact (trim_append hpre hpost).symm

/-- What is between two characters that are no blanks stays. -/
theorem trimmed_of_ends {first last : Char} (hfirst : isBlank first = false)
    (hlast : isBlank last = false) : Trimmed (first :: text ++ [last]) := by
  simp [Trimmed, trim, trimEnd, hfirst, hlast]

end Text

namespace TypeTable

open Text

/-! ## The form of a span -/

/-- A span type over what `name` names. -/
def spanName (readonly : Bool) (name : List Char) : List Char :=
  (spanPrefix readonly).toList ++ name ++ ['>']

variable {t t' : TypeTable} {id : TypeId} {readonly : Bool} {name argument text : List Char}

theorem trimmed_spanName (readonly : Bool) (name : List Char) : Trimmed (spanName readonly name) := by
  cases readonly with
  | false => exact @trimmed_of_ends ("pan<".toList ++ name) 'S' '>' (by decide) (by decide)
  | true => exact @trimmed_of_ends ("eadOnlySpan<".toList ++ name) 'R' '>' (by decide) (by decide)

theorem spanArgument?_eq_some :
    spanArgument? readonly text = some argument ↔ text = spanName readonly argument := by
  unfold spanArgument? spanName
  rw [Option.bind_eq_some_iff]
  constructor
  · rintro ⟨rest, hrest, hargument⟩
    rw [← List.isPrefixOf?_eq_some_iff_append_eq.1 hrest,
      ← List.isSuffixOf?_eq_some_iff_append_eq.1 hargument, List.append_assoc]
  · rintro rfl
    exact ⟨argument ++ ['>'], List.isPrefixOf?_eq_some_iff_append_eq.2 (by simp),
      List.isSuffixOf?_eq_some_iff_append_eq.2 rfl⟩

/-- A name has the form of at most one span. -/
theorem spanName_inj {readonly' : Bool} (h : spanName readonly name = spanName readonly' argument) :
    readonly = readonly' ∧ name = argument := by
  rw [spanName, spanName] at h
  by_cases hsame : readonly = readonly'
  · subst hsame
    exact ⟨rfl, by simpa using h⟩
  · cases readonly <;> cases readonly' <;> simp [spanPrefix] at h hsame

theorem spanForm?_eq_some :
    spanForm? text = some (readonly, argument) ↔ text = spanName readonly argument := by
  unfold spanForm?
  constructor
  · intro h
    obtain ⟨access, -, h⟩ := List.exists_of_findSome?_eq_some h
    obtain ⟨found, hfound, hpair⟩ := Option.map_eq_some_iff.1 h
    cases hpair
    exact spanArgument?_eq_some.1 hfound
  · rintro rfl
    have hself : spanArgument? readonly (spanName readonly argument) = some argument :=
      spanArgument?_eq_some.2 rfl
    cases readonly with
    | true => simp [hself]
    | false =>
      have hother : spanArgument? true (spanName false argument) = none := by
        rw [Option.eq_none_iff_forall_ne_some]
        intro other h
        cases (spanName_inj (spanArgument?_eq_some.1 h)).1
      simp [hself, hother]

/-! ## What a text spells -/

/-- A text spells a name inside the brackets of spans, outermost first: there may be blanks around it
and just inside each bracket, and what is declared is a name, also if it has the form of a span. -/
inductive Spells (t : TypeTable) : List Char → List Bool → List Char → Prop
  | name {pre name post : List Char} (hpre : Blanks pre) (hpost : Blanks post)
      (trimmed : Trimmed name)
      (bare : (t.lookup (String.ofList name)).isSome ∨ spanForm? name = none) :
      Spells t (pre ++ name ++ post) [] name
  | span {pre argument post : List Char} {readonly : Bool} {accesses : List Bool}
      {name : List Char} (hpre : Blanks pre) (hpost : Blanks post)
      (undeclared : t.lookup (String.ofList (spanName readonly argument)) = none)
      (inner : Spells t argument accesses name) :
      Spells t (pre ++ spanName readonly argument ++ post) (readonly :: accesses) name

/-- The name inside the brackets of spans, with no blanks around it. -/
def spanText (accesses : List Bool) (name : List Char) : List Char := accesses.foldr spanName name

/-- A text spells one name in one way. -/
theorem Spells.unique {accesses accesses' : List Bool} {name' : List Char}
    (h : t.Spells text accesses name) (h' : t.Spells text accesses' name') :
    accesses' = accesses ∧ name' = name := by
  induction h generalizing accesses' name' with
  | @name pre name post hpre hpost trimmed bare =>
    generalize htext : pre ++ name ++ post = text at h'
    have htrim : trim text = name := by rw [← htext, trim_append hpre hpost, trimmed]
    cases h' with
    | name hpre' hpost' trimmed' _ =>
      exact ⟨rfl, by rw [← htrim, trim_append hpre' hpost', trimmed']⟩
    | @span pre' argument post' readonly accesses _ hpre' hpost' undeclared inner =>
      rw [trim_append hpre' hpost', trimmed_spanName] at htrim
      subst htrim
      rw [undeclared, spanForm?_eq_some.2 rfl] at bare
      exact absurd bare (by simp)
  | @span pre argument post readonly accesses name hpre hpost undeclared inner ih =>
    generalize htext : pre ++ spanName readonly argument ++ post = text at h'
    have htrim : trim text = spanName readonly argument := by
      rw [← htext, trim_append hpre hpost, trimmed_spanName]
    cases h' with
    | @name pre' name' post' hpre' hpost' trimmed' bare =>
      rw [trim_append hpre' hpost', trimmed'] at htrim
      subst htrim
      rw [undeclared, spanForm?_eq_some.2 rfl] at bare
      exact absurd bare (by simp)
    | @span pre' argument' post' readonly' accesses' _ hpre' hpost' undeclared' inner' =>
      rw [trim_append hpre' hpost', trimmed_spanName] at htrim
      obtain ⟨rfl, rfl⟩ := spanName_inj htrim
      obtain ⟨rfl, rfl⟩ := ih inner'
      exact ⟨rfl, rfl⟩

/-- What is trimmed off a text does not change what it spells. -/
theorem spells_name (h : (t.lookup (String.ofList (trim text))).isSome ∨
    spanForm? (trim text) = none) : t.Spells text [] (trim text) := by
  obtain ⟨pre, post, htext, hpre, hpost⟩ := exists_trim text
  have hname := Spells.name hpre hpost (trimmed_trim text) h
  rwa [← htext] at hname

theorem spells_span {accesses : List Bool}
    (undeclared : t.lookup (String.ofList (trim text)) = none)
    (hform : spanForm? (trim text) = some (readonly, argument))
    (inner : t.Spells argument accesses name) : t.Spells text (readonly :: accesses) name := by
  obtain ⟨pre, post, htext, hpre, hpost⟩ := exists_trim text
  have hform := spanForm?_eq_some.1 hform
  rw [hform] at undeclared htext
  have hspan := Spells.span hpre hpost undeclared inner
  rwa [← htext] at hspan

/-! ## Written types -/

theorem format_span {element : TypeId} (h : t.get id = .span element readonly)
    (hlt : element < id) :
    t.format id = String.ofList (spanName readonly (t.format element).toList) := by
  rw [format, h]
  simp only [hlt, if_true, spanName, String.ofList_append, String.ofList_toList]

theorem format_name {name : String} (h : (t.get id).name? = some name) : t.format id = name := by
  rw [format]
  cases hdata : t.get id with
  | span element readonly =>
    rw [hdata] at h
    cases h
  | _ =>
    rw [hdata] at h
    simp only [h, Option.getD_some]

/-- Types are written as before when spans are interned. -/
theorem Spans.format_eq (h : Spans t t') (ht : t.Sound) (hid : id < t.size) :
    t'.format id = t.format id := by
  induction id using Nat.strongRecOn with
  | ind id ih =>
    have hget := h.get_eq hid
    cases hdata : t.get id with
    | span element readonly =>
      have hlt := ht.precedes id element readonly hdata
      rw [format_span hdata hlt, format_span (hget.trans hdata) hlt,
        ih element hlt (Nat.lt_trans hlt hid)]
    | _ => rw [format, format, hget, hdata]

/-- What is read is written as the text without blanks, and what is refused is the name inside the
brackets, which is neither declared nor of the form of a span. -/
theorem Sound.spells_of_resolve (ht : t.Sound) (text : List Char) :
    ∃ accesses name, t.Spells text accesses name ∧
      match t.resolve text with
      | .ok (id, t') => t'.format id = String.ofList (spanText accesses name)
      | .error e => e = .unknown (String.ofList name) ∧ t.lookup (String.ofList name) = none ∧
        spanForm? name = none := by
  fun_induction TypeTable.resolve t text with
  | case1 text id hlookup =>
    refine ⟨[], trim text, spells_name (.inl (by rw [hlookup]; rfl)), ?_⟩
    obtain ⟨hid, hname, -⟩ := List.findIdx?_eq_some_iff_getElem.1 hlookup
    apply format_name
    rw [get, List.getElem?_eq_getElem hid]
    exact eq_of_beq hname
  | case2 text hlookup readonly argument hform _ ih =>
    obtain ⟨accesses, name, hspells, hargument⟩ := ih
    refine ⟨readonly :: accesses, name, spells_span hlookup hform hspells, ?_⟩
    cases hresolve : t.resolve argument with
    | error e =>
      rw [hresolve] at hargument
      exact hargument
    | ok resolved =>
      obtain ⟨element, mid⟩ := resolved
      rw [hresolve] at hargument
      obtain ⟨hspans, helement⟩ := spans_of_resolve hresolve
      have hstep : Spans mid (mid.span element readonly).2 :=
        .single ⟨element, readonly, helement, rfl⟩
      have hget := get_span_fst mid element readonly
      have hlt := ((hspans.trans hstep).sound ht).precedes _ _ _ hget
      change (mid.span element readonly).2.format (mid.span element readonly).1 = _
      rw [format_span hget hlt, hstep.format_eq (hspans.sound ht) helement, hargument,
        String.toList_ofList]
      rfl
  | case3 text hlookup hform =>
    have hnone : spanForm? (trim text) = none := by simpa using hform
    exact ⟨[], trim text, spells_name (.inr hnone), rfl, hlookup, hnone⟩

/-! ## Tables whose names are read back -/

/-- The tables that operations build from the empty one out of ids that they have handed out. -/
inductive Grown : TypeTable → Prop
  | empty : Grown {}
  | resolve {t t' : TypeTable} {name : List Char} {id : TypeId} :
    Grown t → t.resolve name = .ok (id, t') → Grown t'
  | span {t : TypeTable} {element : TypeId} (readonly : Bool) :
    Grown t → element < t.size → Grown (t.span element readonly).2
  | addArray {t t' : TypeTable} {name : String} {element id : TypeId} {length : Nat} :
    Grown t → element < t.size → t.addArray name element length = .ok (id, t') → Grown t'
  | declareStruct {t t' : TypeTable} {name : String} {kind : StructKind} {id : TypeId} :
    Grown t → t.declareStruct name kind = .ok (id, t') → Grown t'
  | defineFields {t t' : TypeTable} {id : TypeId} {fields : List Field} :
    Grown t → (∀ f ∈ fields, f.type < t.size) → t.defineFields id fields = .ok t' → Grown t'

theorem Grown.built (h : t.Grown) : t.Built := by
  induction h with
  | empty => exact .empty
  | resolve _ h ih => exact ih.resolve h
  | span readonly _ _ ih => exact ih.span _ readonly
  | addArray _ _ h ih => exact ih.addArray h
  | declareStruct _ h ih => exact ih.declareStruct h
  | defineFields _ _ h ih => exact ih.defineFields h

theorem Grown.sound (h : t.Grown) : t.Sound := by
  induction h with
  | empty => exact empty_sound
  | resolve _ h ih => exact (spans_of_resolve h).1.sound ih
  | span readonly _ helement ih => exact SpanStep.sound ⟨_, readonly, helement, rfl⟩ ih
  | addArray _ helement h ih => exact (ih.addArray helement h).1
  | declareStruct _ h ih => exact (ih.declareStruct h).1
  | defineFields _ hfields h ih => exact ih.defineFields hfields h

/-- A name with no blanks around it that does not begin like a span. -/
def PlainName (name : String) : Prop :=
  Trimmed name.toList ∧ ∀ readonly, ¬ (spanPrefix readonly).toList <+: name.toList

instance (name : String) : Decidable (PlainName name) :=
  inferInstanceAs (Decidable (trim name.toList = name.toList ∧ _))

/-- The error type, and the spans over it. -/
inductive OverError (t : TypeTable) : TypeId → Prop
  | error : OverError t error
  | span {id element : TypeId} {readonly : Bool} (h : t.get id = .span element readonly)
      (inner : OverError t element) : OverError t id

theorem get_mem_added (hle : builtin.length ≤ id) (hid : id < t.size) : t.get id ∈ t.added := by
  have hadded : id - builtin.length < t.added.length :=
    Nat.sub_lt_left_of_lt_add hle (size_eq t ▸ hid)
  rw [get_of_le t hle, List.getElem?_eq_getElem hadded]
  exact List.getElem_mem hadded

theorem WellFormed.eq_error (ht : t.WellFormed) (hid : id < t.size) (h : t.get id = .error) :
    id = error := by
  rcases Nat.lt_or_ge id builtin.length with hlt | hge
  · have hbuiltin : ∀ id < builtin.length, builtin[id]?.getD .error = .error → id = error := by
      decide
    exact hbuiltin id hlt (get_of_lt t hlt ▸ h)
  · have hdeclared := ht.declared _ (get_mem_added hge hid)
    rw [h] at hdeclared
    cases hdeclared

/-- Built-in names are plain too. -/
theorem plainName_of_get (hnames : ∀ data ∈ t.added, ∀ name, data.name? = some name → PlainName name)
    {name : String} (hid : id < t.size) (h : (t.get id).name? = some name) : PlainName name := by
  rcases Nat.lt_or_ge id builtin.length with hlt | hge
  · have hbuiltin : ∀ data ∈ builtin, ∀ name ∈ data.name?, PlainName name := by decide
    rw [get_of_lt t hlt, List.getElem?_eq_getElem hlt] at h
    exact hbuiltin _ (List.getElem_mem hlt) name h
  · exact hnames _ (get_mem_added hge hid) name h

theorem resolve_of_lookup (h : t.lookup (String.ofList (trim text)) = some id) :
    t.resolve text = .ok (id, t) := by
  rw [resolve, h]

theorem resolve_of_spanForm? (hlookup : t.lookup (String.ofList (trim text)) = none)
    (hform : spanForm? (trim text) = some (readonly, argument)) :
    t.resolve text = (t.resolve argument).map fun (element, t) ↦ t.span element readonly := by
  have hattach : (spanForm? (trim text)).attach = some ⟨(readonly, argument), hform⟩ := by
    simpa [Option.attach_eq_some_iff] using hform
  rw [resolve, hlookup]
  simp only [hattach]

/-- What a type is written as is read as that type. -/
theorem Grown.resolve_format (ht : t.Grown)
    (hnames : ∀ data ∈ t.added, ∀ name, data.name? = some name → PlainName name)
    (hid : id < t.size) (herror : ¬ t.OverError id) :
    t.resolve (t.format id).toList = .ok (id, t) := by
  induction id using Nat.strongRecOn with
  | ind id ih =>
    have hnamed {name : String} (hname : (t.get id).name? = some name) :
        t.resolve (t.format id).toList = .ok (id, t) := by
      have htrim : trim name.toList = name.toList := (plainName_of_get hnames hid hname).1
      apply resolve_of_lookup
      rw [format_name hname, htrim, String.ofList_toList]
      exact ht.built.lookup_eq_some_iff.2 hname
    cases hdata : t.get id with
    | span element readonly =>
      have hlt := ht.sound.precedes id element readonly hdata
      have helement := ih element hlt (Nat.lt_trans hlt hid) fun h ↦ herror (.span hdata h)
      have hundeclared :
          t.lookup (String.ofList (spanName readonly (t.format element).toList)) = none := by
        rw [Option.eq_none_iff_forall_ne_some]
        intro other hother
        have hplain := plainName_of_get hnames (lt_of_lookup hother)
          (ht.built.lookup_eq_some_iff.1 hother)
        refine hplain.2 readonly ?_
        rw [String.toList_ofList, spanName, List.append_assoc]
        exact List.prefix_append _ _
      have htrim : trim (t.format id).toList = spanName readonly (t.format element).toList := by
        rw [format_span hdata hlt, String.toList_ofList, trimmed_spanName]
      rw [resolve_of_spanForm? (htrim ▸ hundeclared) (htrim ▸ spanForm?_eq_some.2 rfl), helement]
      exact congrArg Except.ok (span_of_findSpan (ht.built.findSpan_eq_some_iff.2 hdata))
    | error => exact absurd (ht.built.wellFormed.eq_error hid hdata ▸ .error) herror
    | array | struct => exact hnamed (by rw [hdata]; rfl)
    | int | bool | string | index | range | dynamic => exact hnamed (by rw [hdata]; rfl)

/-- Where no declared name begins like a span or has blanks around it, what a type is written as is
read as that type and interns nothing, unless the type is over the error type.  With any names, a text
spells one name in one way: if it is read, then as a type that is written as this spelling without
blanks, and if it is refused, then because of the name, which stands for nothing. -/
theorem Grown.names_roundTrip (ht : t.Grown) :
    ((∀ data ∈ t.added, ∀ name, data.name? = some name → PlainName name) →
      ∀ id < t.size, ¬ t.OverError id → t.resolve (t.format id).toList = .ok (id, t)) ∧
    ∀ text, ∃ accesses name, t.Spells text accesses name ∧
      (∀ accesses' name', t.Spells text accesses' name' → accesses' = accesses ∧ name' = name) ∧
      match t.resolve text with
      | .ok (id, t') => t'.format id = String.ofList (spanText accesses name)
      | .error e => e = .unknown (String.ofList name) ∧ t.lookup (String.ofList name) = none ∧
        spanForm? name = none := by
  refine ⟨fun hnames id hid herror ↦ ht.resolve_format hnames hid herror, fun text ↦ ?_⟩
  obtain ⟨accesses, name, hspells, hresolve⟩ := ht.sound.spells_of_resolve text
  exact ⟨accesses, name, hspells, fun _ _ h ↦ hspells.unique h, hresolve⟩

end TypeTable

/-- A struct with brackets in its name, and a span over spans over it. -/
def bracketTypes : TypeTable :=
  ⟨[.struct ⟨"Box<int>", .value, []⟩, .span 7 true, .span 8 false]⟩

theorem bracketTypes_grown : bracketTypes.Grown := by
  have hstruct : ({} : TypeTable).declareStruct "Box<int>" .value =
      .ok (7, ⟨[.struct ⟨"Box<int>", .value, []⟩]⟩) := by cbv
  have hspan := TypeTable.Grown.span true (.declareStruct .empty hstruct) (by decide : 7 < _)
  exact .span false hspan (by decide : 8 < _)

theorem bracketTypes_roundTrip :
    bracketTypes.Grown ∧
      (∀ data ∈ bracketTypes.added, ∀ name, data.name? = some name → TypeTable.PlainName name) ∧
      ¬ bracketTypes.OverError 9 ∧
      bracketTypes.format 9 = "Span<ReadOnlySpan<Box<int>>>" ∧
      bracketTypes.resolve "Span<ReadOnlySpan<Box<int>>>".toList = .ok (9, bracketTypes) := by
  have hnames : ∀ data ∈ bracketTypes.added, ∀ name ∈ data.name?, TypeTable.PlainName name := by
    decide
  have herror : ¬ bracketTypes.OverError 9 := by
    have hstruct : ¬ bracketTypes.OverError 7 := by rintro (_ | ⟨⟨⟩, -⟩)
    have hspan : ¬ bracketTypes.OverError 8 := by
      rintro (_ | ⟨⟨⟩, hinner⟩)
      exact hstruct hinner
    rintro (_ | ⟨⟨⟩, hinner⟩)
    exact hspan hinner
  have hformat : bracketTypes.format 9 = "Span<ReadOnlySpan<Box<int>>>" := by cbv
  refine ⟨bracketTypes_grown, fun data hdata name hname ↦ hnames data hdata name hname, herror,
    hformat, ?_⟩
  rw [← hformat]
  exact bracketTypes_grown.names_roundTrip.1 hnames 9 (by decide) herror

end InlineArrays
