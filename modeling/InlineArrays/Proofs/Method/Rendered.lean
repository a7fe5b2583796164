import InlineArrays.Proofs.Method.Built
import InlineArrays.Proofs.Scenario.UsedOnce
import Mathlib.Data.List.Forall2

/-!
# Listings quote expressions

Spans are recorded while a listing is written: the listing of an expression marks the expression and
all its parts, each at the place where its own listing stands.  That place stays the same text when
more is written after it, and moves along when something is written before it.
-/

namespace InlineArrays

namespace SourceSpan

variable {source text : String} {span : SourceSpan}

/-- The span is that of an occurrence of `text`: it starts after whole characters and takes as many
bytes as the text. -/
def Quotes (source : String) (span : SourceSpan) (text : String) : Prop :=
  ∃ before after, source = before ++ text ++ after ∧ span.start = before.utf8ByteSize ∧
    span.stop = span.start + text.utf8ByteSize

theorem quotes_self (text : String) : Quotes text ⟨0, text.utf8ByteSize⟩ text :=
  ⟨"", "", by simp, rfl, (Nat.zero_add _).symm⟩

theorem Quotes.append (h : span.Quotes source text) (more : String) :
    span.Quotes (source ++ more) text := by
  obtain ⟨before, after, rfl, hstart, hstop⟩ := h
  exact ⟨before, after ++ more, by simp only [String.append_assoc], hstart, hstop⟩

theorem Quotes.prepend (h : span.Quotes source text) (more : String) :
    Quotes (more ++ source)
      ⟨span.start + more.utf8ByteSize, span.stop + more.utf8ByteSize⟩ text := by
  obtain ⟨before, after, rfl, hstart, hstop⟩ := h
  refine ⟨more ++ before, after, by simp only [String.append_assoc], ?_, ?_⟩
  · rw [String.utf8ByteSize_append, hstart, Nat.add_comm]
  · rw [hstop, Nat.add_right_comm]

end SourceSpan

/-! ## Slices -/

theorem utf8ByteSize_cons (c : Char) (text : List Char) :
    (String.ofList (c :: text)).utf8ByteSize = c.utf8Size + (String.ofList text).utf8ByteSize := by
  rw [String.ofList_cons, String.utf8ByteSize_append, String.utf8ByteSize_singleton]

theorem dropBytes?_cons (c : Char) (text : List Char) (count : Nat) :
    dropBytes? (c.utf8Size + count) (c :: text) = dropBytes? count text := by
  have hpos := c.utf8Size_pos
  obtain ⟨n, hn⟩ : ∃ n, c.utf8Size + count = n + 1 := ⟨c.utf8Size + count - 1, by omega⟩
  rw [hn, dropBytes?, if_pos (by omega), ← hn, Nat.add_sub_cancel_left]

theorem takeBytes?_cons (c : Char) (text : List Char) (count : Nat) :
    takeBytes? (c.utf8Size + count) (c :: text) = (takeBytes? count text).map (c :: ·) := by
  have hpos := c.utf8Size_pos
  obtain ⟨n, hn⟩ : ∃ n, c.utf8Size + count = n + 1 := ⟨c.utf8Size + count - 1, by omega⟩
  rw [hn, takeBytes?, if_pos (by omega), ← hn, Nat.add_sub_cancel_left]

theorem dropBytes?_append (before rest : List Char) :
    dropBytes? (String.ofList before).utf8ByteSize (before ++ rest) = some rest := by
  induction before with
  | nil => cases rest <;> rfl
  | cons c before ih => rw [utf8ByteSize_cons, List.cons_append, dropBytes?_cons, ih]

theorem takeBytes?_append (text rest : List Char) :
    takeBytes? (String.ofList text).utf8ByteSize (text ++ rest) = some text := by
  induction text with
  | nil => cases rest <;> rfl
  | cons c text ih => rw [utf8ByteSize_cons, List.cons_append, takeBytes?_cons, ih, Option.map_some]

theorem SourceSpan.Quotes.slice? {source text : String} {span : SourceSpan}
    (h : span.Quotes source text) : slice? source span = some text := by
  obtain ⟨before, after, rfl, hstart, hstop⟩ := h
  have hsize (s : String) : s.utf8ByteSize = (String.ofList s.toList).utf8ByteSize := by
    rw [String.ofList_toList]
  rw [InlineArrays.slice?, if_pos (by omega), hstop, Nat.add_sub_cancel_left, hstart, hsize before,
    hsize text, String.append_assoc, String.toList_append, dropBytes?_append, Option.bind_some,
    String.toList_append, takeBytes?_append, Option.map_some, String.ofList_toList]

/-! ## Fragments -/

namespace Fragment

variable {vars : Array Variable} {f g : Fragment} {es es' : List Expr}

/-- The marks are those of the expressions, in order, each at the place of its listing. -/
def Shows (vars : Array Variable) (f : Fragment) (es : List Expr) : Prop :=
  List.Forall₂ (fun mark e ↦ mark.1 = e.id ∧ mark.2.Quotes f.text (e.listing vars).text) f.marks es

theorem Shows.map_fst (h : f.Shows vars es) : f.marks.map (·.1) = es.map (·.id) := by
  rw [← List.forall₂_eq_eq_eq, List.forall₂_map_left_iff, List.forall₂_map_right_iff]
  exact h.imp fun mark e hmark ↦ hmark.1

theorem Shows.exists_of_mem (h : f.Shows vars es) {mark : ExprId × SourceSpan}
    (hmark : mark ∈ f.marks) :
    ∃ e ∈ es, mark.1 = e.id ∧ mark.2.Quotes f.text (e.listing vars).text := by
  obtain ⟨i, hi, rfl⟩ := List.getElem_of_mem hmark
  have hi' : i < es.length := h.length_eq ▸ hi
  exact ⟨es[i], List.getElem_mem hi', h.get hi hi'⟩

/-- What is written besides expressions. -/
theorem shows_nil (h : f.marks = []) : f.Shows vars [] := by
  rw [Shows, h]
  exact .nil

theorem Shows.append (h : f.Shows vars es) (h' : g.Shows vars es') :
    (f ++ g).Shows vars (es ++ es') := by
  refine List.rel_append (h.imp fun mark e hmark ↦ ⟨hmark.1, hmark.2.append _⟩) ?_
  exact List.forall₂_map_left_iff.2 (h'.imp fun mark e hmark ↦ ⟨hmark.1, hmark.2.prepend _⟩)

theorem Shows.followed (h : f.Shows vars es) (hg : g.marks = []) : (f ++ g).Shows vars es := by
  have hnil : g.Shows vars [] := shows_nil hg
  have happend := h.append hnil
  rwa [List.append_nil] at happend

theorem Shows.preceded (h : g.Shows vars es) (hf : f.marks = []) : (f ++ g).Shows vars es :=
  (shows_nil hf).append h

/-- An expression is marked once its parts are written. -/
theorem Shows.mark {e : Expr} (h : f.Shows vars es) (he : e.listing vars = f.mark e.id) :
    (e.listing vars).Shows vars (es ++ [e]) := by
  have htext : (e.listing vars).text = f.text := by rw [he, text_mark]
  rw [he]
  refine List.rel_append h (.cons ⟨rfl, ?_⟩ .nil)
  rw [htext]
  exact SourceSpan.quotes_self _

end Fragment

namespace Expr

open Fragment (Shows shows_nil)

variable {vars : Array Variable}

theorem shows_leaf {e : Expr} {id : ExprId} {f : Fragment} (hf : f.marks = []) (hid : e.id = id)
    (he : e.listing vars = f.mark id) : (f.mark id).Shows vars [e] := by
  subst hid
  exact he ▸ (shows_nil hf).mark he

/-- The listing of a bound that may be omitted. -/
theorem shows_bound {bound : Option Expr}
    (h : ∀ e ∈ bound, (e.listing vars).Shows vars ((e.usesAfterParts .read).map (·.1))) :
    (match bound with
      | some bound => bound.listing vars
      | none => ("" : Fragment)).Shows vars (List.map Prod.fst (match bound with
        | some bound => bound.usesAfterParts .read
        | none => [])) := by
  cases bound with
  | none => exact shows_nil rfl
  | some bound => exact h bound rfl

mutual

/-- A listing marks the expression and its parts, the parts first. -/
theorem listing_shows (vars : Array Variable) : (e : Expr) → (usage : Usage) →
    (e.listing vars).Shows vars ((e.usesAfterParts usage).map (·.1))
  | .var id target, _ => by
    unfold listing
    refine shows_leaf ?_ rfl rfl
    cases vars[target]? <;> rfl
  | .call .., _ | .int .., _ | .bool .., _ | .string .., _ | .default .., _ | .placeholder .., _ => by
    unfold listing
    exact shows_leaf rfl rfl rfl
  | .field id receiver name, usage => by
    rw [usesAfterParts, List.map_append]
    exact Shows.mark ((receiver.listing_shows vars .receiver).followed rfl) rfl
  | .fromEnd id count, usage => by
    rw [usesAfterParts, List.map_append]
    exact Shows.mark ((count.listing_shows vars .read).preceded rfl) rfl
  | .range id start stop, usage => by
    rw [usesAfterParts_range, List.map_append, List.map_append]
    refine Shows.mark (((shows_bound fun bound hbound ↦ ?_).followed (g := (".." : Fragment))
      rfl).append (shows_bound fun bound hbound ↦ ?_)) ?_
    · cases start with
      | none => cases hbound
      | some start => exact Option.some.inj hbound ▸ start.listing_shows vars .read
    · cases stop with
      | none => cases hbound
      | some stop => exact Option.some.inj hbound ▸ stop.listing_shows vars .read
    · cases start <;> cases stop <;> rfl
  | .element id receiver args, usage => by
    rw [usesAfterParts, List.map_append, List.map_append]
    exact Shows.mark ((((receiver.listing_shows vars .receiver).followed rfl).append
      (argumentListing_shows vars args)).followed rfl) rfl
  | .span id operand readonly, usage => by
    rw [usesAfterParts, List.map_append]
    refine Shows.mark ((operand.listing_shows vars .receiver).preceded ?_) rfl
    cases readonly <;> rfl
  | .conditional id receiver access, usage => by
    rw [usesAfterParts, List.map_append, List.map_append]
    exact Shows.mark (((receiver.listing_shows vars .read).followed rfl).append
      (access.listing_shows vars usage)) rfl
termination_by structural e => e

theorem argumentListing_shows (vars : Array Variable) : (args : List (Argument Expr)) →
    (argumentListing vars args).Shows vars ((argumentUsesAfterParts args).map (·.1))
  | [] => shows_nil rfl
  | arg :: rest => by
    rw [argumentUsesAfterParts, List.map_append]
    have hfirst := (arg.value.listing_shows vars .read).preceded (f := (arg.lead : Fragment)) rfl
    cases rest with
    | nil =>
      rw [argumentUsesAfterParts, List.map_nil, List.append_nil]
      exact hfirst
    | cons next rest =>
      exact (hfirst.followed rfl).append (argumentListing_shows vars (next :: rest))
termination_by structural args => args

end

end Expr

/-! ## Statements -/

/-- The use an expression is put to does not change what is used with it. -/
theorem Expr.map_fst_usesAfterParts (usage usage' : Usage) :
    (e : Expr) → (e.usesAfterParts usage).map (·.1) = (e.usesAfterParts usage').map (·.1)
  | .conditional id receiver access => by
    simp [usesAfterParts, map_fst_usesAfterParts usage usage' access]
  | .range .. => by simp [usesAfterParts_range]
  | .var .. | .field .. | .call .. | .int .. | .bool .. | .string .. | .fromEnd .. | .default ..
  | .element .. | .span .. | .placeholder .. => by simp [usesAfterParts]

theorem Statement.map_fst_usesAfterParts (b : Body) (s : Statement) :
    (s.usesAfterParts b).map (·.1) =
      s.exprs.flatMap fun e ↦ (e.usesAfterParts .read).map (·.1) := by
  rw [usesAfterParts, ← Body.map_fst_operands b, List.map_flatMap, List.flatMap_map]
  exact List.flatMap_congr fun use _ ↦ Expr.map_fst_usesAfterParts _ _ use.1

theorem Statement.listing_shows (b : Body) (s : Statement) :
    (s.listing b.vars b.returns).Shows b.vars ((s.usesAfterParts b).map (·.1)) := by
  rw [map_fst_usesAfterParts]
  have hexpr (e : Expr) := e.listing_shows b.vars .read
  cases s with
  | expression value =>
    rw [exprs, List.flatMap_singleton]
    exact (hexpr value).followed rfl
  | assign target value | compound target _ value =>
    rw [exprs, List.flatMap_cons, List.flatMap_singleton]
    exact (((hexpr target).followed rfl).append (hexpr value)).followed rfl
  | refLocal bound init =>
    rw [exprs, List.flatMap_singleton]
    refine ((hexpr init).preceded ?_).followed rfl
    split <;> cases b.vars[bound]? <;> rfl
  | call callee args =>
    have hargs := Expr.argumentListing_shows b.vars args
    rw [Expr.argumentUsesAfterParts_eq, List.map_flatMap] at hargs
    rw [exprs, List.flatMap_map]
    exact (hargs.preceded rfl).followed rfl
  | ret value =>
    cases value with
    | none => exact Fragment.shows_nil rfl
    | some value =>
      rw [exprs, Option.toList_some, List.flatMap_singleton]
      refine ((hexpr value).preceded ?_).followed rfl
      split <;> rfl

/-- A statement ends with a semicolon. -/
theorem Statement.text_listing (b : Body) (s : Statement) :
    ∃ front, (s.listing b.vars b.returns).text = front ++ ";" := by
  cases s with
  | call callee args =>
    refine ⟨callee ++ "(" ++ (Expr.argumentListing b.vars args).text ++ ")", ?_⟩
    rw [String.append_assoc]
    rfl
  | ret value =>
    cases value with
    | none => exact ⟨"return", rfl⟩
    | some value => exact ⟨_, rfl⟩
  | _ => exact ⟨_, rfl⟩

/-- The spans lie from `start` to `stop` one after the other, each of a text that ends with a
semicolon and each followed by a line end. -/
def SourceSpan.Tile (source : String) : Nat → List SourceSpan → Nat → Prop
  | start, [], stop => start = stop
  | start, span :: spans, stop =>
    span.start = start ∧ (∃ front, span.Quotes source (front ++ ";")) ∧
      Quotes source ⟨span.stop, span.stop + 1⟩ "\n" ∧ Tile source (span.stop + 1) spans stop

namespace SourceSpan

variable {source : String} {start mid stop : Nat} {spans spans' : List SourceSpan}

theorem Tile.append_text (h : Tile source start spans stop) (more : String) :
    Tile (source ++ more) start spans stop := by
  induction spans generalizing start with
  | nil => exact h
  | cons span spans ih =>
    obtain ⟨hstart, ⟨front, hfront⟩, hend, hrest⟩ := h
    exact ⟨hstart, ⟨front, hfront.append more⟩, hend.append more, ih hrest⟩

theorem Tile.append (h : Tile source start spans mid) (h' : Tile source mid spans' stop) :
    Tile source start (spans ++ spans') stop := by
  induction spans generalizing start with
  | nil =>
    obtain rfl : start = mid := h
    exact h'
  | cons span spans ih =>
    obtain ⟨hstart, hfront, hend, hrest⟩ := h
    exact ⟨hstart, hfront, hend, ih hrest⟩

theorem Quotes.start_le_stop {span : SourceSpan} {text : String} (h : span.Quotes source text) :
    span.start ≤ span.stop := by
  obtain ⟨-, -, -, -, hstop⟩ := h
  exact hstop ▸ Nat.le_add_right _ _

theorem Tile.start_le (h : Tile source start spans stop) : ∀ span ∈ spans, start ≤ span.start := by
  induction spans generalizing start with
  | nil => exact nofun
  | cons span spans ih =>
    obtain ⟨hstart, ⟨front, hfront⟩, -, hrest⟩ := h
    refine List.forall_mem_cons.2 ⟨Nat.le_of_eq hstart.symm, fun later hlater ↦ ?_⟩
    have hspan := hfront.start_le_stop
    have hafter := ih hrest later hlater
    omega

/-- Spans that tile a source are apart and in order. -/
theorem Tile.pairwise (h : Tile source start spans stop) :
    spans.Pairwise fun span later ↦ span.stop < later.start := by
  induction spans generalizing start with
  | nil => exact .nil
  | cons span spans ih =>
    obtain ⟨-, -, -, hrest⟩ := h
    exact .cons (fun later hlater ↦ hrest.start_le later hlater) (ih hrest)

end SourceSpan

/-! ## Bodies -/

namespace Body

variable {b : Body} {e : Expr}

/-- What is written for some statements of a body: it shows their expressions, and the spans of the
statements are those of their lines, which make up the whole. -/
structure Written (b : Body) (statements : List Statement) (lines : Fragment × List SourceSpan) :
    Prop where
  shows : lines.1.Shows b.vars (statements.flatMap fun s ↦ (s.usesAfterParts b).map (·.1))
  quotes : List.Forall₂
    (fun span s ↦ span.Quotes lines.1.text (s.listing b.vars b.returns).text) lines.2 statements
  tile : SourceSpan.Tile lines.1.text 0 lines.2 lines.1.text.utf8ByteSize

theorem Written.line {statements : List Statement} {written : Fragment} {spans : List SourceSpan}
    (h : b.Written statements (written, spans)) (s : Statement) :
    let line := s.listing b.vars b.returns
    let start := written.text.utf8ByteSize
    b.Written (statements ++ [s])
      (written ++ line ++ "\n", spans ++ [⟨start, start + line.text.utf8ByteSize⟩]) := by
  intro line start
  have hspan : SourceSpan.Quotes (written.text ++ line.text ++ "\n")
      ⟨start, start + line.text.utf8ByteSize⟩ line.text := ⟨written.text, "\n", rfl, rfl, rfl⟩
  have hend : SourceSpan.Quotes (written.text ++ line.text ++ "\n")
      ⟨start + line.text.utf8ByteSize, start + line.text.utf8ByteSize + 1⟩ "\n" :=
    ⟨written.text ++ line.text, "", String.append_empty.symm, String.utf8ByteSize_append.symm, rfl⟩
  refine ⟨?_, ?_, ?_⟩
  · rw [List.flatMap_append, List.flatMap_singleton]
    exact (h.shows.append (s.listing_shows b)).followed rfl
  · exact List.rel_append (h.quotes.imp fun _ _ hearlier ↦ (hearlier.append _).append _)
      (.cons hspan .nil)
  · obtain ⟨front, hfront⟩ := s.text_listing b
    refine ((h.tile.append_text _).append_text _).append ⟨rfl, ⟨front, ?_⟩, hend, ?_⟩
    · rwa [← hfront]
    · rw [SourceSpan.Tile, Fragment.text_append, Fragment.text_append, String.utf8ByteSize_append,
        String.utf8ByteSize_append]
      rfl

theorem written_lines (b : Body) : b.Written b.statements b.lines := by
  have hrun (done rest : List Statement) (lines : Fragment × List SourceSpan)
      (h : b.Written done lines) : b.Written (done ++ rest) (rest.foldl
        (fun lines s ↦
          let line := s.listing b.vars b.returns
          let start := lines.1.text.utf8ByteSize
          (lines.1 ++ line ++ "\n", lines.2 ++ [⟨start, start + line.text.utf8ByteSize⟩]))
        lines) := by
    induction rest generalizing done lines with
    | nil => rwa [List.append_nil]
    | cons s rest ih =>
      rw [List.append_cons]
      exact ih _ _ (h.line s)
  exact hrun [] b.statements _ ⟨.nil, .nil, rfl⟩

/-- The expression occurs in the listing of the body. -/
def Renders (b : Body) (e : Expr) : Prop := e.id ∈ b.lines.1.marks.map (·.1)

theorem renders_of_used (h : b.Used e) : b.Renders e := by
  rw [Renders, b.written_lines.shows.map_fst]
  obtain ⟨use, huse, rfl⟩ := List.mem_map.1 h
  obtain ⟨s, hs, huse⟩ := List.mem_flatMap.1 huse
  exact List.mem_map_of_mem (List.mem_flatMap.2
    ⟨s, hs, List.mem_map_of_mem (Statement.mem_usesAfterParts.2 huse)⟩)

/-- Enters marks into the spans, by id. -/
abbrev enter (spans : Array SourceSpan) (marks : List (ExprId × SourceSpan)) : Array SourceSpan :=
  marks.foldl (fun spans (id, span) ↦ spans.setIfInBounds id span) spans

theorem enter_of_not_mem {marks : List (ExprId × SourceSpan)} {id : ExprId}
    (h : id ∉ marks.map (·.1)) (spans : Array SourceSpan) :
    (enter spans marks)[id]? = spans[id]? := by
  induction marks generalizing spans with
  | nil => rfl
  | cons mark marks ih =>
    rw [List.map_cons, List.mem_cons, not_or] at h
    rw [enter, List.foldl_cons, ← enter, ih h.2, Array.getElem?_setIfInBounds_ne (Ne.symm h.1)]

/-- Where an expression is marked, one of its marks stays. -/
theorem exists_of_enter {marks : List (ExprId × SourceSpan)} {id : ExprId}
    (h : id ∈ marks.map (·.1)) (spans : Array SourceSpan) (hid : id < spans.size) :
    ∃ span, (id, span) ∈ marks ∧ (enter spans marks)[id]? = some span := by
  induction marks generalizing spans with
  | nil => cases h
  | cons mark marks ih =>
    rw [enter, List.foldl_cons, ← enter]
    by_cases hmem : id ∈ marks.map (·.1)
    · obtain ⟨span, hspan, henter⟩ := ih hmem (spans.setIfInBounds mark.1 mark.2)
        (by rwa [Array.size_setIfInBounds])
      exact ⟨span, List.mem_cons_of_mem _ hspan, henter⟩
    · obtain rfl : id = mark.1 := (List.mem_cons.1 h).resolve_right hmem
      exact ⟨mark.2, List.mem_cons_self, by
        rw [enter_of_not_mem hmem, Array.getElem?_setIfInBounds_self_of_lt hid]⟩

/-- The span of an expression that occurs in the source quotes the listing of the expression alone,
wherever it occurs besides. -/
theorem Coherent.quotes_of_renders (h : b.Coherent) (he : b.Records e) (hrenders : b.Renders e) :
    (b.finish.span e).Quotes b.listing.source (e.listing b.vars).text := by
  have hsize : e.id < (Array.replicate b.exprs.size ({} : SourceSpan)).size := by
    rw [Array.size_replicate]
    exact (Array.getElem?_eq_some_iff.1 he).1
  obtain ⟨span, hspan, henter⟩ := exists_of_enter hrenders _ hsize
  have hfinish : b.finish.span e = span := by
    rw [Method.span]
    exact congrArg (Option.getD · {}) henter
  obtain ⟨e', he', hid, hquotes⟩ := b.written_lines.shows.exists_of_mem hspan
  -- the occurrence is of the expression itself, which is the one recorded under the id
  have hused : b.Used e' := by
    obtain ⟨s, hs, he'⟩ := List.mem_flatMap.1 he'
    obtain ⟨use, huse, rfl⟩ := List.mem_map.1 he'
    exact used_of_mem_usesAfterParts hs huse
  obtain rfl := he.eq_of_id (h.records_of_used hused) hid
  rwa [hfinish]

theorem Coherent.text_of_renders (h : b.Coherent) (he : b.Records e) (hrenders : b.Renders e) :
    b.finish.text e = (e.listing b.vars).text := by
  have hslice : slice? b.finish.listing.source (b.finish.span e) = some (e.listing b.vars).text :=
    (h.quotes_of_renders he hrenders).slice?
  rw [Method.text, hslice, Option.getD_some]

end Body

end InlineArrays
