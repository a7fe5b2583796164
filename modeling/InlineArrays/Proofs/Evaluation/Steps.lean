import InlineArrays.Proofs.Evaluation.Computed

/-!
# What the steps of lowering compute

One lemma per step of lowering says which part of an evaluation it computes; the code of expressions is
put together from them.
-/

namespace InlineArrays

open Emission

/-- The value that refers to a location, if the copy that it may be in is at this root. -/
def Location.reference (root : Root) : Location → Value
  | .referred v => v
  | .copied _ path => .address ⟨root, path⟩

/-- The span that stands for an extent, likewise. -/
def Extent.reference (root : Root) (readonly : Bool) : Extent → Value
  | .span v => v
  | .copied _ path length => .span ⟨some ⟨root, path⟩, 0, length, readonly⟩

/-! ## Readings -/

/-- The bound, of operands that have these values. -/
inductive Bound.Reads (known : List (Operand × Value)) : Bound Operand → Bound Value → Prop
  | omitted : Reads known .omitted .omitted
  | int {o : Operand} {v : Value} (h : (o, v) ∈ known) : Reads known (.int o) (.int v)
  | fromEnd {o : Operand} {v : Value} (h : (o, v) ∈ known) : Reads known (.fromEnd o) (.fromEnd v)
  | index {o : Operand} {v : Value} (h : (o, v) ∈ known) : Reads known (.index o) (.index v)

/-- The subscript, of operands that have these values. -/
inductive Subscript.Reads (known : List (Operand × Value)) :
    Subscript Operand → Subscript Value → Prop
  | int {o : Operand} {v : Value} (h : (o, v) ∈ known) : Reads known (.int o) (.int v)
  | fromEnd {o : Operand} {v : Value} (h : (o, v) ∈ known) : Reads known (.fromEnd o) (.fromEnd v)
  | index {o : Operand} {v : Value} (h : (o, v) ∈ known) : Reads known (.index o) (.index v)
  | dynamic {o : Operand} {v : Value} (h : (o, v) ∈ known) : Reads known (.dynamic o) (.dynamic v)
  | range {o : Operand} {v : Value} (h : (o, v) ∈ known) : Reads known (.range o) (.range v)
  | rangeLiteral {start stop : Bound Operand} {first last : Bound Value}
      (hstart : start.Reads known first) (hstop : stop.Reads known last) :
      Reads known (.rangeLiteral start stop) (.rangeLiteral first last)

namespace Bound.Reads

variable {known more : List (Operand × Value)} {b : Bound Operand} {x : Bound Value}

theorem mono (h : b.Reads known x) (hknown : known ⊆ more) : b.Reads more x := by
  cases h with
  | omitted => exact .omitted
  | int h => exact .int (hknown h)
  | fromEnd h => exact .fromEnd (hknown h)
  | index h => exact .index (hknown h)

theorem exists_reads (b : Bound Operand) : ∃ known x, b.Reads known x := by
  cases b with
  | omitted => exact ⟨[], .omitted, .omitted⟩
  | int o => exact ⟨[(o, .unit)], .int .unit, .int List.mem_cons_self⟩
  | fromEnd o => exact ⟨[(o, .unit)], .fromEnd .unit, .fromEnd List.mem_cons_self⟩
  | index o => exact ⟨[(o, .unit)], .index .unit, .index List.mem_cons_self⟩

end Bound.Reads

namespace Subscript.Reads

variable {known more : List (Operand × Value)} {s : Subscript Operand} {x : Subscript Value}

theorem mono (h : s.Reads known x) (hknown : known ⊆ more) : s.Reads more x := by
  cases h with
  | int h => exact .int (hknown h)
  | fromEnd h => exact .fromEnd (hknown h)
  | index h => exact .index (hknown h)
  | dynamic h => exact .dynamic (hknown h)
  | range h => exact .range (hknown h)
  | rangeLiteral hstart hstop => exact .rangeLiteral (hstart.mono hknown) (hstop.mono hknown)

theorem exists_reads (s : Subscript Operand) : ∃ known x, s.Reads known x := by
  cases s with
  | int o => exact ⟨[(o, .unit)], .int .unit, .int List.mem_cons_self⟩
  | fromEnd o => exact ⟨[(o, .unit)], .fromEnd .unit, .fromEnd List.mem_cons_self⟩
  | index o => exact ⟨[(o, .unit)], .index .unit, .index List.mem_cons_self⟩
  | dynamic o => exact ⟨[(o, .unit)], .dynamic .unit, .dynamic List.mem_cons_self⟩
  | range o => exact ⟨[(o, .unit)], .range .unit, .range List.mem_cons_self⟩
  | rangeLiteral start stop =>
    obtain ⟨known, first, hstart⟩ := Bound.Reads.exists_reads start
    obtain ⟨more, last, hstop⟩ := Bound.Reads.exists_reads stop
    exact ⟨known ++ more, .rangeLiteral first last,
      .rangeLiteral (hstart.mono (List.subset_append_left _ _))
        (hstop.mono (List.subset_append_right _ _))⟩

theorem needsLength_eq (h : s.Reads known x) : s.needsLength = x.needsLength := by
  cases h with
  | rangeLiteral hstart hstop => cases hstart <;> cases hstop <;> rfl
  | _ => rfl

end Subscript.Reads

namespace Reading

/-- An operand that has a value, wherever it leads. -/
def operand : Reading Operand Value where
  Says known o v := (o, v) ∈ known
  exists_says o := ⟨[(o, .unit)], .unit, List.mem_cons_self⟩
  mono := fun h hknown ↦ hknown h

/-- A temporary that holds a value. -/
def temp (v : Value) : Reading TempId Unit where
  Says known t _ := (Operand.temp t, v) ∈ known
  exists_says t := ⟨[(.temp t, v)], (), List.mem_cons_self⟩
  mono := fun h hknown ↦ hknown h

def bound : Reading (Bound Operand) (Bound Value) where
  Says known b x := b.Reads known x
  exists_says := Bound.Reads.exists_reads
  mono := Bound.Reads.mono

def subscript : Reading (Subscript Operand) (Subscript Value) where
  Says known s x := s.Reads known x
  exists_says := Subscript.Reads.exists_reads
  mono := Subscript.Reads.mono

variable (frame : Nat) (count : TempId)

/-- The value of an operand that stands for an extent; the span over a copy is one over the temporary
that the copy is in. -/
def SpanOf (known : List (Operand × Value)) (v : Value) : Extent → Prop
  | .span w => v = w ∧ w.Within (Root.Before frame count)
  | .copied w path length =>
    ∃ temp readonly, v = .span ⟨some ⟨.temp frame temp, path⟩, 0, length, readonly⟩ ∧
      (.temp temp, w) ∈ known ∧ w.Within (Root.Before frame count)

variable {frame count} in
theorem SpanOf.mono {known more : List (Operand × Value)} {v : Value} {x : Extent}
    (h : SpanOf frame count known v x) (hknown : known ⊆ more) : SpanOf frame count more v x := by
  cases x with
  | span w => exact h
  | copied w path length =>
    obtain ⟨temp, readonly, hv, hmem, hw⟩ := h
    exact ⟨temp, readonly, hv, hknown hmem, hw⟩

/-- What is indexed; if it is sliced, it is no copy. -/
def extent (slicing : Bool) : Reading Operand Extent where
  Says known o x := (∃ v, (o, v) ∈ known ∧ SpanOf frame count known v x) ∧
    (slicing = true → ∃ w, x = .span w)
  exists_says o := ⟨[(o, .unit)], .span .unit,
    ⟨.unit, List.mem_cons_self, rfl, Value.within_unit⟩, fun _ ↦ ⟨.unit, rfl⟩⟩
  mono := fun ⟨⟨v, hv, hx⟩, hslicing⟩ hknown ↦ ⟨⟨v, hknown hv, hx.mono hknown⟩, hslicing⟩

end Reading

/-! ## Steps of lowering -/

namespace Activation

/-- The evaluation is about this activation, and what was stored leads to none of its own
temporaries. -/
structure Suits (A : Activation) (c : Context) (σ : Situation) (count : TempId) : Prop where
  types : A.types = c.types
  frame : A.frame = σ.frame
  closed : σ.memory.Closed (Root.Before A.frame count)

variable {A : Activation} {c : Context} {σ : Situation} {count : TempId}

theorem Suits.within (h : A.Suits c σ count) (receiver : ExprId) (v : Value) :
    A.Suits c (σ.within receiver v) count := ⟨h.types, h.frame, h.closed⟩

/-- A temporary of the running activation, as an operand and at its root. -/
theorem Sees.temp? {view : View} {m : Memory} (h : A.Sees view m) (t : TempId) :
    m.root? (.temp A.frame t) = m.operand? (.temp t) := by
  obtain ⟨f, rest, hframes, hframe, -⟩ := h
  rw [Memory.operand?_temp hframes, Memory.root?]
  simp [Memory.frame?, hframes, hframe]

/-- Where an operand refers to a location, loading what is there reads the location. -/
theorem Ready.load {s : Emission} {m : Memory} {known : List (Operand × Value)} {o : Operand}
    {l : Location} (h : A.Ready σ count s m) (hknown : ∀ p ∈ known, m.Has s p.1 p.2)
    (ho : (Reading.location A.frame count).Says known o l) :
    (Operation.load o).run A.types A.frame m = Run.of (l.read σ.memory) m := by
  obtain ⟨ho, hl⟩ := ho
  cases l with
  | referred v =>
    rw [Operation.run_load_of (hknown _ ho).2, Location.read]
    cases hv : v.toAddress with
    | error e => rfl
    | ok address =>
      rw [Value.toAddress_eq_ok hv] at hl
      have hread : m.read address = σ.memory.read address := by
        rw [Memory.read, Memory.read, h.root? _ (Value.within_address.1 hl)]
      exact congrArg (Run.of · m) hread
  | copied v path =>
    obtain ⟨temp, ho, htemp⟩ := ho
    obtain ⟨view, hview⟩ := h.sees
    rw [Operation.run_load_of (hknown _ ho).2]
    change Run.of (m.read ⟨.temp A.frame temp, path⟩) m = _
    rw [Location.read, Memory.read, hview.temp?, (hknown _ htemp).2]

namespace Computes

variable {known : List (Operand × Value)} {o : Operand}

/-- What is at a known address. -/
theorem load {comment : Option String} {l : Location} (hsuits : A.Suits c σ count)
    (ho : (Reading.location A.frame count).Says known o l) :
    A.Computes σ count known (Emission.define (.load o) comment) (l.read σ.memory)
      (.value A.frame count) :=
  defineValue (fun _ _ hm hknown ↦ hm.load hknown ho) fun _ _ hv ↦
    ⟨List.mem_cons_self, ho.2.read hsuits.closed hv⟩

/-- A known operand is what it is known to be. -/
theorem passed {β : Type} {x : β} {R : Reading Operand β} (ho : R.Says known o x) :
    A.Computes σ count known (Pure.pure o) (.ok x) R :=
  pure ho fun _ hp ↦ .inl hp

theorem fromAddress {demand : Demand} {l : Location} (hsuits : A.Suits c σ count)
    (ho : (Reading.location A.frame count).Says known o l) :
    A.Computes σ count known (demand.fromAddress o) (demand.take σ.memory l)
      (.result A.frame count demand) := by
  cases demand with
  | address => exact .passed ho
  | value => exact (load hsuits ho).map fun _ _ v _ hv ↦ ⟨v, rfl, hv⟩

/-- The address of a fresh temporary that holds a known operand. -/
theorem spillAddress {v : Value} (ho : (o, v) ∈ known) (hv : v.Within (Root.Before A.frame count)) :
    A.Computes σ count known (spillAddress o) (.ok (.whole v)) (.location A.frame count) := by
  have hspill : A.Computes σ count known (Emission.spill o) (.ok ()) (.temp v) :=
    spill ho fun _ ↦ List.mem_cons_self
  have haddress (temp : TempId) (u : Unit) (more : List (Operand × Value)) (_ : known ⊆ more)
      (htemp : (Reading.temp v).Says more temp u) :
      A.Computes σ count more (Emission.define (.tempAddress temp)) (.ok (Location.whole v))
        (.location A.frame count) := by
    refine define (fun l ↦ l.reference (.temp A.frame temp)) (fun s m _ _ ↦ rfl) fun o' l hl ↦ ?_
    cases hl
    exact ⟨⟨temp, List.mem_cons_self, List.mem_cons_of_mem _ htemp⟩, hv⟩
  exact hspill.bind haddress

theorem inMemory {demand : Demand} {l : Location}
    (ho : (Reading.result A.frame count demand).Says known o l) :
    A.Computes σ count known (demand.inMemory o) (.ok l) (.location A.frame count) := by
  cases demand with
  | address => exact .passed ho
  | value =>
    obtain ⟨v, rfl, hmem, hv⟩ := ho
    exact spillAddress hmem hv

/-- A field of what a known operand refers to. -/
theorem fieldAddress {l : Location} {name : String}
    (ho : (Reading.location A.frame count).Says known o l) :
    A.Computes σ count known (Emission.define (.fieldAddress o name)) (l.field name)
      (.location A.frame count) := by
  obtain ⟨ho, hl⟩ := ho
  cases l with
  | referred v =>
    refine define (fun l ↦ l.reference (.heap 0)) (fun s m hm hknown ↦ ?_) fun o' l hl' ↦ ?_
    · rw [Operation.run_fieldAddress_of (hknown _ ho).2, Location.field, Functor.map_map]
      rfl
    · obtain ⟨address, haddress, rfl⟩ := Except.map_eq_ok.1 hl'
      refine ⟨List.mem_cons_self, Value.within_address.2 ?_⟩
      cases v with
      | address target =>
        cases haddress
        have hroot : Root.Before A.frame count target.root := Value.within_address.1 hl
        exact hroot
      | object cell =>
        cases haddress
        trivial
      | _ => cases haddress
  | copied v path =>
    obtain ⟨temp, ho, htemp⟩ := ho
    refine define (fun l ↦ l.reference (.temp A.frame temp))
      (fun s m hm hknown ↦ Operation.run_fieldAddress (hknown _ ho).2) fun o' l' hl' ↦ ?_
    cases hl'
    exact ⟨⟨temp, List.mem_cons_self, List.mem_cons_of_mem _ htemp⟩, hl⟩

/-- The span over the inline array that a known operand refers to. -/
theorem projectSpan {kind : SpanKind} {arrayType element : TypeId} {length : Nat} {l : Location}
    (ho : (Reading.location A.frame count).Says known o l) :
    A.Computes σ count known (c.projectSpan kind arrayType element length o)
      (Extent.ofArray kind length l) (.extent A.frame count false) := by
  obtain ⟨ho, hl⟩ := ho
  cases l with
  | referred v =>
    refine define (fun x ↦ x.reference (.heap 0) kind.isReadonly) (fun s m hm hknown ↦ ?_)
      fun o' x hx ↦ ?_
    · refine (Operation.run_project_of (hknown _ ho).2).trans (congrArg (Run.of · m) ?_)
      rw [Extent.ofArray, map_bind]
      rfl
    · obtain ⟨address, haddress, hx⟩ := Except.bind_eq_ok.1 hx
      cases hx
      rw [Value.toAddress_eq_ok haddress] at hl
      refine ⟨⟨_, List.mem_cons_self, rfl, ?_⟩, nofun⟩
      exact Value.within_span.2 fun base hbase ↦
        Option.some.inj hbase ▸ Value.within_address.1 hl
  | copied v path =>
    obtain ⟨temp, ho, htemp⟩ := ho
    refine define (fun x ↦ x.reference (.temp A.frame temp) kind.isReadonly)
      (fun s m hm hknown ↦ Operation.run_project (hknown _ ho).2) fun o' x hx ↦ ?_
    cases hx
    exact ⟨⟨_, List.mem_cons_self, temp, _, rfl, List.mem_cons_of_mem _ htemp, hl⟩, nofun⟩

variable {x : Extent} {span : Value}

theorem length (ho : (o, span) ∈ known) (hx : Reading.SpanOf A.frame count known span x) :
    A.Computes σ count known (Emission.define (.length o)) x.length .operand := by
  refine defineValue (fun s m hm hknown ↦ ?_) fun o' v _ ↦ List.mem_cons_self
  rw [Operation.run_length_of (hknown _ ho).2]
  cases x with
  | span w => rw [hx.1, Extent.length]
  | copied w path n =>
    obtain ⟨temp, readonly, rfl, -⟩ := hx
    rfl

/-- The address of an element of a known span. -/
theorem index {position : Operand} {v : Value} (ho : (o, span) ∈ known)
    (hx : Reading.SpanOf A.frame count known span x) (hposition : (position, v) ∈ known) :
    A.Computes σ count known (Emission.define (.index o position)) (x.index v)
      (.location A.frame count) := by
  cases x with
  | span w =>
    obtain ⟨rfl, hspan⟩ := hx
    refine define (fun l ↦ l.reference (.heap 0)) (fun s m hm hknown ↦ ?_) fun o' l hl ↦ ?_
    · rw [Operation.run_index_of (hknown _ ho).2 (hknown _ hposition).2, Extent.index,
        Functor.map_map]
      rfl
    · obtain ⟨address, haddress, rfl⟩ := Except.map_eq_ok.1 hl
      obtain ⟨view, hview, haddress⟩ := Except.bind_eq_ok.1 haddress
      obtain ⟨n, -, haddress⟩ := Except.bind_eq_ok.1 haddress
      rw [Value.toSpan_eq_ok hview] at hspan
      exact ⟨List.mem_cons_self, SpanView.within_of_index hspan haddress⟩
  | copied w path n =>
    obtain ⟨temp, readonly, rfl, htemp, hw⟩ := hx
    refine define (fun l ↦ l.reference (.temp A.frame temp)) (fun s m hm hknown ↦ ?_)
      fun o' l hl ↦ ?_
    · rw [Operation.run_index_of (hknown _ ho).2 (hknown _ hposition).2, Extent.index,
        Value.spanElement]
      cases v.toInt with
      | error e => rfl
      | ok i =>
        refine congrArg (Run.of · m) ?_
        change Value.address <$> SpanView.index ⟨some ⟨.temp A.frame temp, path⟩, 0, n, readonly⟩ i =
          (fun l ↦ Location.reference (.temp A.frame temp) l) <$>
            if 0 ≤ i ∧ i.toUInt64.toNat < n then
              Except.ok (Location.copied w (path ++ [.element i.toUInt64.toNat]))
            else .error (.indexOutOfRange i n)
        by_cases hin : 0 ≤ i ∧ i.toUInt64.toNat < n <;>
          simp [SpanView.index, hin, Location.reference, Address.join]
    · rw [Extent.index] at hl
      obtain ⟨i, -, hl⟩ := Except.bind_eq_ok.1 hl
      split at hl
      · cases hl
        exact ⟨⟨temp, List.mem_cons_self, List.mem_cons_of_mem _ htemp⟩, hw⟩
      · cases hl

/-- The part of a known span between two positions. -/
theorem sliceBetween {start stop : Operand} {first last : Value} (ho : (o, span) ∈ known)
    (hspan : span.Within (Root.Before A.frame count)) (hstart : (start, first) ∈ known)
    (hstop : (stop, last) ∈ known) :
    A.Computes σ count known
      (Emission.define (.binary .sub stop start) >>= fun n ↦ Emission.define (.slice o start n))
      ((Extent.span span).sliceBetween first last) (.result A.frame count .value) := by
  have hcount : A.Computes σ count known (Emission.define (.binary .sub stop start))
      (last.minus first) .operand :=
    defineValue (fun s m hm hknown ↦ Operation.run_sub_of (hknown _ hstop).2 (hknown _ hstart).2)
      fun o' v _ ↦ List.mem_cons_self
  refine hcount.bind fun n v more hmore hn ↦ ?_
  have hpart : A.Computes σ count more (Emission.define (.slice o start n))
      (span.spanPart first v) (.value A.frame count) := by
    refine defineValue (fun s m hm hknown ↦ ?_) fun o' part hpart ↦ ⟨List.mem_cons_self, ?_⟩
    · exact Operation.run_slice_of (hknown _ (hmore ho)).2 (hknown _ (hmore hstart)).2
        (hknown _ hn).2
    · obtain ⟨view, hview, hpart⟩ := Except.bind_eq_ok.1 hpart
      obtain ⟨i, -, hpart⟩ := Except.bind_eq_ok.1 hpart
      obtain ⟨k, -, hpart⟩ := Except.bind_eq_ok.1 hpart
      obtain ⟨part, hslice, rfl⟩ := Except.map_eq_ok.1 hpart
      rw [Value.toSpan_eq_ok hview] at hspan
      exact SpanView.within_of_slice hspan hslice
  exact hpart.map fun _ _ v _ hv ↦ ⟨v, rfl, hv⟩

theorem literal (n : Int64) : A.Computes σ count known (Pure.pure (.int n)) (.ok (.int n)) .operand :=
  pure (List.mem_cons_self (l := [])) fun p hp ↦ .inr fun s m ↦ by
    cases List.mem_singleton.1 hp
    exact ⟨trivial, rfl⟩

/-- The position of a bound; the length is known if the bound depends on it. -/
theorem boundOffset {isStop : Bool} {bound : Bound Operand} {y : Bound Value} {total : Operand}
    {n : Value} (hy : bound.Reads known y)
    (htotal : bound.needsLength isStop = true → (total, n) ∈ known) :
    A.Computes σ count known (bound.offset isStop total) (y.positionIn isStop n) .operand := by
  cases hy with
  | omitted =>
    cases isStop with
    | true => exact passed (htotal rfl)
    | false => exact literal 0
  | int h => exact passed h
  | fromEnd h =>
    exact defineValue (fun s m hm hknown ↦ Operation.run_sub_of (hknown _ (htotal rfl)).2 (hknown _ h).2)
      fun o' v _ ↦ List.mem_cons_self
  | index h =>
    exact defineValue
      (fun s m hm hknown ↦ Operation.run_getOffset_of (hknown _ h).2 (hknown _ (htotal rfl)).2)
      fun o' v _ ↦ List.mem_cons_self

/-- A value that is known from then on. -/
theorem bindOperand {β : Type} {code : Emit Operand} {f : Operand → Emit Operand}
    {v : Except RuntimeError Value} {next : Value → Except RuntimeError β} {R : Reading Operand β}
    (hcode : A.Computes σ count known code v .operand)
    (hf : ∀ o v, A.Computes σ count ((o, v) :: known) (f o) (next v) R) :
    A.Computes σ count known (code >>= f) (v >>= next) R :=
  hcode.bind fun o v _ hmore ho ↦ (hf o v).mono (List.cons_subset.2 ⟨ho, hmore⟩)

theorem step {β : Type} {operation : Operation} {f : Operand → Emit Operand}
    {v : Except RuntimeError Value} {next : Value → Except RuntimeError β} {R : Reading Operand β}
    (hrun : ∀ s m, A.Ready σ count s m → (∀ p ∈ known, m.Has s p.1 p.2) →
      operation.run A.types A.frame m = Run.of v m)
    (hf : ∀ o v, A.Computes σ count ((o, v) :: known) (f o) (next v) R) :
    A.Computes σ count known (Emission.define operation >>= f) (v >>= next) R :=
  bindOperand (defineValue hrun fun _ _ _ ↦ List.mem_cons_self) hf

/-- Indexing by a position that is computed first. -/
theorem indexAt {operation : Operation} {position : Except RuntimeError Value}
    (ho : (o, span) ∈ known) (hx : Reading.SpanOf A.frame count known span x)
    (hrun : ∀ s m, A.Ready σ count s m → (∀ p ∈ known, m.Has s p.1 p.2) →
      operation.run A.types A.frame m = Run.of position m) :
    A.Computes σ count known
      (Emission.define operation >>= fun position ↦ Emission.define (.index o position))
      (position >>= x.index) (.location A.frame count) :=
  step hrun fun _ _ ↦ index (List.mem_cons_of_mem _ ho) (hx.mono (List.subset_cons_self _ _))
    List.mem_cons_self

/-- What a subscript selects in a known span, whose length is known if the subscript depends on it. -/
theorem selectIn {s : Subscript Operand} {y : Subscript Value} {total : Operand} {n : Value}
    (hy : s.Reads known y) (ho : (o, span) ∈ known) (hx : Reading.SpanOf A.frame count known span x)
    (hslice : s.isSlice = true → ∃ w, x = .span w)
    (htotal : s.needsLength = true → (total, n) ∈ known) :
    A.Computes σ count known (s.selectIn o total) (y.locateIn x n)
      (.result A.frame count (if s.isSlice then .value else .address)) := by
  cases hy with
  | int h => exact index ho hx h
  | fromEnd h =>
    exact indexAt ho hx fun s m hm hknown ↦
      Operation.run_sub_of (hknown _ (htotal rfl)).2 (hknown _ h).2
  | index h =>
    exact indexAt ho hx fun s m hm hknown ↦
      Operation.run_getOffset_of (hknown _ h).2 (hknown _ (htotal rfl)).2
  | dynamic h =>
    exact indexAt ho hx fun s m hm hknown ↦ Operation.run_convert_of (hknown _ h).2
  | @range value v h =>
    obtain ⟨w, rfl⟩ := hslice rfl
    obtain ⟨rfl, hspan⟩ := hx
    have htotal := htotal rfl
    refine step (fun s m hm hknown ↦ Operation.run_rangeStart_of (hknown _ h).2) fun a first ↦
      step (fun s m hm hknown ↦ Operation.run_getOffset_of (hknown (a, first) (by simp)).2
        (hknown (total, n) (by simp [htotal])).2) fun start first ↦
      step (fun s m hm hknown ↦ Operation.run_rangeEnd_of (hknown (value, v) (by simp [h])).2)
        fun b last ↦
      step (fun s m hm hknown ↦ Operation.run_getOffset_of (hknown (b, last) (by simp)).2
        (hknown (total, n) (by simp [htotal])).2) fun stop last ↦ sliceBetween ?_ hspan ?_ ?_
    · simp [ho]
    · simp
    · simp
  | rangeLiteral hstart hstop =>
    obtain ⟨w, rfl⟩ := hslice rfl
    obtain ⟨rfl, hspan⟩ := hx
    refine bindOperand (boundOffset hstart fun hneeds ↦ htotal ?_) fun start first ↦
      bindOperand (boundOffset (hstop.mono (List.subset_cons_self _ _)) fun hneeds ↦
        List.mem_cons_of_mem _ (htotal ?_)) fun stop last ↦ sliceBetween ?_ hspan ?_ ?_
    · exact Bool.or_eq_true_iff.2 (.inl hneeds)
    · exact Bool.or_eq_true_iff.2 (.inr hneeds)
    · simp [ho]
    · simp
    · simp

theorem select {s : Subscript Operand} {y : Subscript Value} (hy : s.Reads known y)
    (ho : (o, span) ∈ known) (hx : Reading.SpanOf A.frame count known span x)
    (hslice : s.isSlice = true → ∃ w, x = .span w) :
    A.Computes σ count known (s.select o) (y.locate x)
      (.result A.frame count (if s.isSlice then .value else .address)) := by
  unfold Subscript.select Subscript.locate
  rw [← hy.needsLength_eq]
  by_cases hneeds : s.needsLength = true
  · rw [if_pos hneeds, if_pos hneeds]
    have hsubset (p : Operand × Value) : known ⊆ p :: known := List.subset_cons_self p known
    exact bindOperand (length ho hx) fun total n ↦ selectIn (hy.mono (hsubset _)) (hsubset _ ho)
      (hx.mono (hsubset _)) hslice fun _ ↦ List.mem_cons_self
  · rw [if_neg hneeds, if_neg hneeds]
    exact selectIn hy ho hx hslice fun h ↦ absurd h hneeds

end Computes

end Activation

end InlineArrays
