import InlineArrays.Proofs.Code.Regions
import InlineArrays.Proofs.Machine.Confined
import InlineArrays.Proofs.Machine.Isolation

/-!
# Territories

While code runs, storage of each region is at roots of its own: the slots and temporaries of the
running activation, and what the activation was called with.  As far as an activation is concerned,
what it is called with is the territory of its caller.  The invariant of a running activation is that
its territory is closed, that its operands refer to what their regions say, and that of the storage
further away only what may be written has changed.
-/

namespace InlineArrays

/-- At which roots there is storage of a region. -/
structure Territory where
  At : Region → Root → Prop
  mono {a b : Region} {r : Root} : a ≤ b → At a r → At b r

namespace Territory

variable {R : Territory} {m m' : Memory} {a κ : Region} {r : Root}

/-- Nothing but shared storage. -/
def common (R : Territory) : Territory where
  At _ := R.At .shared
  mono _ h := h

/-- Storage of every region is there, and refers to what it may refer to. -/
structure Settled (R : Territory) (m : Memory) : Prop where
  numbers : m.NumbersFrames
  holds {a κ : Region} : a.content? = some κ → m.Holds (R.At a) (R.At κ)

theorem Settled.common (h : R.Settled m) : R.common.Settled m :=
  ⟨h.numbers, fun _ ↦ h.holds (a := .shared) rfl⟩

/-- Only what may be written has changed, and what is there now refers to shared storage. -/
structure Keeps (R : Territory) (m m' : Memory) : Prop where
  frames : FramesSurvive m.frames m'.frames
  next : m.nextFrame ≤ m'.nextFrame
  kept {r : Root} {v : Value} : m.root? r = some v → ¬ R.At (.data true true) r → m'.root? r = some v
  holds : m'.Holds (R.At (.data true true)) (R.At .shared)

theorem Keeps.refl (h : R.Settled m) : R.Keeps m m :=
  ⟨.refl _, Nat.le_refl _, fun hr _ ↦ hr, h.holds rfl⟩

/-- What is at a root does not depend on the output. -/
theorem Keeps.output (h : R.Settled m) (output : List String) : R.Keeps m { m with output } := by
  have hroot (r : Root) : Memory.root? { m with output } r = m.root? r := by cases r <;> rfl
  refine ⟨.refl _, Nat.le_refl _, fun hr _ ↦ (hroot _).trans hr, fun r hr ↦ ?_⟩
  obtain ⟨v, hv, hconfined⟩ := h.holds (a := .data true true) rfl r hr
  exact ⟨v, (hroot r).trans hv, hconfined⟩

/-- Storage refers to what it may refer to as before. -/
theorem Keeps.holds_of (h : R.Keeps m m') (hκ : .shared ≤ κ) (hm : m.Holds (R.At a) (R.At κ)) :
    m'.Holds (R.At a) (R.At κ) := by
  intro r hr
  by_cases hwritten : R.At (.data true true) r
  · obtain ⟨v, hv, hconfined⟩ := h.holds r hwritten
    exact ⟨v, hv, hconfined.mono fun r ↦ R.mono hκ⟩
  · obtain ⟨v, hv, hconfined⟩ := hm r hr
    exact ⟨v, h.kept hv hwritten, hconfined⟩

theorem Keeps.of_common (h : R.common.Keeps m m') (hm : R.Settled m) : R.Keeps m m' where
  frames := h.frames
  next := h.next
  kept hr hnot := h.kept hr fun hshared ↦ hnot (R.mono (a := .shared) trivial hshared)
  holds r hr := by
    by_cases hshared : R.At .shared r
    · exact h.holds r hshared
    · obtain ⟨v, hv, hconfined⟩ := hm.holds (a := .data true true) rfl r hr
      exact ⟨v, h.kept hv hshared, hconfined⟩

end Territory

namespace Memory

variable {m m' : Memory} {r : Root} {v : Value}

/-- Nothing is at the roots of the next activation yet. -/
theorem NumbersFrames.not_inFrame (h : m.NumbersFrames) (hr : m.root? r = some v) :
    ¬ r.InFrame m.nextFrame := by
  rintro hin
  cases r with
  | slot frame target | temp frame target =>
    obtain rfl : frame = m.nextFrame := hin
    obtain ⟨f, hf, -⟩ := Option.bind_eq_some_iff.1 hr
    obtain ⟨hmem, hid⟩ := frame?_eq_some hf
    exact absurd (h f hmem) (by omega)
  | heap cell => exact hin

theorem NumbersFrames.survive (h : m.NumbersFrames) (hframes : FramesSurvive m.frames m'.frames)
    (hnext : m.nextFrame ≤ m'.nextFrame) : m'.NumbersFrames := by
  intro g hg
  obtain ⟨f, hf, hfg⟩ := hframes.exists_of_mem hg
  rw [hfg.id_eq]
  exact Nat.lt_of_lt_of_le (h f hf) hnext

/-- Values are at no root. -/
theorem root?_define (m : Memory) (dest : ValueId) (value : Value) (r : Root) :
    (m.updateTop (·.define dest value)).root? r = m.root? r := by
  cases hframes : m.frames with
  | nil => rw [updateTop, hframes]
  | cons f rest =>
    rw [updateTop, hframes]
    have hframe (id : Nat) : frame? { m with frames := f.define dest value :: rest } id =
        if f.id = id then some (f.define dest value) else m.frame? id := by
      by_cases hid : f.id = id <;> simp [frame?, hframes, Frame.define, hid]
    cases r with
    | slot frame target | temp frame target =>
      simp only [root?, hframe]
      split
      · rename_i hid
        subst hid
        simp [frame?, hframes, Frame.slot?, Frame.define]
      · rfl
    | heap cell => rfl

/-- An activation that is on top is found first. -/
theorem root?_cons {f : Frame} {rest : List Frame} (hframes : m.frames = f :: rest)
    (hr : ¬ r.InFrame f.id) : m.root? r = m.below.root? r := by
  cases r with
  | slot frame target | temp frame target =>
    have hne : (f.id == frame) = false := beq_eq_false_iff_ne.2 fun heq ↦ hr heq.symm
    simp [root?, frame?, below, hframes, hne]
  | heap cell => rfl

end Memory

namespace Layout

/-- The storage of the activation `k` itself, by the regions it may be in. -/
inductive Owns (L : Layout) (k : Nat) : Region → Root → Prop
  | slot {v : VariableId} {κ : Region} : L.region? v = some κ → Owns L k (.slot v) (.slot k v)
  | held {v : VariableId} {a κ κ' : Region} :
    L.region? v = some κ → a.owned? = some κ' → κ ≤ κ' → Owns L k a (.slot k v)
  | temp {t : TempId} {a κ : Region} :
    a.owned? = some κ → a ≠ .data true true → L.Ranges (.temp t) κ → Owns L k a (.temp k t)

variable {L : Layout} {k : Nat} {a b κ : Region} {r : Root}

theorem Owns.inFrame (h : L.Owns k a r) : r.InFrame k := by
  cases h <;> rfl

theorem Owns.mono (hab : a ≤ b) (h : L.Owns k a r) : L.Owns k b r := by
  cases h with
  | slot hv =>
    cases b with
    | slot w =>
      obtain rfl : _ = w := hab
      exact .slot hv
    | _ => cases hab
  | held hv ha hle =>
    obtain ⟨κ', hb, hle'⟩ := Region.owned?_mono hab ha
    exact .held hv hb (Region.le_trans hle hle')
  | temp ha hne htemp =>
    obtain ⟨κ', hb, hle⟩ := Region.owned?_mono hab ha
    exact .temp hb (Region.ne_of_owned? hab ha hne) (htemp.le hle)

/-- Storage that a slot belongs to may hold what the slot does. -/
theorem Owns.le_of_slot {v : VariableId} (h : L.Owns k a (.slot k v)) (hκ : L.region? v = some κ)
    {κ' : Region} (ha : L.content? a = some κ') : κ ≤ κ' := by
  cases h with
  | slot =>
    obtain rfl : κ = κ' := Option.some.inj (hκ.symm.trans ha)
    exact Region.le_refl κ
  | held hv howned hle =>
    obtain rfl := Option.some.inj (hv.symm.trans hκ)
    obtain rfl := Option.some.inj ((L.content?_eq (Region.content?_of_owned? howned)).symm.trans ha)
    exact hle

theorem Owns.of_temp {t : TempId} (h : L.Owns k a (.temp k t)) (ha : L.content? a = some κ) :
    L.Ranges (.temp t) κ := by
  cases h with
  | temp howned _ ht =>
    obtain rfl := Option.some.inj ((L.content?_eq (Region.content?_of_owned? howned)).symm.trans ha)
    exact ht

/-- Shared storage is never that of an activation. -/
theorem not_owns_shared : ¬ L.Owns k .shared r := by
  rintro (_ | ⟨-, ⟨⟩, -⟩ | ⟨⟨⟩, -, -⟩)

theorem not_owns_returned {w : Bool} : ¬ L.Owns k (.data false w) r := by
  rintro (_ | ⟨-, ⟨⟩, -⟩ | ⟨⟨⟩, -, -⟩)

/-- What the caller of an activation lets it refer to. -/
def Lent (R : Territory) : Region → Root → Prop
  | .slot _, _ => False
  | a, r => R.At a.passed r

theorem Lent.mono {R : Territory} (hab : a ≤ b) (h : Lent R a r) : Lent R b r := by
  cases a <;> cases b <;>
    first
    | exact h.elim
    | exact hab.elim
    | exact R.mono (Region.passed_mono hab) h

theorem content?_of_lent {R : Territory} (h : Lent R a r) (ha : L.content? a = some κ) :
    a.content? = some κ ∧ R.At a.passed r := by
  cases a with
  | slot => exact h.elim
  | shared | data | spans => exact ⟨ha, h⟩

theorem not_lent {R : Territory} {m : Memory} (hR : R.Settled m) (hr : r.InFrame m.nextFrame) :
    ¬ Lent R a r := by
  have hsettled {κ : Region} (ha : a.passed.content? = some κ) : ¬ R.At a.passed r := fun hat ↦ by
    obtain ⟨v, hv, -⟩ := hR.holds ha r hat
    exact hR.numbers.not_inFrame hv hr
  cases a with
  | slot => exact id
  | shared | data | spans => exact hsettled rfl

/-- The territory of an activation called from one with the territory `R`. -/
def territory (L : Layout) (R : Territory) (k : Nat) : Territory where
  At a r := L.Owns k a r ∨ Lent R a r
  mono hab := Or.imp (·.mono hab) (·.mono hab)

variable {R : Territory}

theorem exists_content? (h : (L.territory R k).At a r) : ∃ κ, L.content? a = some κ := by
  cases a with
  | slot v =>
    rcases h with (hv | ⟨-, ⟨⟩, -⟩ | ⟨⟨⟩, -, -⟩) | ⟨⟨⟩⟩
    exact ⟨_, ‹_›⟩
  | shared | data | spans => exact ⟨_, rfl⟩

theorem territory_shared : (L.territory R k).At .shared r ↔ R.At .shared r :=
  or_iff_right not_owns_shared

theorem territory_returned {w : Bool} :
    (L.territory R k).At (.data false w) r ↔ R.At (.data true w) r :=
  or_iff_right not_owns_returned

theorem territory_written : (L.territory R k).At (.data true true) r ↔
    L.Owns k (.data true true) r ∨ R.At (.data true true) r := Iff.rfl

theorem eq_of_slot {v : VariableId} (h : (L.territory R k).At (.slot v) r) : r = .slot k v := by
  rcases h with (- | ⟨-, ⟨⟩, -⟩ | ⟨⟨⟩, -, -⟩) | ⟨⟨⟩⟩
  rfl

/-- What the caller may refer to may be lent. -/
theorem confined_of_passed {v : Value} (hκ : .shared ≤ κ) (h : v.Confined (R.At κ.passed)) :
    v.Confined ((L.territory R k).At κ) := by
  refine h.mono fun r hr ↦ .inr ?_
  cases κ <;> first | exact hr | exact hκ.elim

end Layout

/-! ## Running activations -/

/-- The territory of the activation started in a memory. -/
abbrev Layout.above (L : Layout) (R : Territory) (start : Memory) : Territory :=
  L.territory R start.nextFrame

/-- An activation of the number `k` runs above `below`, and its values are where their regions
say. -/
def Layout.Runs (L : Layout) (T : Territory) (k : Nat) (below frames : List Frame) : Prop :=
  ∃ f rest, frames = f :: rest ∧ f.id = k ∧ FramesSurvive below rest ∧
    ∀ id v a, f.value? id = some v → L.Ranges (.computed id) a → v.Confined (T.At a)

/-- The invariant of an activation that was started in the memory `start`, with the territory of its
caller. -/
structure Inside (L : Layout) (R : Territory) (start m : Memory) : Prop where
  numbers : m.NumbersFrames
  runs : L.Runs (L.above R start) start.nextFrame start.frames m.frames
  holds {a κ : Region} : L.content? a = some κ →
    m.Holds ((L.above R start).At a) ((L.above R start).At κ)
  temps {t : TempId} {a : Region} : L.Ranges (.temp t) a →
    ∃ v, m.root? (.temp start.nextFrame t) = some v ∧
      v.Confined ((L.above R start).At a)
  kept {r : Root} {v : Value} : start.root? r = some v → ¬ R.At (.data true true) r →
    m.root? r = some v

theorem Layout.Runs.survive {L : Layout} {T : Territory} {k : Nat} {below frames frames' : List Frame}
    (h : L.Runs T k below frames) (hframes : FramesSurvive frames frames') :
    L.Runs T k below frames' := by
  obtain ⟨f, rest, rfl, hid, hrest, hvalues⟩ := h
  obtain ⟨g, rest', hfg, hrest', rfl⟩ := List.forall₂_cons_left_iff.1 hframes
  refine ⟨g, rest', rfl, hfg.id_eq.trans hid, hrest.trans hrest', fun id v a hv ↦ ?_⟩
  rw [Frame.value?, hfg.values_eq] at hv
  exact hvalues id v a hv

namespace Inside

variable {L : Layout} {R : Territory} {start m m' : Memory} {r : Root} {v : Value}

theorem settled (h : Inside L R start m) : (L.above R start).Settled m :=
  ⟨h.numbers, fun ha ↦ h.holds (L.content?_eq ha)⟩

/-- Everything that an activation may refer to is there, and refers to nothing else. -/
theorem holds_all (h : Inside L R start m) :
    m.Holds (fun r ↦ ∃ a, (L.above R start).At a r)
      fun r ↦ ∃ a, (L.above R start).At a r := by
  rintro r ⟨a, hr⟩
  obtain ⟨κ, hκ⟩ := Layout.exists_content? hr
  obtain ⟨v, hv, hconfined⟩ := h.holds hκ r hr
  exact ⟨v, hv, hconfined.mono fun _ hr ↦ ⟨κ, hr⟩⟩

section

variable (hR : R.Settled start)
include hR

theorem not_written {t : TempId} :
    ¬ (L.above R start).At (.data true true) (.temp start.nextFrame t) := by
  rintro ((_ | _ | ⟨-, hne, -⟩) | hlent)
  · exact hne rfl
  · exact Layout.not_lent hR (r := .temp start.nextFrame t) rfl hlent

/-- What is the activation's own was not there before. -/
theorem not_at_of_kept (hr : start.root? r = some v)
    (hnot : ¬ R.At (.data true true) r) :
    ¬ (L.above R start).At (.data true true) r := by
  rintro (howns | hlent)
  · exact hR.numbers.not_inFrame hr howns.inFrame
  · exact hnot hlent

/-- The invariant survives what keeps the territory. -/
theorem keeps (h : Inside L R start m) (hkeeps : (L.above R start).Keeps m m') :
    Inside L R start m' where
  numbers := h.numbers.survive hkeeps.frames hkeeps.next
  runs := h.runs.survive hkeeps.frames
  holds ha := hkeeps.holds_of (L.shared_le_of_content? ha) (h.holds ha)
  temps ht := by
    obtain ⟨v, hv, hconfined⟩ := h.temps ht
    exact ⟨v, hkeeps.kept hv (not_written hR), hconfined⟩
  kept hr hnot := hkeeps.kept (h.kept hr hnot) (not_at_of_kept hR hr hnot)

/-- Another value at a root of the activation or at one that may be written. -/
theorem setRoot (h : Inside L R start m) (hpresent : (m.root? r).isSome)
    (hwhere : r.InFrame start.nextFrame ∨ R.At (.data true true) r)
    (hholds : ∀ a κ, L.content? a = some κ → (L.above R start).At a r →
      v.Confined ((L.above R start).At κ))
    (htemps : ∀ t a, r = .temp start.nextFrame t → L.Ranges (.temp t) a →
      v.Confined ((L.above R start).At a)) :
    Inside L R start (m.setRoot v r) where
  numbers := h.numbers.setRoot v r
  runs := h.runs.survive (Memory.framesSurvive_setRoot m v r)
  holds {a κ} ha r' hr' := by
    rw [Memory.root?_setRoot hpresent]
    split
    · subst r'
      exact ⟨v, rfl, hholds a κ ha hr'⟩
    · exact h.holds ha r' hr'
  temps {t a} ht := by
    rw [Memory.root?_setRoot hpresent]
    split
    · rename_i heq
      exact ⟨v, rfl, htemps t a heq.symm ht⟩
    · exact h.temps ht
  kept {r' v'} hr' hnot := by
    rw [Memory.root?_setRoot hpresent, if_neg ?_]
    · exact h.kept hr' hnot
    · rintro rfl
      rcases hwhere with hin | hwritten
      · exact hR.numbers.not_inFrame hr' hin
      · exact hnot hwritten

/-- Another value at a root of the activation. -/
theorem setSlot (h : Inside L R start m) {target : VariableId} {κ : Region}
    (hκ : L.region? target = some κ) (hv : v.Confined ((L.above R start).At κ)) :
    Inside L R start (m.setRoot v (.slot start.nextFrame target)) := by
  have hslot : (L.above R start).At (.slot target) (.slot start.nextFrame target) :=
    .inl (.slot hκ)
  obtain ⟨old, hold, -⟩ := h.holds (a := .slot target) hκ _ hslot
  refine h.setRoot hR (by rw [hold]; rfl) (.inl rfl) (fun a κ' ha hr ↦ ?_) nofun
  rcases hr with howns | hlent
  · exact hv.mono fun r hr ↦ Territory.mono _ (howns.le_of_slot hκ ha) hr
  · exact absurd hlent (Layout.not_lent hR rfl)

theorem setTemp (h : Inside L R start m) {t : TempId} {κ : Region} (hκ : L.Ranges (.temp t) κ)
    (hv : ∀ a, L.Ranges (.temp t) a → v.Confined ((L.above R start).At a)) :
    Inside L R start (m.setRoot v (.temp start.nextFrame t)) := by
  obtain ⟨old, hold, -⟩ := h.temps hκ
  refine h.setRoot hR (by rw [hold]; rfl) (.inl rfl) (fun a κ' ha hr ↦ ?_) ?_
  · rcases hr with howns | hlent
    · exact hv κ' (howns.of_temp ha)
    · exact absurd hlent (Layout.not_lent hR rfl)
  · rintro t' a ⟨⟩ ht
    exact hv a ht

/-- What may be written is given something that everything may refer to. -/
theorem setWritten (h : Inside L R start m)
    (hr : (L.above R start).At (.data true true) r)
    (hv : v.Confined ((L.above R start).At .shared)) :
    Inside L R start (m.setRoot v r) := by
  obtain ⟨old, hold, -⟩ := h.holds (a := .data true true) rfl r hr
  refine h.setRoot hR (by rw [hold]; rfl) ?_ (fun a κ ha _ ↦ ?_) ?_
  · exact hr.imp_left (·.inFrame)
  · exact hv.mono fun r ↦ Territory.mono _ (L.shared_le_of_content? ha)
  · rintro t a rfl ht
    exact absurd hr (not_written hR)

/-- Writing at an address changes what is stored at its root. -/
theorem write (h : Inside L R start m) {a : Address} (hwrite : m.write a v = .ok m')
    (hstore : ((L.above R start).At (.data true true) a.root ∧
        v.Confined ((L.above R start).At .shared)) ∨
      ∃ target κ, (L.above R start).At (.slot target) a.root ∧
        L.region? target = some κ ∧ v.Confined ((L.above R start).At κ)) :
    Inside L R start m' := by
  obtain ⟨old, new, hold, hnew, rfl⟩ := Memory.write_eq_ok.1 hwrite
  rcases hstore with ⟨ha, hv⟩ | ⟨target, κ, ha, hκ, hv⟩
  · obtain ⟨stored, hstored, hconfined⟩ := h.holds (a := .data true true) rfl _ ha
    obtain rfl := Option.some.inj (hold.symm.trans hstored)
    exact h.setWritten hR ha (hconfined.set hv hnew)
  · obtain ⟨stored, hstored, hconfined⟩ := h.holds (a := .slot target) hκ _ ha
    obtain rfl := Option.some.inj (hold.symm.trans hstored)
    rw [Layout.eq_of_slot ha]
    exact h.setSlot hR hκ (hconfined.set hv hnew)

/-- The running activation is the only one of its number. -/
theorem updateTop_eq (h : Inside L R start m) (change : Frame → Frame) :
    m.updateTop change = m.updateFrame start.nextFrame change := by
  obtain ⟨f, rest, hframes, hid, hrest, -⟩ := h.runs
  have hothers : rest.map (fun g ↦ if g.id = start.nextFrame then change g else g) = rest := by
    refine (List.map_congr_left fun g hg ↦ if_neg ?_).trans (List.map_id rest)
    obtain ⟨below, hmem, hsurvives⟩ := hrest.exists_of_mem hg
    exact hsurvives.id_eq ▸ (hR.numbers below hmem).ne
  rw [Memory.updateTop, Memory.updateFrame, hframes, List.map_cons, if_pos hid, hothers]

/-- What an activation leaves behind. -/
theorem finish (h : Inside L R start m) : R.Keeps start m.below := by
  obtain ⟨f, rest, hframes, hid, hrest, -⟩ := h.runs
  have hroot {r : Root} {v : Value} (hr : start.root? r = some v) : m.root? r = m.below.root? r :=
    Memory.root?_cons hframes (hid ▸ hR.numbers.not_inFrame hr)
  refine ⟨?_, ?_, fun hr hnot ↦ hroot hr ▸ h.kept hr hnot, fun r hr ↦ ?_⟩
  · rw [Memory.below, hframes]
    exact hrest
  · have hmem : f ∈ m.frames := hframes ▸ List.mem_cons_self
    exact Nat.le_of_lt (hid ▸ h.numbers f hmem)
  · obtain ⟨v, hv, hconfined⟩ := h.holds (a := .data true true) rfl r (.inr hr)
    obtain ⟨old, hold, -⟩ := hR.holds (a := .data true true) rfl r hr
    exact ⟨v, hroot hold ▸ hv, hconfined.mono fun r ↦ Layout.territory_shared.1⟩

/-- An activation starts with its slots. -/
theorem pushed {routine : Routine} (hroutine : routine.WellFormed) (hcode : L.code = routine.instrs)
    {slots : List (VariableId × Value)}
    (hpresent : ∀ v κ, L.region? v = some κ → (lookup? v slots).isSome)
    (hslots : ∀ entry ∈ slots, ∀ κ, L.region? entry.1 = some κ →
      entry.2.Confined ((L.above R start).At κ)) :
    Inside L R start (Executable.pushed routine slots start) := by
  have hold {r : Root} {v : Value} (hr : start.root? r = some v) :
      (Executable.pushed routine slots start).root? r = some v :=
    (Memory.root?_cons rfl (hR.numbers.not_inFrame hr)).trans (by cases r <;> exact hr)
  have htemp {t : TempId} {a : Region} (ht : L.Ranges (.temp t) a) :
      (Executable.pushed routine slots start).root? (.temp start.nextFrame t) = some .unit := by
    obtain ⟨note, value, hstore⟩ := ht.exists_store rfl
    have hlt := hroutine.lt_tempCount (hcode ▸ hstore)
    simp [Memory.root?, Memory.frame?, Executable.pushed, hlt]
  have hslot {v : VariableId} {κ : Region} (hκ : L.region? v = some κ) :
      ∃ value, (Executable.pushed routine slots start).root? (.slot start.nextFrame v) = some value ∧
        value.Confined ((L.above R start).At κ) := by
    obtain ⟨value, hvalue⟩ := Option.isSome_iff_exists.1 (hpresent v κ hκ)
    refine ⟨value, ?_, hslots _ (lookup?_mem hvalue) κ hκ⟩
    simpa [Memory.root?, Memory.frame?, Executable.pushed, Frame.slot?, lookup?] using hvalue
  refine ⟨hR.numbers.pushed routine slots, ⟨_, _, rfl, rfl, .refl _, fun id v a hv ↦ ?_⟩,
    fun {a κ} ha r hr ↦ ?_, fun ht ↦ ⟨.unit, htemp ht, Value.confined_unit⟩, fun hr _ ↦ hold hr⟩
  · simp only [Frame.value?, List.getElem?_replicate] at hv
    split at hv <;> cases hv
  · rcases hr with howns | hlent
    · have hstored := howns
      cases howns with
      | slot hv | held hv =>
        obtain ⟨value, hvalue, hconfined⟩ := hslot hv
        exact ⟨value, hvalue, hconfined.mono fun r ↦ Territory.mono _ (hstored.le_of_slot hv ha)⟩
      | temp _ _ ht => exact ⟨.unit, htemp ht, Value.confined_unit⟩
    · obtain ⟨ha, hlent⟩ := Layout.content?_of_lent hlent ha
      obtain ⟨v, hv, hconfined⟩ := hR.holds (Region.content?_passed ha) r hlent
      exact ⟨v, hold hv, Layout.confined_of_passed (Region.shared_le_of_content? ha) hconfined⟩

end

/-- A value of the activation, which no address leads to. -/
theorem defined (h : Inside L R start m) {dest : ValueId}
    (hv : ∀ a, L.Ranges (.computed dest) a → v.Confined ((L.above R start).At a)) :
    Inside L R start (m.updateTop (·.define dest v)) := by
  have hroot : ∀ r, (m.updateTop (·.define dest v)).root? r = m.root? r := m.root?_define dest v
  refine ⟨h.numbers.updateTop fun _ ↦ rfl, ?_, fun ha r hr ↦ ?_, fun ht ↦ ?_, fun hr hnot ↦ ?_⟩
  · obtain ⟨f, rest, hframes, hid, hrest, hvalues⟩ := h.runs
    refine ⟨f.define dest v, rest, by rw [Memory.updateTop, hframes], hid, hrest, ?_⟩
    intro id w a hw hranges
    rw [Frame.value?, Frame.define, List.getElem?_set] at hw
    split at hw
    · rename_i heq
      subst heq
      split at hw
      · cases hw
        exact hv a hranges
      · cases hw
    · exact hvalues id w a hw hranges
  · rw [hroot]
    exact h.holds ha r hr
  · rw [hroot]
    exact h.temps ht
  · rw [hroot]
    exact h.kept hr hnot

end Inside

end InlineArrays
