import InlineArrays.Proofs.Machine.Calls
import InlineArrays.Proofs.Machine.Frames

/-!
# What memory holds at a root

Writing to a root that exists changes what that root holds and nothing else.  Below the running
activation memory has every root but those of the activation.
-/

namespace InlineArrays

/-- A slot or a temporary of an activation. -/
def Root.InFrame (id : Nat) : Root → Prop
  | .slot frame _ | .temp frame _ => frame = id
  | .heap _ => False

instance (id : Nat) : (r : Root) → Decidable (r.InFrame id)
  | .slot frame _ => inferInstanceAs (Decidable (frame = id))
  | .temp frame _ => inferInstanceAs (Decidable (frame = id))
  | .heap _ => inferInstanceAs (Decidable False)

theorem Frame.temps_setTemp {f : Frame} {t : TempId} (value : Value) (ht : t < f.temps.length) :
    (f.setTemp t value).temps = f.temps.set t value := by
  have hroom : t + 1 - f.temps.length = 0 := Nat.sub_eq_zero_of_le ht
  simp [Frame.setTemp, hroom]

namespace Memory

variable {m : Memory} {r r' : Root} {value : Value}

theorem frame?_updateFrame (m : Memory) (change : Frame → Frame) (hid : ∀ f, (change f).id = f.id)
    (id id' : Nat) :
    (m.updateFrame id change).frame? id' =
      (m.frame? id').map fun f ↦ if id' = id then change f else f := by
  unfold updateFrame frame?
  dsimp only
  induction m.frames with
  | nil => rfl
  | cons f frames ih =>
    have hfirst : (if f.id = id then change f else f).id = f.id := by
      split
      · exact hid f
      · rfl
    rw [List.map_cons, List.find?_cons, List.find?_cons, hfirst]
    cases hf : f.id == id' with
    | true =>
      have hf' : f.id = id' := by simpa using hf
      simp [hf']
    | false => exact ih

/-- Writing to a root leaves all others alone. -/
theorem root?_setRoot (h : (m.root? r).isSome) :
    (m.setRoot value r).root? r' = if r' = r then some value else m.root? r' := by
  cases r with
  | slot frame v =>
    have hframe (id : Nat) := m.frame?_updateFrame (·.setSlot v value) (fun _ ↦ rfl)
      frame id
    cases r' with
    | slot frame' v' =>
      change ((m.updateFrame frame (·.setSlot v value)).frame? frame').bind (·.slot? v') = _
      rw [hframe]
      by_cases hsame : frame' = frame
      · subst hsame
        simp only [root?] at h ⊢
        cases hf : m.frame? frame' with
        | none => simp [hf] at h
        | some f =>
          have hslot : (f.setSlot v value).slot? v' = if v = v' then some value else f.slot? v' :=
            f.slot?_setSlot v v' value
          rw [Option.map_some, Option.bind_some, if_pos trivial, hslot]
          by_cases hv : v' = v
          · simp [hv]
          · simp [hv, Ne.symm hv]
      · have hne : Root.slot frame' v' ≠ .slot frame v := by simp [hsame]
        rw [if_neg hne]
        cases hf : m.frame? frame' <;> simp [hf, hsame, root?]
    | temp frame' t' =>
      change ((m.updateFrame frame (·.setSlot v value)).frame? frame').bind (·.temps[t']?) = _
      rw [hframe, if_neg nofun]
      cases hf : m.frame? frame' with
      | none => simp [hf, root?]
      | some f =>
        simp only [Option.map_some, Option.bind_some, root?, hf]
        split <;> rfl
    | heap cell => rw [if_neg nofun]; rfl
  | temp frame t =>
    have hframe (id : Nat) := m.frame?_updateFrame (·.setTemp t value) (fun _ ↦ rfl)
      frame id
    cases r' with
    | slot frame' v' =>
      change ((m.updateFrame frame (·.setTemp t value)).frame? frame').bind (·.slot? v') = _
      rw [hframe, if_neg nofun]
      cases hf : m.frame? frame' with
      | none => simp [hf, root?]
      | some f =>
        simp only [Option.map_some, Option.bind_some, root?, hf]
        split <;> rfl
    | temp frame' t' =>
      change ((m.updateFrame frame (·.setTemp t value)).frame? frame').bind (·.temps[t']?) = _
      rw [hframe]
      by_cases hsame : frame' = frame
      · subst hsame
        simp only [root?] at h ⊢
        cases hf : m.frame? frame' with
        | none => simp [hf] at h
        | some f =>
          have ht : t < f.temps.length := by
            rw [hf, Option.bind_some] at h
            simpa using h
          by_cases htemp : t' = t
          · simp [Frame.temps_setTemp value ht, htemp, ht]
          · simp [Frame.temps_setTemp value ht, htemp, List.getElem?_set_ne (Ne.symm htemp)]
      · have hne : Root.temp frame' t' ≠ .temp frame t := by simp [hsame]
        rw [if_neg hne]
        cases hf : m.frame? frame' <;> simp [hf, hsame, root?]
    | heap cell => rw [if_neg nofun]; rfl
  | heap cell =>
    cases r' with
    | slot | temp => rw [if_neg nofun]; rfl
    | heap cell' =>
      change (m.heap.set cell value)[cell']? = _
      have hcell : cell < m.heap.length := by simpa [root?] using h
      by_cases hsame : cell' = cell
      · simp [hsame, hcell]
      · have hne : Root.heap cell' ≠ .heap cell := by simp [hsame]
        rw [if_neg hne, List.getElem?_set_ne (Ne.symm hsame)]
        rfl

/-- Memory without the running activation. -/
def below (m : Memory) : Memory := { m with frames := m.frames.tail }

/-- No activation has the number that the next one gets. -/
def NumbersFrames (m : Memory) : Prop := ∀ f ∈ m.frames, f.id < m.nextFrame

theorem frame?_eq_some {id : Nat} {f : Frame} (h : m.frame? id = some f) :
    f ∈ m.frames ∧ f.id = id := by
  unfold frame? at h
  exact ⟨List.mem_of_find?_eq_some h, by simpa using List.find?_some h⟩

end Memory

end InlineArrays
