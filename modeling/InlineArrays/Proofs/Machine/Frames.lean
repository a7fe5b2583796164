import InlineArrays.Machine.Memory
import Mathlib.Data.List.Forall2

/-!
# Activations under the running one

While an activation runs, those below it may have their slots and temporaries written through
addresses; their values stay, and they keep the temporaries they have.
-/

namespace InlineArrays

/-- What the activation `f` may have become while others ran. -/
structure Frame.Survives (f g : Frame) : Prop where
  id_eq : g.id = f.id
  values_eq : g.values = f.values
  temps_le : f.temps.length ≤ g.temps.length

namespace Frame.Survives

theorem refl (f : Frame) : f.Survives f := ⟨rfl, rfl, Nat.le_refl _⟩

theorem trans {f g h : Frame} (hfg : f.Survives g) (hgh : g.Survives h) : f.Survives h where
  id_eq := hgh.id_eq.trans hfg.id_eq
  values_eq := hgh.values_eq.trans hfg.values_eq
  temps_le := Nat.le_trans hfg.temps_le hgh.temps_le

theorem setSlot (f : Frame) (v : VariableId) (value : Value) : f.Survives (f.setSlot v value) :=
  ⟨rfl, rfl, Nat.le_refl _⟩

theorem setTemp (f : Frame) (t : TempId) (value : Value) : f.Survives (f.setTemp t value) := by
  refine ⟨rfl, rfl, ?_⟩
  simp [Frame.setTemp]

end Frame.Survives

/-- Each activation has survived. -/
abbrev FramesSurvive : List Frame → List Frame → Prop := List.Forall₂ Frame.Survives

namespace FramesSurvive

theorem refl (frames : List Frame) : FramesSurvive frames frames :=
  List.forall₂_same.2 fun f _ ↦ .refl f

theorem trans {frames frames' frames'' : List Frame} (h : FramesSurvive frames frames')
    (h' : FramesSurvive frames' frames'') : FramesSurvive frames frames'' := by
  induction h generalizing frames'' with
  | nil => exact h'
  | cons hf _ ih =>
    cases h' with
    | cons hf' hrest => exact .cons (hf.trans hf') (ih hrest)

/-- Each of the activations was there before. -/
theorem exists_of_mem {frames frames' : List Frame} (h : FramesSurvive frames frames') {g : Frame}
    (hg : g ∈ frames') : ∃ f ∈ frames, f.Survives g := by
  induction h with
  | nil => cases hg
  | cons hf _ ih =>
    rcases List.mem_cons.1 hg with rfl | hg
    · exact ⟨_, List.mem_cons_self, hf⟩
    · obtain ⟨f, hmem, hsurvives⟩ := ih hg
      exact ⟨f, List.mem_cons_of_mem _ hmem, hsurvives⟩

end FramesSurvive

namespace Memory

theorem write_eq_ok {m m' : Memory} {a : Address} {value : Value} :
    m.write a value = .ok m' ↔ ∃ old new, m.root? a.root = some old ∧
      Value.set value old a.path = .ok new ∧ m.setRoot new a.root = m' := by
  unfold write
  cases hroot : m.root? a.root with
  | none => simp
  | some old => cases hset : Value.set value old a.path <;> simp [Except.map, hset]

theorem framesSurvive_updateFrame {m : Memory} {id : Nat} {change : Frame → Frame}
    (h : ∀ f : Frame, f.Survives (change f)) :
    FramesSurvive m.frames (m.updateFrame id change).frames := by
  rw [updateFrame, FramesSurvive, List.forall₂_map_right_iff, List.forall₂_same]
  intro f _
  split
  · exact h f
  · exact .refl f

theorem framesSurvive_setRoot (m : Memory) (value : Value) (root : Root) :
    FramesSurvive m.frames (m.setRoot value root).frames := by
  cases root with
  | slot frame v => exact framesSurvive_updateFrame fun f ↦ .setSlot f v value
  | temp frame t => exact framesSurvive_updateFrame fun f ↦ .setTemp f t value
  | heap cell => exact .refl _

theorem framesSurvive_write {m m' : Memory} {a : Address} {value : Value}
    (h : m.write a value = .ok m') : FramesSurvive m.frames m'.frames := by
  obtain ⟨old, new, -, -, rfl⟩ := write_eq_ok.1 h
  exact framesSurvive_setRoot m new a.root

end Memory

end InlineArrays
