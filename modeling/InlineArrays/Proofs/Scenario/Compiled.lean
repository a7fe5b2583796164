import InlineArrays.Compilation
import InlineArrays.Proofs.Machine.Calls
import InlineArrays.Proofs.Scenario.Build
import Mathlib.Data.List.Nodup

/-!
# What is compiled

The code of a program is that of the methods that can be lowered, each found by the name of its
method.
-/

namespace InlineArrays

theorem Context.routine_name {c : Context} {r : Routine} (h : c.routine = .ok r) :
    r.name = c.method.name := by
  obtain ⟨s, -, rfl⟩ := lowerBody_eq_ok (routine_eq_ok.1 h).2
  rfl

namespace Program

variable {p : Program} {members : MemberTable} {m : Method} {r : Routine}

theorem method?_eq_some (hnodup : (p.methods.map (·.name)).Nodup) (hm : m ∈ p.methods) :
    p.method? m.name = some m := by
  cases hfind : p.method? m.name with
  | none => simpa using List.find?_eq_none.1 hfind m hm
  | some other =>
    have hname : other.name = m.name := by simpa using List.find?_some hfind
    rw [List.inj_on_of_nodup_map hnodup (List.mem_of_find?_eq_some hfind) hm hname]

/-- The code of the methods of a program that can be lowered. -/
def routines (p : Program) (members : MemberTable) : List Routine :=
  (p.methods.map (MethodOutcome.of p.types members)).filterMap (·.routine?)

theorem mem_routines :
    r ∈ p.routines members ↔ ∃ m ∈ p.methods, (p.context members m).routine = .ok r := by
  simp [routines, MethodOutcome.routine?, MethodOutcome.of, context, Except.toOption_eq_some]

/-- What a program is compiled to, and its run from an entry method. -/
def compilation (p : Program) (members : MemberTable) (options : Options)
    (inputs : List (String × Data)) : Compilation where
  methods := p.methods.map (MethodOutcome.of p.types members)
  run := if options.run then some (p.run (p.routines members) options.start inputs) else none

end Program

namespace Executable

variable {p : Program} {members : MemberTable} {m : Method} {r : Routine}

/-- The routine of a method is found by the name of the method. -/
theorem find?_link (hnodup : (p.methods.map (·.name)).Nodup) (hm : m ∈ p.methods)
    (hr : (p.context members m).routine = .ok r) :
    (link p (p.routines members)).find? m.name = some (m, r) := by
  have hname : r.name = m.name := Context.routine_name hr
  have hlinked : (m, r) ∈ (link p (p.routines members)).routines := by
    refine List.mem_filterMap.2 ⟨r, Program.mem_routines.2 ⟨m, hm, hr⟩, ?_⟩
    rw [hname, Program.method?_eq_some hnodup hm]
    rfl
  cases hfind : (link p (p.routines members)).find? m.name with
  | none =>
    have hnone := List.find?_eq_none.1 hfind (m, r) (List.mem_reverse.2 hlinked)
    exact absurd (by simpa using hname) hnone
  | some found =>
    have hfound : found.2.name = m.name := by simpa using List.find?_some hfind
    obtain ⟨r', hr', hpair⟩ := List.mem_filterMap.1 (find?_mem hfind)
    obtain ⟨m', hm', hroutine⟩ := Program.mem_routines.1 hr'
    obtain ⟨named, hnamed, rfl⟩ := Option.map_eq_some_iff.1 hpair
    have hsame : m'.name = m.name := (Context.routine_name hroutine).symm.trans hfound
    obtain rfl := List.inj_on_of_nodup_map hnodup hm' hm hsame
    rw [hr] at hroutine
    obtain rfl := Except.ok.inj hroutine
    rw [hname, Program.method?_eq_some hnodup hm] at hnamed
    rw [Option.some.inj hnamed]

/-- A call leaves a program that was linked with its code exactly if no code has the name. -/
theorem find?_link_eq_none {callee : String} :
    (link p (p.routines members)).find? callee = none ↔
      callee ∉ (p.routines members).map (·.name) := by
  have hlinked : ∀ r ∈ p.routines members, ∃ m, (m, r) ∈ (link p (p.routines members)).routines := by
    intro r hr
    obtain ⟨m, hm, hroutine⟩ := Program.mem_routines.1 hr
    have hmethod : (p.method? r.name).isSome := by
      rw [Context.routine_name hroutine]
      exact List.find?_isSome.2 ⟨m, hm, by simp [Program.context]⟩
    obtain ⟨named, hnamed⟩ := Option.isSome_iff_exists.1 hmethod
    exact ⟨named, List.mem_filterMap.2 ⟨r, hr, by rw [hnamed]; rfl⟩⟩
  constructor
  · intro hfind hcallee
    obtain ⟨r, hr, rfl⟩ := List.mem_map.1 hcallee
    obtain ⟨m, hm⟩ := hlinked r hr
    exact absurd (List.find?_eq_none.1 hfind (m, r) (List.mem_reverse.2 hm)) (by simp)
  · intro hcallee
    refine List.find?_eq_none.2 fun pair hpair ↦ ?_
    obtain ⟨r, hr, hlink⟩ := List.mem_filterMap.1 (List.mem_reverse.1 hpair)
    obtain ⟨m, -, rfl⟩ := Option.map_eq_some_iff.1 hlink
    have hne : r.name ≠ callee := fun heq ↦ hcallee (heq ▸ List.mem_map_of_mem hr)
    simpa using hne

end Executable

theorem Scenario.compile_eq_ok {s : Scenario} {options : Options} {compilation : Compilation} :
    s.compile options = .ok compilation ↔ ∃ members p, options.members = .ok members ∧
      s.build = .ok p ∧ p.compilation members options s.inputs = compilation := by
  constructor
  · intro h
    obtain ⟨members, hmembers, h⟩ := Except.bind_eq_ok.1 h
    obtain ⟨p, hp, h⟩ := Except.bind_eq_ok.1 h
    exact ⟨members, p, Except.mapError_eq_ok.1 hmembers, Except.mapError_eq_ok.1 hp,
      Except.ok.inj h⟩
  · rintro ⟨members, p, hmembers, hp, rfl⟩
    unfold Scenario.compile
    rw [hmembers, hp]
    rfl

end InlineArrays
