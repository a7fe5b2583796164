import InlineArrays.Proofs.Machine.Isolation
import InlineArrays.Proofs.Scenario.Compiled
import Mathlib

/-!
# Calls that leave the program

A call leaves a program exactly if no code of the program has its name.  So what is recorded in a run
stems from calls of methods that were not lowered: methods that are not declared, and methods that are
declared but have a diagnostic or could not be lowered.
-/

namespace InlineArrays

namespace Executable

variable {x : Executable} {host host' : Host}

/-! ## Runs with another host -/

section

variable (h : ∀ callee args, x.find? callee = none → host callee args = host' callee args)
include h

/-- A call does the same with any host that agrees on the calls that leave the program. -/
theorem invokeWithin_congr (room : Nat) (callee : String) (args : List Value)
    (receiver : Option Value) :
    x.invokeWithin host room callee args receiver =
      x.invokeWithin host' room callee args receiver := by
  induction room generalizing callee args receiver with
  | zero =>
    cases hfind : x.find? callee with
    | none => rw [invokeWithin_host hfind, invokeWithin_host hfind, h callee args hfind]
    | some p =>
      by_cases hcount : args.length = p.2.parameters.length
      · rw [invokeWithin_zero hfind hcount, invokeWithin_zero hfind hcount]
      · rw [invokeWithin_argumentCount hfind hcount, invokeWithin_argumentCount hfind hcount]
  | succ room ih =>
    have hnested : (fun callee args ↦ x.invokeWithin host room callee args none) =
        fun callee args ↦ x.invokeWithin host' room callee args none := by
      funext callee args
      exact ih callee args none
    cases hfind : x.find? callee with
    | none => rw [invokeWithin_host hfind, invokeWithin_host hfind, h callee args hfind]
    | some p =>
      by_cases hcount : args.length = p.2.parameters.length
      · rw [invokeWithin_succ hfind hcount, invokeWithin_succ hfind hcount, hnested]
      · rw [invokeWithin_argumentCount hfind hcount, invokeWithin_argumentCount hfind hcount]

theorem runWith_congr (entry : String) (inputs : List (String × Data)) :
    x.runWith host entry inputs = x.runWith host' entry inputs := by
  have hinvoke : x.invoke host = x.invoke host' := by
    funext callee args receiver
    exact congrArg (get >>= ·) (funext fun m ↦
      invokeWithin_congr h (maxCallDepth - m.frames.length) callee args receiver)
  unfold runWith
  rw [hinvoke]

end

/-! ## What is recorded -/

/-- The line is that of a call of one of these methods. -/
def RecordsCall (callees : String → Prop) (line : String) : Prop :=
  ∃ callee args m, callees callee ∧ line = callText m callee args

/-- The calls that a run has recorded when it ends, whether it succeeds or fails. -/
def recorded (x : Executable) (entry : String) (inputs : List (String × Data)) : List String :=
  match x.run entry inputs {} with
  | .ok execution _ => execution.output
  | .error _ m => m.output

end Executable

namespace Discipline

/-- Only calls that leave the program are recorded, wherever values lead. -/
def recording (x : Executable) : Discipline where
  reach _ := True
  inv _ m := ∀ line ∈ m.output, Executable.RecordsCall (x.find? · = none) line
  heap_reach _ := trivial
  next_reach _ _ := trivial
  top_within _ _ := Frame.within_true _
  root_within _ _ _ := Value.within_true _
  setRoot {_ _ r _} hm _ _ := by cases r <;> exact hm
  updateTop {_ m _} hm _ _ := by
    unfold Memory.updateTop
    split <;> exact hm
  allocate hm _ := hm
  pushed hm _ := hm
  popped hm := hm

end Discipline

namespace Executable

theorem recordsCall_of_mem_recorded {x : Executable} {entry : String}
    {inputs : List (String × Data)} :
    ∀ line ∈ x.recorded entry inputs, RecordsCall (x.find? · = none) line := by
  have hhost : (Discipline.recording x).HostRespects x leave := by
    refine Discipline.hostRespects_leave fun _ m callee args hcallee hm ↦ ?_
    refine List.forall_mem_append.2 ⟨hm, fun line hline ↦ ?_⟩
    exact ⟨callee, args, m, hcallee, List.mem_singleton.1 hline⟩
  have hend := @Discipline.runWith _ _ _ inputs hhost entry {} (by rintro _ ⟨⟩)
  unfold recorded run
  cases hresult : x.runWith leave entry inputs {} with
  | ok execution m' =>
    rw [hresult] at hend
    obtain ⟨m, hm, houtput⟩ := hend
    change ∀ line ∈ execution.output, _
    rw [houtput]
    exact hm
  | error e m' =>
    rw [hresult] at hend
    exact hend

/-- Only calls of these methods leave the program in a run: no others are recorded, and nothing would
be different if others were not recorded but handled in any other way. -/
structure OnlyLeavesBy (x : Executable) (entry : String) (inputs : List (String × Data))
    (callees : String → Prop) : Prop where
  recorded : ∀ line ∈ x.recorded entry inputs, RecordsCall callees line
  unaffected : ∀ host : Host, (∀ callee args, callees callee → host callee args = leave callee args) →
    x.runWith host entry inputs = x.run entry inputs

theorem OnlyLeavesBy.mono {x : Executable} {entry : String} {inputs : List (String × Data)}
    {callees callees' : String → Prop} (h : x.OnlyLeavesBy entry inputs callees)
    (himp : ∀ callee, callees callee → callees' callee) : x.OnlyLeavesBy entry inputs callees' where
  recorded line hline := by
    obtain ⟨callee, args, m, hcallee, rfl⟩ := h.recorded line hline
    exact ⟨callee, args, m, himp callee hcallee, rfl⟩
  unaffected host hhost := h.unaffected host fun callee args hcallee ↦
    hhost callee args (himp callee hcallee)

theorem onlyLeavesBy_find?_eq_none (x : Executable) (entry : String)
    (inputs : List (String × Data)) : x.OnlyLeavesBy entry inputs (x.find? · = none) where
  recorded := recordsCall_of_mem_recorded
  unaffected _ hhost := runWith_congr hhost entry inputs

end Executable

/-! ## Compiled programs -/

namespace Compilation

/-- The program declares a method of the name. -/
def Declares (c : Compilation) (callee : String) : Prop := ∃ o ∈ c.methods, o.method.name = callee

/-- Every method of the program was lowered. -/
def LowersAll (c : Compilation) : Prop := ∀ o ∈ c.methods, o.routine?.isSome

end Compilation

/-- If every method is lowered, then there is code of every declared name. -/
theorem Program.mem_lowered_of_declares {p : Program} {members : MemberTable} {options : Options}
    {inputs : List (String × Data)} (hall : (p.compilation members options inputs).LowersAll)
    {callee : String} (h : (p.compilation members options inputs).Declares callee) :
    callee ∈ (p.compilation members options inputs).lowered := by
  obtain ⟨o, ho, rfl⟩ := h
  obtain ⟨r, hr⟩ := Option.isSome_iff_exists.1 (hall o ho)
  obtain ⟨m, hm, rfl⟩ := List.mem_map.1 ho
  have hname : r.name = m.name := Context.routine_name (Except.toOption_eq_some.1 hr)
  exact List.mem_map.2 ⟨r, List.mem_filterMap.2 ⟨_, ho, hr⟩, hname⟩

/-- The run of a compiled program is left by calls of methods that were not lowered, and by no
others; if every method was lowered, by calls of methods that are not declared. -/
theorem Scenario.compile_onlyLeavesBy {s : Scenario} {options : Options} {compilation : Compilation}
    (hcompile : s.compile options = .ok compilation) (hrun : options.run = true) :
    ∃ p, s.build = .ok p ∧
      compilation.run = some (p.run compilation.routines options.start s.inputs) ∧
      (Executable.link p compilation.routines).OnlyLeavesBy options.start s.inputs
        (· ∉ compilation.lowered) ∧
      (compilation.LowersAll →
        (Executable.link p compilation.routines).OnlyLeavesBy options.start s.inputs
          (¬ compilation.Declares ·)) := by
  obtain ⟨members, p, -, hbuild, rfl⟩ := Scenario.compile_eq_ok.1 hcompile
  have hleaves : (Executable.link p (p.routines members)).OnlyLeavesBy options.start s.inputs
      (· ∉ (p.compilation members options s.inputs).lowered) :=
    (Executable.onlyLeavesBy_find?_eq_none _ _ _).mono fun _ ↦ Executable.find?_link_eq_none.1
  refine ⟨p, hbuild, if_pos hrun, hleaves, fun hall ↦ hleaves.mono fun callee hcallee hdeclares ↦ ?_⟩
  exact hcallee (p.mem_lowered_of_declares hall hdeclares)

/-- A run of a method that calls another one, which is as given. -/
def callsHelper (helper : MethodDecl) : Scenario where
  options := { run := true }
  arrays := []
  structs := []
  methods :=
    [{ name := "Main", returns := .void, returnType := none, owner := none, parameters := []
       locals := [], body := [.call "Log" [{ value := .int 1 }], .call "Helper" []] }, helper]
  inputs := []
  expect := none

/-- Calls a method that is not declared. -/
def callsNote : MethodDecl where
  name := "Helper"
  returns := .void
  returnType := none
  owner := none
  parameters := []
  locals := []
  body := [.call "Note" []]

/-- Reads a local that has no value. -/
def readsUnassigned : MethodDecl :=
  { callsNote with locals := [⟨"x", "int", false⟩], body := [.expression (.path "x")] }

theorem callsNote_onlyLeavesBy :
    ∃ compilation, (callsHelper callsNote).compile { run := true } = .ok compilation ∧
      compilation.LowersAll ∧ ∃ p, (callsHelper callsNote).build = .ok p ∧
        (Executable.link p compilation.routines).recorded "Main" [] = ["Log(1)", "Note()"] ∧
        (Executable.link p compilation.routines).OnlyLeavesBy "Main" []
          (¬ compilation.Declares ·) := by
  have hfacts : (callsHelper callsNote).build.toOption.map (fun p ↦
      ((p.compilation {} { run := true } []).methods.all (·.routine?.isSome),
        (Executable.link p (p.routines {})).recorded "Main" [])) =
      some (true, ["Log(1)", "Note()"]) := by cbv
  obtain ⟨p, hp, hfacts⟩ := Option.map_eq_some_iff.1 hfacts
  obtain ⟨hall, hrecorded⟩ := Prod.mk.inj hfacts
  have hbuild := Except.toOption_eq_some.1 hp
  have hcompile : (callsHelper callsNote).compile { run := true } =
      .ok (p.compilation {} { run := true } []) :=
    Scenario.compile_eq_ok.2 ⟨{}, p, rfl, hbuild, rfl⟩
  have hlowers : (p.compilation {} { run := true } []).LowersAll := List.all_eq_true.1 hall
  obtain ⟨p', hbuild', -, -, honly⟩ := Scenario.compile_onlyLeavesBy hcompile rfl
  obtain rfl : p = p' := Except.ok.inj (hbuild.symm.trans hbuild')
  exact ⟨_, hcompile, hlowers, p, hbuild, hrecorded, honly hlowers⟩

/-- A declared method that has a diagnostic is recorded when it is called. -/
theorem readsUnassigned_leaves :
    ∃ compilation, (callsHelper readsUnassigned).compile { run := true } = .ok compilation ∧
      compilation.Declares "Helper" ∧
      (∃ execution, compilation.run = some ⟨"Main", .ok execution⟩ ∧
        execution.output = ["Log(1)", "Helper()"]) ∧
      ∃ p, (callsHelper readsUnassigned).build = .ok p ∧
        ¬ (Executable.link p compilation.routines).OnlyLeavesBy "Main" []
          (¬ compilation.Declares ·) := by
  -- A run fails with a host that refuses the declared method, but not with the one that records.
  let refuse : Executable.Host := fun callee args ↦
    if callee = "Helper" then throw (.unknownMethod callee) else Executable.leave callee args
  have hfacts : (callsHelper readsUnassigned).build.toOption.map (fun p ↦
      (p.methods.map (·.name),
        (match (Executable.link p (p.routines {})).run "Main" [] {} with
          | .ok execution _ => some execution.output
          | .error .. => none),
        match (Executable.link p (p.routines {})).runWith refuse "Main" [] {} with
          | .ok .. => none
          | .error e _ => some e)) =
      some (["Main", "Helper"], some ["Log(1)", "Helper()"], some (.unknownMethod "Helper")) := by
    cbv
  obtain ⟨p, hp, hfacts⟩ := Option.map_eq_some_iff.1 hfacts
  simp only [Prod.mk.injEq] at hfacts
  obtain ⟨hnames, hrun, hrefused⟩ := hfacts
  have hbuild := Except.toOption_eq_some.1 hp
  have hdeclares : (p.compilation {} { run := true } []).Declares "Helper" := by
    obtain ⟨m, hm, hname⟩ : ∃ m ∈ p.methods, m.name = "Helper" := by
      rw [← List.mem_map, hnames]
      simp
    exact ⟨_, List.mem_map_of_mem hm, hname⟩
  cases hresult : (Executable.link p (p.routines {})).run "Main" [] {} with
  | error e m =>
    rw [hresult] at hrun
    cases hrun
  | ok execution m =>
    rw [hresult] at hrun
    refine ⟨p.compilation {} { run := true } [], ?_, hdeclares, ⟨execution, ?_, ?_⟩, p, hbuild, ?_⟩
    · exact Scenario.compile_eq_ok.2 ⟨{}, p, rfl, hbuild, rfl⟩
    · change some (p.run (p.routines {}) "Main" []) = _
      rw [Program.run, hresult]
    · exact Option.some.inj hrun
    · intro honly
      have hsame : (Executable.link p (p.routines {})).runWith refuse "Main" [] =
          (Executable.link p (p.routines {})).run "Main" [] :=
        honly.unaffected refuse fun callee args hcallee ↦
          if_neg fun heq : callee = "Helper" ↦ hcallee (heq ▸ hdeclares)
      rw [hsame, hresult] at hrefused
      cases hrefused

end InlineArrays
