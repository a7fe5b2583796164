import InlineArrays.Proofs.Code.RangedStatements
import InlineArrays.Proofs.Elements.ReadBack
import InlineArrays.Proofs.Machine.SealedInputs

/-!
# Span safety

A program that keeps its spans where validation follows them never follows a reference to storage that
is gone, whichever of its methods is run and whatever it is given.  What it is given for a parameter
that may not be written stays as it was.
-/

namespace InlineArrays

namespace Context

variable {c : Context} {v : VariableId} {kind : ParameterKind}

/-! ## Parameters -/

theorem projectsReadonly_of_parameter {v : Variable} (hkind : v.kind = .parameter kind) :
    (c.fixedStorage v).projectsReadonly = kind.isReadonly := by
  unfold fixedStorage
  rw [hkind]
  cases kind <;> dsimp only <;> first | rfl | (split <;> rfl)

theorem holdsAddress_of_parameter (hkind : (c.method.var v).kind = .parameter kind) :
    c.holdsAddress (c.method.var v) = kind.isByRef := by
  rw [holdsAddress, hkind]

/-- What is passed by reference may be written unless it is declared otherwise. -/
theorem slotRegion_of_parameter (hkind : (c.method.var v).kind = .parameter kind)
    (href : kind.isByRef) (hspan : c.types.isSpan (c.method.var v).type = false) :
    c.slotRegion v = .data (c.fixedStorage (c.method.var v)).isOwn (!kind.isReadonly) := by
  have hlocal : ∀ readonly, (c.method.var v).kind ≠ .refLocal readonly := by
    rw [hkind]
    simp
  rw [slotRegion, TypeTable.isSpan_eq_false.1 hspan, holdsAddress_of_parameter hkind, href, storageOf,
    storageOf?_root 0 hspan hlocal, Option.getD_some]
  dsimp only
  rw [if_pos rfl, Storage.region, projectsReadonly_of_parameter hkind]

/-- A parameter that may not be written refers to nothing that may. -/
theorem isUnwritten_of_isSealed (h : (c.method.var v).kind.isSealed) :
    (c.slotRegion v).isUnwritten := by
  cases hkind : (c.method.var v).kind with
  | parameter kind =>
    rw [hkind] at h
    have hreadonly : kind.isReadonly := h
    have href : kind.isByRef := by cases kind <;> first | rfl | cases hreadonly
    cases hspan : c.types.isSpan (c.method.var v).type with
    | false =>
      rw [slotRegion_of_parameter hkind href hspan, hreadonly]
      rfl
    | true =>
      obtain ⟨parts, hparts⟩ := Option.isSome_iff_exists.1 hspan
      rw [slotRegion, hparts, holdsAddress_of_parameter hkind, href]
      rfl
  | stackLocal | refLocal | receiver =>
    rw [hkind] at h
    cases h

section

variable {c' : Context} (htypes : c'.types = c.types) {arg : Argument Expr}
  (hkind : (c'.method.var v).kind = .parameter kind)
  (hholds : c.types.holds (c'.method.var v).type (c.typeOf arg.value))
include htypes hkind hholds

theorem argumentRegion_le_of_value (hvalue : kind = .value) (hmodifier : arg.modifier = .none) :
    c.argumentRegion arg ≤ (c'.slotRegion v).passed := by
  have hheld : c'.holdsAddress (c'.method.var v) = false := by
    rw [holdsAddress_of_parameter hkind, hvalue]
    rfl
  rw [argumentRegion, hmodifier]
  cases hparts : c.types.spanParts? (c'.method.var v).type with
  | none =>
    have hspan := (TypeTable.isSpan_of_holds hholds).trans (TypeTable.isSpan_eq_false.2 hparts)
    rw [valueRegion_of_isSpan hspan, slotRegion, htypes, hparts, hheld]
    exact Region.le_refl _
  | some parts =>
    rw [slotRegion, htypes, hparts, hheld]
    exact valueRegion_le_of_holds hholds hparts (Bool.le_true _)

theorem placeRegion_le_of_byRef (href : kind.isByRef)
    (hwritable : c.types.isSpan (c.typeOf arg.value) = false → kind.isReadonly = false →
      (c.storageOf arg.value).region ≤ .data true true) :
    c.placeRegion arg.value ≤ (c'.slotRegion v).passed := by
  cases hparts : c.types.spanParts? (c'.method.var v).type with
  | none =>
    have hbound := TypeTable.isSpan_eq_false.2 hparts
    have hspan := (TypeTable.isSpan_of_holds hholds).trans hbound
    rw [slotRegion_of_parameter hkind href (htypes ▸ hbound), placeRegion_of_isSpan hspan]
    cases hreadonly : kind.isReadonly with
    | true => exact Region.data_le_data (Bool.le_true _) (Bool.false_le _)
    | false => exact hwritable hspan hreadonly
  | some parts =>
    rw [slotRegion, htypes, hparts, holdsAddress_of_parameter hkind, href]
    exact placeRegion_le_of_holds hholds hparts

end

/-- An argument that is passed as its parameter is declared is where the parameter may refer to. -/
theorem Vetted.argumentRegion_le (hc : c.Vetted) {c' : Context} (htypes : c'.types = c.types)
    {callee : String} {args : List (Argument Expr)} (hs : .call callee args ∈ c.method.statements)
    {arg : Argument Expr} (harg : arg ∈ args) (htakes : c.takes (c'.method.var v) arg)
    (ho : (c.outcome? arg.value).isSome) : c.argumentRegion arg ≤ (c'.slotRegion v).passed := by
  have hoperand : (arg.value, .argument arg.modifier) ∈
      (Statement.call callee args).operands c.method.toBody := List.mem_map.2 ⟨arg, harg, rfl⟩
  obtain ⟨hholds, htakes⟩ := Bool.and_eq_true_iff.1 htakes
  split at htakes
  · rename_i hkind
    exact argumentRegion_le_of_value htypes hkind hholds rfl (by simpa using htakes)
  · rename_i kind hvalue hkind
    have href : kind.isByRef := bne_iff_ne.2 hvalue
    obtain ⟨hmodifier, hinput⟩ := Bool.and_eq_true_iff.1 htakes
    have hplace : c.argumentRegion arg = c.placeRegion arg.value := by
      unfold argumentRegion
      split <;> simp_all
    rw [hplace]
    refine placeRegion_le_of_byRef htypes hkind hholds href fun hspan hreadonly ↦ ?_
    rw [hreadonly, Bool.false_or] at hinput
    have hwrites : (Usage.argument arg.modifier).writes := by
      cases hmod : arg.modifier <;> simp_all [Usage.writes]
    exact hc.region_of_writes hs hoperand hspan hwrites ho
  · cases htakes

end Context

/-! ## Programs -/

theorem forall₂_comp {α β γ : Type} {R : α → β → Prop} {S : β → γ → Prop} {T : α → γ → Prop}
    {as : List α} {bs : List β} {cs : List γ} (h : List.Forall₂ R as bs) (h' : List.Forall₂ S bs cs)
    (hT : ∀ a b c, R a b → S b c → T a c) : List.Forall₂ T as cs := by
  induction h generalizing cs with
  | nil =>
    cases h'
    exact .nil
  | cons hab _ ih =>
    cases h' with
    | cons hbc h' => exact .cons (hT _ _ _ hab hbc) (ih h')

namespace Executable

variable {p : Program} {members : MemberTable} {q : Method × Routine}

/-- What is linked is the code of a method of the program, under the name of the method. -/
theorem of_mem_link (hnodup : (p.methods.map (·.name)).Nodup)
    (hq : q ∈ (link p (p.routines members)).routines) :
    q.1 ∈ p.methods ∧ (p.context members q.1).routine = .ok q.2 := by
  obtain ⟨r, hr, hlink⟩ := List.mem_filterMap.1 hq
  obtain ⟨m, hm, hroutine⟩ := Program.mem_routines.1 hr
  have hname : r.name = m.name := Context.routine_name hroutine
  rw [hname, Program.method?_eq_some hnodup hm] at hlink
  cases hlink
  exact ⟨hm, hroutine⟩

end Executable

namespace Program

variable {s : Scenario} {p : Program} {members : MemberTable}

/-- What the variables of the methods of a program refer to. -/
def layout (p : Program) (members : MemberTable) (q : Method × Routine) : Layout :=
  (p.context members q.1).layout q.2.instrs

namespace KeepsSpans

variable (hkeeps : p.KeepsSpans members) (hbuild : s.build = .ok p)
include hkeeps hbuild

theorem vetted {m : Method} {r : Routine} (hm : m ∈ p.methods)
    (hr : (p.context members m).routine = .ok r) : (p.context members m).Vetted where
  toGrounded := Scenario.build_grounded hbuild members hm
  valid := (Context.routine_eq_ok.1 hr).1
  built := Scenario.build_built hbuild
  apart := hkeeps.apart
  bound := Scenario.build_bindsRefLocals hbuild m hm
  fields {id receiver name} he := by
    obtain ⟨use, huse, hfield⟩ :=
      List.mem_map.1 (he.used (Scenario.build_grounded hbuild members hm).anchored)
    have hnone := hkeeps.fields m hm use huse
    rw [hfield] at hnone
    exact hnone

/-- Calls pass what the parameters of the callees may refer to. -/
theorem passesArguments {q : Method × Routine}
    (hq : q ∈ (Executable.link p (p.routines members)).routines) :
    (p.context members q.1).PassesArguments (p.layout members q)
      ((Executable.link p (p.routines members)).Passes (p.layout members)
        (p.layout members q)) := by
  have hnodup := (Scenario.build_orderly hbuild).2
  obtain ⟨hm, hr⟩ := Executable.of_mem_link hnodup hq
  intro callee args hs os hpassed q' hfind hlength
  obtain ⟨hm', hr'⟩ := Executable.of_mem_link hnodup (Executable.find?_mem hfind)
  have hname : q'.1.name = callee :=
    (Context.routine_name hr').symm.trans (by simpa using List.find?_some hfind)
  have hparameters : q'.2.parameters = (p.context members q'.1).parameters := by
    obtain ⟨_, -, hbody⟩ := Context.lowerBody_eq_ok (Context.routine_eq_ok.1 hr').2
    rw [hbody]
  have htakes := hkeeps.statements q.1 hm _ hs
  simp only [Context.keepsSpans, ← hname, Program.method?_eq_some hnodup hm', Option.all_some,
    List.all_eq_true] at htakes
  have hdeclared : List.Forall₂ (fun v arg ↦ arg ∈ args ∧
      (p.context members q.1).takes (q'.1.var v) arg) q'.2.parameters args := by
    rw [hparameters] at hlength ⊢
    refine List.forall₂_iff_zip.2 ⟨hlength.symm.trans hpassed.length_eq.symm, fun hpair ↦ ?_⟩
    have htaken := htakes _ hpair
    exact ⟨(List.of_mem_zip hpair).2, htaken⟩
  refine forall₂_comp hdeclared hpassed fun v arg o htakes hranges κ hκ ↦ ?_
  obtain ⟨-, h⟩ := Option.ite_none_right_eq_some.1 hκ
  obtain rfl := Option.some.inj h
  have htypes : (p.context members q'.1).types = (p.context members q.1).types := rfl
  have hle : (p.context members q.1).argumentRegion arg ≤
      ((p.context members q'.1).slotRegion v).passed :=
    (hkeeps.vetted hbuild hm hr).argumentRegion_le htypes hs htakes.1 htakes.2 hranges.2
  exact hranges.1.le hle

/-- Every routine may do what it does. -/
theorem ranged : (Executable.link p (p.routines members)).Ranged (p.layout members) := by
  have hnodup := (Scenario.build_orderly hbuild).2
  constructor
  · intro q hq
    obtain ⟨-, hr⟩ := Executable.of_mem_link hnodup hq
    exact Context.wellFormed_of_lowerBody (Context.routine_eq_ok.1 hr).2
  · exact fun _ ↦ rfl
  · intro q hq
    obtain ⟨hm, hr⟩ := Executable.of_mem_link hnodup hq
    exact (hkeeps.vetted hbuild hm hr).allows (Context.routine_eq_ok.1 hr).2
      (hkeeps.statements q.1 hm) (hkeeps.passesArguments hbuild hq)
  · intro q hq args receiver hlength v κ hκ
    obtain ⟨hm, hr⟩ := Executable.of_mem_link hnodup hq
    obtain ⟨_, -, hbody⟩ := Context.lowerBody_eq_ok (Context.routine_eq_ok.1 hr).2
    have horderly := (Scenario.build_orderly hbuild).1 q.1 hm
    obtain ⟨hv, -⟩ := Option.ite_none_right_eq_some.1 hκ
    refine Executable.lookup?_slots hlength (fun w kind hw hkind ↦ ?_) (fun w hw hkind ↦ ?_) hv
    · rw [hbody]
      exact Context.mem_parameters.2 ⟨hw, kind, hkind⟩
    · rw [hbody]
      exact (Context.receiver?_eq_some_iff (c := p.context members q.1) horderly hw).2 hkind

omit hkeeps hbuild in
theorem isUnwritten_of_isSealed (q : Method × Routine) (v : VariableId) (κ : Region)
    (h : (q.1.var v).kind.isSealed) (hκ : (p.layout members q).region? v = some κ) :
    κ.isUnwritten := by
  obtain ⟨-, hκ⟩ := Option.ite_none_right_eq_some.1 hκ
  obtain rfl := Option.some.inj hκ
  exact Context.isUnwritten_of_isSealed (c := p.context members q.1) h

end KeepsSpans

end Program

/-! ## Runs -/

namespace Executable

/-- Whether showing a value follows a reference to storage that is gone. -/
def dangles (m : Memory) (v : Value) : Bool :=
  match m.materialize v with
  | .error .danglingReference => true
  | _ => false

/-- Records a call of a method outside the program, but fails where an argument refers to storage that
is gone. -/
def showing : Host := fun callee args m ↦
  if args.any (dangles m) then .error .danglingReference m else leave callee args m

theorem harmless_showing : showing.Harmless := by
  intro m P callee args hholds hargs
  have hshown : args.any (dangles m) = false := by
    refine List.any_eq_false.2 fun v hv ↦ ?_
    have hne := hholds.materialize_ne_dangling (hargs v hv)
    unfold dangles
    split
    · exact absurd ‹_› hne
    · exact Bool.false_ne_true
  rw [showing, if_neg (by simp [hshown])]
  exact harmless_leave m P callee args hholds hargs

end Executable

/-- Has another method write through a span over a local. -/
def sharesSpan : Scenario where
  options := {}
  arrays := [⟨"Buffer4", "int", 4⟩]
  structs := []
  methods :=
    [{ name := "Fill", returns := .void, returnType := none, owner := none
       parameters := [⟨"s", .value, "Span<int>", false⟩], locals := []
       body := [.assign (.index (.path "s") (.int 0)) (.int 3)] },
     { name := "Main", returns := .value, returnType := some "int", owner := none
       parameters := [⟨"p", .input, "Buffer4", false⟩]
       locals := [⟨"s", "Span<int>", true⟩, ⟨"b", "Buffer4", true⟩]
       body :=
        [.assign (.path "s") (.span (.path "b") false), .call "Fill" [{ value := .path "s" }],
          .ret (some (.index (.path "s") (.int 0)))] }]
  inputs := [("p", .list [.int 7, .int 8, .int 9, .int 10])]
  expect := none

/-- What a run yields. -/
def success? {ε σ α : Type} : EStateM.Result ε σ α → Option α
  | .ok a _ => some a
  | .error .. => none

theorem exists_of_success? {ε σ α : Type} {r : EStateM.Result ε σ α} {a : α}
    (h : success? r = some a) : ∃ m, r = .ok a m := by
  cases r with
  | ok a' m =>
    cases h
    exact ⟨m, rfl⟩
  | error => cases h

theorem exists_keepsSpans {s : Scenario} {α : Type} {f : Program → α} {a : α}
    (h : s.build.toOption.map (fun p ↦ (decide (p.KeepsSpans {}), f p)) = some (true, a)) :
    ∃ p, s.build = .ok p ∧ p.KeepsSpans {} ∧ f p = a := by
  obtain ⟨p, hp, h⟩ := Option.map_eq_some_iff.1 h
  obtain ⟨hkeeps, hf⟩ := Prod.mk.inj h
  exact ⟨p, Except.toOption_eq_some.1 hp, of_decide_eq_true hkeeps, hf⟩

namespace Scenario

variable {s : Scenario} {p : Program} {members : MemberTable}

/-- A run of a program that keeps its spans follows no reference to storage that is gone: not while it
executes, not when an argument of a call that leaves the program is shown, and not when its result
is. -/
theorem run_ne_dangling (h : s.build = .ok p) (hkeeps : p.KeepsSpans members) (entry : String)
    (inputs : List (String × Data)) (m : Memory) :
    (Executable.link p (p.routines members)).run entry inputs {} ≠ .error .danglingReference m ∧
      (Executable.link p (p.routines members)).runWith Executable.showing entry inputs {} ≠
        .error .danglingReference m := by
  have hne {host : Executable.Host} (hhost : host.Harmless) :
      (Executable.link p (p.routines members)).runWith host entry inputs {} ≠
        .error .danglingReference m := fun hrun ↦
    (hkeeps.ranged h).runWith_ne_dangling hhost
      (fun q _ ↦ Program.KeepsSpans.isUnwritten_of_isSealed q) hrun rfl
  exact ⟨hne Executable.harmless_leave, hne Executable.harmless_showing⟩

end Scenario

/-- The span that is passed is over storage that is still there, and the run returns. -/
theorem sharesSpan_follows : ∃ p, sharesSpan.build = .ok p ∧ p.KeepsSpans {} ∧
    (∃ execution m, (Executable.link p (p.routines {})).run "Main" sharesSpan.inputs {} =
      .ok execution m ∧ execution.result = some (.int 3)) ∧
    ∀ m, (Executable.link p (p.routines {})).run "Main" sharesSpan.inputs {} ≠
        .error .danglingReference m ∧
      (Executable.link p (p.routines {})).runWith Executable.showing "Main" sharesSpan.inputs {} ≠
        .error .danglingReference m := by
  have hfacts : sharesSpan.build.toOption.map (fun p ↦ (decide (p.KeepsSpans {}),
      (success? ((Executable.link p (p.routines {})).run "Main" sharesSpan.inputs {})).bind
        (·.result))) = some (true, some (.int 3)) := by cbv
  obtain ⟨p, hbuild, hkeeps, hrun⟩ := exists_keepsSpans hfacts
  obtain ⟨execution, hsuccess, hresult⟩ := Option.bind_eq_some_iff.1 hrun
  obtain ⟨m, hrun⟩ := exists_of_success? hsuccess
  exact ⟨p, hbuild, hkeeps, ⟨execution, m, hrun, hresult⟩,
    Scenario.run_ne_dangling hbuild hkeeps "Main" sharesSpan.inputs⟩

namespace Scenario

variable {s : Scenario} {p : Program} {members : MemberTable}

/-- Of a program that keeps its spans, the cell that a parameter was boxed in that may not be written
holds the same when the run has ended. -/
theorem run_keeps_boxed (h : s.build = .ok p) (hkeeps : p.KeepsSpans members) {entry : String}
    {q : Method × Routine} (hfind : (Executable.link p (p.routines members)).find? entry = some q)
    {before after : List VariableId} {id : VariableId}
    (hparameters : q.2.parameters = before ++ id :: after)
    (hsealed : (q.1.var id).kind.isSealed) {inputs : List (String × Data)} {passed : List Value}
    {arg : Value} {m boxed : Memory}
    (hbefore : (before.mapM fun id ↦
      (Executable.link p (p.routines members)).entryArgument inputs (q.1.var id)) {} = .ok passed m)
    (hbox : (Executable.link p (p.routines members)).entryArgument inputs (q.1.var id) m =
      .ok arg boxed) :
    ∃ cell value, arg = .address ⟨.heap cell, []⟩ ∧ boxed.heap[cell]? = some value ∧
      (((Executable.link p (p.routines members)).run entry inputs).after {}).heap[cell]? =
        some value :=
  (hkeeps.ranged h).runWith_boxed Executable.harmless_leave hfind
    (Program.KeepsSpans.isUnwritten_of_isSealed q) hparameters hbefore hbox hsealed

end Scenario

/-- What the parameter was boxed in is not written. -/
theorem sharesSpan_keeps : ∃ p q, sharesSpan.build = .ok p ∧ p.KeepsSpans {} ∧
    (Executable.link p (p.routines {})).find? "Main" = some q ∧
    (q.1.var 0).kind = .parameter .input ∧ ∃ boxed value,
      (Executable.link p (p.routines {})).entryArgument sharesSpan.inputs (q.1.var 0) {} =
        .ok (.address ⟨.heap 0, []⟩) boxed ∧ boxed.heap[0]? = some value ∧
      (((Executable.link p (p.routines {})).run "Main" sharesSpan.inputs).after {}).heap[0]? =
        some value := by
  have hfacts : sharesSpan.build.toOption.map (fun p ↦ (decide (p.KeepsSpans {}),
      ((Executable.link p (p.routines {})).find? "Main").map fun q ↦
        (q.2.parameters, (q.1.var 0).kind, success? ((Executable.link p (p.routines {})).entryArgument
          sharesSpan.inputs (q.1.var 0) {})))) =
      some (true, some ([0], .parameter .input, some (.address ⟨.heap 0, []⟩))) := by cbv
  obtain ⟨p, hbuild, hkeeps, hmain⟩ := exists_keepsSpans hfacts
  obtain ⟨q, hfind, hmain⟩ := Option.map_eq_some_iff.1 hmain
  obtain ⟨hparameters, hmain⟩ := Prod.mk.inj hmain
  obtain ⟨hkind, harg⟩ := Prod.mk.inj hmain
  obtain ⟨boxed, hbox⟩ := exists_of_success? harg
  obtain ⟨cell, value, hcell, hboxed, hkept⟩ := Scenario.run_keeps_boxed hbuild hkeeps hfind
    (show q.2.parameters = [] ++ 0 :: [] from hparameters) (by rw [hkind]; rfl) rfl hbox
  cases hcell
  exact ⟨p, q, hbuild, hkeeps, hfind, hkind, boxed, value, hbox, hboxed, hkept⟩

end InlineArrays
