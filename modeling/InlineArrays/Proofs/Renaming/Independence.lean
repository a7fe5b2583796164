import InlineArrays.Proofs.Renaming.Building
import InlineArrays.Proofs.Renaming.Code
import InlineArrays.Proofs.Scenario.Tables
import Mathlib

/-!
# Methods compile independently of each other

The methods of a program share its table of types, to which each adds the spans it names.  What the
others add moves the ids of types; it changes nothing that is read off a method.
-/

namespace InlineArrays

namespace Scenario

open TypeTable (Spans Embeds)

variable {s s' : Scenario} {p p' : Program}

theorem method?_addMethod {M : MethodDecl} {draft : MethodDraft}
    (hnew : p.methods.any (·.name == M.name) = false) (hname : draft.body.name = M.name) :
    (⟨draft.types, p.methods ++ [draft.body.finish]⟩ : Program).method? M.name =
      some draft.body.finish := by
  have hnone : p.methods.find? (·.name == M.name) = none := by simpa using hnew
  have hfinish : draft.body.finish.name == M.name := by simpa [Body.finish] using hname
  simp [Program.method?, List.find?_append, hnone, hfinish]

theorem method?_append {types : TypeTable} {m m' : Method} {name : String}
    (h : p.method? name = some m) :
    (⟨types, p.methods ++ [m']⟩ : Program).method? name = some m := by
  unfold Program.method? at h ⊢
  rw [List.find?_append, h, Option.some_or]

/-- The method of a program that a declaration was built to, over some table on the way to that of the
program. -/
def Declares (base : TypeTable) (p : Program) (M : MethodDecl) (m : Method) : Prop :=
  p.method? M.name = some m ∧ ∃ types draft, Spans base types ∧
    MethodDraft.method M { types, body := { name := M.name } } = .ok ((), draft) ∧
      Spans draft.types p.types ∧ m = draft.body.finish

/-- A step keeps the methods there and adds the one declared. -/
theorem addMethod_declares {base : TypeTable} {M : MethodDecl} (hwell : base.WellFormed)
    (hsound : base.Sound) (hfinite : base.Finite) (hspans : Spans base p.types)
    (h : addMethod p M = .ok p') :
    Spans p.types p'.types ∧ (∃ m, Declares base p' M m) ∧
      ∀ M' m, Declares base p M' m → Declares base p' M' m := by
  obtain ⟨hnew, draft, hdraft, rfl⟩ := addMethod_eq_ok h
  have hembeds : Embeds p.types.keep p.types p.types :=
    Spans.embeds .refl (hspans.wellFormed hwell) (hspans.sound hsound) (hspans.finite hfinite)
  obtain ⟨hstep, hname, -⟩ := MethodDraft.Follows.method hembeds M hdraft
  refine ⟨hstep, ⟨_, method?_addMethod hnew hname, _, draft, hspans, hdraft, .refl, rfl⟩, ?_⟩
  rintro M' m ⟨hfound, types, earlier, hbefore, hbuilt, hafter, rfl⟩
  exact ⟨method?_append hfound, types, earlier, hbefore, hbuilt, hafter.trans hstep, rfl⟩

/-- Every declaration of a scenario has a method in its program. -/
theorem build_declares (h : s.build = .ok p) :
    ∃ base, s.buildTypes = .ok base ∧ Spans base p.types ∧
      ∀ M ∈ s.methods, ∃ m, Declares base p M m := by
  obtain ⟨base, hbase, h⟩ := Except.bind_eq_ok.1 h
  have hwell := buildTypes_wellFormed hbase
  obtain ⟨hsound, hfinite⟩ := buildTypes_sound hbase
  have hfold {l : List MethodDecl} {q : Program} (hq : Spans base q.types)
      (h : l.foldlM addMethod q = .ok p) :
      Spans base p.types ∧ (∀ M m, Declares base q M m → Declares base p M m) ∧
        ∀ M ∈ l, ∃ m, Declares base p M m := by
    induction l generalizing q with
    | nil =>
      cases h
      exact ⟨hq, fun _ _ hdeclares ↦ hdeclares, nofun⟩
    | cons M l ih =>
      rw [List.foldlM_cons] at h
      obtain ⟨next, hstep, h⟩ := Except.bind_eq_ok.1 h
      obtain ⟨hspans, ⟨m, hm⟩, hkeeps⟩ := addMethod_declares hwell hsound hfinite hq hstep
      obtain ⟨hfinal, hkeeps', hrest⟩ := ih (hq.trans hspans) h
      refine ⟨hfinal, fun M' m' hdeclares ↦ hkeeps' M' m' (hkeeps M' m' hdeclares), ?_⟩
      intro M' hM'
      rcases List.mem_cons.1 hM' with rfl | hM'
      · exact ⟨m, hkeeps' M' m hm⟩
      · exact hrest M' hM'
  obtain ⟨hspans, -, hdeclares⟩ := hfold (q := { types := base, methods := [] }) .refl h
  exact ⟨base, hbase, hspans, hdeclares⟩

/-- In a table that the types of a program embed into, a declaration is built to its method there
under the new ids. -/
theorem Declares.rename {base u : TypeTable} {ρ : TypeId → TypeId} {M : MethodDecl} {m : Method}
    (h : Declares base p M m) (hembeds : Embeds ρ p.types u) :
    ∃ draft : MethodDraft,
      MethodDraft.method M { types := u, body := { name := M.name } } = .ok ((), draft) ∧
        m.rename ρ = draft.body.finish := by
  obtain ⟨-, types, draft, -, hdraft, hspans, rfl⟩ := h
  obtain ⟨-, -, hfollows⟩ := MethodDraft.Follows.method hembeds M hdraft
  have hstart : MethodDraft.rename ρ u { types, body := { name := M.name } } =
      { types := u, body := { name := M.name } } := by simp [MethodDraft.rename, Body.rename]
  exact ⟨draft.rename ρ u, hstart ▸ hfollows hspans, rfl⟩

/-- What is read off a declaration in two programs that agree on the types declared: the listing, what
is wrong with it and the code. -/
theorem build_independent (hstructs : s.structs = s'.structs) (harrays : s.arrays = s'.arrays)
    (h : s.build = .ok p) (h' : s'.build = .ok p') {M : MethodDecl} (hM : M ∈ s.methods)
    (hM' : M ∈ s'.methods) (members : MemberTable) :
    ∃ m m', p.method? M.name = some m ∧ p'.method? M.name = some m' ∧ m.listing = m'.listing ∧
      (p.context members m).validate? = (p'.context members m').validate? ∧
      (p.context members m).routine.map (fun r ↦ (r.text, r.valueCount, r.tempCount)) =
        (p'.context members m').routine.map fun r ↦ (r.text, r.valueCount, r.tempCount) := by
  obtain ⟨base, hbase, hspans, hdeclares⟩ := build_declares h
  obtain ⟨base', hbase', hspans', hdeclares'⟩ := build_declares h'
  obtain rfl : base = base' := by
    have htypes : s.buildTypes = s'.buildTypes := by
      simp only [buildTypes, declareTypes, declared, hstructs, harrays]
    exact Except.ok.inj (hbase.symm.trans (htypes.trans hbase'))
  have hwell := buildTypes_wellFormed hbase
  obtain ⟨hsound, hfinite⟩ := buildTypes_sound hbase
  obtain ⟨u, ρ', hunion, hembeds'⟩ := hspans.exists_union hspans' hwell hsound hfinite
  have hembeds : Embeds p.types.keep p.types u :=
    hunion.embeds (hspans.wellFormed hwell) (hspans.sound hsound) (hspans.finite hfinite)
  obtain ⟨m, hm⟩ := hdeclares M hM
  obtain ⟨m', hm'⟩ := hdeclares' M hM'
  obtain ⟨draft, hdraft, hrename⟩ := hm.rename hembeds
  obtain ⟨draft', hdraft', hrename'⟩ := hm'.rename hembeds'
  -- both methods are, under other ids, the one that the declaration is built to over the union
  have hsame : m.rename p.types.keep = m'.rename ρ' := by
    rw [hdraft] at hdraft'
    cases hdraft'
    rw [hrename, hrename']
  have hcontext : (p.context members m).rename p.types.keep u =
      (p'.context members m').rename ρ' u := congrArg (Context.mk u members) hsame
  have houtline (ρ : TypeId → TypeId) (outcome : Except LoweringError Routine) :
      (outcome.map (·.rename ρ)).map (fun r ↦ (r.text, r.valueCount, r.tempCount)) =
        outcome.map fun r ↦ (r.text, r.valueCount, r.tempCount) := by
    cases outcome with
    | error e => rfl
    | ok r => simp only [Except.map, r.text_rename]; rfl
  refine ⟨m, m', hm.1, hm'.1, ?_, ?_, ?_⟩
  · rw [← m.listing_rename p.types.keep, hsame, m'.listing_rename]
  · rw [← Context.validate?_rename hembeds, hcontext, Context.validate?_rename hembeds']
  · rw [← houtline p.types.keep, ← Context.routine_rename hembeds, hcontext,
      Context.routine_rename hembeds', houtline]

/-- Scenarios over one inline array. -/
def overBuffer (methods : List MethodDecl) : Scenario where
  options := {}
  arrays := [⟨"Buffer4", "int", 4⟩]
  structs := []
  methods
  inputs := []
  expect := none

/-- A method that keeps a span of some element type. -/
def keepsSpan (name element : String) : MethodDecl :=
  { name, returns := .value, returnType := some "int", owner := none
    parameters := [⟨"b", .ref, "Buffer4", false⟩]
    locals := [⟨"s", "Span<" ++ element ++ ">", true⟩]
    body := [.ret (some (.index (.path "b") (.fromEnd (.int 1))))] }

/-- The type of the span that a method of the name "Main" keeps. -/
def keptSpan? (p : Program) : Option TypeId := (p.method? "Main").map fun m ↦ (m.var 1).type

/-- A method before it moves the id of the span in a method, and nothing else. -/
theorem keepsSpan_independent :
    ∃ p p', (overBuffer [keepsSpan "Main" "bool"]).build = .ok p ∧
      (overBuffer [keepsSpan "Other" "string", keepsSpan "Main" "bool"]).build = .ok p' ∧
      keptSpan? p = some 10 ∧ keptSpan? p' = some 11 ∧
      ∃ m m', p.method? "Main" = some m ∧ p'.method? "Main" = some m' ∧ m.listing = m'.listing ∧
        (p.context {} m).validate? = (p'.context {} m').validate? ∧
        (p.context {} m).routine.map (fun r ↦ (r.text, r.valueCount, r.tempCount)) =
          (p'.context {} m').routine.map fun r ↦ (r.text, r.valueCount, r.tempCount) := by
  have halone : (overBuffer [keepsSpan "Main" "bool"]).build.toOption.map keptSpan? =
      some (some 10) := by cbv
  have hsecond : (overBuffer [keepsSpan "Other" "string",
      keepsSpan "Main" "bool"]).build.toOption.map keptSpan? = some (some 11) := by cbv
  obtain ⟨p, hp, hkept⟩ := Option.map_eq_some_iff.1 halone
  obtain ⟨p', hp', hkept'⟩ := Option.map_eq_some_iff.1 hsecond
  have hbuild := Except.toOption_eq_some.1 hp
  have hbuild' := Except.toOption_eq_some.1 hp'
  refine ⟨p, p', hbuild, hbuild', hkept, hkept', ?_⟩
  refine build_independent (M := keepsSpan "Main" "bool") ?_ ?_ hbuild hbuild' ?_ ?_ {}
  · rfl
  · rfl
  · exact List.mem_singleton.2 rfl
  · exact List.mem_cons_of_mem _ (List.mem_singleton.2 rfl)

end Scenario

end InlineArrays
