import InlineArrays.Code.OfMethod
import InlineArrays.Proofs.MemberTables
import InlineArrays.Proofs.Parts
import InlineArrays.Proofs.Types.Table
import InlineArrays.Proofs.Validation.Accepted
import Mathlib

/-!
# Unused members

A method asks the environment for the members that its accesses require and for no others.  Two
environments that give the same answers to that are told apart neither by a validator nor by the
code.  A clean method gets all that it asks for, so nothing changes where there is more.
-/

namespace InlineArrays

namespace Context

variable {c : Context} {members : MemberTable}

/-- An access of the method that is otherwise well formed requires the member. -/
def AsksFor (c : Context) (m : Member) : Prop :=
  ∃ use ∈ c.method.uses, ∃ a, (c.withMembers {}).bind use.1 = .ok a ∧ m ∈ a.requiredMembers

/-- With the other members every access in an expression binds as it did, or fails as it did. -/
abbrev BindsAlike (c : Context) (members : MemberTable) (e : Expr) : Prop :=
  ∀ part ∈ e.parts, (c.withMembers members).bind part = c.bind part

theorem requireMembers_congr {a : Access}
    (h : ∀ m ∈ a.requiredMembers, members.provides m = c.members.provides m) :
    (c.withMembers members).requireMembers a = c.requireMembers a := by
  have hmissing : (c.withMembers members).missing a = c.missing a :=
    congrArg (List.map _) (List.filter_congr fun m hm ↦ congrArg (!·) (h m hm))
  unfold requireMembers
  rw [hmissing]

/-- Members that the method does not ask for have no influence on how its accesses bind. -/
theorem bind_of_asksFor (h : ∀ m, c.AsksFor m → members.provides m = c.members.provides m) {use : Use}
    (huse : use ∈ c.method.uses) : (c.withMembers members).bind use.1 = c.bind use.1 := by
  have hsame : ((c.withMembers members).withMembers {}).bind use.1 =
      (c.withMembers {}).bind use.1 := rfl
  rw [bind_eq_provided, bind_eq_provided (c := c), hsame]
  cases hbind : (c.withMembers {}).bind use.1 with
  | error errors => rfl
  | ok a => exact requireMembers_congr fun m hm ↦ h m ⟨use, huse, a, hbind, hm⟩

/-! ## Definite assignment -/

section

variable (c members)

theorem isSpanTyped_withMembers (e : Expr) :
    (c.withMembers members).isSpanTyped e = c.isSpanTyped e := by
  simp only [isSpanTyped, typeOf_withMembers]
  rfl

theorem settle_withMembers (mode : Access.Mode) (e : Expr) :
    (c.withMembers members).settle mode e = c.settle mode e := by
  simp only [settle, isSpanTyped_withMembers]

mutual

theorem checks_withMembers (mode : Access.Mode) : (e : Expr) →
    (c.withMembers members).checks mode e = c.checks mode e
  | .var .. => by simp only [checks, settle_withMembers]
  | .field _ receiver _ => by
    simp only [checks, settle_withMembers, checks_withMembers _ receiver]
    rfl
  | .element _ receiver args => by
    simp only [checks, isSpanTyped_withMembers, checks_withMembers _ receiver,
      argumentChecks_withMembers args]
  | .span _ operand _ => checks_withMembers .refer operand
  | .fromEnd _ count => checks_withMembers .read count
  | .range _ none none => rfl
  | .range _ (some start) none => by simp only [checks, checks_withMembers .read start]
  | .range _ none (some stop) => by simp only [checks, checks_withMembers .read stop]
  | .range _ (some start) (some stop) => by
    simp only [checks, checks_withMembers .read start, checks_withMembers .read stop]
  | .conditional _ receiver access => by
    simp only [checks, settle_withMembers, checks_withMembers _ receiver,
      checks_withMembers _ access]
  | .call .. | .int .. | .bool .. | .string .. | .default .. | .placeholder .. => rfl
termination_by structural e => e

theorem argumentChecks_withMembers : (args : List (Argument Expr)) →
    (c.withMembers members).argumentChecks args = c.argumentChecks args
  | [] => rfl
  | arg :: args => by
    simp only [argumentChecks, checks_withMembers _ arg.value, argumentChecks_withMembers args]
termination_by structural args => args

end

theorem checked_withMembers (mode : Access.Mode) (e : Expr) :
    (c.withMembers members).checked mode e = c.checked mode e := by
  simp only [checked, checks_withMembers]

theorem argumentEvents_withMembers (arg : Argument Expr) :
    (c.withMembers members).argumentEvents arg = c.argumentEvents arg := by
  simp only [argumentEvents, checked_withMembers, isSpanTyped_withMembers]

theorem statementEvents_withMembers (s : Statement) :
    (c.withMembers members).statementEvents s = c.statementEvents s := by
  have htarget (e : Expr) : (c.withMembers members).targetEvents e = c.targetEvents e := by
    simp only [targetEvents, checked_withMembers]
  have harguments : (c.withMembers members).argumentEvents = c.argumentEvents :=
    funext (argumentEvents_withMembers c members)
  simp only [statementEvents, checked_withMembers, htarget, harguments]
  rfl

/-- Definite assignment asks for no members. -/
theorem assignmentErrors_withMembers :
    (c.withMembers members).assignmentErrors = c.assignmentErrors := by
  have hevents : (c.withMembers members).statementEvents = c.statementEvents :=
    funext (statementEvents_withMembers c members)
  have hstep : Assignments.step (c.withMembers members) = Assignments.step c := by
    funext a event
    cases event <;> rfl
  unfold assignmentErrors
  rw [hevents, hstep]
  rfl

theorem resolves_withMembers : (c.withMembers members).resolves = c.resolves := by
  have hstorage : (c.withMembers members).storageOf? = c.storageOf? := by
    funext e
    exact congrFun (freshStorage_withMembers c members _) e
  unfold resolves typeOf?
  rw [typeWith_withMembers, hstorage]
  rfl

end

/-! ## Indexing and ref safety -/

section

variable {e : Expr} (h : (c.withMembers members).bind e = c.bind e)
include h

theorem bindErrors_withMembers : (c.withMembers members).bindErrors e = c.bindErrors e := by
  unfold bindErrors
  rw [h]

theorem outcome?_withMembers : (c.withMembers members).outcome? e = c.outcome? e := by
  simp only [outcome?, h, storageOf_withMembers, typeOf_withMembers]
  rfl

theorem useError?_withMembers (usage : Usage) :
    (c.withMembers members).useError? e usage = c.useError? e usage := by
  have hadvance : (c.withMembers members).advance e usage = c.advance e usage := by
    funext state
    simp only [advance, outcome?_withMembers h]
    rfl
  unfold useError?
  rw [hadvance]

theorem innateError?_withMembers : (c.withMembers members).innateError? e = c.innateError? e := by
  simp only [innateError?, storageOf_withMembers]
  cases e with
  | element id receiver args =>
    dsimp only
    rw [h]
    rfl
  | _ => rfl

end

end Context

namespace Rejections

variable {c : Context} {members : MemberTable}

theorem checkUse_withMembers (r : Rejections) {use : Use}
    (h : (c.withMembers members).bind use.1 = c.bind use.1) :
    checkUse (c.withMembers members) r use = checkUse c r use := by
  simp only [checkUse, Context.innateError?_withMembers h, Context.useError?_withMembers h]

theorem checkSpanLocal_withMembers (r : Rejections) (s : Statement) :
    r.checkSpanLocal (c.withMembers members) s = r.checkSpanLocal c s := by
  simp only [checkSpanLocal, Context.storageOf_withMembers]
  rfl

theorem checkStatement_withMembers (r : Rejections) {s : Statement}
    (h : ∀ use ∈ s.uses c.method.toBody, (c.withMembers members).bind use.1 = c.bind use.1) :
    checkStatement (c.withMembers members) r s = checkStatement c r s := by
  have huses : (s.usesAfterParts c.method.toBody).foldl (checkUse (c.withMembers members)) r =
      (s.usesAfterParts c.method.toBody).foldl (checkUse c) r :=
    List.foldl_ext _ _ _ fun r use huse ↦
      checkUse_withMembers r (h use (Statement.mem_usesAfterParts.1 huse))
  unfold checkStatement
  rw [checkSpanLocal_withMembers]
  exact congrArg (checkSpanLocal c · s) huses

end Rejections

namespace Context

variable {c : Context} {members : MemberTable}

theorem validate?_withMembers
    (h : ∀ use ∈ c.method.uses, (c.withMembers members).bind use.1 = c.bind use.1) :
    (c.withMembers members).validate? = c.validate? := by
  have hindexing : (c.withMembers members).indexingErrors = c.indexingErrors :=
    List.flatMap_congr fun use huse ↦ bindErrors_withMembers (h use huse)
  have hrefSafety : (c.withMembers members).refSafetyErrors = c.refSafetyErrors :=
    congrArg Rejections.reasons <| List.foldl_ext _ _ _ fun r s hs ↦
      Rejections.checkStatement_withMembers r fun use huse ↦
        h use (List.mem_flatMap.2 ⟨s, hs, huse⟩)
  have hrun : Validator.run (c.withMembers members) = Validator.run c := by
    funext v
    cases v with
    | indexing => exact hindexing
    | refSafety => exact hrefSafety
    | definiteAssignment => exact assignmentErrors_withMembers c members
  unfold validate? validateWith
  rw [resolves_withMembers, hrun]

/-! ## Code -/

section

variable (c members)

theorem storageDemand_withMembers (e : Expr) :
    (c.withMembers members).storageDemand e = c.storageDemand e := by
  simp only [storageDemand, storageOf_withMembers]

theorem ownerDemand_withMembers (e : Expr) :
    (c.withMembers members).ownerDemand e = c.ownerDemand e := by
  simp only [ownerDemand, typeOf_withMembers, storageDemand_withMembers]
  rfl

theorem receiverDemand_withMembers (a : Access) :
    (c.withMembers members).receiverDemand a = c.receiverDemand a := by
  simp only [receiverDemand, storageDemand_withMembers]

theorem accessCode_withMembers (demand : Demand) (a : Access) (receiver : Emit Operand)
    (subscript : Emit (Subscript Operand)) :
    (c.withMembers members).accessCode demand a receiver subscript =
      c.accessCode demand a receiver subscript := by
  simp only [accessCode, receiverSpan, receiverDemand_withMembers]
  rfl

theorem fieldCode_withMembers (demand : Demand) (receiver : Expr) (name : String)
    (code : Emit Operand) :
    (c.withMembers members).fieldCode demand receiver name code =
      c.fieldCode demand receiver name code := by
  simp only [fieldCode, ownerOf, typeOf_withMembers, storageDemand_withMembers]
  rfl

theorem spanCode_withMembers (readonly : Bool) (operand : Expr) (code : Emit Operand) :
    (c.withMembers members).spanCode readonly operand code = c.spanCode readonly operand code := by
  simp only [spanCode, typeOf_withMembers, storageDemand_withMembers]
  rfl

theorem boundBy_withMembers (e : Expr) : (c.withMembers members).boundBy e = c.boundBy e := by
  funext value
  simp only [boundBy, typeOf_withMembers]

theorem indexBy_withMembers (e : Expr) : (c.withMembers members).indexBy e = c.indexBy e := by
  funext value
  simp only [indexBy, typeOf_withMembers]

end

mutual

theorem lower_withMembers (demand : Demand) : (e : Expr) → c.BindsAlike members e →
    (c.withMembers members).lower demand e = c.lower demand e
  | .var .., _ => rfl
  | .field _ receiver name, h => by
    rw [BindsAlike, Expr.parts_field, List.forall_mem_cons] at h
    simp only [lower, ownerDemand_withMembers, fieldCode_withMembers,
      lower_withMembers _ receiver h.2]
  | .element id receiver args, h => by
    rw [BindsAlike, Expr.parts_element, List.forall_mem_cons, List.forall_mem_append] at h
    obtain ⟨hbind, hreceiver, hargs⟩ := h
    simp only [lower, hbind, receiverDemand_withMembers, accessCode_withMembers,
      lower_withMembers _ receiver hreceiver,
      lowerSubscript_withMembers _ args fun arg harg part hpart ↦
        hargs part (List.mem_flatMap.2 ⟨arg, harg, hpart⟩)]
    rfl
  | .call .., _ | .int .., _ | .bool .., _ | .string .., _ | .default .., _
  | .placeholder .., _ => rfl
  | .fromEnd _ count, h => by
    rw [BindsAlike, Expr.parts_fromEnd, List.forall_mem_cons] at h
    simp only [lower, lower_withMembers .value count h.2]
    rfl
  | .range _ start stop, h => by
    rw [BindsAlike, Expr.parts_range, List.forall_mem_cons, List.forall_mem_append] at h
    obtain ⟨-, hstart, hstop⟩ := h
    simp only [lower, lowerIndex_withMembers false start fun b hb ↦ by subst hb; exact hstart,
      lowerIndex_withMembers true stop fun b hb ↦ by subst hb; exact hstop]
    rfl
  | .span _ operand _, h => by
    rw [BindsAlike, Expr.parts_span, List.forall_mem_cons] at h
    simp only [lower, storageDemand_withMembers, spanCode_withMembers,
      lower_withMembers _ operand h.2]
    rfl
  | .conditional _ receiver access, h => by
    rw [BindsAlike, Expr.parts_conditional, List.forall_mem_cons, List.forall_mem_append] at h
    obtain ⟨-, hreceiver, haccess⟩ := h
    simp only [lower, lower_withMembers .value receiver hreceiver,
      lower_withMembers .value access haccess]
    rfl
termination_by structural e => e

theorem lowerSubscript_withMembers (a : Access) : (args : List (Argument Expr)) →
    (∀ arg ∈ args, c.BindsAlike members arg.value) →
    (c.withMembers members).lowerSubscript a args = c.lowerSubscript a args
  | [], _ => rfl
  | [⟨value, name, modifier⟩], h => by
    have hvalue : c.BindsAlike members value := h _ List.mem_cons_self
    have hlower := lower_withMembers .value value hvalue
    cases value with
    | fromEnd id count =>
      rw [BindsAlike, Expr.parts_fromEnd, List.forall_mem_cons] at hvalue
      simp only [lowerSubscript, lower_withMembers .value count hvalue.2]
    | range id start stop =>
      rw [BindsAlike, Expr.parts_range, List.forall_mem_cons, List.forall_mem_append] at hvalue
      obtain ⟨-, hstart, hstop⟩ := hvalue
      simp only [lowerSubscript, lowerBound_withMembers start fun b hb ↦ by subst hb; exact hstart,
        lowerBound_withMembers stop fun b hb ↦ by subst hb; exact hstop]
    | _ => simp only [lowerSubscript, hlower]
  | ⟨value, _, _⟩ :: _ :: _, _ => by cases value <;> rfl
termination_by structural args => args

theorem lowerBound_withMembers : (bound : Option Expr) →
    (∀ b ∈ bound, c.BindsAlike members b) →
    (c.withMembers members).lowerBound bound = c.lowerBound bound
  | none, _ => rfl
  | some bound, h => by
    have hbound : c.BindsAlike members bound := h bound rfl
    have hlower := lower_withMembers .value bound hbound
    cases bound with
    | fromEnd id count =>
      rw [BindsAlike, Expr.parts_fromEnd, List.forall_mem_cons] at hbound
      simp only [lowerBound, lower_withMembers .value count hbound.2]
    | _ => simp only [lowerBound, hlower, boundBy_withMembers]
termination_by structural bound => bound

theorem lowerIndex_withMembers (isStop : Bool) : (bound : Option Expr) →
    (∀ b ∈ bound, c.BindsAlike members b) →
    (c.withMembers members).lowerIndex isStop bound = c.lowerIndex isStop bound
  | none, _ => rfl
  | some bound, h => by
    simp only [lowerIndex, lower_withMembers .value bound (h bound rfl), indexBy_withMembers]
termination_by structural bound => bound

end

theorem lowerInMemory_withMembers {e : Expr} (he : c.BindsAlike members e) :
    (c.withMembers members).lowerInMemory e = c.lowerInMemory e := by
  simp only [lowerInMemory, storageDemand_withMembers, lower_withMembers _ e he]

theorem lowerArgument_withMembers {arg : Argument Expr} (harg : c.BindsAlike members arg.value) :
    (c.withMembers members).lowerArgument arg = c.lowerArgument arg := by
  simp only [lowerArgument, lower_withMembers _ arg.value harg, lowerInMemory_withMembers harg]

theorem lowerArguments_withMembers {args : List (Argument Expr)}
    (h : ∀ arg ∈ args, c.BindsAlike members arg.value) :
    args.mapM (c.withMembers members).lowerArgument = args.mapM c.lowerArgument := by
  induction args with
  | nil => rfl
  | cons arg args ih =>
    obtain ⟨harg, hargs⟩ := List.forall_mem_cons.1 h
    rw [List.mapM_cons, List.mapM_cons, lowerArgument_withMembers harg, ih hargs]

section

variable (h : ∀ use ∈ c.method.uses, (c.withMembers members).bind use.1 = c.bind use.1)
include h

theorem bindsAlike_operand {s : Statement} (hs : s ∈ c.method.statements) (operand : Use)
    (hoperand : operand ∈ s.operands c.method.toBody) : c.BindsAlike members operand.1 := by
  intro part hpart
  rw [← Expr.map_fst_uses operand.2] at hpart
  obtain ⟨use, huse, rfl⟩ := List.mem_map.1 hpart
  exact h use (List.mem_flatMap.2 ⟨s, hs, List.mem_flatMap.2 ⟨operand, hoperand, huse⟩⟩)

theorem lowerStatement_withMembers {s : Statement} (hs : s ∈ c.method.statements) :
    (c.withMembers members).lowerStatement s = c.lowerStatement s := by
  have hoperand := bindsAlike_operand h hs
  cases s with
  | expression value =>
    have hvalue := hoperand (value, .read) List.mem_cons_self
    simp only [lowerStatement, lower_withMembers _ value hvalue]
  | assign target value =>
    have htarget := hoperand (target, .assignTarget) List.mem_cons_self
    have hvalue := hoperand (value, .read) (List.mem_cons_of_mem _ List.mem_cons_self)
    simp only [lowerStatement, lower_withMembers _ target htarget, lower_withMembers _ value hvalue]
  | compound target op value =>
    have htarget := hoperand (target, .compoundTarget) List.mem_cons_self
    have hvalue := hoperand (value, .read) (List.mem_cons_of_mem _ List.mem_cons_self)
    simp only [lowerStatement, lower_withMembers _ target htarget, lower_withMembers _ value hvalue]
  | refLocal bound init =>
    have hinit := hoperand (init, _) List.mem_cons_self
    simp only [lowerStatement, lowerInMemory_withMembers hinit]
    rfl
  | call callee args =>
    have hargs : ∀ arg ∈ args, c.BindsAlike members arg.value := fun arg harg ↦
      hoperand (arg.value, .argument arg.modifier) (List.mem_map.2 ⟨arg, harg, rfl⟩)
    simp only [lowerStatement, lowerArguments_withMembers hargs]
  | ret value =>
    cases value with
    | none => rfl
    | some value =>
      have hvalue := hoperand (value, .returned c.method.returns) List.mem_cons_self
      simp only [lowerStatement, lower_withMembers _ value hvalue]
      rfl

theorem lowerStatements_withMembers {l : List (Statement × SourceSpan)}
    (hl : ∀ line ∈ l, line.1 ∈ c.method.statements) :
    (c.withMembers members).lowerStatements l = c.lowerStatements l := by
  induction l with
  | nil => rfl
  | cons line l ih =>
    obtain ⟨hline, hl⟩ := List.forall_mem_cons.1 hl
    simp only [lowerStatements, lowerStatement_withMembers h hline, ih hl]

theorem routine_withMembers : (c.withMembers members).routine = c.routine := by
  have hcode : (c.withMembers members).lowerStatements
      (c.method.statements.zip c.method.listing.statements) =
        c.lowerStatements (c.method.statements.zip c.method.listing.statements) :=
    lowerStatements_withMembers h fun line hline ↦ (List.of_mem_zip hline).1
  have hbody : (c.withMembers members).lowerBody = c.lowerBody := by
    have hmethod : (c.withMembers members).method = c.method := rfl
    rw [lowerBody, lowerBody, hmethod, hcode]
    rfl
  unfold routine
  rw [validate?_withMembers h, hbody]
  rfl

end

/-- A clean method is provided with whatever it asks for. -/
theorem provides_of_asksFor (h : c.validate? = some []) {m : Member} (hm : c.AsksFor m) :
    c.members.provides m := by
  obtain ⟨use, huse, a, hbind, hm⟩ := hm
  obtain ⟨-, hreports⟩ := Option.ite_some_none_eq_some.1 h
  have hindexing : c.indexingErrors = [] := run_eq_nil (v := .indexing) hreports (by decide)
  have herrors : c.bindErrors use.1 = [] := List.flatMap_eq_nil_iff.1 hindexing use huse
  obtain ⟨id, receiver, args, he⟩ : ∃ id receiver args, use.1 = .element id receiver args := by
    cases he : use.1 with
    | element id receiver args => exact ⟨id, receiver, args, rfl⟩
    | _ =>
      rw [he] at hbind
      cases hbind
  rw [he] at hbind herrors
  have hrequire : c.bind (.element id receiver args) = c.requireMembers a := by
    rw [bind_eq_provided, hbind]
    rfl
  have hmissing : c.missing a = [] := by
    cases hmissing : c.missing a with
    | nil => rfl
    | cons error errors =>
      rw [requireMembers, hmissing] at hrequire
      simp [bindErrors, Expr.isElement, hrequire] at herrors
  have hnone := List.filter_eq_nil_iff.1 (List.map_eq_nil_iff.1 hmissing) m hm
  simpa using hnone

/-- Two environments that answer alike what a method asks for report the same of it and lower it to
the same code.  In particular a clean method stays clean, and its code the same, where there are more
members. -/
theorem unusedMembers_invisible (c : Context) (members : MemberTable) :
    ((∀ m, c.AsksFor m → members.provides m = c.members.provides m) →
      (c.withMembers members).validate? = c.validate? ∧
        (c.withMembers members).routine = c.routine) ∧
    (c.validate? = some [] → (∀ m, c.members.provides m → members.provides m) →
      (c.withMembers members).validate? = some [] ∧
        (c.withMembers members).routine = c.routine) := by
  have halike (h : ∀ m, c.AsksFor m → members.provides m = c.members.provides m) :
      (c.withMembers members).validate? = c.validate? ∧
        (c.withMembers members).routine = c.routine :=
    ⟨validate?_withMembers fun use huse ↦ bind_of_asksFor h huse,
      routine_withMembers fun use huse ↦ bind_of_asksFor h huse⟩
  refine ⟨halike, fun hclean hmore ↦ ?_⟩
  rw [← hclean]
  refine halike fun m hm ↦ ?_
  have hprovides := provides_of_asksFor hclean hm
  rw [hprovides, hmore m hprovides]

end Context

/-- A method that passes a slice of a buffer on. -/
def passesSlice (members : MemberTable) : Context :=
  let buffer : Expr := .var 0 0
  let part : Expr := .element 2 buffer [{ value := .range 1 none none }]
  let body : Body :=
    { name := "Main"
      exprs := #[buffer, .range 1 none none, part]
      vars := #[{ name := "b", kind := .parameter .ref, type := TypeTable.builtin.length }]
      statements := [.call "Use" [{ value := part }]] }
  ⟨bufferTypes, members, body.finish⟩

/-- The slice calls for no other members, so that those of read-only spans may be there or not. -/
theorem asksFor_passesSlice {members : MemberTable} {m : Member} (h : (passesSlice members).AsksFor m) :
    m ∈ [Member.arrayAsSpan, .spanLength, .spanSlice] := by
  obtain ⟨use, huse, a, hbind, hm⟩ := h
  have hprovided : (passesSlice members).withMembers {} = passesSlice {} := rfl
  have huses : (passesSlice members).method.uses = (passesSlice {}).method.uses := rfl
  rw [hprovided] at hbind
  rw [huses] at huse
  have hall : ((passesSlice {}).method.uses.all fun use ↦
      ((passesSlice {}).bind use.1).toOption.all fun a ↦
        a.requiredMembers == [.arrayAsSpan, .spanLength, .spanSlice]) = true := by
    cbv
  have hrequired := List.all_eq_true.1 hall use huse
  rw [hbind] at hrequired
  have hmembers : a.requiredMembers = [.arrayAsSpan, .spanLength, .spanSlice] := by
    simpa [Except.toOption] using hrequired
  rwa [hmembers] at hm

theorem passesSlice_unusedMembers :
    let lacking : MemberTable := ({} : MemberTable).without .spanSlice
    let needed : MemberTable := ⟨[.arrayAsSpan, .spanLength, .spanSlice].contains⟩
    (∀ m, (passesSlice lacking).AsksFor m →
      (lacking.without .spanGetItem).provides m = lacking.provides m) ∧
    ((passesSlice (lacking.without .spanGetItem)).validate?.map (·.map (·.violation))) =
      some [.missingRequiredMember "System.Span<T>.Slice"] ∧
    (passesSlice needed).validate? = some [] ∧ (passesSlice {}).validate? = some [] ∧
    (passesSlice {}).routine = (passesSlice needed).routine := by
  intro lacking needed
  have hasks : ∀ m, (passesSlice lacking).AsksFor m →
      (lacking.without .spanGetItem).provides m = lacking.provides m := by
    intro m hm
    have hne : m ≠ .spanGetItem := by
      rintro rfl
      exact absurd (asksFor_passesSlice hm) (by decide)
    simp [MemberTable.without, hne]
  obtain ⟨hsame, -⟩ := Context.unusedMembers_invisible (passesSlice lacking)
    (lacking.without .spanGetItem)
  have hreported : (passesSlice (lacking.without .spanGetItem)).validate? =
      (passesSlice lacking).validate? := (hsame hasks).1
  have hclean : (passesSlice needed).validate? = some [] := by cbv
  obtain ⟨-, hmore⟩ := Context.unusedMembers_invisible (passesSlice needed) {}
  obtain ⟨hstays, hcode⟩ := hmore hclean fun _ _ ↦ rfl
  refine ⟨hasks, ?_, hclean, hstays, hcode⟩
  rw [hreported]
  cbv

end InlineArrays
