import InlineArrays.Proofs.Code.Addresses
import InlineArrays.Proofs.Scenario.Build
import InlineArrays.Proofs.Validation.Accepted
import Mathlib

/-!
# Misplaced spans

Validation and emission judge differently what has an address.  A span that no variable holds counts
as stored, since the storage it is of is, but there is no code for its address.  Validation lets it
stand where an address is wanted in three places: returned by reference, passed as an `in` argument,
and as what a field is taken of.  Everywhere else the two agree.
-/

namespace InlineArrays

namespace Usage

/-- The uses that want the address of what is used, and nothing in its place. -/
def takesAddress : Usage → Bool
  | .assignTarget | .compoundTarget | .argument .ref | .argument .output | .refLocalInit _ => true
  | _ => false

theorem isChecked_of_takesAddress {usage : Usage} (h : usage.takesAddress) : usage.isChecked := by
  cases usage with
  | argument modifier => cases modifier <;> first | rfl | cases h
  | assignTarget | compoundTarget | refLocalInit => rfl
  | read | receiver | returned => cases h

end Usage

theorem Expr.mem_uses_self (usage : Usage) (e : Expr) : (e, usage) ∈ e.uses usage := by
  unfold uses
  cases e <;> simp

namespace Context

variable {c : Context}

/-- Somewhere an address is wanted of a span that no variable holds. -/
def Misplaces (c : Context) : Prop :=
  (c.method.returns.isByRef ∧
    ∃ value, .ret (some value) ∈ c.method.statements ∧ c.addressable value = false) ∨
  (∃ callee args, .call callee args ∈ c.method.statements ∧
    ∃ arg ∈ args, arg.modifier = .input ∧ c.detached arg.value) ∨
  ∃ use ∈ c.method.uses, ∃ id receiver name, use.1 = .field id receiver name ∧
    c.types.isClass (c.typeOf receiver) = false ∧ c.detached receiver

/-- What counts as stored has an address, or is a span. -/
theorem IsStored.addressable_or_isSpan {e : Expr} (h : c.IsStored e)
    (helement : e.isElement = false) : c.addressable e ∨ c.types.isSpan (c.typeOf e) := by
  cases e with
  | var | field => exact .inl rfl
  | element => cases helement
  | call id callee returns t => exact h.call
  | default id t => exact .inr h.default
  | span id operand readonly => exact .inr h.span
  | int | bool | string | fromEnd | range | conditional | placeholder =>
    exact absurd h (not_isStored fun _ _ ↦ rfl)

theorem isStored_of_storageDemand {e : Expr} (h : c.storageDemand e = .address) : c.IsStored e := by
  unfold storageDemand at h
  split at h
  · rename_i hstored
    rw [Bool.and_eq_true] at hstored
    exact hstored.2
  · cases h

/-- An inline array that counts as stored has an address. -/
theorem detached_of_array {e : Expr} (hc : c.types.WellFormed)
    (harray : (c.types.array? (c.typeOf e)).isSome) : c.detached e = false := by
  refine detached_eq_false fun hdemand ↦ ?_
  have hstored := isStored_of_storageDemand hdemand
  cases helement : e.isElement with
  | false =>
    refine (hstored.addressable_or_isSpan helement).resolve_right fun hspan ↦ ?_
    unfold TypeTable.isSpan TypeTable.spanParts? at hspan
    unfold TypeTable.array? at harray
    split at harray
    · rename_i hget
      rw [hget] at hspan
      cases hspan
    · cases harray
  | true =>
    cases e with
    | element id receiver args =>
      cases hbind : c.bind (.element id receiver args) with
      | error errors => simp only [addressable, hbind]
      | ok a =>
        cases hslice : a.isSlice with
        | false => simp only [addressable, hbind, hslice, Bool.not_false]
        | true =>
          rw [array?_typeOf_slice hc hbind hslice] at harray
          cases harray
    | _ => cases helement

/-- What is indexed as an inline array has the type of one. -/
theorem array?_of_indexed {e : Expr} {p : Projection} (h : c.indexed e = .ok (.array p)) :
    (c.types.array? (c.typeOf e)).isSome := by
  unfold indexed at h
  unfold TypeTable.array?
  split at h
  · rename_i type hget
    rw [hget]
    rfl
  · cases h
  · cases h
  · cases h

/-- Without a misplaced receiver of a field, what is used refers to nothing detached. -/
theorem attached_of_uses {e : Expr} (hc : c.types.WellFormed) {usage : Usage}
    (huses : ∀ use ∈ e.uses usage, use ∈ c.method.uses) (h : ¬ c.Misplaces) : c.Attached e := by
  intro part hpart target htarget
  rw [← Expr.map_fst_uses usage] at hpart
  obtain ⟨use, huse, rfl⟩ := List.mem_map.1 hpart
  cases hdetached : c.detached target with
  | false => rfl
  | true =>
    unfold refersTo? at htarget
    split at htarget
    · rename_i id receiver name hfield
      split at htarget
      · cases htarget
      · rename_i hclass
        cases htarget
        exact absurd (.inr (.inr ⟨use, huses use huse, id, target, name, hfield,
          by simpa using hclass, hdetached⟩)) h
    · rename_i id receiver args _
      split at htarget
      · rename_i a hbind
        obtain ⟨-, -, hindexed, -⟩ := bind_eq_ok hbind
        split at htarget
        · rename_i p harray
          cases htarget
          rw [harray] at hindexed
          rw [detached_of_array hc (array?_of_indexed hindexed)] at hdetached
          cases hdetached
        · cases htarget
      · cases htarget
    · split at htarget
      · rename_i harray
        cases htarget
        rw [detached_of_array hc harray] at hdetached
        cases hdetached
      · cases htarget
    · cases htarget

/-! ## Accepted uses -/

theorem objection?_of_useError {e : Expr} {usage : Usage} {o : Outcome}
    (h : c.useError? e usage = none) (houtcome : c.outcome? e = some o) :
    c.objection? e usage o = none := by
  unfold useError? at h
  simp only [advance, houtcome] at h
  cases hobjection : c.objection? e usage o with
  | none => rfl
  | some violation =>
    rw [hobjection] at h
    cases h

theorem shape_of_objection {e : Expr} {usage : Usage} {o : Outcome}
    (h : c.objection? e usage o = none) (husage : usage.takesAddress) :
    o.shape = .ref ∨ e.isVariable := by
  cases hshape : o.shape with
  | ref => exact .inl rfl
  | span =>
    right
    cases usage with
    | assignTarget | compoundTarget | refLocalInit => simpa [objection?, hshape] using h
    | argument modifier => cases modifier <;> simp_all [objection?, Usage.takesAddress]
    | read | receiver | returned => cases husage
  | value =>
    exfalso
    cases usage with
    | assignTarget | compoundTarget | refLocalInit => simp [objection?, hshape] at h
    | argument modifier => cases modifier <;> simp_all [objection?, Usage.takesAddress]
    | read | receiver | returned => cases husage

/-- What yields a reference has an address. -/
theorem addressable_of_shape {e : Expr}
    (h : ∀ o, c.outcome? e = some o → o.shape = .ref) : c.addressable e := by
  cases helement : e.isElement with
  | true =>
    cases e with
    | element id receiver args =>
      cases hbind : c.bind (.element id receiver args) with
      | error errors => simp only [addressable, hbind]
      | ok a =>
        have hshape := h _ (by simp only [outcome?, helement, hbind, if_true]; rfl)
        cases hslice : a.isSlice with
        | false => simp only [addressable, hbind, hslice, Bool.not_false]
        | true => simp [shapeOf, hslice] at hshape
    | _ => cases helement
  | false =>
    have hshape := h _ (by simp only [outcome?, helement]; rfl)
    unfold shapeOf at hshape
    split at hshape
    · cases hshape
    · rename_i hspan
      split at hshape
      · have hstored : c.IsStored e := ‹_›
        exact (hstored.addressable_or_isSpan helement).resolve_right hspan
      · cases hshape

/-- Validation lets only what has an address be used where nothing stands in for one. -/
theorem addressable_of_accepts {e : Expr} {usage : Usage} (h : c.AcceptsUse (e, usage))
    (husage : usage.takesAddress) : c.addressable e := by
  have herror : c.useError? e usage = none := h.useError (Usage.isChecked_of_takesAddress husage)
  cases hvariable : e.isVariable with
  | true =>
    cases e with
    | var => rfl
    | _ => cases hvariable
  | false =>
    refine addressable_of_shape fun o houtcome ↦ ?_
    have hshape := shape_of_objection (objection?_of_useError herror houtcome) husage
    exact hshape.resolve_right (by simp [hvariable])

/-! ## Statements -/

theorem mem_uses_of_operand {s : Statement} {e : Expr} {usage : Usage}
    (hs : s ∈ c.method.statements) (h : (e, usage) ∈ s.operands c.method.toBody) :
    ∀ use ∈ e.uses usage, use ∈ c.method.uses := fun _ huse ↦
  List.mem_flatMap.2 ⟨s, hs, List.mem_flatMap.2 ⟨(e, usage), h, huse⟩⟩

theorem lowerInMemory_addressed {e : Expr} (hdetached : c.detached e = false)
    (h : c.Attached e) : Addressed (c.lowerInMemory e) := by
  refine (lower_addressed _ e (fun hdemand ↦ ?_) h).bind fun _ ↦ .inMemory
  simpa [detached, hdemand] using hdetached

/-- A statement of an accepted method lacks no address, if nothing is misplaced. -/
theorem lowerStatement_addressed {s : Statement} (hc : c.types.WellFormed) (haccepted : c.Accepted)
    (hplaced : ¬ c.Misplaces) (hs : s ∈ c.method.statements) : Addressed (c.lowerStatement s) := by
  have hattached {e : Expr} {usage : Usage} (h : (e, usage) ∈ s.operands c.method.toBody) :
      c.Attached e := attached_of_uses hc (mem_uses_of_operand hs h) hplaced
  have haddressable {e : Expr} {usage : Usage} (h : (e, usage) ∈ s.operands c.method.toBody)
      (husage : usage.takesAddress) : c.addressable e :=
    addressable_of_accepts
      (haccepted.uses _ (mem_uses_of_operand hs h _ (e.mem_uses_self usage))) husage
  have hvalue {e : Expr} {usage : Usage} (h : (e, usage) ∈ s.operands c.method.toBody) :
      Addressed (c.lower .value e) := lower_addressed .value e (fun h ↦ by cases h) (hattached h)
  have haddress {e : Expr} {usage : Usage} (h : (e, usage) ∈ s.operands c.method.toBody)
      (husage : usage.takesAddress) : Addressed (c.lower .address e) :=
    lower_addressed .address e (fun _ ↦ haddressable h husage) (hattached h)
  cases s with
  | expression value =>
    have hread : Addressed (c.lower .value value) := hvalue (List.mem_singleton.2 rfl)
    exact hread.bind fun _ ↦ .pure
  | assign target value =>
    have htarget : Addressed (c.lower .address target) := haddress List.mem_cons_self rfl
    have hread : Addressed (c.lower .value value) :=
      hvalue (List.mem_cons_of_mem _ List.mem_cons_self)
    exact htarget.bind fun _ ↦ hread.bind fun _ ↦ .emit
  | compound target op value =>
    have htarget : Addressed (c.lower .address target) := haddress List.mem_cons_self rfl
    have hread : Addressed (c.lower .value value) :=
      hvalue (List.mem_cons_of_mem _ List.mem_cons_self)
    exact htarget.bind fun _ ↦ Addressed.define.bind fun _ ↦ hread.bind fun _ ↦
      Addressed.define.bind fun _ ↦ .emit
  | refLocal bound init =>
    have hdetached : c.detached init = false :=
      detached_eq_false fun _ ↦ haddressable (List.mem_singleton.2 rfl) rfl
    have hinit : Addressed (c.lowerInMemory init) :=
      lowerInMemory_addressed hdetached (hattached (List.mem_singleton.2 rfl))
    exact hinit.bind fun _ ↦ .emit
  | call callee args =>
    refine (Addressed.mapM fun arg harg ↦ ?_).bind fun _ ↦ .emit
    have hmem : (arg.value, .argument arg.modifier) ∈
        (Statement.call callee args).operands c.method.toBody :=
      List.mem_map.2 ⟨arg, harg, rfl⟩
    unfold lowerArgument
    cases hmodifier : arg.modifier with
    | none => exact hvalue hmem
    | ref | output => exact haddress hmem (by rw [hmodifier]; rfl)
    | input =>
      refine lowerInMemory_addressed ?_ (hattached hmem)
      cases hdetached : c.detached arg.value with
      | false => rfl
      | true => exact absurd (.inr (.inl ⟨callee, args, hs, arg, harg, hmodifier, hdetached⟩)) hplaced
  | ret value =>
    cases value with
    | none => exact .of_ok fun _ ↦ ⟨_, _, rfl⟩
    | some value =>
      have hlowered : Addressed
          (c.lower (if c.method.returns.isByRef then .address else .value) value) := by
        refine lower_addressed _ value (fun hdemand ↦ ?_)
          (hattached (List.mem_singleton.2 rfl))
        have hreturns : c.method.returns.isByRef := by
          by_cases h : c.method.returns.isByRef
          · exact h
          · rw [if_neg h] at hdemand
            cases hdemand
        cases haddress : c.addressable value with
        | true => rfl
        | false => exact absurd (.inl ⟨hreturns, value, hs, haddress⟩) hplaced
      exact hlowered.bind fun _ ↦ .emit

theorem lowerStatements_addressed {statements : List (Statement × SourceSpan)}
    (h : ∀ s ∈ statements, Addressed (c.lowerStatement s.1)) :
    Addressed (c.lowerStatements statements) := by
  induction statements with
  | nil => exact .pure
  | cons first rest ih =>
    have hspan : Addressed (modify fun s ↦ { s with span := some first.2 } : Emit Unit) :=
      .of_ok fun _ ↦ ⟨_, _, rfl⟩
    exact hspan.bind fun _ ↦ (h first List.mem_cons_self).bind fun _ ↦
      ih fun s hs ↦ h s (List.mem_cons_of_mem _ hs)

/-! ## What was emitted -/

theorem succeeds_mapM {α β : Type} {f : α → Emit β} {l : List α} (h : Succeeds (l.mapM f)) :
    ∀ a ∈ l, Succeeds (f a) := by
  induction l with
  | nil => nofun
  | cons a l ih =>
    rw [List.mapM_cons] at h
    obtain ⟨hfirst, _, h⟩ := h.bind
    intro b hb
    rcases List.mem_cons.1 hb with rfl | hb
    · exact hfirst
    · exact ih h.bind.1 b hb

theorem succeeds_statements {statements : List (Statement × SourceSpan)}
    (h : Succeeds (c.lowerStatements statements)) :
    ∀ s ∈ statements, Succeeds (c.lowerStatement s.1) := by
  induction statements with
  | nil => nofun
  | cons first rest ih =>
    obtain ⟨-, _, h⟩ := h.bind
    obtain ⟨hfirst, _, h⟩ := h.bind
    intro s hs
    rcases List.mem_cons.1 hs with rfl | hs
    · exact hfirst
    · exact ih h s hs

theorem lowerInMemory_succeeds {e : Expr} (h : Succeeds (c.lowerInMemory e)) :
    c.detached e = false ∧ c.Attached e := by
  obtain ⟨haddressable, hattached⟩ := attached_of_succeeds _ e h.bind.1
  exact ⟨detached_eq_false haddressable, hattached⟩

theorem lowerArgument_succeeds {arg : Argument Expr} (h : Succeeds (c.lowerArgument arg)) :
    (arg.modifier = .input → c.detached arg.value = false) ∧ c.Attached arg.value := by
  unfold lowerArgument at h
  cases hmodifier : arg.modifier with
  | none | ref | output =>
    rw [hmodifier] at h
    exact ⟨nofun, (attached_of_succeeds _ arg.value h).2⟩
  | input =>
    rw [hmodifier] at h
    exact ⟨fun _ ↦ (lowerInMemory_succeeds h).1, (lowerInMemory_succeeds h).2⟩

/-- All that a statement is made of is attached once its code is emitted. -/
theorem attached_of_statement {s : Statement} (h : Succeeds (c.lowerStatement s)) :
    ∀ operand ∈ s.operands c.method.toBody, c.Attached operand.1 := by
  intro operand hoperand
  cases s with
  | expression value =>
    obtain rfl := List.mem_singleton.1 hoperand
    exact (attached_of_succeeds .value value h.bind.1).2
  | assign target value =>
    obtain ⟨htarget, _, h⟩ := h.bind
    rcases List.mem_cons.1 hoperand with rfl | hoperand
    · exact (attached_of_succeeds .address target htarget).2
    · obtain rfl := List.mem_singleton.1 hoperand
      exact (attached_of_succeeds .value value h.bind.1).2
  | compound target op value =>
    obtain ⟨htarget, _, h⟩ := h.bind
    obtain ⟨-, _, h⟩ := h.bind
    rcases List.mem_cons.1 hoperand with rfl | hoperand
    · exact (attached_of_succeeds .address target htarget).2
    · obtain rfl := List.mem_singleton.1 hoperand
      exact (attached_of_succeeds .value value h.bind.1).2
  | refLocal bound init =>
    obtain rfl := List.mem_singleton.1 hoperand
    exact (lowerInMemory_succeeds h.bind.1).2
  | call callee args =>
    obtain ⟨arg, harg, rfl⟩ := List.mem_map.1 hoperand
    exact (lowerArgument_succeeds (succeeds_mapM h.bind.1 arg harg)).2
  | ret value =>
    cases value with
    | none => cases hoperand
    | some value =>
      obtain rfl := List.mem_singleton.1 hoperand
      exact (attached_of_succeeds _ value h.bind.1).2

/-- Where all statements have code, nothing is misplaced. -/
theorem not_misplaces (h : ∀ s ∈ c.method.statements, Succeeds (c.lowerStatement s)) :
    ¬ c.Misplaces := by
  rintro (⟨hreturns, value, hs, haddress⟩ | ⟨callee, args, hs, arg, harg, hmodifier, hdetached⟩ |
    ⟨use, huse, id, receiver, name, hfield, hclass, hdetached⟩)
  · have hlowered := (h _ hs).bind.1
    rw [if_pos hreturns] at hlowered
    rw [(attached_of_succeeds .address value hlowered).1 rfl] at haddress
    cases haddress
  · have hlowered := lowerArgument_succeeds (succeeds_mapM (h _ hs).bind.1 arg harg)
    rw [hlowered.1 hmodifier] at hdetached
    cases hdetached
  · obtain ⟨s, hs, huse⟩ := List.mem_flatMap.1 huse
    obtain ⟨operand, hoperand, huse⟩ := List.mem_flatMap.1 huse
    have hpart : use.1 ∈ operand.1.parts := by
      rw [← Expr.map_fst_uses operand.2]
      exact List.mem_map_of_mem huse
    have hreceiver := attached_of_statement (h s hs) operand hoperand use.1 hpart receiver
      (by simp [hfield, refersTo?, hclass])
    rw [hreceiver] at hdetached
    cases hdetached

theorem succeeds_of_lowerBody {r : Routine} (h : c.lowerBody = .ok r) :
    ∀ s ∈ c.method.statements, Succeeds (c.lowerStatement s) := by
  obtain ⟨t, hrun, -⟩ := lowerBody_eq_ok h
  have hall := succeeds_statements ⟨_, _, _, hrun⟩
  intro s hs
  rw [← c.map_fst_listed] at hs
  obtain ⟨⟨s, span⟩, hmem, rfl⟩ := List.mem_map.1 hs
  exact hall _ hmem

theorem lowerBody_addressed (h : ∀ s ∈ c.method.statements, Addressed (c.lowerStatement s))
    (text : String) : c.lowerBody ≠ .error (.notAddressable text) := by
  unfold lowerBody
  split
  · rename_i e t hrun
    rintro ⟨⟩
    refine lowerStatements_addressed (fun s hs ↦ h _ ?_) ⟨_, text, t, hrun⟩
    exact (List.of_mem_zip hs).1
  · nofun

end Context

/-- An accepted method lacks an address in its code only where a span that no variable holds is
misplaced, and it has no code where one is. -/
theorem Program.routine_addressed {s : Scenario} {p : Program} {members : MemberTable} {m : Method}
    (hbuild : s.build = .ok p) (haccepted : (p.context members m).validate? = some []) :
    (¬ (p.context members m).Misplaces →
      ∀ text, (p.context members m).routine ≠ .error (.notAddressable text)) ∧
    ((p.context members m).Misplaces → ∃ e, (p.context members m).routine = .error e) := by
  have htypes : p.types.WellFormed := Scenario.build_wellFormed hbuild
  have hroutine : (p.context members m).routine = (p.context members m).lowerBody := by
    rw [Context.routine, haccepted]
  rw [hroutine]
  constructor
  · intro hplaced
    exact Context.lowerBody_addressed fun s hs ↦
      Context.lowerStatement_addressed htypes (Context.accepted_of_validate haccepted) hplaced hs
  · intro hmisplaces
    cases hbody : (p.context members m).lowerBody with
    | error e => exact ⟨e, rfl⟩
    | ok r => exact absurd hmisplaces (Context.not_misplaces (Context.succeeds_of_lowerBody hbody))

/-- Passes a span conversion as an `in` argument. -/
def convertedArgument : Scenario where
  options := {}
  arrays := [⟨"Buffer2", "int", 2⟩]
  structs := []
  methods :=
    [{ name := "Main", returns := .void, returnType := none, owner := none, parameters := []
       locals := [⟨"b", "Buffer2", true⟩]
       body := [.call "Use" [{ value := .span (.path "b") false, modifier := .input }]] }]
  inputs := []
  expect := none

/-- The method of `convertedArgument`. -/
def passesConversion : Method :=
  let buffer : Expr := .var 0 0
  let span : Expr := .span 1 buffer false
  Body.finish
    { name := "Main", exprs := #[buffer, span]
      vars := #[{ name := "b", kind := .stackLocal, type := 7 }]
      statements := [.call "Use" [{ value := span, modifier := .input }]] }

def convertedArgumentProgram : Program :=
  ⟨⟨[.array ⟨"Buffer2", TypeTable.int, 2⟩, .span TypeTable.int false, .span TypeTable.int true]⟩,
    [passesConversion]⟩

theorem build_convertedArgument : convertedArgument.build = .ok convertedArgumentProgram := by
  cbv

theorem validate?_passesConversion :
    (convertedArgumentProgram.context {} passesConversion).validate? = some [] := by
  cbv

/-- Validation accepts the argument, and there is no code for its address. -/
theorem passesConversion_notAddressable :
    ∃ p, convertedArgument.build = .ok p ∧ ∃ m ∈ p.methods, (p.context {} m).validate? = some [] ∧
      (p.context {} m).routine = .error (.notAddressable "(Span)b") :=
  ⟨_, build_convertedArgument, _, List.mem_singleton.2 rfl, validate?_passesConversion, by cbv⟩

/-- The argument is a misplaced span, so the method has no code. -/
theorem passesConversion_misplaces :
    convertedArgument.build = .ok convertedArgumentProgram ∧
    (convertedArgumentProgram.context {} passesConversion).validate? = some [] ∧
    ∃ e, (convertedArgumentProgram.context {} passesConversion).routine = .error e := by
  refine ⟨build_convertedArgument, validate?_passesConversion, ?_⟩
  refine (Program.routine_addressed build_convertedArgument validate?_passesConversion).2 ?_
  refine .inr (.inl ⟨"Use", _, List.mem_singleton.2 rfl, _, List.mem_singleton.2 rfl, rfl, ?_⟩)
  cbv

end InlineArrays
