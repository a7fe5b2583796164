import InlineArrays.Proofs.Resolution.Structure
import InlineArrays.Proofs.Scenario.Recorded
import Mathlib

/-!
# Questions that lead back to themselves

To type a slice of an inline array is to ask for the storage of its receiver.  That question is asked
afresh, so the chain of locals that led to it is forgotten.  `Asks` relates the question about one
expression to those asked in answering it; a method resolves exactly if no question leads back to
itself, and a question that does has no answer however long it is pursued.
-/

namespace InlineArrays

namespace Context

variable {c : Context}

/-- Typing the expression asks for the storage of `asked`. -/
inductive TypingAsks (c : Context) (asked : Expr) : Expr → Prop
  | field {id : ExprId} {receiver : Expr} {name : String} :
    TypingAsks c asked receiver → TypingAsks c asked (.field id receiver name)
  | receiver {id : ExprId} {receiver : Expr} {args : List (Argument Expr)} :
    TypingAsks c asked receiver → TypingAsks c asked (.element id receiver args)
  | argument {id : ExprId} {receiver : Expr} {arg : Argument Expr} {args : List (Argument Expr)} :
    TypingAsks c asked arg.value → TypingAsks c asked (.element id receiver (arg :: args))
  | slice {id : ExprId} {arg : Argument Expr} {args : List (Argument Expr)} {type : ArrayType} :
    c.types.get (c.typeOf asked) = .array type → c.typeOf arg.value = TypeTable.range →
      TypingAsks c asked (.element id asked (arg :: args))
  | span {id : ExprId} {operand : Expr} {readonly : Bool} :
    TypingAsks c asked operand → TypingAsks c asked (.span id operand readonly)
  | conditional {id : ExprId} {receiver access : Expr} :
    TypingAsks c asked access → TypingAsks c asked (.conditional id receiver access)
  | placeholder {id : ExprId} {receiver : Expr} :
    TypingAsks c asked receiver → TypingAsks c asked (.placeholder id receiver)

/-- The part whose storage that of an expression is made of. -/
def carrier? (c : Context) : Expr → Option Expr
  | .field id receiver name =>
    if c.types.isSpan (c.typeOf (.field id receiver name)) then none
    else
      match c.types.struct? (c.typeOf receiver) with
      | some type => if type.isClass then none else some receiver
      | none => none
  | .element _ receiver _ =>
    match c.types.get (c.typeOf receiver) with
    | .array _ | .span .. => some receiver
    | _ => none
  | .span id operand readonly =>
    if c.types.isSpan (c.typeOf (.span id operand readonly)) then some operand else none
  | _ => none

/-- The value whose storage that of a local is made of. -/
def followed? (c : Context) (v : VariableId) : Option Expr :=
  match c.types.spanParts? (c.method.var v).type, (c.method.var v).kind with
  | none, .refLocal _ => c.method.refLocalInit? v
  | some _, .stackLocal => c.method.firstAssignment? v
  | _, _ => none

/-- While the locals in `active` are being resolved, the storage of the expression depends on that of
`asked`, asked for afresh. -/
inductive StorageAsks (c : Context) (asked : Expr) : List VariableId → Expr → Prop
  | typing {active : List VariableId} {e : Expr} :
    TypingAsks c asked e → StorageAsks c asked active e
  | carrier {active : List VariableId} {e part : Expr} :
    c.carrier? e = some part → StorageAsks c asked active part → StorageAsks c asked active e
  | followed {active : List VariableId} {id : ExprId} {v : VariableId} {init : Expr} :
    c.followed? v = some init → v ∉ active → StorageAsks c asked (v :: active) init →
      StorageAsks c asked active (.var id v)

/-- Answering what the storage of `e` is takes the storage of `asked`. -/
def Asks (c : Context) (e asked : Expr) : Prop := c.StorageAsks asked [] e

/-- The question about the storage of `e` leads back to itself. -/
def Circular (c : Context) (e : Expr) : Prop := Relation.TransGen c.Asks e e

end Context

/-! ## Answers that agree -/

/-- No two answers to the same question differ. -/
def AnswersAgree {α β : Type} (f g : α → Option β) : Prop :=
  ∀ a b b', f a = some b → g a = some b' → b = b'

theorem AnswersLe.agree {α β : Type} {f g : α → Option β} (h : AnswersLe f g) :
    AnswersAgree f g := fun a b _ hf hg ↦ Option.some.inj ((h a b hf).symm.trans hg)

theorem AnswersAgree.symm {α β : Type} {f g : α → Option β} (h : AnswersAgree f g) :
    AnswersAgree g f := fun a b b' hg hf ↦ (h a b' b hf hg).symm

namespace Context

variable {c : Context}

theorem freshStorage_le {n m : Nat} (h : n ≤ m) : AnswersLe (c.freshStorage n) (c.freshStorage m) := by
  induction h with
  | refl => exact .refl _
  | step _ ih => exact fun e s hs ↦ freshStorage_mono _ e s (ih e s hs)

/-- Types found within some questions are those of resolution. -/
theorem typeWith_agree (n : Nat) : AnswersAgree (c.typeWith (c.freshStorage n)) c.typeOf? := by
  rcases Nat.le_total n c.questions with h | h
  · exact AnswersLe.agree (typeWith_mono (freshStorage_le h))
  · exact (AnswersLe.agree (typeWith_mono (freshStorage_le h))).symm

theorem typeOf_of_typeWith {n : Nat} {e : Expr} {t : TypeId} (h : c.typeWith (c.freshStorage n) e = some t)
    (ht : (c.typeOf? e).isSome) : c.typeOf e = t := by
  obtain ⟨t', ht'⟩ := Option.isSome_iff_exists.1 ht
  rw [typeOf, ht', Option.getD_some, typeWith_agree n e t t' h ht']

/-- An expression whose type is none of the error type has one. -/
theorem isSome_typeOf? {e : Expr} (h : c.types.get (c.typeOf e) ≠ .error) : (c.typeOf? e).isSome := by
  cases htype : c.typeOf? e with
  | none =>
    refine absurd ?_ h
    rw [typeOf, htype]
    rfl
  | some t => rfl

/-! ## Answers take what they ask for -/

theorem answered_of_typed {n : Nat} {asked e : Expr} (hasks : c.TypingAsks asked e) :
    (c.typeWith (c.freshStorage n) e).isSome → (c.freshStorage n asked).isSome := by
  induction hasks with
  | field _ ih | span _ ih =>
    intro h
    obtain ⟨t, h⟩ := Option.isSome_iff_exists.1 h
    obtain ⟨r, hr, -⟩ := Option.bind_eq_some_iff.1 h
    exact ih (by rw [hr]; rfl)
  | conditional _ ih | placeholder _ ih => exact ih
  | receiver _ ih =>
    intro h
    obtain ⟨t, h⟩ := Option.isSome_iff_exists.1 h
    unfold typeWith at h
    obtain ⟨r, hr, -⟩ := Option.bind_eq_some_iff.1 h
    exact ih (by rw [hr]; rfl)
  | @argument id receiver arg args _ ih =>
    intro h
    obtain ⟨t, h⟩ := Option.isSome_iff_exists.1 h
    obtain ⟨r, -, h⟩ := Option.bind_eq_some_iff.1 h
    obtain ⟨slicing, hslicing, -⟩ := Option.bind_eq_some_iff.1 h
    obtain ⟨type, htype, -⟩ := Option.map_eq_some_iff.1 hslicing
    exact ih (by rw [htype]; rfl)
  | @slice id arg args type harray hrange =>
    intro h
    obtain ⟨t, h⟩ := Option.isSome_iff_exists.1 h
    obtain ⟨r, hr, h⟩ := Option.bind_eq_some_iff.1 h
    obtain ⟨slicing, hslicing, h⟩ := Option.bind_eq_some_iff.1 h
    obtain ⟨type', htype', rfl⟩ := Option.map_eq_some_iff.1 hslicing
    have hr' : c.typeOf asked = r := typeOf_of_typeWith hr (isSome_typeOf? (by simp [harray]))
    have htype'' : c.typeOf arg.value = type' := by
      refine typeOf_of_typeWith htype' ?_
      cases hvalue : c.typeOf? arg.value with
      | none =>
        rw [typeOf, hvalue] at hrange
        cases hrange
      | some t => rfl
    rw [← hr', harray, ← htype'', hrange] at h
    obtain ⟨s, hs, -⟩ := Option.bind_eq_some_iff.1 h
    rw [hs]
    rfl

theorem isSome_type_of_storageWith {type : Expr → Option TypeId}
    {init : List VariableId → Expr → Option Storage} {active : List VariableId} {e : Expr}
    (h : (c.storageWith type init active e).isSome) : (type e).isSome := by
  obtain ⟨s, h⟩ := Option.isSome_iff_exists.1 h
  cases e <;> exact Option.isSome_iff_exists.2 (Option.bind_eq_some_iff.1 h |>.imp fun _ h ↦ h.1)

/-- The storage made of that of a part has its scope, and an address if that of the part has one. -/
theorem storageWith_carrier {n : Nat} {init : List VariableId → Expr → Option Storage}
    {active : List VariableId} {e part : Expr} {s : Storage} (hpart : c.carrier? e = some part)
    (h : c.storageWith (c.typeWith (c.freshStorage n)) init active e = some s) :
    ∃ s', c.storageWith (c.typeWith (c.freshStorage n)) init active part = some s' ∧
      s.scope = s'.scope ∧ (s'.referenceable → s.referenceable) := by
  cases e with
  | field id receiver name =>
    rw [carrier?] at hpart
    split at hpart
    · cases hpart
    · rename_i hspan
      split at hpart
      · rename_i type hstruct
        split at hpart
        · cases hpart
        · rename_i hclass
          obtain rfl := Option.some.inj hpart
          obtain ⟨t, ht, h⟩ := Option.bind_eq_some_iff.1 h
          have hreceiver : (c.typeOf? receiver).isSome := isSome_typeOf? fun herror ↦ by
            simp [TypeTable.struct?, herror] at hstruct
          have hfield : (c.typeOf? (.field id receiver name)).isSome := by
            obtain ⟨r, hr⟩ := Option.isSome_iff_exists.1 hreceiver
            exact Option.isSome_iff_exists.2 ⟨_, Option.bind_eq_some_iff.2 ⟨r, hr, rfl⟩⟩
          rw [typeOf_of_typeWith ht hfield] at hspan
          have hparts : c.types.spanParts? t = none := by simpa [TypeTable.isSpan] using hspan
          simp only [hparts] at h
          obtain ⟨r, hr, h⟩ := Option.bind_eq_some_iff.1 h
          rw [typeOf_of_typeWith hr hreceiver] at hstruct
          simp only [hstruct, hclass, Bool.false_eq_true, if_false] at h
          obtain ⟨s', hs', h⟩ := Option.bind_eq_some_iff.1 h
          cases h
          exact ⟨s', hs', rfl, fun h ↦ h⟩
      · cases hpart
  | element id receiver args =>
    rw [carrier?] at hpart
    obtain ⟨t, -, h⟩ := Option.bind_eq_some_iff.1 h
    obtain ⟨r, hr, h⟩ := Option.bind_eq_some_iff.1 h
    have hne : c.types.get (c.typeOf receiver) ≠ .error := fun herror ↦ by
      rw [herror] at hpart
      cases hpart
    rw [typeOf_of_typeWith hr (isSome_typeOf? hne)] at hpart
    cases hget : c.types.get r with
    | array type =>
      simp only [hget] at hpart h
      cases hpart
      obtain ⟨s', hs', h⟩ := Option.bind_eq_some_iff.1 h
      cases h
      exact ⟨s', hs', rfl, fun h ↦ h⟩
    | span element readonly =>
      simp only [hget] at hpart h
      cases hpart
      obtain ⟨s', hs', h⟩ := Option.bind_eq_some_iff.1 h
      refine ⟨s', hs', ?_⟩
      split at h
      · cases h
        exact ⟨rfl, fun h ↦ h⟩
      · cases h
        exact ⟨rfl, fun _ ↦ rfl⟩
    | _ => simp [hget] at hpart
  | span id operand readonly =>
    rw [carrier?] at hpart
    split at hpart
    · rename_i hspan
      obtain rfl := Option.some.inj hpart
      obtain ⟨t, ht, h⟩ := Option.bind_eq_some_iff.1 h
      have htype : (c.typeOf? (.span id operand readonly)).isSome := isSome_typeOf? fun herror ↦ by
        simp [TypeTable.isSpan, TypeTable.spanParts?, herror] at hspan
      rw [typeOf_of_typeWith ht htype] at hspan
      rw [if_pos hspan] at h
      obtain ⟨s', hs', h⟩ := Option.bind_eq_some_iff.1 h
      cases h
      exact ⟨s', hs', rfl, fun h ↦ h⟩
    · cases hpart
  | _ => cases hpart

/-- The storage of a local is that of the value it follows, unless the chain is cut there. -/
theorem isSome_variableStorage {v : VariableId} {cut : Bool} {initStorage : Expr → Option Storage} :
    (c.variableStorage v (c.method.var v).type cut initStorage).isSome ↔
      ∀ init, c.followed? v = some init → cut = false → (initStorage init).isSome := by
  unfold variableStorage followed?
  dsimp only
  cases c.types.spanParts? (c.method.var v).type with
  | none =>
    cases (c.method.var v).kind with
    | refLocal readonly =>
      cases cut with
      | true => simp
      | false => cases c.method.refLocalInit? v <;> simp
    | _ => simp
  | some parts =>
    cases (c.method.var v).kind with
    | stackLocal =>
      cases cut with
      | true => simp
      | false => cases c.method.firstAssignment? v <;> simp
    | _ => simp

theorem answered_of_stored {n : Nat} {asked : Expr} {active : List VariableId} {e : Expr}
    (hasks : c.StorageAsks asked active e) :
    ∀ jumps, (c.followLocals (c.typeWith (c.freshStorage n)) jumps active e).isSome →
      (c.freshStorage n asked).isSome := by
  induction hasks with
  | typing htyping =>
    intro jumps h
    obtain ⟨init, heq⟩ := c.followLocals_eq (c.typeWith (c.freshStorage n)) jumps
    rw [heq] at h
    exact answered_of_typed htyping (isSome_type_of_storageWith h)
  | carrier hpart _ ih =>
    intro jumps h
    obtain ⟨init, heq⟩ := c.followLocals_eq (c.typeWith (c.freshStorage n)) jumps
    refine ih jumps ?_
    rw [heq] at h ⊢
    obtain ⟨s, hs⟩ := Option.isSome_iff_exists.1 h
    obtain ⟨s', hs', -⟩ := storageWith_carrier hpart hs
    rw [hs']
    rfl
  | @followed active id v init hfollowed hactive _ ih =>
    intro jumps h
    have hcut : active.contains v = false := by simpa using hactive
    cases jumps with
    | zero => exact nomatch isSome_variableStorage.1 h init hfollowed hcut
    | succ jumps => exact ih jumps (isSome_variableStorage.1 h init hfollowed hcut)

/-- Whatever an answer depends on is answered with one question less. -/
theorem isSome_freshStorage_of_asks {n : Nat} {e asked : Expr} (hasks : c.Asks e asked)
    (h : (c.freshStorage (n + 1) e).isSome) : (c.freshStorage n asked).isSome :=
  answered_of_stored hasks _ h

theorem exists_lt_of_transGen {e asked : Expr} (h : Relation.TransGen c.Asks e asked) {n : Nat}
    (hn : (c.freshStorage n e).isSome) : ∃ m < n, (c.freshStorage m asked).isSome := by
  induction h with
  | single hasks =>
    cases n with
    | zero => cases hn
    | succ n => exact ⟨n, Nat.lt_succ_self n, isSome_freshStorage_of_asks hasks hn⟩
  | tail _ hasks ih =>
    obtain ⟨m, hm, hsome⟩ := ih
    cases m with
    | zero => cases hsome
    | succ m => exact ⟨m, by omega, isSome_freshStorage_of_asks hasks hsome⟩

/-- A question that leads back to itself has no answer, however long it is pursued. -/
theorem Circular.freshStorage_eq_none {e : Expr} (h : c.Circular e) (n : Nat) :
    c.freshStorage n e = none := by
  induction n using Nat.strongRecOn with
  | ind n ih =>
    by_contra hne
    obtain ⟨m, hm, hsome⟩ := exists_lt_of_transGen h (Option.isSome_iff_ne_none.2 hne)
    rw [ih m hm] at hsome
    cases hsome

/-! ## What is asked for is enough -/

section

variable {n : Nat} (hn : n ≤ c.questions)
include hn

theorem typeOf_eq_of_typeWith {e : Expr} {t : TypeId}
    (h : c.typeWith (c.freshStorage n) e = some t) : c.typeOf e = t := by
  have ht : c.typeOf? e = some t := typeWith_mono (freshStorage_le hn) e t h
  rw [typeOf, ht, Option.getD_some]

theorem typed_of_answered : (e : Expr) →
    (∀ asked, c.TypingAsks asked e → (c.freshStorage n asked).isSome) →
      (c.typeWith (c.freshStorage n) e).isSome
  | .var .., _ | .call .., _ | .int .., _ | .bool .., _ | .string .., _ | .fromEnd .., _
  | .range .., _ | .default .., _ => rfl
  | .field _ receiver _, h | .span _ receiver _, h => by
    obtain ⟨r, hr⟩ := Option.isSome_iff_exists.1 <|
      typed_of_answered receiver fun asked hasks ↦ h asked (by constructor; exact hasks)
    exact Option.isSome_iff_exists.2 ⟨_, Option.bind_eq_some_iff.2 ⟨r, hr, rfl⟩⟩
  | .conditional _ _ access, h => typed_of_answered access fun asked hasks ↦ h asked (.conditional hasks)
  | .placeholder _ receiver, h =>
    typed_of_answered receiver fun asked hasks ↦ h asked (.placeholder hasks)
  | .element id receiver args, h => by
    obtain ⟨r, hr⟩ := Option.isSome_iff_exists.1 <|
      typed_of_answered receiver fun asked hasks ↦ h asked (.receiver hasks)
    have hreceiver := typeOf_eq_of_typeWith hn hr
    unfold typeWith
    rw [hr]
    cases args with
    | nil =>
      simp only [Option.bind_eq_bind, Option.bind_some, accessType]
      cases c.types.get r <;> rfl
    | cons arg args =>
      obtain ⟨t, ht⟩ := Option.isSome_iff_exists.1 <|
        typed_of_answered arg.value fun asked hasks ↦ h asked (.argument hasks)
      have hvalue := typeOf_eq_of_typeWith hn ht
      simp only [Option.bind_eq_bind, Option.bind_some, accessType, ht, Option.map_some]
      cases hget : c.types.get r with
      | array type =>
        by_cases hrange : t = TypeTable.range
        · have hasked := h receiver (.slice (by rw [hreceiver, hget]) (by rw [hvalue, hrange]))
          obtain ⟨s, hs⟩ := Option.isSome_iff_exists.1 hasked
          simp [hrange, hs]
        · simp [hrange]
      | _ => rfl

/-- With the storage of the values of locals found, that of expressions is found. -/
theorem stored_of_answered {init : List VariableId → Expr → Option Storage}
    {active : List VariableId}
    (hinit : ∀ v value, c.followed? v = some value → v ∉ active →
      (∀ asked, c.StorageAsks asked (v :: active) value → (c.freshStorage n asked).isSome) →
        (init (v :: active) value).isSome) :
    (e : Expr) → (∀ asked, c.StorageAsks asked active e → (c.freshStorage n asked).isSome) →
      (c.storageWith (c.typeWith (c.freshStorage n)) init active e).isSome
  | .var id v, h => by
    refine isSome_variableStorage.2 fun value hvalue hcut ↦ ?_
    have hactive : v ∉ active := by simpa using hcut
    exact hinit v value hvalue hactive fun asked hasks ↦ h asked (.followed hvalue hactive hasks)
  | .field id receiver name, h => by
    obtain ⟨t, ht⟩ := Option.isSome_iff_exists.1 <|
      typed_of_answered hn (.field id receiver name) fun asked hasks ↦ h asked (.typing hasks)
    obtain ⟨r, hr⟩ := Option.isSome_iff_exists.1 <|
      typed_of_answered hn receiver fun asked hasks ↦ h asked (.typing (.field hasks))
    have hfield := typeOf_eq_of_typeWith hn ht
    have hreceiver := typeOf_eq_of_typeWith hn hr
    simp only [storageWith, ht, hr, Option.bind_eq_bind, Option.bind_some]
    cases hparts : c.types.spanParts? t with
    | some parts => rfl
    | none =>
      cases hstruct : c.types.struct? r with
      | none => rfl
      | some type =>
        by_cases hclass : type.isClass
        · simp [hclass]
        · have hcarrier : c.carrier? (.field id receiver name) = some receiver := by
            simp [carrier?, hfield, hreceiver, TypeTable.isSpan, hparts, hstruct, hclass]
          obtain ⟨s, hs⟩ := Option.isSome_iff_exists.1 <|
            stored_of_answered hinit receiver fun asked hasks ↦ h asked (.carrier hcarrier hasks)
          simp [hclass, hs]
  | .element id receiver args, h => by
    obtain ⟨t, ht⟩ := Option.isSome_iff_exists.1 <|
      typed_of_answered hn (.element id receiver args) fun asked hasks ↦ h asked (.typing hasks)
    obtain ⟨r, hr⟩ := Option.isSome_iff_exists.1 <|
      typed_of_answered hn receiver fun asked hasks ↦ h asked (.typing (.receiver hasks))
    have hreceiver := typeOf_eq_of_typeWith hn hr
    simp only [storageWith, ht, hr, Option.bind_eq_bind, Option.bind_some]
    cases hget : c.types.get r with
    | array type =>
      have hcarrier : c.carrier? (.element id receiver args) = some receiver := by
        simp [carrier?, hreceiver, hget]
      obtain ⟨s, hs⟩ := Option.isSome_iff_exists.1 <|
        stored_of_answered hinit receiver fun asked hasks ↦ h asked (.carrier hcarrier hasks)
      simp [hs]
    | span element readonly =>
      have hcarrier : c.carrier? (.element id receiver args) = some receiver := by
        simp [carrier?, hreceiver, hget]
      obtain ⟨s, hs⟩ := Option.isSome_iff_exists.1 <|
        stored_of_answered hinit receiver fun asked hasks ↦ h asked (.carrier hcarrier hasks)
      simp [hs]
    | _ => rfl
  | .span id operand readonly, h => by
    obtain ⟨t, ht⟩ := Option.isSome_iff_exists.1 <|
      typed_of_answered hn (.span id operand readonly) fun asked hasks ↦ h asked (.typing hasks)
    have htype := typeOf_eq_of_typeWith hn ht
    simp only [storageWith, ht, Option.bind_eq_bind, Option.bind_some]
    by_cases hspan : c.types.isSpan t
    · have hcarrier : c.carrier? (.span id operand readonly) = some operand := by
        simp [carrier?, htype, hspan]
      obtain ⟨s, hs⟩ := Option.isSome_iff_exists.1 <|
        stored_of_answered hinit operand fun asked hasks ↦ h asked (.carrier hcarrier hasks)
      simp [hspan, hs]
    · simp [hspan]
  | .call id callee returns type, _ => by
    simp only [storageWith, typeWith, Option.bind_eq_bind, Option.bind_some]
    cases c.types.spanParts? type <;> cases returns <;> rfl
  | .default id type, _ => by
    simp only [storageWith, typeWith, Option.bind_eq_bind, Option.bind_some]
    cases c.types.spanParts? type <;> rfl
  | .int .., _ | .bool .., _ | .string .., _ | .fromEnd .., _ | .range .., _ => rfl
  | .conditional id receiver access, h | .placeholder id access, h => by
    obtain ⟨t, ht⟩ := Option.isSome_iff_exists.1 <|
      typed_of_answered hn _ fun asked hasks ↦ h asked (.typing hasks)
    simp only [storageWith, ht, Option.bind_eq_bind, Option.bind_some]
    rfl

omit hn in
/-- Only variables of the method have values to follow. -/
theorem lt_of_followed {v : VariableId} {value : Expr} (h : c.followed? v = some value) :
    v < c.method.vars.size := by
  by_contra hlt
  have hvar : c.method.var v = ⟨"", .stackLocal, TypeTable.error, false, true⟩ := by
    rw [Body.var, Array.getElem?_eq_none (Nat.le_of_not_lt hlt)]
    rfl
  rw [followed?, hvar] at h
  cases h

/-- Each local is followed once, so there are jumps enough to follow them all. -/
theorem followed_of_answered (jumps : Nat) {active : List VariableId} (hnodup : active.Nodup)
    (hlt : ∀ v ∈ active, v < c.method.vars.size)
    (hjumps : c.method.vars.size ≤ active.length + jumps) {e : Expr}
    (h : ∀ asked, c.StorageAsks asked active e → (c.freshStorage n asked).isSome) :
    (c.followLocals (c.typeWith (c.freshStorage n)) jumps active e).isSome := by
  induction jumps generalizing active e with
  | zero =>
    refine stored_of_answered hn (fun v value hvalue hactive _ ↦ ?_) e h
    have hsubset : v :: active ⊆ List.range c.method.vars.size := by
      refine List.cons_subset.2 ⟨List.mem_range.2 (lt_of_followed hvalue), fun w hw ↦ ?_⟩
      exact List.mem_range.2 (hlt w hw)
    have hlength := (List.subperm_of_subset (List.nodup_cons.2 ⟨hactive, hnodup⟩) hsubset).length_le
    rw [List.length_cons, List.length_range] at hlength
    omega
  | succ jumps ih =>
    refine stored_of_answered hn (fun v value hvalue hactive hasks ↦ ?_) e h
    refine ih (List.nodup_cons.2 ⟨hactive, hnodup⟩) (fun w hw ↦ ?_) ?_ hasks
    · rcases List.mem_cons.1 hw with rfl | hw
      · exact lt_of_followed hvalue
      · exact hlt w hw
    · rw [List.length_cons]
      omega

/-- Once everything it depends on is answered, one more question answers it. -/
theorem isSome_freshStorage_of_answered {e : Expr}
    (h : ∀ asked, c.Asks e asked → (c.freshStorage n asked).isSome) :
    (c.freshStorage (n + 1) e).isSome :=
  followed_of_answered hn _ List.nodup_nil nofun (by simp) h

end

/-! ## Recorded questions -/

theorem records_of_typingAsks (hc : c.method.Orderly) {asked e : Expr} (h : c.TypingAsks asked e)
    (he : c.method.Records e) : c.method.Records asked := by
  induction h with
  | field _ ih | receiver _ ih | argument _ ih | span _ ih | conditional _ ih | placeholder _ ih =>
    exact ih (hc.children _ he _ (by simp [Expr.children]))
  | slice => exact hc.children _ he _ (by simp [Expr.children])

theorem records_of_followed (hc : c.method.Orderly) {v : VariableId} {value : Expr}
    (h : c.followed? v = some value) : c.method.Records value := by
  have hinit (h : c.method.refLocalInit? v = some value) : c.method.Records value := by
    obtain ⟨s, hs, hvalue⟩ := List.exists_of_findSome?_eq_some h
    cases s with
    | refLocal bound init =>
      obtain rfl := Option.some.inj (Option.ite_none_right_eq_some.1 hvalue).2
      exact hc.exprs _ hs _ (by simp [Statement.exprs])
    | _ => cases hvalue
  have hfirst (h : c.method.firstAssignment? v = some value) : c.method.Records value := by
    obtain ⟨s, hs, hvalue⟩ := List.exists_of_findSome?_eq_some h
    cases s with
    | assign target init =>
      cases target with
      | var id target =>
        obtain rfl := Option.some.inj (Option.ite_none_right_eq_some.1 hvalue).2
        exact hc.exprs _ hs _ (by simp [Statement.exprs])
      | _ => cases hvalue
    | _ => cases hvalue
  unfold followed? at h
  split at h
  · exact hinit h
  · exact hfirst h
  · cases h

theorem records_of_carrier (hc : c.method.Orderly) {e part : Expr} (h : c.carrier? e = some part)
    (he : c.method.Records e) : c.method.Records part := by
  refine hc.children e he part ?_
  cases e with
  | field id receiver name =>
    rw [carrier?] at h
    split at h
    · cases h
    · split at h
      · split at h
        · cases h
        · simp [Expr.children, Option.some.inj h]
      · cases h
  | element id receiver args =>
    rw [carrier?] at h
    split at h
    · simp [Expr.children, Option.some.inj h]
    · simp [Expr.children, Option.some.inj h]
    · cases h
  | span id operand readonly =>
    rw [carrier?] at h
    split at h
    · simp [Expr.children, Option.some.inj h]
    · cases h
  | _ => cases h

theorem records_of_storageAsks (hc : c.method.Orderly) {asked e : Expr} {active : List VariableId}
    (h : c.StorageAsks asked active e) : c.method.Records e → c.method.Records asked := by
  induction h with
  | typing h => exact records_of_typingAsks hc h
  | carrier hpart _ ih => exact fun he ↦ ih (records_of_carrier hc hpart he)
  | followed hvalue _ _ ih => exact fun _ ↦ ih (records_of_followed hc hvalue)

/-- An expression without an answer starts a chain of questions as long as was allowed. -/
theorem exists_chain_of_unanswered (hc : c.method.Orderly) {n : Nat} (hn : n ≤ c.questions)
    {e : Expr} (he : c.method.Records e) (h : c.freshStorage n e = none) :
    ∃ chain : List Expr, chain.length = n ∧ (e :: chain).IsChain c.Asks ∧
      ∀ x ∈ e :: chain, c.method.Records x := by
  induction n generalizing e with
  | zero => exact ⟨[], rfl, .singleton e, by simpa using he⟩
  | succ n ih =>
    have hasked : ∃ asked, c.Asks e asked ∧ c.freshStorage n asked = none := by
      by_contra hall
      have hsome := isSome_freshStorage_of_answered (Nat.le_of_succ_le hn) fun asked hasks ↦ by
        rw [Option.isSome_iff_ne_none]
        exact fun hnone ↦ hall ⟨asked, hasks, hnone⟩
      rw [h] at hsome
      cases hsome
    obtain ⟨asked, hasks, hnone⟩ := hasked
    obtain ⟨chain, hlength, hchain, hrecords⟩ :=
      ih (Nat.le_of_succ_le hn) (records_of_storageAsks hc hasks he) hnone
    refine ⟨asked :: chain, by simp [hlength], .cons_cons hasks hchain, fun x hx ↦ ?_⟩
    rcases List.mem_cons.1 hx with rfl | hx
    · exact he
    · exact hrecords x hx

/-- A chain of questions longer than the method has expressions leads back to itself. -/
theorem exists_circular {chain : List Expr} (hchain : chain.IsChain c.Asks)
    (hrecords : ∀ e ∈ chain, c.method.Records e) (hlength : c.method.exprs.size < chain.length) :
    ∃ e ∈ chain, c.Circular e := by
  by_contra hnone
  have hpairwise : chain.Pairwise (Relation.TransGen c.Asks) :=
    (hchain.imp fun _ _ ↦ .single).pairwise
  have hnodup : (chain.map (·.id)).Nodup := by
    refine List.pairwise_map.2 (hpairwise.imp_of_mem fun {e e'} he he' hasks hid ↦ hnone ?_)
    obtain rfl := (hrecords e he).eq_of_id (hrecords e' he') hid
    exact ⟨e, he, hasks⟩
  have hsubset : chain.map (·.id) ⊆ List.range c.method.exprs.size := by
    intro id hid
    obtain ⟨e, he, rfl⟩ := List.mem_map.1 hid
    exact List.mem_range.2 (Array.getElem?_eq_some_iff.1 (hrecords e he)).1
  have hle := (List.subperm_of_subset hnodup hsubset).length_le
  rw [List.length_map, List.length_range] at hle
  omega

/-- A method resolves exactly if no question about the storage of one of its expressions leads back
to itself. -/
theorem resolves_iff_not_circular (hc : c.method.Orderly) :
    c.resolves ↔ ∀ e, c.method.Records e → ¬ c.Circular e := by
  have hresolves : c.resolves ↔
      ∀ e, c.method.Records e → (c.typeOf? e).isSome ∧ (c.storageOf? e).isSome := by
    rw [resolves, Array.all_eq_true]
    constructor
    · intro h e he
      obtain ⟨hlt, hget⟩ := Array.getElem?_eq_some_iff.1 he
      simpa [hget] using h e.id hlt
    · intro h i hi
      have hrecords : c.method.Records c.method.exprs[i] := by
        have hget : c.method.exprs[i]? = some c.method.exprs[i] := Array.getElem?_eq_getElem hi
        rw [Body.Records, hc.ids i _ hget, hget]
      simpa using h _ hrecords
  rw [hresolves]
  constructor
  · intro h e he hcircular
    have hstorage := (h e he).2
    rw [storageOf?, hcircular.freshStorage_eq_none] at hstorage
    cases hstorage
  · intro h
    have hstored (e : Expr) (he : c.method.Records e) : (c.storageOf? e).isSome := by
      rw [Option.isSome_iff_ne_none]
      intro hnone
      obtain ⟨chain, hlength, hchain, hrecords⟩ :=
        exists_chain_of_unanswered hc (Nat.le_refl _) he hnone
      obtain ⟨e', he', hcircular⟩ := exists_circular hchain hrecords (by
        rw [List.length_cons, hlength, questions]
        omega)
      exact h e' (hrecords e' he') hcircular
    refine fun e he ↦ ⟨typed_of_answered (Nat.le_refl _) e fun asked hasks ↦ ?_, hstored e he⟩
    exact hstored asked (records_of_typingAsks hc hasks he)

/-! ## Chains of locals that come back -/

/-- The storage of the expression is made of that of the variable. -/
inductive RestsOn (c : Context) (v : VariableId) : Expr → Prop
  | var {id : ExprId} : RestsOn c v (.var id v)
  | carrier {e part : Expr} : c.carrier? e = some part → RestsOn c v part → RestsOn c v e

/-- The storage of `v` is made of that of a value that rests on `w`. -/
def Leads (c : Context) (v w : VariableId) : Prop :=
  ∃ value, c.followed? v = some value ∧ c.RestsOn w value

/-- The chain of locals that starts at `v` comes back to one of its own. -/
def Endless (c : Context) (v : VariableId) : Prop :=
  ∃ w, Relation.ReflTransGen c.Leads v w ∧ Relation.TransGen c.Leads w w

theorem Endless.leads {v : VariableId} (h : c.Endless v) : ∃ w, c.Leads v w ∧ c.Endless w := by
  obtain ⟨w, hv, hw⟩ := h
  rcases hv.cases_head with rfl | ⟨next, hnext, hreach⟩
  · obtain ⟨next, hnext, hreach⟩ := Relation.TransGen.head'_iff.1 hw
    exact ⟨next, hnext, _, hreach, hw⟩
  · exact ⟨next, hnext, w, hreach, hw⟩

/-- A local that follows a value has the scope of the value's storage, if that has an address to
bind to, and otherwise that of the method. -/
theorem scope_variableStorage {v : VariableId} {value : Expr} {cut : Bool}
    {initStorage : Expr → Option Storage} {s : Storage} (hvalue : c.followed? v = some value)
    (h : c.variableStorage v (c.method.var v).type cut initStorage = some s) :
    s.scope = .currentMethod ∨
      cut = false ∧ ∃ s', initStorage value = some s' ∧ s.scope = s'.scope := by
  unfold followed? at hvalue
  unfold variableStorage at h
  dsimp only at hvalue h
  split at hvalue
  · rename_i readonly hparts hkind
    simp only [hparts, hkind, hvalue] at h
    cases cut with
    | true =>
      cases h
      exact .inl rfl
    | false =>
      obtain ⟨s', hs', rfl⟩ := Option.map_eq_some_iff.1 h
      unfold refLocalStorage
      dsimp only
      split
      · exact .inr ⟨rfl, s', hs', rfl⟩
      · exact .inl rfl
  · rename_i parts hparts hkind
    simp only [hparts, hkind, hvalue] at h
    cases cut with
    | true =>
      cases h
      exact .inl rfl
    | false =>
      obtain ⟨s', hs', rfl⟩ := Option.map_eq_some_iff.1 h
      exact .inr ⟨rfl, s', hs', rfl⟩
  · cases hvalue

theorem RestsOn.exists_storage {n : Nat} {v : VariableId} {e : Expr} (h : c.RestsOn v e)
    {init : List VariableId → Expr → Option Storage} {active : List VariableId} :
    ∀ {s}, c.storageWith (c.typeWith (c.freshStorage n)) init active e = some s →
      ∃ id s', c.storageWith (c.typeWith (c.freshStorage n)) init active (.var id v) = some s' ∧
        s.scope = s'.scope := by
  induction h with
  | @var id => exact fun hs ↦ ⟨id, _, hs, rfl⟩
  | carrier hpart _ ih =>
    intro s hs
    obtain ⟨s', hs', hscope, -⟩ := storageWith_carrier hpart hs
    obtain ⟨id, s'', hs'', hscope'⟩ := ih hs'
    exact ⟨id, s'', hs'', hscope.trans hscope'⟩

theorem Endless.scope_followLocals {n : Nat} (jumps : Nat) {v : VariableId} (h : c.Endless v)
    {active : List VariableId} {id : ExprId} {s : Storage}
    (hs : c.followLocals (c.typeWith (c.freshStorage n)) jumps active (.var id v) = some s) :
    s.scope = .currentMethod := by
  induction jumps generalizing v active id s with
  | zero =>
    obtain ⟨w, ⟨value, hvalue, -⟩, -⟩ := h.leads
    rcases scope_variableStorage hvalue hs with hscope | ⟨-, s', hs', -⟩
    · exact hscope
    · cases hs'
  | succ jumps ih =>
    obtain ⟨w, ⟨value, hvalue, hrests⟩, hw⟩ := h.leads
    rcases scope_variableStorage hvalue hs with hscope | ⟨-, s', hs', hscope⟩
    · exact hscope
    · obtain ⟨init, heq⟩ := c.followLocals_eq (c.typeWith (c.freshStorage n)) jumps
      rw [heq] at hs'
      obtain ⟨id', s'', hs'', hscope'⟩ := hrests.exists_storage hs'
      rw [← heq] at hs''
      rw [hscope, hscope', ih hw hs'']

/-- A chain of locals that comes back to one of its own stays within the method. -/
theorem Endless.scope_storageOf {v : VariableId} (h : c.Endless v) {id : ExprId} {s : Storage}
    (hs : c.storageOf? (.var id v) = some s) : s.scope = .currentMethod :=
  h.scope_followLocals _ hs

end Context

/-- A method of a program resolves exactly if no question leads back to itself; one that does has no
answer.  A chain of locals that comes back is no such question: it stays within the method. -/
theorem Program.resolves_iff_none_circular {s : Scenario} {p : Program} {m : Method}
    (hbuild : s.build = .ok p) (hm : m ∈ p.methods) (members : MemberTable) :
    ((p.context members m).resolves ↔
      ∀ e, m.Records e → ¬ (p.context members m).Circular e) ∧
    (∀ e, (p.context members m).Circular e → ∀ n, (p.context members m).freshStorage n e = none) ∧
    ∀ v, (p.context members m).Endless v → ∀ id storage,
      (p.context members m).storageOf? (.var id v) = some storage →
        storage.scope = .currentMethod :=
  ⟨Context.resolves_iff_not_circular ((Scenario.build_orderly hbuild).1 m hm),
    fun _ hcircular ↦ hcircular.freshStorage_eq_none, fun _ hendless _ _ ↦ hendless.scope_storageOf⟩

/-- Binds a ref local of some type to a span local, whose first value comes from the ref local. -/
def cycle (type : String) (value : Term) : Scenario where
  options := {}
  arrays := [⟨"Buffer4", "int", 4⟩]
  structs := []
  methods :=
    [{ name := "Main", returns := .void, returnType := none, owner := none, parameters := []
       locals := [⟨"s", "Span<int>", true⟩]
       body := [.refLocal "r" false type (.path "s"), .assign (.path "s") value] }]
  inputs := []
  expect := none

/-- The method of a cycle of locals, with what is recorded for the value of the span local. -/
def cycleMethod (type : TypeId) (value : Expr) (recorded : List Expr) : Method :=
  Body.finish
    { name := "Main", exprs := (.var 0 0 :: .var 1 0 :: .var 2 1 :: recorded).toArray
      vars := #[{ name := "s", kind := .stackLocal, type := 8 },
        { name := "r", kind := .refLocal false, type }]
      statements := [.refLocal 1 (.var 0 0), .assign (.var 1 0) value] }

def cycleProgram (type : TypeId) (value : Expr) (recorded : List Expr) : Program where
  types :=
    ⟨[.array ⟨"Buffer4", TypeTable.int, 4⟩, .span TypeTable.int false, .span TypeTable.int true]⟩
  methods := [cycleMethod type value recorded]

theorem build_cycle_sliced :
    (cycle "Buffer4" (.index (.path "r") (.range none none))).build =
      .ok (cycleProgram 7 (.element 4 (.var 2 1) [{ value := .range 3 none none }])
        [.range 3 none none, .element 4 (.var 2 1) [{ value := .range 3 none none }]]) := by
  cbv

theorem build_cycle_rebound :
    (cycle "Span<int>" (.path "r")).build = .ok (cycleProgram 8 (.var 2 1) []) := by
  cbv

theorem build_cycle_converted :
    (cycle "Buffer4" (.span (.path "r") false)).build =
      .ok (cycleProgram 7 (.span 3 (.var 2 1) false) [.span 3 (.var 2 1) false]) := by
  cbv

/-- A span local whose first value slices the array it is itself the storage of has no storage; one
that is rebound through a ref local to a span may leave the method. -/
theorem cycle_unconfined :
    (∃ p, (cycle "Buffer4" (.index (.path "r") (.range none none))).build = .ok p ∧
      ∃ m ∈ p.methods, ∃ e, m.Records e ∧ ∀ n, (p.context {} m).freshStorage n e = none) ∧
    ∃ p, (cycle "Span<int>" (.path "r")).build = .ok p ∧
      ∃ m ∈ p.methods, m.refLocalInit? 1 = some (.var 0 0) ∧ m.firstAssignment? 0 = some (.var 2 1) ∧
        ∃ storage, (p.context {} m).storageOf? (.var 1 0) = some storage ∧
          storage.scope = .callingMethod := by
  constructor
  · refine ⟨_, build_cycle_sliced, _, List.mem_singleton.2 rfl, .var 2 1, rfl, ?_⟩
    apply Context.Circular.freshStorage_eq_none
    apply Relation.TransGen.single
    apply Context.StorageAsks.followed rfl (by simp)
    apply Context.StorageAsks.followed rfl (by simp)
    apply Context.StorageAsks.typing
    exact Context.TypingAsks.slice rfl rfl
  · exact ⟨_, build_cycle_rebound, _, List.mem_singleton.2 rfl, rfl, rfl, _, rfl, rfl⟩

theorem cycleMethod_endless :
    let value : Expr := .span 3 (.var 2 1) false
    ((cycleProgram 7 value [value]).context {} (cycleMethod 7 value [value])).Endless 0 := by
  intro value
  refine ⟨0, .refl, .tail (b := 1) (.single ⟨value, rfl, ?_⟩) ⟨.var 0 0, rfl, .var⟩⟩
  exact .carrier rfl .var

/-- A span local that is first assigned a conversion of a ref local to itself resolves, and stays
within the method. -/
theorem cycle_confined :
    ∃ p, (cycle "Buffer4" (.span (.path "r") false)).build = .ok p ∧ ∃ m ∈ p.methods,
      (∀ e, m.Records e → ¬ (p.context {} m).Circular e) ∧ (p.context {} m).Endless 0 ∧
        ∃ storage, (p.context {} m).storageOf? (.var 1 0) = some storage ∧
          storage.scope = .currentMethod := by
  refine ⟨_, build_cycle_converted, _, List.mem_singleton.2 rfl, ?_⟩
  obtain ⟨hresolves, -, hscope⟩ :=
    Program.resolves_iff_none_circular build_cycle_converted (List.mem_singleton.2 rfl) {}
  refine ⟨hresolves.1 (by cbv), cycleMethod_endless, _, rfl, ?_⟩
  exact hscope 0 cycleMethod_endless 1 _ rfl

end InlineArrays
