import InlineArrays.Proofs.Access

/-!
# Other member tables

Which members the environment provides has no influence on types and storage.  An access asks for
its members last: it binds exactly if it would were they all there and none that it requires is
missing, and those that are missing are then all that is reported.
-/

namespace InlineArrays.Context

/-- The context in an environment with other members. -/
def withMembers (c : Context) (members : MemberTable) : Context := { c with members }

variable {c : Context} {members : MemberTable}

section

variable (c members)

/-! ## Types and storage -/

theorem typeWith_withMembers : (c.withMembers members).typeWith = c.typeWith := by
  delta typeWith
  rfl

theorem storageWith_withMembers : (c.withMembers members).storageWith = c.storageWith := by
  delta storageWith
  rfl

theorem followLocals_withMembers (type? : Expr → Option TypeId) (jumps : Nat) :
    (c.withMembers members).followLocals type? jumps = c.followLocals type? jumps := by
  induction jumps with
  | zero => rw [followLocals, followLocals, storageWith_withMembers]
  | succ jumps ih => rw [followLocals, followLocals, storageWith_withMembers, ih]

theorem freshStorage_withMembers (questions : Nat) :
    (c.withMembers members).freshStorage questions = c.freshStorage questions := by
  induction questions with
  | zero => rfl
  | succ questions ih =>
    funext e
    rw [freshStorage, freshStorage, ih, typeWith_withMembers, followLocals_withMembers]
    rfl

@[simp]
theorem storageOf_withMembers (e : Expr) :
    (c.withMembers members).storageOf e = c.storageOf e := by
  unfold storageOf storageOf?
  rw [freshStorage_withMembers]
  rfl

@[simp]
theorem typeOf_withMembers (e : Expr) : (c.withMembers members).typeOf e = c.typeOf e := by
  have hstorage : (c.withMembers members).storageOf? = c.storageOf? := by
    funext e
    exact congrFun (freshStorage_withMembers c members _) e
  unfold typeOf typeOf?
  rw [typeWith_withMembers, hstorage]

/-! ## Accesses -/

theorem refused_withMembers (e : Expr) : (c.withMembers members).refused e = c.refused e := by
  unfold refused
  rw [typeOf_withMembers]
  rfl

theorem requireInt_withMembers (e : Expr) :
    (c.withMembers members).requireInt e = c.requireInt e := by
  unfold requireInt
  rw [typeOf_withMembers, refused_withMembers]
  rfl

theorem bound_withMembers (b : Option Expr) : (c.withMembers members).bound b = c.bound b := by
  unfold bound
  simp only [typeOf_withMembers, refused_withMembers, requireInt_withMembers]
  rfl

theorem subscript_withMembers (e : Expr) :
    (c.withMembers members).subscript e = c.subscript e := by
  unfold subscript
  simp only [typeOf_withMembers, refused_withMembers, requireInt_withMembers, bound_withMembers]
  rfl

theorem indexed_withMembers (receiver : Expr) :
    (c.withMembers members).indexed receiver = c.indexed receiver := by
  unfold indexed project?
  simp only [typeOf_withMembers, storageOf_withMembers]
  rfl

end

/-- What becomes of an access that would bind were all members there. -/
def requireMembers (c : Context) (a : Access) : Except (List Diagnostic) Access :=
  match c.missing a with
  | [] => .ok a
  | missing => .error missing

theorem missing_provided (a : Access) : (c.withMembers {}).missing a = [] := by
  simp [missing, withMembers]

theorem bindOne_eq_provided (e receiver : Expr) (arg : Argument Expr) (indexed : Indexed) :
    c.bindOne e receiver arg indexed =
      (c.withMembers {}).bindOne e receiver arg indexed >>= c.requireMembers := by
  unfold bindOne
  rw [subscript_withMembers]
  cases c.subscript arg.value with
  | error refused => rfl
  | ok subscript =>
    have hmethod : (c.withMembers {}).method = c.method := rfl
    simp only [formErrors, hmethod, missing_provided]
    split <;> rfl

/-- Binding asks for members last. -/
theorem bind_eq_provided (e : Expr) : c.bind e = (c.withMembers {}).bind e >>= c.requireMembers := by
  cases e with
  | element id receiver args =>
    simp only [bind, indexed_withMembers]
    cases c.indexed receiver with
    | error errors => rfl
    | ok indexed =>
      match args with
      | [] => rfl
      | [arg] => exact bindOne_eq_provided ..
      | first :: second :: args => rfl
  | _ => rfl

theorem requireMembers_eq_ok {a b : Access} (h : c.requireMembers a = .ok b) :
    a = b ∧ c.missing a = [] := by
  unfold requireMembers at h
  split at h
  · rename_i hmissing
    exact ⟨Except.ok.inj h, hmissing⟩
  · cases h

theorem requireMembers_eq (a : Access) : c.requireMembers a =
    if a.requiredMembers.all c.members.provides then .ok a else .error (c.missing a) := by
  have hall : c.missing a = [] ↔ a.requiredMembers.all c.members.provides := by
    simp [missing, List.filter_eq_nil_iff]
  unfold requireMembers
  split
  · rename_i hmissing
    rw [if_pos (hall.1 hmissing)]
  · rename_i hmissing
    rw [if_neg fun h ↦ hmissing (hall.2 h)]

theorem missing_of_bind {e : Expr} {a : Access} (h : c.bind e = .ok a) : c.missing a = [] := by
  rw [bind_eq_provided] at h
  obtain ⟨b, -, hb⟩ := Except.bind_eq_ok.1 h
  obtain ⟨rfl, hmissing⟩ := requireMembers_eq_ok hb
  exact hmissing

/-- With other members an access that binds either still does or lacks some of them. -/
theorem bind_withMembers {e : Expr} {a : Access} (h : c.bind e = .ok a) :
    (c.withMembers members).bind e = (c.withMembers members).requireMembers a := by
  rw [bind_eq_provided] at h
  obtain ⟨b, hprovided, hb⟩ := Except.bind_eq_ok.1 h
  obtain ⟨rfl, -⟩ := requireMembers_eq_ok hb
  have hsame : ((c.withMembers members).withMembers {}).bind e = .ok b := hprovided
  rw [bind_eq_provided, hsame]
  rfl

end InlineArrays.Context
