import InlineArrays.Access
import InlineArrays.Proofs.Except
import InlineArrays.Proofs.Renaming.Resolution

/-!
# Accesses under other type ids

An access binds in both tables or in neither, and what is said about one that does not bind is the
same.
-/

namespace InlineArrays

variable (ρ : TypeId → TypeId)

def Indexed.rename : Indexed → Indexed
  | .array p => .array (p.rename ρ)
  | .span kind element storage => .span kind (ρ element) storage

def Bound.rename : Bound Expr → Bound Expr
  | .omitted => .omitted
  | .int value => .int (value.rename ρ)
  | .fromEnd count => .fromEnd (count.rename ρ)
  | .index value => .index (value.rename ρ)

def Subscript.rename : Subscript Expr → Subscript Expr
  | .int value => .int (value.rename ρ)
  | .fromEnd count => .fromEnd (count.rename ρ)
  | .index value => .index (value.rename ρ)
  | .dynamic value => .dynamic (value.rename ρ)
  | .rangeLiteral start stop => .rangeLiteral (start.rename ρ) (stop.rename ρ)
  | .range value => .range (value.rename ρ)

def Access.rename (a : Access) : Access where
  expr := a.expr.rename ρ
  receiver := a.receiver.rename ρ
  indexed := a.indexed.rename ρ
  subscript := a.subscript.rename ρ
  type := ρ a.type

@[simp]
theorem Indexed.kind_rename (i : Indexed) : (i.rename ρ).kind = i.kind := by cases i <;> rfl

@[simp]
theorem Indexed.element_rename (i : Indexed) : (i.rename ρ).element = ρ i.element := by
  cases i <;> rfl

@[simp]
theorem Indexed.length?_rename (i : Indexed) : (i.rename ρ).length? = i.length? := by
  cases i <;> rfl

@[simp]
theorem Subscript.isSlice_rename (s : Subscript Expr) : (s.rename ρ).isSlice = s.isSlice := by
  cases s <;> rfl

@[simp]
theorem Access.isSlice_rename (a : Access) : (a.rename ρ).isSlice = a.isSlice :=
  a.subscript.isSlice_rename ρ

@[simp]
theorem Subscript.needsLength_rename (s : Subscript Expr) :
    (s.rename ρ).needsLength = s.needsLength := by
  have hbound (isStop : Bool) (b : Bound Expr) :
      (b.rename ρ).needsLength isStop = b.needsLength isStop := by cases b <;> rfl
  cases s with
  | rangeLiteral start stop => simp only [rename, needsLength, hbound]
  | _ => rfl

@[simp]
theorem Access.requiredMembers_rename (a : Access) :
    (a.rename ρ).requiredMembers = a.requiredMembers := by
  have hbound (b : Bound Expr) : (b.rename ρ).isIndex = b.isIndex := by cases b <;> rfl
  have hcalls : (a.rename ρ).calls = a.calls := by
    unfold calls
    simp only [isSlice_rename]
    simp only [rename, Indexed.kind_rename, Subscript.needsLength_rename]
    cases a.indexed <;> cases a.subscript <;> simp [Indexed.rename, Subscript.rename, hbound] <;> rfl
  rw [requiredMembers, requiredMembers, hcalls]

namespace Context

variable {ρ} {c : Context} {u : TypeTable} (h : TypeTable.Embeds ρ c.types u)
include h

theorem get_typeOf_rename (e : Expr) :
    (c.rename ρ u).types.get ((c.rename ρ u).typeOf (e.rename ρ)) =
      (c.types.get (c.typeOf e)).rename ρ := by
  rw [typeOf_rename h, get_rename h]

theorem format_typeOf_rename (e : Expr) :
    (c.rename ρ u).types.format ((c.rename ρ u).typeOf (e.rename ρ)) =
      c.types.format (c.typeOf e) := by
  rw [typeOf_rename h]
  exact h.format _

theorem refused_rename (e : Expr) : (c.rename ρ u).refused (e.rename ρ) = c.refused e := by
  simp only [refused, get_typeOf_rename h, format_typeOf_rename h, span_rename]
  cases c.types.get (c.typeOf e) <;> rfl

theorem requireInt_rename (e : Expr) : (c.rename ρ u).requireInt (e.rename ρ) = c.requireInt e := by
  simp only [requireInt, get_typeOf_rename h, refused_rename h]
  cases c.types.get (c.typeOf e) <;> rfl

theorem bound_rename (bound : Option Expr) :
    (c.rename ρ u).bound (bound.map (·.rename ρ)) = (c.bound bound).map (·.rename ρ) := by
  cases bound with
  | none => rfl
  | some e =>
    have hget := get_typeOf_rename h e
    have hrefused := refused_rename h e
    cases e with
    | fromEnd id count =>
      simp only [Option.map_some, Expr.rename, bound, requireInt_rename h]
      cases c.requireInt count <;> rfl
    | _ =>
      simp only [Option.map_some, Expr.rename] at hget hrefused ⊢
      simp only [bound, hget, hrefused]
      cases c.types.get (c.typeOf _) <;> rfl

theorem subscript_rename (e : Expr) :
    (c.rename ρ u).subscript (e.rename ρ) = (c.subscript e).map (·.rename ρ) := by
  have hget := get_typeOf_rename h e
  have hrefused := refused_rename h e
  cases e with
  | fromEnd id count =>
    simp only [Expr.rename, subscript, requireInt_rename h]
    cases c.requireInt count <;> rfl
  | range id start stop =>
    rw [Expr.rename_range]
    simp only [subscript, bound_rename h]
    cases c.bound start with
    | error e => rfl
    | ok start => cases c.bound stop <;> rfl
  | _ =>
    simp only [Expr.rename] at hget hrefused ⊢
    simp only [subscript, hget, hrefused]
    cases c.types.get (c.typeOf _) <;> rfl

omit h in
theorem outOfBounds?_rename (length : Nat) (s : Subscript Expr) :
    outOfBounds? length (s.rename ρ) = outOfBounds? length s := by
  cases s with
  | int value => cases value <;> rfl
  | fromEnd count => cases count <;> rfl
  | _ => rfl

theorem indexed_rename (receiver : Expr) :
    (c.rename ρ u).indexed (receiver.rename ρ) = (c.indexed receiver).map (·.rename ρ) := by
  simp only [indexed, get_typeOf_rename h, format_typeOf_rename h, project?_rename h,
    storageOf_rename h, span_rename]
  cases c.types.get (c.typeOf receiver) with
  | array type => cases c.project? receiver <;> rfl
  | _ => rfl

/-- What is indexed has spans over its elements. -/
theorem findSpan_indexed_rename {receiver : Expr} {i : Indexed} (hi : c.indexed receiver = .ok i) :
    (c.rename ρ u).findSpan (ρ i.element) i.kind.isReadonly =
      ρ (c.findSpan i.element i.kind.isReadonly) := by
  unfold indexed at hi
  split at hi
  · rename_i type hget
    cases hproject : c.project? receiver with
    | none =>
      rw [hproject] at hi
      cases hi
    | some p =>
      rw [hproject] at hi
      obtain rfl : Indexed.array p = i := Except.ok.inj hi
      obtain ⟨type', htype', rfl⟩ := Option.map_eq_some_iff.1 hproject
      obtain rfl : type = type' := by simpa [TypeTable.array?, hget] using htype'
      exact findSpan_array_rename h hget _
  · rename_i element readonly hget
    cases hi
    have hspan : c.types.findSpan element readonly = some (c.typeOf receiver) :=
      (TypeTable.findSpan_eq_some_iff h.source).2 hget
    simpa [Indexed.element, Indexed.kind] using findSpan_rename h hspan
  · cases hi
  · cases hi

omit h in
theorem missing_rename (a : Access) : (c.rename ρ u).missing (a.rename ρ) = c.missing a := by
  simp only [missing, Access.requiredMembers_rename]
  simp only [Access.rename, span_rename]
  rfl

omit h in
theorem formErrors_rename (e : Expr) (arg : Argument Expr) :
    (c.rename ρ u).formErrors (e.rename ρ) (arg.rename ρ) = c.formErrors e arg := by
  simp only [formErrors, Argument.rename, span_rename]

theorem bindOne_rename {e receiver : Expr} {arg : Argument Expr} {i : Indexed}
    (hi : c.indexed receiver = .ok i) :
    (c.rename ρ u).bindOne (e.rename ρ) (receiver.rename ρ) (arg.rename ρ) (i.rename ρ) =
      (c.bindOne e receiver arg i).map (·.rename ρ) := by
  have hvalue : (arg.rename ρ).value = arg.value.rename ρ := rfl
  simp only [bindOne, formErrors_rename, hvalue, subscript_rename h, Indexed.length?_rename]
  cases c.subscript arg.value with
  | error refused => rfl
  | ok s =>
    simp only [Except.map, outOfBounds?_rename, span_rename, Subscript.isSlice_rename]
    generalize c.formErrors e arg ++ _ = errors
    cases errors with
    | cons error errors => rfl
    | nil =>
      have hrename : (⟨e.rename ρ, receiver.rename ρ, i.rename ρ, s.rename ρ,
          if s.isSlice then (c.rename ρ u).findSpan (i.rename ρ).element (i.rename ρ).kind.isReadonly
          else (i.rename ρ).element⟩ : Access) =
          Access.rename ρ ⟨e, receiver, i, s,
            if s.isSlice then c.findSpan i.element i.kind.isReadonly else i.element⟩ := by
        simp only [Access.rename, Indexed.element_rename, Indexed.kind_rename,
          findSpan_indexed_rename h hi]
        cases s.isSlice <;> rfl
      simp only [hrename, missing_rename]
      cases c.missing _ <;> rfl

theorem bind_rename (e : Expr) :
    (c.rename ρ u).bind (e.rename ρ) = (c.bind e).map (·.rename ρ) := by
  cases e with
  | element id receiver args =>
    have hspan := c.method.span_rename ρ (.element id receiver args)
    rw [Expr.rename_element] at hspan ⊢
    simp only [Context.bind, indexed_rename h]
    cases hi : c.indexed receiver with
    | error errors => rfl
    | ok i =>
      have hcount (count : Nat) := congrArg (fun span ↦
        (Except.error [⟨.indexArgumentCount count, span⟩] : Except (List Diagnostic) Access)) hspan
      match args with
      | [] => exact hcount 0
      | [arg] =>
        have hone : (c.rename ρ u).bindOne ((Expr.element id receiver [arg]).rename ρ) _ (arg.rename ρ)
          _ = _ := bindOne_rename h hi
        rw [Expr.rename_element] at hone
        exact hone
      | first :: second :: args =>
        simp only [Except.map, List.map_cons, List.length_cons, List.length_map]
        exact hcount _
  | _ => rfl

end Context

end InlineArrays
