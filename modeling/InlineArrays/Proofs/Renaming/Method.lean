import InlineArrays.Expr.Place
import InlineArrays.Method.Listing
import InlineArrays.Proofs.Types.Embedding
import InlineArrays.Usage

/-!
# Methods under other type ids

The ids of types occur in variables, calls, defaults, the receiver and the return type of a method.
Nothing that is read off its text depends on them.
-/

namespace InlineArrays

variable (ρ : TypeId → TypeId)

namespace Expr

mutual

def rename : Expr → Expr
  | .var id target => .var id target
  | .field id receiver name => .field id receiver.rename name
  | .call id callee returns type => .call id callee returns (ρ type)
  | .int id value => .int id value
  | .bool id value => .bool id value
  | .string id value => .string id value
  | .fromEnd id count => .fromEnd id count.rename
  | .range id start stop => .range id (renameBound start) (renameBound stop)
  | .default id type => .default id (ρ type)
  | .element id receiver args => .element id receiver.rename (renameArguments args)
  | .span id operand readonly => .span id operand.rename readonly
  | .conditional id receiver access => .conditional id receiver.rename access.rename
  | .placeholder id receiver => .placeholder id receiver.rename
termination_by structural e => e

def renameArguments : List (Argument Expr) → List (Argument Expr)
  | [] => []
  | arg :: args => { arg with value := arg.value.rename } :: renameArguments args
termination_by structural args => args

def renameBound : Option Expr → Option Expr
  | none => none
  | some bound => some bound.rename
termination_by structural bound => bound

end

end Expr

def Argument.rename (arg : Argument Expr) : Argument Expr := { arg with value := arg.value.rename ρ }

theorem Expr.renameArguments_eq (args : List (Argument Expr)) :
    renameArguments ρ args = args.map (·.rename ρ) := by
  induction args with
  | nil => rfl
  | cons arg args ih => rw [renameArguments, ih, List.map_cons, Argument.rename]

theorem Expr.rename_range (id : ExprId) (start stop : Option Expr) :
    (Expr.range id start stop).rename ρ =
      .range id (start.map (·.rename ρ)) (stop.map (·.rename ρ)) := by
  cases start <;> cases stop <;> rfl

theorem Expr.rename_element (id : ExprId) (receiver : Expr) (args : List (Argument Expr)) :
    (Expr.element id receiver args).rename ρ =
      .element id (receiver.rename ρ) (args.map (·.rename ρ)) := by
  rw [rename, renameArguments_eq]

@[simp]
theorem Expr.id_rename (e : Expr) : (e.rename ρ).id = e.id := by cases e <;> rfl

@[simp]
theorem Expr.isVariable_rename (e : Expr) : (e.rename ρ).isVariable = e.isVariable := by
  cases e <;> rfl

@[simp]
theorem Expr.isElement_rename (e : Expr) : (e.rename ρ).isElement = e.isElement := by
  cases e <;> rfl

@[simp]
theorem Expr.isPlaceholder_rename (e : Expr) : (e.rename ρ).isPlaceholder = e.isPlaceholder := by
  cases e <;> rfl

def Variable.rename (v : Variable) : Variable := { v with type := ρ v.type }

def Owner.rename (o : Owner) : Owner := { o with type := ρ o.type }

def Statement.rename : Statement → Statement
  | .expression value => .expression (value.rename ρ)
  | .assign target value => .assign (target.rename ρ) (value.rename ρ)
  | .compound target op value => .compound (target.rename ρ) op (value.rename ρ)
  | .refLocal bound init => .refLocal bound (init.rename ρ)
  | .call callee args => .call callee (args.map (·.rename ρ))
  | .ret value => .ret (value.map (·.rename ρ))

def Body.rename (b : Body) : Body :=
  { b with
    owner := b.owner.map (·.rename ρ)
    returnType := b.returnType.map ρ
    exprs := b.exprs.map (·.rename ρ)
    vars := b.vars.map (·.rename ρ)
    statements := b.statements.map (·.rename ρ) }

def Method.rename (m : Method) : Method := (m.toBody.rename ρ).finish

/-! ## Text -/

section

variable (vars : Array Variable)

theorem map_name_rename {α : Type} (f : String → α) (v : VariableId) :
    ((vars.map (·.rename ρ))[v]?.map fun v ↦ f v.name) = vars[v]?.map fun v ↦ f v.name := by
  rw [Array.getElem?_map, Option.map_map]
  rfl

mutual

theorem Expr.listing_rename : (e : Expr) →
    (e.rename ρ).listing (vars.map (·.rename ρ)) = e.listing vars
  | .var id target => by
    simp only [rename, listing, map_name_rename ρ vars fun name ↦ (⟨name, []⟩ : Fragment)]
  | .field _ receiver _ => by simp only [rename, listing, listing_rename receiver]
  | .call .. | .int .. | .bool .. | .string .. | .default .. | .placeholder .. => rfl
  | .fromEnd _ count => by simp only [rename, listing, listing_rename count]
  | .range _ none none => rfl
  | .range _ (some start) none => by simp only [rename, renameBound, listing, listing_rename start]
  | .range _ none (some stop) => by simp only [rename, renameBound, listing, listing_rename stop]
  | .range _ (some start) (some stop) => by
    simp only [rename, renameBound, listing, listing_rename start, listing_rename stop]
  | .element _ receiver args => by
    simp only [rename, listing, listing_rename receiver, argumentListing_rename args]
  | .span _ operand _ => by simp only [rename, listing, listing_rename operand]
  | .conditional _ receiver access => by
    simp only [rename, listing, listing_rename receiver, listing_rename access]
termination_by structural e => e

theorem Expr.argumentListing_rename : (args : List (Argument Expr)) →
    argumentListing (vars.map (·.rename ρ)) (renameArguments ρ args) = argumentListing vars args
  | [] => rfl
  | [arg] => by simp only [renameArguments, argumentListing, listing_rename arg.value]; rfl
  | arg :: next :: args => by
    have hrest := argumentListing_rename (next :: args)
    simp only [renameArguments, argumentListing, listing_rename arg.value] at hrest ⊢
    rw [hrest]
    rfl
termination_by structural args => args

end

theorem Statement.listing_rename (returns : ReturnKind) (s : Statement) :
    (s.rename ρ).listing (vars.map (·.rename ρ)) returns = s.listing vars returns := by
  cases s with
  | refLocal bound init =>
    simp only [rename, listing, Expr.listing_rename, Array.getElem?_map, Option.any_map,
      Option.map_map]
    rfl
  | call callee args =>
    simp only [rename, listing, ← Expr.renameArguments_eq, Expr.argumentListing_rename]
  | ret value =>
    cases value <;> simp only [rename, Option.map_none, Option.map_some, listing,
      Expr.listing_rename]
  | _ => simp only [rename, listing, Expr.listing_rename]

end

theorem Body.listing_rename (b : Body) : (b.rename ρ).listing = b.listing := by
  have hlines : (b.rename ρ).lines = b.lines := by
    simp only [lines, rename, List.foldl_map, Statement.listing_rename]
  simp only [listing, hlines]
  simp [rename]

@[simp]
theorem Method.listing_rename (m : Method) : (m.rename ρ).listing = m.listing := by
  rw [m.listing_eq]
  exact m.toBody.listing_rename ρ

@[simp]
theorem Method.span_rename (m : Method) (e : Expr) : (m.rename ρ).span (e.rename ρ) = m.span e := by
  simp [span]

@[simp]
theorem Method.text_rename (m : Method) (e : Expr) : (m.rename ρ).text (e.rename ρ) = m.text e := by
  simp [text]

/-! ## Uses -/

def Use.rename (use : Use) : Use := (use.1.rename ρ, use.2)

mutual

theorem Expr.uses_rename (usage : Usage) : (e : Expr) →
    (e.rename ρ).uses usage = (e.uses usage).map (Use.rename ρ)
  | .var .. | .call .. | .int .. | .bool .. | .string .. | .default .. | .placeholder .. => rfl
  | .field _ receiver _ => by
    simp only [rename, uses, uses_rename .receiver receiver, List.map_cons, Use.rename]
  | .fromEnd _ count => by
    simp only [rename, uses, uses_rename .read count, List.map_cons, Use.rename]
  | .range _ none none => rfl
  | .range _ (some start) none => by
    simp only [rename, renameBound, uses, uses_rename .read start, List.map_cons, List.map_append, Use.rename,
      List.map_nil]
  | .range _ none (some stop) => by
    simp only [rename, renameBound, uses, uses_rename .read stop, List.map_cons, List.map_append, Use.rename,
      List.map_nil]
  | .range _ (some start) (some stop) => by
    simp only [rename, renameBound, uses, uses_rename .read start, uses_rename .read stop, List.map_cons,
      List.map_append, Use.rename]
  | .element _ receiver args => by
    simp only [rename, uses, uses_rename .receiver receiver, argumentUses_rename args, List.map_cons,
      List.map_append, Use.rename]
  | .span _ operand _ => by
    simp only [rename, uses, uses_rename .receiver operand, List.map_cons, Use.rename]
  | .conditional _ receiver access => by
    simp only [rename, uses, uses_rename .read receiver, uses_rename usage access, List.map_cons,
      List.map_append, Use.rename]
termination_by structural e => e

theorem Expr.argumentUses_rename : (args : List (Argument Expr)) →
    argumentUses (renameArguments ρ args) = (argumentUses args).map (Use.rename ρ)
  | [] => rfl
  | arg :: args => by
    simp only [renameArguments, argumentUses, uses_rename .read arg.value, argumentUses_rename args,
      List.map_append]
termination_by structural args => args

end

mutual

theorem Expr.usesAfterParts_rename (usage : Usage) : (e : Expr) →
    (e.rename ρ).usesAfterParts usage = (e.usesAfterParts usage).map (Use.rename ρ)
  | .var .. | .call .. | .int .. | .bool .. | .string .. | .default .. | .placeholder .. => rfl
  | .field _ receiver _ => by
    simp only [rename, usesAfterParts, usesAfterParts_rename .receiver receiver, List.map_append,
      List.map_cons, List.map_nil, Use.rename]
  | .fromEnd _ count => by
    simp only [rename, usesAfterParts, usesAfterParts_rename .read count, List.map_append,
      List.map_cons, List.map_nil, Use.rename]
  | .range _ none none => rfl
  | .range _ (some start) none => by
    simp only [rename, renameBound, usesAfterParts, usesAfterParts_rename .read start, List.map_append,
      List.map_cons, List.map_nil, Use.rename]
  | .range _ none (some stop) => by
    simp only [rename, renameBound, usesAfterParts, usesAfterParts_rename .read stop, List.map_append,
      List.map_cons, List.map_nil, Use.rename]
  | .range _ (some start) (some stop) => by
    simp only [rename, renameBound, usesAfterParts, usesAfterParts_rename .read start,
      usesAfterParts_rename .read stop, List.map_append, List.map_cons, List.map_nil, Use.rename]
  | .element _ receiver args => by
    simp only [rename, usesAfterParts, usesAfterParts_rename .receiver receiver,
      argumentUsesAfterParts_rename args, List.map_append, List.map_cons, List.map_nil, Use.rename]
  | .span _ operand _ => by
    simp only [rename, usesAfterParts, usesAfterParts_rename .receiver operand, List.map_append,
      List.map_cons, List.map_nil, Use.rename]
  | .conditional _ receiver access => by
    simp only [rename, usesAfterParts, usesAfterParts_rename .read receiver,
      usesAfterParts_rename usage access, List.map_append, List.map_cons, List.map_nil, Use.rename]
termination_by structural e => e

theorem Expr.argumentUsesAfterParts_rename : (args : List (Argument Expr)) →
    argumentUsesAfterParts (renameArguments ρ args) =
      (argumentUsesAfterParts args).map (Use.rename ρ)
  | [] => rfl
  | arg :: args => by
    simp only [renameArguments, argumentUsesAfterParts, usesAfterParts_rename .read arg.value,
      argumentUsesAfterParts_rename args, List.map_append]
termination_by structural args => args

end

section

variable {ρ} (herror : ρ TypeTable.error = TypeTable.error)
include herror

theorem Body.var_rename (b : Body) (v : VariableId) : (b.rename ρ).var v = (b.var v).rename ρ := by
  simp only [var, rename, Array.getElem?_map]
  cases b.vars[v]? with
  | none => simp [Variable.rename, herror]
  | some found => rfl

theorem Statement.operands_rename (b : Body) (s : Statement) :
    (s.rename ρ).operands (b.rename ρ) = (s.operands b).map (Use.rename ρ) := by
  cases s with
  | refLocal bound init =>
    simp only [rename, operands, Body.var_rename herror]
    rfl
  | call callee args =>
    simp only [rename, operands, List.map_map]
    rfl
  | ret value => cases value <;> rfl
  | _ => rfl

theorem Statement.usesAfterParts_rename (b : Body) (s : Statement) :
    (s.rename ρ).usesAfterParts (b.rename ρ) = (s.usesAfterParts b).map (Use.rename ρ) := by
  simp only [usesAfterParts, operands_rename herror, List.flatMap_map, List.map_flatMap]
  exact congrArg (s.operands b).flatMap (funext fun use ↦ use.1.usesAfterParts_rename ρ use.2)

theorem Body.uses_rename (b : Body) : (b.rename ρ).uses = b.uses.map (Use.rename ρ) := by
  have hstatement (s : Statement) :
      (s.rename ρ).uses (b.rename ρ) = (s.uses b).map (Use.rename ρ) := by
    simp only [Statement.uses, Statement.operands_rename herror, List.flatMap_map, List.map_flatMap]
    exact congrArg (s.operands b).flatMap (funext fun use ↦ use.1.uses_rename ρ use.2)
  simp only [Body.uses, List.map_flatMap, ← hstatement]
  simp only [rename, List.flatMap_map]

end

/-! ## What locals are bound to -/

theorem Body.refLocalInit?_rename (b : Body) (v : VariableId) :
    (b.rename ρ).refLocalInit? v = (b.refLocalInit? v).map (·.rename ρ) := by
  simp only [refLocalInit?, rename, List.findSome?_map, List.map_findSome?]
  refine congrArg (List.findSome? · b.statements) (funext fun s ↦ ?_)
  cases s with
  | refLocal bound init =>
    by_cases hbound : bound = v <;> simp [Statement.rename, hbound]
  | _ => rfl

theorem Body.firstAssignment?_rename (b : Body) (v : VariableId) :
    (b.rename ρ).firstAssignment? v = (b.firstAssignment? v).map (·.rename ρ) := by
  simp only [firstAssignment?, rename, List.findSome?_map, List.map_findSome?]
  refine congrArg (List.findSome? · b.statements) (funext fun s ↦ ?_)
  cases s with
  | assign target value =>
    cases target with
    | var id target =>
      by_cases htarget : target = v <;> simp [Statement.rename, Expr.rename, htarget]
    | _ => rfl
  | _ => rfl

theorem Expr.place?_rename {ρ : TypeId → TypeId} (herror : ρ TypeTable.error = TypeTable.error)
    (b : Body) : (e : Expr) → (e.rename ρ).place? (b.rename ρ) = e.place? b
  | .var _ target => by
    simp only [rename, place?, b.var_rename herror target]
    rfl
  | .field _ receiver _ => by simp only [rename, place?, place?_rename herror b receiver]
  | .element _ receiver args => by
    rw [rename_element]
    cases args with
    | nil => rfl
    | cons arg args =>
      obtain ⟨value, name, modifier⟩ := arg
      cases args with
      | nil =>
        cases value with
        | int id index =>
          simp only [List.map_cons, List.map_nil, Argument.rename, rename, place?,
            place?_rename herror b receiver]
        | _ => rfl
      | cons next args => cases value <;> rfl
  | .call .. | .int .. | .bool .. | .string .. | .fromEnd .. | .range .. | .default .. | .span ..
  | .conditional .. | .placeholder .. => rfl
termination_by structural e => e

end InlineArrays
