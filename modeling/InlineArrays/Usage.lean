import InlineArrays.Method.Basic

/-!
# Uses of expressions

Every expression of a statement with the use its parent puts it to: first an expression and then
what it is built from, or the other way round.  A placeholder is used inside its conditional access
only, and the receiver it stands for is not used again through it.
-/

namespace InlineArrays

inductive Usage where
  | read
  | assignTarget
  | compoundTarget
  | argument (modifier : Modifier)
  | refLocalInit (readonly : Bool)
  | returned (kind : ReturnKind)
  /-- What a field, an element or a span is taken of; the use of that decides. -/
  | receiver
  deriving DecidableEq, Repr

/-- Whether the use takes a reference rather than a value. -/
def Usage.demandsRef : Usage → Bool
  | .assignTarget | .compoundTarget | .refLocalInit _ => true
  | .argument modifier => modifier != .none
  | .returned kind => kind.isByRef
  | .read | .receiver => false

abbrev Use := Expr × Usage

namespace Expr

mutual

/-- The uses in an expression, each before those in its parts. -/
def uses (usage : Usage) : Expr → List Use
  | .field id receiver name => (.field id receiver name, usage) :: receiver.uses .receiver
  | .element id receiver args =>
    (.element id receiver args, usage) :: (receiver.uses .receiver ++ argumentUses args)
  | .span id operand readonly => (.span id operand readonly, usage) :: operand.uses .receiver
  | .fromEnd id count => (.fromEnd id count, usage) :: count.uses .read
  | .range id start stop =>
    (.range id start stop, usage) ::
      ((match start with
        | some bound => bound.uses .read
        | none => []) ++
      (match stop with
        | some bound => bound.uses .read
        | none => []))
  | .conditional id receiver access =>
    (.conditional id receiver access, usage) :: (receiver.uses .read ++ access.uses usage)
  | e => [(e, usage)]
termination_by structural e => e

def argumentUses : List (Argument Expr) → List Use
  | [] => []
  | arg :: args => arg.value.uses .read ++ argumentUses args
termination_by structural args => args

end

mutual

/-- The uses in an expression, each after those in its parts. -/
def usesAfterParts (usage : Usage) : Expr → List Use
  | .field id receiver name =>
    receiver.usesAfterParts .receiver ++ [(.field id receiver name, usage)]
  | .element id receiver args =>
    receiver.usesAfterParts .receiver ++ argumentUsesAfterParts args ++
      [(.element id receiver args, usage)]
  | .span id operand readonly =>
    operand.usesAfterParts .receiver ++ [(.span id operand readonly, usage)]
  | .fromEnd id count => count.usesAfterParts .read ++ [(.fromEnd id count, usage)]
  | .range id start stop =>
    (match start with
      | some bound => bound.usesAfterParts .read
      | none => []) ++
    (match stop with
      | some bound => bound.usesAfterParts .read
      | none => []) ++ [(.range id start stop, usage)]
  | .conditional id receiver access =>
    receiver.usesAfterParts .read ++ access.usesAfterParts usage ++
      [(.conditional id receiver access, usage)]
  | e => [(e, usage)]
termination_by structural e => e

def argumentUsesAfterParts : List (Argument Expr) → List Use
  | [] => []
  | arg :: args => arg.value.usesAfterParts .read ++ argumentUsesAfterParts args
termination_by structural args => args

end

end Expr

/-- The expressions a statement is made of, with the use it puts them to. -/
def Statement.operands (b : Body) : Statement → List Use
  | .expression value => [(value, .read)]
  | .assign target value => [(target, .assignTarget), (value, .read)]
  | .compound target _ value => [(target, .compoundTarget), (value, .read)]
  | .refLocal bound init => [(init, .refLocalInit ((b.var bound).kind == .refLocal true))]
  | .call _ args => args.map fun arg ↦ (arg.value, .argument arg.modifier)
  | .ret (some value) => [(value, .returned b.returns)]
  | .ret none => []

def Statement.uses (b : Body) (s : Statement) : List Use :=
  (s.operands b).flatMap fun (e, usage) ↦ e.uses usage

def Statement.usesAfterParts (b : Body) (s : Statement) : List Use :=
  (s.operands b).flatMap fun (e, usage) ↦ e.usesAfterParts usage

/-- Every use in a body, in order of the statements. -/
def Body.uses (b : Body) : List Use := b.statements.flatMap (·.uses b)

end InlineArrays
