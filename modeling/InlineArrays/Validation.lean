import InlineArrays.Validation.Assignment
import InlineArrays.Validation.Indexing
import InlineArrays.Validation.RefSafety

/-!
# Validation

A method is validated by every validator in turn, and what they report is sorted.
-/

namespace InlineArrays

inductive Validator where
  | indexing
  | refSafety
  | definiteAssignment
  deriving DecidableEq, Repr

namespace Validator

def all : List Validator := [.indexing, .refSafety, .definiteAssignment]

def run (c : Context) : Validator → List Diagnostic
  | .indexing => c.indexingErrors
  | .refSafety => c.refSafetyErrors
  | .definiteAssignment => c.assignmentErrors

end Validator

/-- The sorted diagnostics of a method that resolves. -/
def Context.validateWith (c : Context) (validators : List Validator) : List Diagnostic :=
  Diagnostic.sort (validators.flatMap (·.run c))

/-- What is wrong with a method; nothing can be said of one that does not resolve. -/
def Context.validate? (c : Context) : Option (List Diagnostic) :=
  if c.resolves then some (c.validateWith Validator.all) else none

end InlineArrays
