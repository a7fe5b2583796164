/-!
# Sets of characters

A set of characters as the runs of code points that it consists of.
-/

namespace InlineArrays.Text

/-- First and last code point of each run, in increasing order. -/
abbrev Runs := List (Nat × Nat)

def Runs.has (runs : Runs) (c : Char) : Bool :=
  runs.any fun run ↦ run.1 ≤ c.toNat && c.toNat ≤ run.2

end InlineArrays.Text
