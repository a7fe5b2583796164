/-!
# TOML documents

The data of a document: scalars, arrays, and tables with distinct keys.  Floats and dates are kept
as they are spelled, since nothing here computes with them.
-/

namespace InlineArrays

inductive Toml where
  | string (text : String)
  | integer (value : Int64)
  | float (spelling : String)
  | boolean (value : Bool)
  | datetime (spelling : String)
  | array (items : List Toml)
  | table (entries : List (String × Toml))

namespace Toml

mutual

/-- How deep arrays and tables nest. -/
def depth : Toml → Nat
  | .array items => itemDepth items + 1
  | .table entries => entryDepth entries + 1
  | _ => 1

def itemDepth : List Toml → Nat
  | [] => 0
  | item :: items => max item.depth (itemDepth items)

def entryDepth : List (String × Toml) → Nat
  | [] => 0
  | (_, value) :: entries => max value.depth (entryDepth entries)

end

/-- An integer that a document can hold. -/
def ofInt? (n : Int) : Option Toml :=
  if Int64.minValue.toInt ≤ n ∧ n ≤ Int64.maxValue.toInt then some (.integer (Int64.ofInt n))
  else none

end Toml

end InlineArrays
