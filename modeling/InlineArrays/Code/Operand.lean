/-!
# Operands

What an instruction reads: a literal, a value computed earlier, or the contents of a temporary.
Values are numbered per function and defined once; temporaries are numbered apart and may be stored
to repeatedly.
-/

namespace InlineArrays

abbrev ValueId := Nat

abbrev TempId := Nat

inductive Operand where
  | int (value : Int64)
  | bool (value : Bool)
  | computed (id : ValueId)
  | temp (id : TempId)
  deriving DecidableEq, Repr

def Operand.text : Operand → String
  | .int value => toString value.toInt
  | .bool value => toString value
  | .computed id => s!"%{id}"
  | .temp id => s!"$t{id}"

end InlineArrays
