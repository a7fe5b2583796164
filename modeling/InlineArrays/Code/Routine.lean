import InlineArrays.Code.Instr

/-!
# Routines

The code of one method: a flat list of instructions with the number of values and temporaries that
they use.
-/

namespace InlineArrays

structure Routine where
  name : String
  /-- In the order of the signature. -/
  parameters : List VariableId := []
  receiver : Option VariableId := none
  returns : ReturnKind := .void
  code : List Instr := []
  valueCount : Nat := 0
  tempCount : Nat := 0

namespace Routine

/-- Every instruction, each guard before its body. -/
def instrs (r : Routine) : List Instr := Instr.flattenAll r.code

/-- The span helpers called, in order. -/
def helpers (r : Routine) : List String := r.instrs.filterMap (·.helper?)

def text (r : Routine) (level : Nat := 0) : String :=
  Instr.indentation level ++ s!"fn {r.name} \x7b\n" ++ Instr.lines (level + 1) r.code ++
    Instr.indentation level ++ "\x7d\n"

end Routine

end InlineArrays
