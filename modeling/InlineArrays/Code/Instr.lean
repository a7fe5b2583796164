import InlineArrays.Code.Operand
import InlineArrays.Diagnostic.Basic
import InlineArrays.Expr.Basic
import InlineArrays.SpanKind

/-!
# Instructions

Code is a list of instructions in three-address form.  Most define one value by an operation on
operands; the rest store, bind, call or return.  The only nesting is the guard, which runs its body
if the tested operand is not null.
-/

namespace InlineArrays

/-- How a value is computed. -/
inductive Operation where
  | addressOf (target : VariableId) (name : String)
  | tempAddress (temp : TempId)
  /-- Of a struct at an address, or of the class object referred to. -/
  | fieldAddress (base : Operand) (field : String)
  | load (address : Operand)
  | default (type : TypeId) (name : String)
  /-- The inline array at an address as a span. -/
  | project (kind : SpanKind) (address : Operand) (array element : String) (size : Nat)
  | length (span : Operand)
  /-- The position of an index in a sequence of `total` elements. -/
  | getOffset (offset total : Operand)
  | makeIndex (value : Operand) (fromEnd : Bool)
  | makeRange (start stop : Operand)
  | rangeStart (range : Operand)
  | rangeEnd (range : Operand)
  | binary (op : BinaryOp) (left right : Operand)
  /-- The address of an element of a span. -/
  | index (span position : Operand)
  | slice (span start count : Operand)
  /-- A late-bound value as an `int`. -/
  | convert (value : Operand)
  deriving DecidableEq, Repr

namespace Operation

def operands : Operation → List Operand
  | .addressOf .. | .tempAddress _ | .default .. => []
  | .fieldAddress operand _ | .load operand | .project _ operand .. | .length operand
  | .makeIndex operand _ | .rangeStart operand | .rangeEnd operand | .convert operand => [operand]
  | .getOffset offset total => [offset, total]
  | .makeRange start stop => [start, stop]
  | .binary _ left right => [left, right]
  | .index span position => [span, position]
  | .slice span start count => [span, start, count]

def text : Operation → String
  | .addressOf _ name => s!"&{name}"
  | .tempAddress temp => s!"&{(Operand.temp temp).text}"
  | .fieldAddress base field => s!"&{base.text}.{field}"
  | .load address => s!"load {address.text}"
  | .default _ name => s!"default {name}"
  | .project kind address array element size =>
    let accessor := if kind.isReadonly then "as_readonly_span" else "as_span"
    s!"{accessor}<{array}, {element}>({address.text}, {size})"
  | .length span => s!"length {span.text}"
  | .getOffset offset total => s!"getoffset {offset.text}, {total.text}"
  | .makeIndex value fromEnd => (if fromEnd then "make_index ^" else "make_index ") ++ value.text
  | .makeRange start stop => s!"make_range {start.text}, {stop.text}"
  | .rangeStart range => s!"range.start {range.text}"
  | .rangeEnd range => s!"range.end {range.text}"
  | .binary op left right => s!"{left.text} {op.symbol} {right.text}"
  | .index span position => s!"index {span.text}, {position.text}"
  | .slice span start count => s!"slice {span.text}, {start.text}, {count.text}"
  | .convert value => s!"convert.dynamic {value.text}"

/-- The name of the span helper that the operation calls. -/
def helper? : Operation → Option String
  | .project kind .. => some (if kind.isReadonly then "as_readonly_span" else "as_span")
  | .length _ => some "length"
  | .getOffset .. => some "getoffset"
  | .rangeStart _ => some "range.start"
  | .rangeEnd _ => some "range.end"
  | .index .. => some "index"
  | .slice .. => some "slice"
  | _ => none

end Operation

/-- Where an instruction comes from, and a remark for its reader. -/
structure Note where
  span : Option SourceSpan := none
  comment : Option String := none
  deriving DecidableEq, Repr

/-- The comment as it ends an instruction. -/
def Note.remark (note : Note) : String := (note.comment.map ("  // " ++ ·)).getD ""

inductive Instr where
  | define (note : Note) (dest : ValueId) (operation : Operation)
  | store (note : Note) (address value : Operand)
  | storeTemp (note : Note) (temp : TempId) (value : Operand)
  /-- Makes a ref local refer to an address. -/
  | bind (note : Note) (target : VariableId) (name : String) (address : Operand)
  /-- Arguments by reference, and the result of a call by reference, are addresses. -/
  | call (note : Note) (dest : Option ValueId) (callee : String) (args : List Operand)
  /-- Defines `result` after `body`, or null without running it. -/
  | guard (note : Note) (dest : ValueId) (tested : Operand) (body : List Instr) (result : Operand)
  | ret (note : Note) (value : Option Operand)

namespace Instr

def note : Instr → Note
  | .define note .. | .store note .. | .storeTemp note .. | .bind note .. | .call note ..
  | .guard note .. | .ret note _ => note

/-- The value that the instruction defines. -/
def dest? : Instr → Option ValueId
  | .define _ dest _ | .guard _ dest .. => some dest
  | .call _ dest .. => dest
  | .store .. | .storeTemp .. | .bind .. | .ret .. => none

/-- What the instruction reads, apart from the body of a guard. -/
def operands : Instr → List Operand
  | .define _ _ operation => operation.operands
  | .store _ address value => [address, value]
  | .storeTemp _ _ value => [value]
  | .bind _ _ _ address => [address]
  | .call _ _ _ args => args
  | .guard _ _ tested _ result => [tested, result]
  | .ret _ value => value.toList

def helper? : Instr → Option String
  | .define _ _ operation => operation.helper?
  | _ => none

mutual

/-- The instruction and, after it, those nested in it. -/
def flatten : Instr → List Instr
  | .guard note dest tested body result =>
    .guard note dest tested body result :: flattenAll body
  | i => [i]
termination_by structural i => i

def flattenAll : List Instr → List Instr
  | [] => []
  | i :: code => i.flatten ++ flattenAll code
termination_by structural code => code

end

def indentation (level : Nat) : String := String.join (List.replicate level "  ")

mutual

def text (level : Nat) : Instr → String
  | .define note dest operation =>
    indentation level ++ s!"%{dest} = {operation.text}" ++ note.remark
  | .store note address value =>
    indentation level ++ s!"store {address.text}, {value.text}" ++ note.remark
  | .storeTemp note temp value =>
    indentation level ++ s!"{(Operand.temp temp).text} = {value.text}" ++ note.remark
  | .bind note _ name address =>
    indentation level ++ s!"bind {name}, {address.text}" ++ note.remark
  | .call note dest callee args =>
    let defined := (dest.map fun id ↦ s!"%{id} = ").getD ""
    let args := ", ".intercalate (args.map (·.text))
    indentation level ++ s!"{defined}call {callee}({args})" ++ note.remark
  | .guard note dest tested body result =>
    indentation level ++ s!"%{dest} = guard {tested.text} \x7b\n" ++ lines (level + 1) body ++
      indentation level ++ s!"\x7d -> {result.text}" ++ note.remark
  | .ret note value =>
    let value := (value.map (" " ++ ·.text)).getD ""
    indentation level ++ s!"return{value}" ++ note.remark
termination_by structural i => i

/-- Every instruction on a line of its own. -/
def lines (level : Nat) : List Instr → String
  | [] => ""
  | i :: code => i.text level ++ "\n" ++ lines level code
termination_by structural code => code

end

end Instr

end InlineArrays
