import InlineArrays.Method.Basic
import InlineArrays.Text.Quoted

/-!
# Source listings

The source form of a method body, one statement a line, with the span of every expression and
statement in it.  An expression that occurs several times has the span of its last occurrence, and
one that does not occur the empty span at the start.
-/

namespace InlineArrays

/-- A piece of source and where the expressions in it stand, in the order of their ends. -/
structure Fragment where
  text : String
  marks : List (ExprId × SourceSpan) := []

namespace Fragment

instance : Append Fragment where
  append a b :=
    ⟨a.text ++ b.text, a.marks ++ b.marks.map fun (id, span) ↦
      (id, ⟨span.start + a.text.utf8ByteSize, span.stop + a.text.utf8ByteSize⟩)⟩

instance : Coe String Fragment := ⟨fun text ↦ ⟨text, []⟩⟩

@[simp]
theorem text_append (a b : Fragment) : (a ++ b).text = a.text ++ b.text := rfl

/-- The whole piece as the expression `id`. -/
def mark (id : ExprId) (a : Fragment) : Fragment :=
  ⟨a.text, a.marks ++ [(id, ⟨0, a.text.utf8ByteSize⟩)]⟩

@[simp]
theorem text_mark (id : ExprId) (a : Fragment) : (a.mark id).text = a.text := rfl

end Fragment

/-- What is written before the value of an argument. -/
def Argument.lead {ε : Type} (a : Argument ε) : String :=
  (a.name.map (· ++ ": ")).getD "" ++
    if a.modifier = .none then "" else a.modifier.keyword ++ " "

namespace Expr

mutual

def listing (vars : Array Variable) : Expr → Fragment
  | .var id target => Fragment.mark id ((vars[target]?.map (·.name)).getD "")
  | .field id receiver name => Fragment.mark id (receiver.listing vars ++ ("." ++ name))
  | .call id callee _ _ => Fragment.mark id (callee ++ "()")
  | .int id value => Fragment.mark id (toString value.toInt)
  | .bool id value => Fragment.mark id (toString value)
  | .string id value => Fragment.mark id (Text.quote value)
  | .fromEnd id count => Fragment.mark id ("^" ++ count.listing vars)
  | .range id start stop =>
    Fragment.mark id <|
      (match start with
        | some bound => bound.listing vars
        | none => "") ++
      ".." ++
      (match stop with
        | some bound => bound.listing vars
        | none => "")
  | .default id _ => Fragment.mark id "default"
  | .element id receiver args =>
    Fragment.mark id (receiver.listing vars ++ "[" ++ argumentListing vars args ++ "]")
  | .span id operand readonly =>
    Fragment.mark id ((if readonly then "(ReadOnlySpan)" else "(Span)") ++
      operand.listing vars)
  | .conditional id receiver access =>
    Fragment.mark id (receiver.listing vars ++ "?" ++ access.listing vars)
  | .placeholder id _ => Fragment.mark id ""
termination_by structural e => e

def argumentListing (vars : Array Variable) : List (Argument Expr) → Fragment
  | [] => ""
  | [arg] => arg.lead ++ arg.value.listing vars
  | arg :: rest =>
    arg.lead ++ arg.value.listing vars ++ ", " ++ argumentListing vars rest
termination_by structural args => args

end

end Expr

/-- A statement without its line end; `returns` tells how the method hands back its result. -/
def Statement.listing (vars : Array Variable) (returns : ReturnKind) : Statement → Fragment
  | .expression value => value.listing vars ++ ";"
  | .assign target value => target.listing vars ++ " = " ++ value.listing vars ++ ";"
  | .compound target op value =>
    target.listing vars ++ (" " ++ op.symbol ++ "= ") ++ value.listing vars ++ ";"
  | .refLocal bound init =>
    let declared := vars[bound]?
    (if declared.any (·.kind == .refLocal true) then "ref readonly " else "ref ") ++
      (declared.map (·.name)).getD "" ++ " = ref " ++ init.listing vars ++ ";"
  | .call callee args => (callee ++ "(") ++ Expr.argumentListing vars args ++ ");"
  | .ret none => "return;"
  | .ret (some value) =>
    (if returns.isByRef then "return ref " else "return ") ++ value.listing vars ++ ";"

structure Listing where
  source : String
  /-- By expression id. -/
  spans : Array SourceSpan
  /-- By position of the statement. -/
  statements : List SourceSpan
  deriving DecidableEq, Repr

namespace Body

/-- The lines of the statements, each with the span it takes without its line end. -/
def lines (b : Body) : Fragment × List SourceSpan :=
  b.statements.foldl
    (fun (written, spans) statement ↦
      let line := statement.listing b.vars b.returns
      let start := written.text.utf8ByteSize
      (written ++ line ++ "\n", spans ++ [⟨start, start + line.text.utf8ByteSize⟩]))
    ("", [])

def listing (b : Body) : Listing :=
  let (written, statements) := b.lines
  { source := written.text
    spans := written.marks.foldl (fun spans (id, span) ↦ spans.setIfInBounds id span)
      (Array.replicate b.exprs.size {})
    statements }

/-- A listing has a line for each statement. -/
theorem length_listing_statements (b : Body) :
    b.listing.statements.length = b.statements.length := by
  have hlines (written : Fragment) (spans : List SourceSpan) (statements : List Statement) :
      (statements.foldl
        (fun (written, spans) statement ↦
          let line := statement.listing b.vars b.returns
          let start := written.text.utf8ByteSize
          (written ++ line ++ "\n", spans ++ [⟨start, start + line.text.utf8ByteSize⟩]))
        (written, spans)).2.length = spans.length + statements.length := by
    induction statements generalizing written spans with
    | nil => rfl
    | cons statement statements ih =>
      rw [List.foldl_cons, ih]
      simp
      omega
  exact (hlines "" [] b.statements).trans (Nat.zero_add _)

end Body

/-- The text after the first `count` bytes, if they end between two characters. -/
def dropBytes? : Nat → List Char → Option (List Char)
  | 0, text => some text
  | _ + 1, [] => none
  | count + 1, c :: text =>
    if c.utf8Size ≤ count + 1 then dropBytes? (count + 1 - c.utf8Size) text else none
termination_by structural _ text => text

/-- The first `count` bytes, if they end between two characters. -/
def takeBytes? : Nat → List Char → Option (List Char)
  | 0, _ => some []
  | _ + 1, [] => none
  | count + 1, c :: text =>
    if c.utf8Size ≤ count + 1 then (takeBytes? (count + 1 - c.utf8Size) text).map (c :: ·)
    else none
termination_by structural _ text => text

def slice? (source : String) (span : SourceSpan) : Option String :=
  if span.start ≤ span.stop then
    ((dropBytes? span.start source.toList).bind (takeBytes? (span.stop - span.start))).map
      String.ofList
  else none

/-- A finished body together with its listing. -/
structure Method extends Body where
  listing : Listing
  listing_eq : listing = toBody.listing := by rfl

namespace Method

def span (m : Method) (e : Expr) : SourceSpan := m.listing.spans[e.id]?.getD {}

/-- The source text of an expression. -/
def text (m : Method) (e : Expr) : String := (slice? m.listing.source (m.span e)).getD ""

end Method

def Body.finish (b : Body) : Method := { toBody := b, listing := b.listing }

end InlineArrays
