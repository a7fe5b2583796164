import InlineArrays.Method.Basic

/-!
# Places

A variable followed by field accesses and constant subscripts.  Places name the storage that
definite assignment keeps track of.
-/

namespace InlineArrays

inductive Segment where
  | member (name : String)
  | subscript (index : Int64)
  deriving DecidableEq, Repr

def Segment.text : Segment → String
  | .member name => "." ++ name
  | .subscript index => s!"[{index.toInt}]"

structure Place where
  root : String
  segments : List Segment := []
  deriving DecidableEq, Repr

namespace Place

def isName (p : Place) : Bool := p.segments.isEmpty

def push (p : Place) (s : Segment) : Place := { p with segments := p.segments ++ [s] }

def text (p : Place) : String := p.segments.foldl (fun text s ↦ text ++ s.text) p.root

/-- The name of the last field on the way. -/
def lastMember? (p : Place) : Option String :=
  p.segments.reverse.findSome? fun
    | .member name => some name
    | .subscript _ => none

/-- The places strictly above `p`, the variable first. -/
def parents (p : Place) : List Place :=
  (List.range p.segments.length).map fun n ↦ ⟨p.root, p.segments.take n⟩

theorem parents_push (p : Place) (s : Segment) : (p.push s).parents = p.parents ++ [p] := by
  have h : ∀ n ∈ List.range p.segments.length,
      Place.mk p.root ((p.segments ++ [s]).take n) = ⟨p.root, p.segments.take n⟩ := by
    intro n hn
    rw [List.take_append_of_le_length (Nat.le_of_lt (List.mem_range.1 hn))]
  simp [parents, push, List.range_succ, List.map_congr_left h]

end Place

/-- The place that a variable, a field of a place or a constant element of a place denotes. -/
def Expr.place? (b : Body) : Expr → Option Place
  | .var _ target => some ⟨(b.var target).name, []⟩
  | .field _ receiver name => (receiver.place? b).map (·.push (.member name))
  | .element _ receiver [⟨.int _ index, _, _⟩] =>
    (receiver.place? b).map (·.push (.subscript index))
  | _ => none
termination_by structural e => e

end InlineArrays
