import InlineArrays.Text.Blank
import InlineArrays.Types.Table

/-!
# Names of types

A type is named by its declared name or as `Span<T>` or `ReadOnlySpan<T>`, with blanks allowed
around each part.  Declared names go first at every level, so a struct may be called `Span<int>`.
Reading a name interns the span types it spells; a name that is refused leaves the table as it was.
-/

namespace InlineArrays.TypeTable

open Text

def spanPrefix (readonly : Bool) : String := if readonly then "ReadOnlySpan<" else "Span<"

/-- What stands between the brackets of a span type's name. -/
def spanArgument? (readonly : Bool) (name : List Char) : Option (List Char) :=
  ((spanPrefix readonly).toList.isPrefixOf? name).bind (['>'].isSuffixOf? ·)

theorem length_of_isPrefixOf? {start name rest : List Char}
    (h : start.isPrefixOf? name = some rest) : name.length = start.length + rest.length := by
  induction start generalizing name with
  | nil =>
    change some name = some rest at h
    simp_all
  | cons c start ih =>
    cases name with
    | nil => exact absurd h (by change ¬ (none : Option (List Char)) = some rest; simp)
    | cons d name =>
      change (if c == d then start.isPrefixOf? name else none) = some rest at h
      split at h
      · simp [ih h]
        omega
      · simp at h

theorem length_spanArgument?_lt {readonly : Bool} {name argument : List Char}
    (h : spanArgument? readonly name = some argument) : argument.length < name.length := by
  obtain ⟨rest, hrest, hargument⟩ := Option.bind_eq_some_iff.1 h
  have hname := length_of_isPrefixOf? hrest
  obtain ⟨tail, htail, hreverse⟩ := Option.map_eq_some_iff.1 hargument
  have hlast := length_of_isPrefixOf? htail
  have : argument.length = tail.length := by simp [← hreverse]
  simp only [List.length_reverse] at hlast
  have : 0 < (spanPrefix readonly).toList.length := by cases readonly <;> decide
  simp at hlast
  omega

/-- The access and the argument of a name in span form. -/
def spanForm? (name : List Char) : Option (Bool × List Char) :=
  [true, false].findSome? fun readonly ↦ (spanArgument? readonly name).map (readonly, ·)

theorem length_spanForm?_lt {name argument : List Char} {readonly : Bool}
    (h : spanForm? name = some (readonly, argument)) : argument.length < name.length := by
  obtain ⟨access, _, hform⟩ := List.exists_of_findSome?_eq_some h
  obtain ⟨found, hfound, hpair⟩ := Option.map_eq_some_iff.1 hform
  cases hpair
  exact length_spanArgument?_lt hfound

/-- The type a name stands for. -/
def resolve (t : TypeTable) (name : List Char) : Except TypeError (TypeId × TypeTable) :=
  match t.lookup (String.ofList (trim name)) with
  | some id => .ok (id, t)
  | none =>
    match (spanForm? (trim name)).attach with
    | some ⟨(readonly, argument), _h⟩ =>
      (t.resolve argument).map fun (element, t) ↦ t.span element readonly
    | none => .error (.unknown (String.ofList (trim name)))
termination_by name.length
decreasing_by exact Nat.lt_of_lt_of_le (length_spanForm?_lt _h) (length_trim_le name)

/-- The name of a type; the element of a span stands before the span in its table. -/
def format (t : TypeTable) (id : TypeId) : String :=
  match t.get id with
  | .span element readonly =>
    spanPrefix readonly ++ (if element < id then t.format element else "error") ++ ">"
  | data => data.name?.getD "error"
termination_by id

/-- Sets the fields of a struct or class. -/
def defineFields (t : TypeTable) (id : TypeId) (fields : List Field) :
    Except TypeError TypeTable :=
  match t.get id with
  | .struct type => .ok ⟨t.added.set (id - builtin.length) (.struct { type with fields })⟩
  | _ => .error (.notStruct (t.format id))

end InlineArrays.TypeTable
