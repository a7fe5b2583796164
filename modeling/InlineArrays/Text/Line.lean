/-!
# Lines of a text

A text is cut into lines, each with the characters that end it, so that the lines put together are
the text again.  A byte offset then falls into a line and before a character of it.
-/

namespace InlineArrays.Text

/-- Line feed, vertical tab, form feed, carriage return, next line, and the separators of lines
and paragraphs. -/
def isLineEnd (c : Char) : Bool :=
  let n := c.toNat
  (0x0A ≤ n && n ≤ 0x0D) || n == 0x85 || n == 0x2028 || n == 0x2029

/-- Whether a line is over after `c`.  A carriage return and the line feed after it end one line. -/
def endsLine (c : Char) (rest : List Char) : Bool :=
  isLineEnd c && !(c == '\r' && rest.head? == some '\n')

def splitLines : List Char → List (List Char)
  | [] => []
  | c :: rest =>
    if endsLine c rest then [c] :: splitLines rest
    else match splitLines rest with
      | [] => [[c]]
      | line :: more => (c :: line) :: more

/-- The lines of a text; the empty text is one empty line. -/
def lines (text : List Char) : List (List Char) :=
  if text.isEmpty then [[]] else splitLines text

theorem flatten_splitLines (text : List Char) : (splitLines text).flatten = text := by
  induction text with
  | nil => rfl
  | cons c rest ih =>
    unfold splitLines
    split
    · rw [List.flatten_cons, ih, List.singleton_append]
    · split
      next h => rw [← ih, h]; rfl
      next line more h =>
        rw [h, List.flatten_cons] at ih
        rw [List.flatten_cons, List.cons_append, ih]

theorem flatten_lines (text : List Char) : (lines text).flatten = text := by
  unfold lines
  split
  next h => rw [List.isEmpty_iff.mp h]; rfl
  next => exact flatten_splitLines text

def byteSize (text : List Char) : Nat := text.foldr (·.utf8Size + ·) 0

/-- A line, counted from zero, and the number of characters before a place in it. -/
structure Position where
  line : Nat
  column : Nat
  deriving DecidableEq, Repr

/-- The number of characters that end within the first `offset` bytes of a line. -/
def columnAt (offset : Nat) : List Char → Nat
  | [] => 0
  | c :: rest => if c.utf8Size ≤ offset then columnAt (offset - c.utf8Size) rest + 1 else 0

/-- Where a byte offset falls.  The end of a line is the start of the next one, and the end of the
last line belongs to it. -/
def locate? (offset : Nat) : List (List Char) → Option Position
  | [] => none
  | line :: more =>
    if offset < byteSize line || (more.isEmpty && offset == byteSize line) then
      some ⟨0, columnAt offset line⟩
    else
      (locate? (offset - byteSize line) more).map fun found ↦ { found with line := found.line + 1 }

end InlineArrays.Text
