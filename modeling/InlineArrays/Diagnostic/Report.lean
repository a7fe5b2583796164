import InlineArrays.Diagnostic.Basic
import InlineArrays.Text.Blank
import InlineArrays.Text.Columns
import InlineArrays.Text.Line

/-!
# Source reports

A diagnostic drawn under the lines of source it points at: a headline, the position, and the
numbered source.  A label within one line is a rule under the offending text with the message hung
from its middle; a label over several lines is a bracket at their left, with the message at its
foot and the lines between the first and the last left out.
-/

namespace InlineArrays.Diagnostic

def repeated (c : Char) (count : Nat) : String := String.ofList (List.replicate count c)

/-- What a report points at: its first character, and the place just after its last one in the line
of that character.  The two are one place if nothing is pointed at. -/
structure Label where
  start : Text.Position
  stop : Text.Position
  deriving DecidableEq, Repr

/-- There is no label for a span that leaves the source. -/
def label? (lines : List (List Char)) (span : SourceSpan) : Option Label := do
  let start ← Text.locate? span.start lines
  if span.stop ≤ span.start then return ⟨start, start⟩
  let last ← Text.locate? (span.stop - 1) lines
  return ⟨start, { last with column := last.column + 1 }⟩

/-- How a character is drawn, and over how many columns; `place` is the number of characters before
it.  A tab reaches to the next multiple of four places. -/
def cell (place : Nat) (c : Char) : Char × Nat :=
  if c == '\t' then (' ', 4 - place % 4)
  else if Text.isBlank c then (' ', 1)
  else (c, Text.columns c)

def cells (line : List Char) : List (Char × Nat) := (Text.trimEnd line).mapIdx cell

/-- A line without the blanks at its end. -/
def drawn (line : List Char) : String :=
  String.ofList <| (cells line).flatMap fun (c, width) ↦
    if c == ' ' then List.replicate width ' ' else [c]

/-- One mark over a number of columns, by its first column and the others. -/
def stretch (mark : Char × Char) : Nat → List Char
  | 0 => []
  | width + 1 => mark.1 :: List.replicate width mark.2

/-- A mark at each of the first `count` places of a line, as wide as the character there. -/
def marks (line : List Char) (count : Nat) (mark : Nat → Char × Char) : String :=
  let widths := ((cells line).map Prod.snd ++ List.replicate count 1).take count
  String.ofList (widths.mapIdx fun place width ↦ stretch (mark place) width).flatten

/-- The rule under the places from `start` to `stop`, crossed in the middle. -/
def rule (start stop place : Nat) : Char × Char :=
  if start ≤ place && place < stop then
    (if place = (start + stop) / 2 then '┬' else '─', '─')
  else (if place = (start + stop) / 2 then '│' else ' ', ' ')

/-- The arm from the middle of a rule to the message. -/
def arm (middle place : Nat) : Char × Char :=
  if place < middle then (' ', ' ') else (if place = middle then '╰' else '─', '─')

/-- The drawing below the headline. -/
def drawing (message : String) (lines : List (List Char)) (label : Label) : String :=
  let first := toString (label.start.line + 1)
  let last := toString (label.stop.line + 1)
  let column := label.start.column + 1
  let pad := repeated ' ' (last.length - first.length)
  let margin := repeated ' ' (last.length + 2)
  let foot := repeated '─' (last.length + 2)
  let upper := lines.getD label.start.line []
  let lower := lines.getD label.stop.line []
  let body :=
    if label.start.line = label.stop.line then
      let start := label.start.column
      let stop := label.stop.column
      let under := marks upper (stop + 2) (rule start stop)
      let tail := marks upper (stop + 2) (arm ((start + stop) / 2))
      s!" {first} │ {drawn upper}\n" ++
      s!"{margin}│ {under}\n" ++
      s!"{margin}│ {tail} {message}\n"
    else
      let gap := if label.start.line + 1 < label.stop.line then s!"{margin}┆ ┆   \n" else ""
      let under := marks lower (lower.length + 2) fun _ ↦ (' ', ' ')
      let tail := marks lower (lower.length + 2) fun _ ↦ ('─', '─')
      s!" {pad}{first} │ ╭─▶ {drawn upper}\n" ++ gap ++
      s!" {last} │ ├─▶ {drawn lower}\n" ++
      s!"{margin}│ │   {under}\n" ++
      s!"{margin}│ ╰───{tail} {message}\n"
  s!"{margin}╭─[ <unknown>:{first}:{column} ]\n" ++
  s!"{margin}│\n" ++ body ++ s!"{foot}╯\n"

/-- The report on one diagnostic; nothing is drawn for a span outside the source. -/
def report (source : String) (d : Diagnostic) : String :=
  let lines := Text.lines source.toList
  s!"[{d.code.number}] Error: {d.message}\n" ++
    ((label? lines d.span).map (drawing d.message lines)).getD ""

def reports (source : String) (diagnostics : List Diagnostic) : String :=
  "\n".intercalate (diagnostics.map (report source))

end InlineArrays.Diagnostic
