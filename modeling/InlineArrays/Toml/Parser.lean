import InlineArrays.Toml.Draft
import InlineArrays.Toml.Quoted

/-!
# Reading TOML

A document is a sequence of lines, each empty, a header or a key with its value.  Readers of a part
return what they read and the text after it.
-/

namespace InlineArrays.Toml

/-- The text after blanks, line ends and comments; a comment that is not text is refused. -/
def skipLines? (comment : Bool) : List Char → Option (List Char)
  | [] => some []
  | '\r' :: '\n' :: text | '\n' :: text => skipLines? false text
  | c :: text =>
    if comment then if isPrintable c then skipLines? true text else none
    else if isBlank c then skipLines? false text
    else if c == '#' then skipLines? true text
    else some (c :: text)

/-- The next line, if nothing but a comment is left on this one. -/
def nextLine? (text : List Char) : Option (List Char) :=
  let text := skipBlanks text
  let text := if text.head? == some '#' then text.dropWhile isPrintable else text
  match text with
  | [] => some []
  | '\r' :: '\n' :: text | '\n' :: text => some text
  | _ => none

abbrev Reader (α : Type) := List Char → Option (α × List Char)

/-- The items of an array after its opening bracket; a comma may follow the last one. -/
def items? (item : Reader Toml) : Nat → Reader (List Toml)
  | 0, _ => none
  | count + 1, text => do
    let text ← skipLines? false text
    if text.head? == some ']' then return ([], text.tail)
    let (first, text) ← item text
    match ← skipLines? false text with
    | ',' :: text =>
      let (rest, text) ← items? item count text
      return (first :: rest, text)
    | ']' :: text => return ([first], text)
    | _ => none

/-- A key and, after the sign between them, its value. -/
def pair? (value : Reader Toml) (text : List Char) :
    Option ((List String × Toml) × List Char) := do
  let (key, text) ← key? text
  match text with
  | '=' :: text =>
    let (v, text) ← value (skipBlanks text)
    return ((key, v), text)
  | _ => none

/-- The pairs of an inline table; no comma follows the last one. -/
def pairs? (value : Reader Toml) : Nat → Reader (List (List String × Toml))
  | 0, _ => none
  | count + 1, text => do
    let (first, text) ← pair? value text
    match skipBlanks text with
    | ',' :: text =>
      let (rest, text) ← pairs? value count text
      return (first :: rest, text)
    | '}' :: text => return ([first], text)
    | _ => none

/-- Adds a pair under its path; the last part is the key proper. -/
def insertPair? (entries : Draft.Entries) (pair : List String × Toml) : Option Draft.Entries :=
  match pair.1.getLast? with
  | some key => Draft.insertDotted? key pair.2 pair.1.dropLast entries
  | none => none

def inlineTable? (pairs : List (List String × Toml)) : Option Toml :=
  (pairs.foldlM insertPair? []).map fun entries ↦ .table (Draft.finishEntries entries)

def isWordChar (c : Char) : Bool :=
  c.isAlphanum || c == '_' || c == '+' || c == '-' || c == '.' || c == ':'

/-- A bare word; a date may be parted from its time by a space. -/
def word (text : List Char) : List Char × List Char :=
  let first := text.takeWhile isWordChar
  let rest := text.drop first.length
  match rest with
  | ' ' :: c :: _ =>
    if c.isDigit && afterDate? first == some [] then
      let time := rest.tail.takeWhile isWordChar
      (first ++ ' ' :: time, rest.tail.drop time.length)
    else (first, rest)
  | _ => (first, rest)

/-- A value in which arrays and tables nest at most `depth` deep. -/
def value? : Nat → Reader Toml
  | depth, '[' :: text =>
    match depth with
    | 0 => none
    | depth + 1 =>
      (items? (value? depth) (text.length + 1) text).map fun (items, text) ↦ (.array items, text)
  | depth, '\x7b' :: text =>
    match depth with
    | 0 => none
    | depth + 1 =>
      match skipBlanks text with
      | '\x7d' :: text => some (.table [], text)
      | text => do
        let (pairs, text) ← pairs? (value? depth) (text.length + 1) text
        return (← inlineTable? pairs, text)
  | _, text =>
    if text.head? == some '"' || text.head? == some '\x27' then
      (string? text).map fun (contents, text) ↦ (.string (String.ofList contents), text)
    else
      let (spelling, text) := word text
      (scalar? spelling).map fun v ↦ (v, text)

/-- The path of a header after its opening brackets, and the next line. -/
def header? (closing : List Char) (text : List Char) : Option (List String × List Char) := do
  let (path, text) ← key? text
  let text ← closing.isPrefixOf? text
  return (path, ← nextLine? text)

/-- Reads the lines of a document; `path` is the table that keys belong to. -/
def lines? : Nat → List String → Draft.Entries → List Char → Option Draft.Entries
  | 0, _, _, _ => none
  | count + 1, path, entries, text => do
    match ← skipLines? false text with
    | [] => return entries
    | '[' :: '[' :: text =>
      let (path, text) ← header? [']', ']'] text
      let entries ← Draft.below? (Draft.openItem? (path.getLast?.getD "")) path.dropLast entries
      lines? count path entries text
    | '[' :: text =>
      let (path, text) ← header? [']'] text
      let entries ← Draft.below? (Draft.openTable? (path.getLast?.getD "")) path.dropLast entries
      lines? count path entries text
    | text =>
      let (pair, text) ← pair? (value? (depthLimit - 1)) text
      let entries ← Draft.below? (insertPair? · pair) path entries
      lines? count path entries (← nextLine? text)

/-- The document that a text spells; a byte order mark may stand in front. -/
def parse? (text : String) : Option Toml :=
  let text := match text.toList with
    | '\ufeff' :: text => text
    | text => text
  (lines? (text.length + 1) [] [] text).map fun entries ↦ .table (Draft.finishEntries entries)

end InlineArrays.Toml
