/-!
# JSON text

Documents as trees, and their text with an entry or item a line and two blanks a level.
-/

namespace InlineArrays.Text

inductive Json where
  | null
  | bool (value : Bool)
  | number (value : Int)
  | string (text : String)
  | array (items : List Json)
  /-- Entries in the order in which they are written. -/
  | object (entries : List (String × Json))

namespace Json

def nat (n : Nat) : Json := .number n

def strings (texts : List String) : Json := .array (texts.map .string)

/-- An entry that is left out when there is nothing to say. -/
def present (key : String) (value : Option Json) : List (String × Json) := (value.map (key, ·)).toList

/-- Quotes, backslashes and control characters are escaped, the usual ones by a letter. -/
def escape (c : Char) : List Char :=
  match c with
  | '"' => ['\\', '"']
  | '\\' => ['\\', '\\']
  | '\n' => ['\\', 'n']
  | '\t' => ['\\', 't']
  | '\r' => ['\\', 'r']
  | '\x08' => ['\\', 'b']
  | '\x0c' => ['\\', 'f']
  | c =>
    if c.toNat < 0x20 then
      ['\\', 'u', '0', '0', Nat.digitChar (c.toNat / 16), Nat.digitChar (c.toNat % 16)]
    else [c]

def quote (text : String) : String :=
  String.ofList ('"' :: text.toList.flatMap escape ++ ['"'])

def lineBreak (level : Nat) : String := "\n" ++ String.join (List.replicate level "  ")

mutual

/-- The text of a document whose first line stands at a level. -/
def render (level : Nat) : Json → String
  | .null => "null"
  | .bool value => toString value
  | .number value => toString value
  | .string text => quote text
  | .array [] => "[]"
  | .array (item :: items) =>
    "[" ++ renderItems (level + 1) (item :: items) ++ lineBreak level ++ "]"
  | .object [] => "\x7b\x7d"
  | .object (entry :: entries) =>
    "\x7b" ++ renderEntries (level + 1) (entry :: entries) ++ lineBreak level ++ "\x7d"
termination_by structural j => j

def renderItems (level : Nat) : List Json → String
  | [] => ""
  | [item] => lineBreak level ++ item.render level
  | item :: items => lineBreak level ++ item.render level ++ "," ++ renderItems level items
termination_by structural items => items

def renderEntries (level : Nat) : List (String × Json) → String
  | [] => ""
  | [(key, value)] => lineBreak level ++ quote key ++ ": " ++ value.render level
  | (key, value) :: entries =>
    lineBreak level ++ quote key ++ ": " ++ value.render level ++ "," ++
      renderEntries level entries
termination_by structural entries => entries

end

end Json

end InlineArrays.Text
