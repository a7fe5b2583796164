import InlineArrays.Toml.Scalar

/-!
# Quoted strings and keys

Basic strings have escapes, literal strings have none, and each may run over several lines between
tripled quotes.  A line end is read as a line feed however it is written.  A reader of a body
takes the text after the opening quotes and returns the contents and the text after the closing
ones.
-/

namespace InlineArrays.Toml

/-- Characters that may stand in a comment, and unescaped in a string. -/
def isPrintable (c : Char) : Bool :=
  c == '\t' || (0x20 ≤ c.toNat && c.toNat != 0x7F)

/-- The character of a code point in hexadecimal, surrogates excluded. -/
def codePoint? (digits : List Char) : Option Char :=
  let n := natOfDigits 16 digits
  if digits.all isHexDigit && n.isValidChar then some (Char.ofNat n) else none

/-- The character that a letter after a backslash stands for. -/
def shortEscape? : Char → Option Char
  | 'b' => some '\x08'
  | 't' => some '\t'
  | 'n' => some '\n'
  | 'f' => some '\x0c'
  | 'r' => some '\r'
  | '"' => some '"'
  | '\\' => some '\\'
  | _ => none

/-- Puts a character before the contents that are still to be read. -/
def prepend (c : Char) (rest : Option (List Char × List Char)) :
    Option (List Char × List Char) :=
  rest.map fun (contents, after) ↦ (c :: contents, after)

def basicBody? : List Char → Option (List Char × List Char)
  | [] => none
  | '"' :: text => some ([], text)
  | '\\' :: 'u' :: a :: b :: c :: d :: text =>
    (codePoint? [a, b, c, d]).bind fun char ↦ prepend char (basicBody? text)
  | '\\' :: 'U' :: a :: b :: c :: d :: e :: f :: g :: h :: text =>
    (codePoint? [a, b, c, d, e, f, g, h]).bind fun char ↦ prepend char (basicBody? text)
  | '\\' :: c :: text => (shortEscape? c).bind fun char ↦ prepend char (basicBody? text)
  | c :: text => if isPrintable c && c != '\\' then prepend c (basicBody? text) else none

def literalBody? : List Char → Option (List Char × List Char)
  | [] => none
  | '\x27' :: text => some ([], text)
  | c :: text => if isPrintable c then prepend c (literalBody? text) else none

/-- What a backslash at the end of a line has yet to skip. -/
inductive Skip where
  | nothing
  /-- Blanks up to the end of the line. -/
  | toLineEnd
  /-- Blanks and line ends. -/
  | blanks
  deriving DecidableEq

/-- Up to two quotes may stand before the three that close the string. -/
def longBasicBody? (skip : Skip) : List Char → Option (List Char × List Char)
  | [] => none
  | '\r' :: '\n' :: text | '\n' :: text =>
    match skip with
    | .nothing => prepend '\n' (longBasicBody? .nothing text)
    | .toLineEnd | .blanks => longBasicBody? .blanks text
  | c :: text =>
    if skip != .nothing && (c == ' ' || c == '\t') then longBasicBody? skip text
    else if skip == .toLineEnd then none
    else
      match c, text with
      | '"', '"' :: '"' :: '"' :: '"' :: text => some (['"', '"'], text)
      | '"', '"' :: '"' :: '"' :: text => some (['"'], text)
      | '"', '"' :: '"' :: text => some ([], text)
      | '\\', 'u' :: a :: b :: c :: d :: text =>
        (codePoint? [a, b, c, d]).bind fun char ↦ prepend char (longBasicBody? .nothing text)
      | '\\', 'U' :: a :: b :: c :: d :: e :: f :: g :: h :: text =>
        (codePoint? [a, b, c, d, e, f, g, h]).bind fun char ↦
          prepend char (longBasicBody? .nothing text)
      | '\\', '\n' :: text => longBasicBody? .blanks text
      | '\\', '\r' :: '\n' :: text => longBasicBody? .blanks text
      | '\\', c :: text =>
        if c == ' ' || c == '\t' then longBasicBody? .toLineEnd text
        else (shortEscape? c).bind fun char ↦ prepend char (longBasicBody? .nothing text)
      | c, text =>
        if isPrintable c && c != '\\' then prepend c (longBasicBody? .nothing text) else none

def longLiteralBody? : List Char → Option (List Char × List Char)
  | [] => none
  | '\x27' :: '\x27' :: '\x27' :: '\x27' :: '\x27' :: text => some (['\x27', '\x27'], text)
  | '\x27' :: '\x27' :: '\x27' :: '\x27' :: text => some (['\x27'], text)
  | '\x27' :: '\x27' :: '\x27' :: text => some ([], text)
  | '\r' :: '\n' :: text | '\n' :: text => prepend '\n' (longLiteralBody? text)
  | c :: text => if isPrintable c then prepend c (longLiteralBody? text) else none

/-- A line end right after the opening quotes is not part of the string. -/
def dropLineEnd : List Char → List Char
  | '\r' :: '\n' :: text | '\n' :: text => text
  | text => text

/-- A string on one line. -/
def shortString? : List Char → Option (List Char × List Char)
  | '"' :: text => basicBody? text
  | '\x27' :: text => literalBody? text
  | _ => none

def string? : List Char → Option (List Char × List Char)
  | '"' :: '"' :: '"' :: text => longBasicBody? .nothing (dropLineEnd text)
  | '\x27' :: '\x27' :: '\x27' :: text => longLiteralBody? (dropLineEnd text)
  | text => shortString? text

def isBareKeyChar (c : Char) : Bool := c.isAlphanum || c == '_' || c == '-'

def isBlank (c : Char) : Bool := c == ' ' || c == '\t'

def skipBlanks (text : List Char) : List Char := text.dropWhile isBlank

/-- One part of a key, with the blanks around it. -/
def keyPart? (text : List Char) : Option (String × List Char) :=
  let text := skipBlanks text
  let bare := text.takeWhile isBareKeyChar
  if bare.isEmpty then
    (shortString? text).map fun (part, text) ↦ (String.ofList part, skipBlanks text)
  else some (String.ofList bare, skipBlanks (text.drop bare.length))

def keyParts? : Nat → List Char → Option (List String × List Char)
  | 0, _ => none
  | count + 1, text =>
    match keyPart? text with
    | some (part, '.' :: text) =>
      (keyParts? count text).map fun (parts, text) ↦ (part :: parts, text)
    | some (part, text) => some ([part], text)
    | none => none

/-- Values nest less than this, and keys have fewer parts. -/
def depthLimit : Nat := 80

/-- A key as the path of its parts. -/
def key? (text : List Char) : Option (List String × List Char) := keyParts? (depthLimit - 1) text

end InlineArrays.Toml
