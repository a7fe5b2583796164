import InlineArrays.Toml.Basic

/-!
# Numbers, dates and truth values

Everything a value may be that is written without quotes or brackets.  Underscores stand between two
digits only, a decimal number has no leading zero, and a date must exist in the calendar.
-/

namespace InlineArrays.Toml

/-- The digits of a group in which single underscores separate digits, if it is one. -/
def ungroup (isDigit : Char → Bool) : List Char → Option (List Char)
  | [] => none
  | [c] => if isDigit c then some [c] else none
  | c :: '_' :: rest => if isDigit c then (ungroup isDigit rest).map (c :: ·) else none
  | c :: rest => if isDigit c then (ungroup isDigit rest).map (c :: ·) else none

def digitValue (c : Char) : Nat :=
  if c.isDigit then c.toNat - '0'.toNat
  else if 'a' ≤ c && c ≤ 'f' then c.toNat - 'a'.toNat + 10
  else c.toNat - 'A'.toNat + 10

def natOfDigits (base : Nat) (digits : List Char) : Nat :=
  digits.foldl (fun n c ↦ n * base + digitValue c) 0

def isHexDigit (c : Char) : Bool :=
  c.isDigit || ('a' ≤ c && c ≤ 'f') || ('A' ≤ c && c ≤ 'F')

def isOctalDigit (c : Char) : Bool := '0' ≤ c && c ≤ '7'

def isBinaryDigit (c : Char) : Bool := c == '0' || c == '1'

/-- Decimal digits without a leading zero. -/
def decimal? (text : List Char) : Option (List Char) :=
  (ungroup Char.isDigit text).filter fun digits ↦ digits.length = 1 || digits.head? != some '0'

/-- The text after an optional sign, and whether that sign is a minus. -/
def unsigned : List Char → Bool × List Char
  | '+' :: text => (false, text)
  | '-' :: text => (true, text)
  | text => (false, text)

def integer? (text : List Char) : Option Toml :=
  let radix (base : Nat) (isDigit : Char → Bool) (digits : List Char) : Option Toml :=
    (ungroup isDigit digits).bind fun digits ↦ ofInt? (natOfDigits base digits)
  match text with
  | '0' :: 'x' :: digits => radix 16 isHexDigit digits
  | '0' :: 'o' :: digits => radix 8 isOctalDigit digits
  | '0' :: 'b' :: digits => radix 2 isBinaryDigit digits
  | text =>
    let (negative, digits) := unsigned text
    (decimal? digits).bind fun digits ↦
      let n : Int := natOfDigits 10 digits
      ofInt? (if negative then -n else n)

/-- An exponent without its `e`. -/
def isExponent (text : List Char) : Bool :=
  (ungroup Char.isDigit (unsigned text).2).isSome

/-- What follows the whole part of a float: a fraction, an exponent or both. -/
def isFloatTail : List Char → Bool
  | '.' :: rest =>
    let fraction := rest.takeWhile fun c ↦ c != 'e' && c != 'E'
    (ungroup Char.isDigit fraction).isSome &&
      match rest.drop fraction.length with
      | [] => true
      | _ :: exponent => isExponent exponent
  | c :: exponent => (c == 'e' || c == 'E') && isExponent exponent
  | [] => false

def float? (text : List Char) : Option Toml :=
  let body := (unsigned text).2
  let whole := body.takeWhile fun c ↦ c.isDigit || c == '_'
  if body == "inf".toList || body == "nan".toList ||
      ((decimal? whole).isSome && isFloatTail (body.drop whole.length))
  then some (.float (String.ofList text))
  else none

/-- The number that exactly `count` leading digits spell, and the rest. -/
def fixed? (count : Nat) (text : List Char) : Option (Nat × List Char) :=
  let digits := text.take count
  if digits.length = count && digits.all Char.isDigit
  then some (natOfDigits 10 digits, text.drop count) else none

def isLeap (year : Nat) : Bool := year % 4 == 0 && (year % 100 != 0 || year % 400 == 0)

def daysIn (year month : Nat) : Nat :=
  if month = 2 then if isLeap year then 29 else 28
  else if month = 4 || month = 6 || month = 9 || month = 11 then 30
  else 31

/-- The text after a date of the calendar. -/
def afterDate? (text : List Char) : Option (List Char) :=
  match fixed? 4 text with
  | some (year, '-' :: text) =>
    match fixed? 2 text with
    | some (month, '-' :: text) =>
      (fixed? 2 text).bind fun (day, text) ↦
        if 1 ≤ month && month ≤ 12 && 1 ≤ day && day ≤ daysIn year month then some text else none
    | _ => none
  | _ => none

/-- The text after a time of the day, with any number of decimals. -/
def afterTime? (text : List Char) : Option (List Char) :=
  match fixed? 2 text with
  | some (hour, ':' :: text) =>
    match fixed? 2 text with
    | some (minute, ':' :: text) =>
      (fixed? 2 text).bind fun (second, text) ↦
        if hour ≤ 23 && minute ≤ 59 && second ≤ 60 then
          match text with
          | '.' :: decimals =>
            if (decimals.takeWhile Char.isDigit).isEmpty then none
            else some (decimals.dropWhile Char.isDigit)
          | text => some text
        else none
    | _ => none
  | _ => none

/-- Whether a text is an offset from universal time, or nothing. -/
def isZone (text : List Char) : Bool :=
  match text with
  | [] | ['Z'] | ['z'] => true
  | sign :: text =>
    (sign == '+' || sign == '-') &&
      match fixed? 2 text with
      | some (hour, ':' :: text) =>
        match fixed? 2 text with
        | some (minute, []) => hour ≤ 23 && minute ≤ 59
        | _ => false
      | _ => false

def isDatetime (text : List Char) : Bool :=
  match afterDate? text with
  | some [] => true
  | some (separator :: time) =>
    (separator == 'T' || separator == 't' || separator == ' ') &&
      (afterTime? time).any isZone
  | none => afterTime? text == some []

/-- The value that a bare word spells. -/
def scalar? (text : List Char) : Option Toml :=
  if text == "true".toList then some (.boolean true)
  else if text == "false".toList then some (.boolean false)
  else if isDatetime text then some (.datetime (String.ofList text))
  else (integer? text).or (float? text)

end InlineArrays.Toml
