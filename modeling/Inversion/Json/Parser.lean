import Inversion.Json.Basic

/-!
Reading JSON text. The grammar is the strict one: no comments, no commas before a closing bracket,
no control characters inside strings, nothing behind the value. Each scanner returns what it leaves
over. The number of nested containers is not limited here.
-/

namespace Inversion.Json

/-- The white space of JSON. -/
def isSpace (c : Char) : Bool := c == ' ' || c == '\n' || c == '\r' || c == '\t'

/-- What follows the white space in front of a text. -/
def skipSpace (cs : List Char) : List Char := cs.dropWhile isSpace

/-- The value of a hexadecimal digit of either case. -/
def hexValue? (c : Char) : Option Nat :=
  if c.isDigit then some (digitValue c)
  else if 'a' ≤ c ∧ c ≤ 'f' then some (c.toNat - 'a'.toNat + 10)
  else if 'A' ≤ c ∧ c ≤ 'F' then some (c.toNat - 'A'.toNat + 10)
  else none

/-- The code unit written by four hexadecimal digits. -/
def unit? (a b c d : Char) : Option Nat := do
  return ((← hexValue? a) * 16 + (← hexValue? b)) * 256 + ((← hexValue? c) * 16 + (← hexValue? d))

/-- Whether a code unit begins a surrogate pair. -/
def isHigh (n : Nat) : Bool := 0xD800 ≤ n && n < 0xDC00

/-- Whether a code unit ends a surrogate pair. -/
def isLow (n : Nat) : Bool := 0xDC00 ≤ n && n < 0xE000

/-- The character of a surrogate pair. -/
def pairChar (high low : Nat) : Char :=
  Char.ofNat (0x10000 + (high - 0xD800) * 0x400 + (low - 0xDC00))

/-- The character of an escape of one letter. -/
def escapeChar? : Char → Option Char
  | '"' => some '"'
  | '\\' => some '\\'
  | '/' => some '/'
  | 'b' => some '\x08'
  | 'f' => some '\x0c'
  | 'n' => some '\n'
  | 'r' => some '\r'
  | 't' => some '\t'
  | _ => none

/-- Puts a character in front of scanned content, if that stands for a text. -/
def push (c : Char) (scanned : Option (List Char) × List Char) : Option (List Char) × List Char :=
  (scanned.1.map (c :: ·), scanned.2)

/-- Marks scanned content as standing for no text. -/
def spoil (scanned : Option (List Char) × List Char) : Option (List Char) × List Char :=
  (none, scanned.2)

/-- Scans the content of a string up to and with its closing quote. -/
def scanString : List Char → Option (Option (List Char) × List Char)
  | [] => none
  | '"' :: rest => some (some [], rest)
  | '\\' :: 'u' :: a :: b :: c :: d :: rest =>
    match unit? a b c d with
    | none => none
    | some n =>
      if isHigh n then
        match rest with
        | '\\' :: 'u' :: e :: f :: g :: h :: rest' =>
          match unit? e f g h with
          | some m =>
            if isLow m then (scanString rest').map (push (pairChar n m))
            else (scanString ('\\' :: 'u' :: e :: f :: g :: h :: rest')).map spoil
          | none => none
        | other => (scanString other).map spoil
      else if isLow n then (scanString rest).map spoil
      else (scanString rest).map (push (Char.ofNat n))
  | '\\' :: e :: rest =>
    match escapeChar? e with
    | some c => (scanString rest).map (push c)
    | none => none
  | c :: rest => if c.toNat < 0x20 ∨ c = '\\' then none else (scanString rest).map (push c)
termination_by cs => cs.length

/-- Scans the digits behind a point; there is at least one. Without a point there are none. -/
def scanFraction : List Char → Option (List Char × List Char)
  | '.' :: rest =>
    let digits := rest.takeWhile Char.isDigit
    if digits = [] then none else some (digits, rest.dropWhile Char.isDigit)
  | rest => some ([], rest)

/-- Scans the digits of an exponent; there is at least one. -/
def scanExponentDigits (negative : Bool) (cs : List Char) : Option (Option Int × List Char) :=
  let digits := cs.takeWhile Char.isDigit
  if digits = [] then none
  else
    let e : Int := valueOf digits
    some (some (if negative then -e else e), cs.dropWhile Char.isDigit)

/-- Scans an exponent, if one follows. -/
def scanExponent : List Char → Option (Option Int × List Char)
  | c :: rest =>
    if c = 'e' ∨ c = 'E' then
      match rest with
      | '-' :: digits => scanExponentDigits true digits
      | '+' :: digits => scanExponentDigits false digits
      | digits => scanExponentDigits false digits
    else some (none, c :: rest)
  | [] => some (none, [])

/-- Scans a number without its sign. Its whole part has no leading zero. -/
def scanMagnitude (negative : Bool) (cs : List Char) : Option (Json × List Char) := do
  let whole := cs.takeWhile Char.isDigit
  if whole = [] ∨ (whole.length > 1 ∧ whole.head? = some '0') then none
  else
    let (fraction, rest) ← scanFraction (cs.dropWhile Char.isDigit)
    let (exponent, rest) ← scanExponent rest
    return (number ⟨negative, valueOf whole, fraction, exponent⟩, rest)

/-- Scans a number. -/
def scanNumber : List Char → Option (Json × List Char)
  | '-' :: rest => scanMagnitude true rest
  | rest => scanMagnitude false rest

/-- A scanned string as a value. -/
def ofScanned (content : Option (List Char)) : Option String := content.map String.ofList

mutual

/-- Scans a value; `fuel` bounds the steps. -/
def scanValue : Nat → List Char → Option (Json × List Char)
  | 0, _ => none
  | fuel + 1, cs =>
    match skipSpace cs with
    | 'n' :: 'u' :: 'l' :: 'l' :: rest => some (null, rest)
    | 't' :: 'r' :: 'u' :: 'e' :: rest => some (bool true, rest)
    | 'f' :: 'a' :: 'l' :: 's' :: 'e' :: rest => some (bool false, rest)
    | '"' :: rest => (scanString rest).map fun (s, rest) => (string (ofScanned s), rest)
    | '[' :: rest =>
      match skipSpace rest with
      | ']' :: rest => some (array [], rest)
      | rest => (scanItems fuel rest).map fun (items, rest) => (array items, rest)
    | '\x7b' :: rest =>
      match skipSpace rest with
      | '\x7d' :: rest => some (object [], rest)
      | rest => (scanMembers fuel rest).map fun (members, rest) => (object members, rest)
    | rest => scanNumber rest

/-- Scans the items of an array up to and with its closing bracket. -/
def scanItems : Nat → List Char → Option (List Json × List Char)
  | 0, _ => none
  | fuel + 1, cs =>
    match scanValue fuel cs with
    | none => none
    | some (item, rest) =>
      match skipSpace rest with
      | ']' :: rest => some ([item], rest)
      | ',' :: rest => (scanItems fuel rest).map fun (items, rest) => (item :: items, rest)
      | _ => none

/-- Scans the members of an object up to and with its closing brace. -/
def scanMembers : Nat → List Char → Option (List (Option String × Json) × List Char)
  | 0, _ => none
  | fuel + 1, cs =>
    match skipSpace cs with
    | '"' :: rest =>
      match scanString rest with
      | none => none
      | some (key, rest) =>
        match skipSpace rest with
        | ':' :: rest =>
          match scanValue fuel rest with
          | none => none
          | some (value, rest) =>
            match skipSpace rest with
            | '\x7d' :: rest => some ([(ofScanned key, value)], rest)
            | ',' :: rest =>
              (scanMembers fuel rest).map fun (members, rest) =>
                ((ofScanned key, value) :: members, rest)
            | _ => none
        | _ => none
    | _ => none

end

/-- Reads a JSON text. Every character is passed at most twice on the way down. -/
def parse? (s : String) : Option Json :=
  match scanValue (2 * s.toList.length + 2) s.toList with
  | some (j, rest) => if skipSpace rest = [] then some j else none
  | none => none

end Inversion.Json
