import Inversion.Numeral

/-!
JSON values, with everything that a reader may want to judge still in place: numbers as they are
written, the members of an object in order and with repetitions. Two printers write them, one on a
single line and one indented by two.
-/

namespace Inversion

/-- A JSON value. A string is `none` when its escapes leave half of a surrogate pair alone, so that
    it stands for no text. -/
inductive Json where
  | null
  | bool (b : Bool)
  | number (n : Numeral)
  | string (s : Option String)
  | array (items : List Json)
  | object (members : List (Option String × Json))

namespace Json

/-- A string value. -/
def text (s : String) : Json := string (some s)

/-- An object with well-formed keys. -/
def record (members : List (String × Json)) : Json :=
  object (members.map fun (key, value) => (some key, value))

/-- A natural number. -/
def nat (n : Nat) : Json := number (.ofNat n)

/-- An integer. -/
def int (i : Int) : Json := number (.ofInt i)

/-! ### Printing -/

/-- One of the sixteen digits, in lower case. -/
def hexDigit (n : Nat) : Char := Nat.digitChar n

/-- A character inside quotes. Quotes, backslashes and control characters are escaped. -/
def quoteChar (c : Char) : List Char :=
  if c = '"' then ['\\', '"']
  else if c = '\\' then ['\\', '\\']
  else if c = '\x08' then ['\\', 'b']
  else if c = '\x0c' then ['\\', 'f']
  else if c = '\n' then ['\\', 'n']
  else if c = '\r' then ['\\', 'r']
  else if c = '\t' then ['\\', 't']
  else if c.toNat < 0x20 then
    ['\\', 'u', '0', '0', hexDigit (c.toNat / 16), hexDigit (c.toNat % 16)]
  else [c]

/-- The content of a string between its quotes; what stands for no text is a lone half of a pair. -/
def quoteBody : Option String → List Char
  | some s => s.toList.flatMap quoteChar
  | none => ['\\', 'u', 'd', '8', '0', '0']

/-- A string in quotes. -/
def quote (s : Option String) : List Char := '"' :: (quoteBody s ++ ['"'])

/-- The texts of the two truth values. -/
def boolText (b : Bool) : List Char := if b then ['t', 'r', 'u', 'e'] else ['f', 'a', 'l', 's', 'e']

mutual

/-- The text of a value on one line, without blanks. -/
def compact : Json → List Char
  | null => ['n', 'u', 'l', 'l']
  | bool b => boolText b
  | number n => n.text true
  | string s => quote s
  | array items => '[' :: (compactItems items ++ [']'])
  | object members => '\x7b' :: (compactMembers members ++ ['\x7d'])

/-- Items with commas between them. -/
def compactItems : List Json → List Char
  | [] => []
  | [item] => compact item
  | item :: rest => compact item ++ ',' :: compactItems rest

/-- Members with commas between them. -/
def compactMembers : List (Option String × Json) → List Char
  | [] => []
  | [(key, value)] => quote key ++ ':' :: compact value
  | (key, value) :: rest => quote key ++ ':' :: (compact value ++ ',' :: compactMembers rest)

end

/-- The start of a line at a given depth. -/
def newLine (depth : Nat) : List Char := '\n' :: List.replicate (2 * depth) ' '

mutual

/-- The text of a value with every item and member on a line of its own. -/
def prettyAt (depth : Nat) : Json → List Char
  | null => ['n', 'u', 'l', 'l']
  | bool b => boolText b
  | number n => n.text true
  | string s => quote s
  | array [] => ['[', ']']
  | array items => '[' :: (prettyItems (depth + 1) items ++ newLine depth ++ [']'])
  | object [] => ['\x7b', '\x7d']
  | object members => '\x7b' :: (prettyMembers (depth + 1) members ++ newLine depth ++ ['\x7d'])

/-- Items on lines of their own, with commas behind all but the last. -/
def prettyItems (depth : Nat) : List Json → List Char
  | [] => []
  | [item] => newLine depth ++ prettyAt depth item
  | item :: rest => newLine depth ++ prettyAt depth item ++ ',' :: prettyItems depth rest

/-- Members on lines of their own, with commas behind all but the last. -/
def prettyMembers (depth : Nat) : List (Option String × Json) → List Char
  | [] => []
  | [(key, value)] => newLine depth ++ quote key ++ ':' :: ' ' :: prettyAt depth value
  | (key, value) :: rest =>
    newLine depth ++ quote key ++ ':' :: ' ' :: (prettyAt depth value ++ ',' :: prettyMembers depth rest)

end

/-- The one-line text of a value. -/
def line (j : Json) : String := String.ofList j.compact

/-- The indented text of a value. -/
def pretty (j : Json) : String := String.ofList (j.prettyAt 0)

end Json

end Inversion
