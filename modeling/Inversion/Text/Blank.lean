/-!
White space: the characters with the Unicode property White_Space, and what is done with them when a
line of text is taken apart. Everything here works on lists of characters and keeps their order.
-/

namespace Inversion.Text

/-- Whether a character is white space. -/
def isBlank (c : Char) : Bool :=
  let n := c.toNat
  (0x9 ≤ n && n ≤ 0xD) || n == 0x20 || n == 0x85 || n == 0xA0 || n == 0x1680
    || (0x2000 ≤ n && n ≤ 0x200A) || n == 0x2028 || n == 0x2029 || n == 0x202F || n == 0x205F
    || n == 0x3000

/-- The text without the white space in front of it. -/
def trimLeft (cs : List Char) : List Char := cs.dropWhile isBlank

/-- The text without the white space behind it. -/
def trimRight (cs : List Char) : List Char := (cs.reverse.dropWhile isBlank).reverse

/-- The text without the white space around it. -/
def trim (cs : List Char) : List Char := trimRight (trimLeft cs)

/-- Cuts a text at the first character that passes the test; that character belongs to neither part. -/
def cutAt? (test : Char → Bool) : List Char → Option (List Char × List Char)
  | [] => none
  | c :: rest => if test c then some ([], rest) else (cutAt? test rest).map fun (a, b) => (c :: a, b)

/-- Cuts a text at every character that passes the test. There is one piece more than such
    characters. -/
def pieces (test : Char → Bool) : List Char → List (List Char)
  | [] => [[]]
  | c :: rest =>
    if test c then [] :: pieces test rest
    else match pieces test rest with
      | [] => [[c]]
      | p :: ps => (c :: p) :: ps

/-- The words of a text: its longest stretches without white space. -/
def words (cs : List Char) : List (List Char) := (pieces isBlank cs).filter (· ≠ [])

/-- Drops one carriage return at the end of a line. -/
def dropReturn (line : List Char) : List Char :=
  if line.getLast? = some '\r' then line.dropLast else line

/-- The lines of a text. A line ends with a line feed, which a carriage return may precede; what
    follows the last line feed is a line if it is not empty. -/
def lines (cs : List Char) : List (List Char) :=
  let all := pieces (· == '\n') cs
  all.dropLast.map dropReturn ++ all.getLast?.toList.filter (· ≠ [])

end Inversion.Text
