/-!
Binary floating formats. The non-negative finite numbers of a format are listed in increasing order:
the number at place `n` of that list is said to have *code* `n`, and every one of them is a natural
multiple of the smallest positive one, its *unit*. Rounding is therefore arithmetic on natural
numbers: a quotient counted in units is sent to the nearest code, and a half goes to the even code.
-/

namespace Inversion

/-- A binary format: how many bits of fraction a code stores, the power of two by which one unit
    divides one, and the first code that is too large to be finite. -/
structure Format where
  fractionBits : Nat
  unitsPerOne : Nat
  limit : Nat

namespace Format

/-- The 32-bit format: 23 bits of fraction, a unit of `2 ^ (-149)`. -/
def single : Format := ⟨23, Nat.pow 2 149, 0x7F800000⟩

/-- The 64-bit format: 52 bits of fraction, a unit of `2 ^ (-1074)`. -/
def double : Format := ⟨52, Nat.pow 2 1074, 0x7FF0000000000000⟩

/-- The number with a given code, counted in units. Within a binade codes are equally spaced. -/
def units (f : Format) (code : Nat) : Nat :=
  let binade := Nat.pow 2 f.fractionBits
  if code < binade then code else (binade + code % binade) * Nat.pow 2 (code / binade - 1)

/-- The integer nearest to `num / den`, the even one of two. -/
def roundHalfEven (num den : Nat) : Nat :=
  let quotient := num / den
  let remainder := num % den
  if 2 * remainder < den then quotient
  else if den < 2 * remainder then quotient + 1
  else if quotient % 2 = 0 then quotient else quotient + 1

/-- The code nearest to `num / den` units. The spacing at that size is a power of two, found from
    the integer part; a mantissa that is rounded up to a full binade carries into the next one. -/
def nearest (f : Format) (num den : Nat) : Nat :=
  let quotient := num / den
  let spacing :=
    if quotient < Nat.pow 2 (f.fractionBits + 1) then 0 else quotient.log2 - f.fractionBits
  roundHalfEven num (den * Nat.pow 2 spacing) + spacing * Nat.pow 2 f.fractionBits

end Format

end Inversion
