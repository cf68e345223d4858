import Inversion.Rounding

/-!
Single precision numbers and their arithmetic. A finite number is a sign and a code; sums are taken
exactly, in units, and then rounded, so nothing here rests on the machine's own floating point. There
is one not-a-number: no operation of this library tells two of them apart. Zero has two signs, which
`same` identifies and structural equality does not.
-/

namespace Inversion

/-- A single precision number. -/
inductive Single where
  | finite (negative : Bool) (code : Fin Format.single.limit)
  | infinite (negative : Bool)
  | nan
  deriving DecidableEq

namespace Single

/-- The number nearest to `num / den` units, infinite beyond the last finite one. -/
def ofUnits (negative : Bool) (num den : Nat) : Single :=
  let code := Format.single.nearest num den
  if h : code < Format.single.limit then finite negative ⟨code, h⟩ else infinite negative

/-- Zero of either sign. -/
def zero (negative : Bool) : Single := finite negative ⟨0, by decide⟩

/-- One of either sign. -/
def one (negative : Bool) : Single := finite negative ⟨0x3F800000, by decide⟩

/-- The number nearest to an integer. -/
def ofInt (i : Int) : Single :=
  ofUnits (decide (i < 0)) (i.natAbs * Format.single.unitsPerOne) 1

/-- The magnitude of a finite number, in units. -/
def magnitude (code : Fin Format.single.limit) : Nat := Format.single.units code

/-- A sign and a magnitude as one integer. -/
def signed (negative : Bool) (magnitude : Nat) : Int :=
  if negative then -(magnitude : Int) else magnitude

/-- Where a number stands on the line: its signed units, with the infinities one step beyond the
    finite numbers. A not-a-number stands nowhere. -/
def place? : Single → Option Int
  | finite s c => some (signed s (magnitude c))
  | infinite s => some (signed s (Format.single.units Format.single.limit))
  | nan => none

/-- Equality of numbers: the zeros are the same, a not-a-number is the same as nothing. -/
def same (a b : Single) : Bool :=
  match a.place?, b.place? with
  | some x, some y => x == y
  | _, _ => false

/-- Strict order of numbers; false when either is not a number. -/
def below (a b : Single) : Bool :=
  match a.place?, b.place? with
  | some x, some y => decide (x < y)
  | _, _ => false

/-- The number of the opposite sign. -/
def negate : Single → Single
  | finite s c => finite (!s) c
  | infinite s => infinite (!s)
  | nan => nan

/-- The magnitude of a number, as a number. -/
def abs : Single → Single
  | finite _ c => finite false c
  | infinite _ => infinite false
  | nan => nan

/-- The sum of two finite numbers: exact, then rounded. A sum of exactly zero is negative only when
    both numbers are. -/
def addFinite (s : Bool) (c : Fin Format.single.limit) (t : Bool) (d : Fin Format.single.limit) :
    Single :=
  let sum := signed s (magnitude c) + signed t (magnitude d)
  if sum = 0 then zero (s && t) else ofUnits (decide (sum < 0)) sum.natAbs 1

/-- The rounded sum. -/
def add : Single → Single → Single
  | nan, _ => nan
  | _, nan => nan
  | infinite s, infinite t => if s = t then infinite s else nan
  | infinite s, finite .. => infinite s
  | finite .., infinite t => infinite t
  | finite s c, finite t d => addFinite s c t d

/-- The rounded difference. -/
def sub (a b : Single) : Single := add a (negate b)

/-- The lesser of two numbers; one that is not a number gives way to the other. -/
def least (a b : Single) : Single :=
  if a = nan then b else if below b a then b else a

/-- The greater of two numbers; one that is not a number gives way to the other. -/
def greatest (a b : Single) : Single :=
  if a = nan then b else if below a b then b else a

/-- One with the sign of the number, zero for either zero. -/
def signum : Single → Single
  | finite s c => if c.val = 0 then zero false else one s
  | infinite s => one s
  | nan => nan

end Single

end Inversion
