/-!
# Binary floating point

Numbers of the two common binary formats, held as their bits, with all arithmetic done exactly
on natural numbers and rounded once, to the nearest number and on a tie to the even one.

A finite number is a sign and a magnitude `significand * 2 ^ exponent` (`Binary.significand`,
`Binary.exponent`). The bits below the sign count the magnitudes in order, which `round` uses:
the number above a magnitude is the one with the next bits, also across the step from one
exponent to the next and into infinity.
-/

namespace RenderGraph

/-- The two formats: 32 and 64 bits wide. -/
inductive Precision where
  | single
  | double
deriving DecidableEq, Repr

namespace Precision

def fractionBits : Precision → Nat
  | single => 23
  | double => 52

def exponentBits : Precision → Nat
  | single => 8
  | double => 11

/-- All bits: the sign, the exponent field and the fraction. -/
def width (p : Precision) : Nat := 1 + p.exponentBits + p.fractionBits

/-- The exponent of the last place of the smallest numbers. -/
def leastExponent : Precision → Int
  | single => -149
  | double => -1074

/-- The weight of the bit above the fraction, which is not stored: every significand has it, apart
from those of the smallest numbers. -/
def hiddenBit (p : Precision) : Nat := 1 <<< p.fractionBits

/-- The magnitude bits of infinity; larger magnitude bits are not numbers. -/
def infinityBits (p : Precision) : Nat := ((1 <<< p.exponentBits) - 1) <<< p.fractionBits

def signWeight (p : Precision) : Nat := 1 <<< (p.exponentBits + p.fractionBits)

end Precision

/-- A number in one of the binary formats. -/
structure Binary (p : Precision) where
  /-- Sign, exponent field and fraction, from the highest bit down. -/
  bits : BitVec p.width
deriving DecidableEq

/-- 32-bit numbers: positions, sizes and pass settings. -/
abbrev Single := Binary .single

abbrev Double := Binary .double

namespace Binary

variable {p : Precision}

def ofBits (n : Nat) : Binary p := ⟨BitVec.ofNat p.width n⟩

/-- The number with a sign and magnitude bits. -/
def ofMagnitude (negative : Bool) (magnitude : Nat) : Binary p :=
  ofBits (if negative then p.signWeight + magnitude else magnitude)

/-- Whether the sign bit is set; also zero and what is not a number have a sign. -/
def isNegative (x : Binary p) : Bool := p.signWeight ≤ x.bits.toNat

def magnitude (x : Binary p) : Nat := x.bits.toNat % p.signWeight

def isNaN (x : Binary p) : Bool := p.infinityBits < x.magnitude

/-- Whether `x` is one of the infinities. -/
def isInfinite (x : Binary p) : Bool := x.magnitude = p.infinityBits

/-- Whether `x` is a number and not infinite. -/
def isFinite (x : Binary p) : Bool := x.magnitude < p.infinityBits

/-- Whether `x` is zero of either sign. -/
def isZero (x : Binary p) : Bool := x.magnitude = 0

/-- The value that is not a number. -/
def nan : Binary p := ofMagnitude false (p.infinityBits + p.hiddenBit / 2)

def infinity (negative : Bool) : Binary p := ofMagnitude negative p.infinityBits

def zero (negative : Bool) : Binary p := ofMagnitude negative 0

instance : Inhabited (Binary p) := ⟨zero false⟩

/-- The whole number that, scaled by `exponent`, is the magnitude of a finite number. -/
def significand (x : Binary p) : Nat :=
  if x.magnitude < p.hiddenBit then x.magnitude else p.hiddenBit + x.magnitude % p.hiddenBit

/-- The exponent of the last place of a finite number. -/
def exponent (x : Binary p) : Int :=
  if x.magnitude < p.hiddenBit then p.leastExponent
  else p.leastExponent + (x.magnitude >>> p.fractionBits : Nat) - 1

/-- The numerator of the magnitude of a finite number. -/
def numerator (x : Binary p) : Nat := x.significand <<< x.exponent.toNat

/-- The denominator of the magnitude of a finite number, a power of two. -/
def denominator (x : Binary p) : Nat := 1 <<< (-x.exponent).toNat

def signedNumerator (x : Binary p) : Int := if x.isNegative then -x.numerator else x.numerator

/-! ## Rounding -/

/-- The exponent of the last place that the quotient `num / den` keeps: one of two neighbours,
told apart by whether the lower one would leave a place too many. -/
def lastPlace (p : Precision) (num den : Nat) : Int :=
  let low := max p.leastExponent ((num.log2 : Int) - den.log2 - (p.fractionBits + 1))
  if (num <<< (-low).toNat) / (den <<< low.toNat) < 2 * p.hiddenBit then low else low + 1

/-- A quotient rounded to the nearest whole number, on a tie to the even one. -/
def roundQuotient (num den : Nat) : Nat :=
  let whole := num / den
  let rest := num % den
  if den < 2 * rest ∨ (2 * rest = den ∧ whole % 2 = 1) then whole + 1 else whole

/-- The magnitude bits of the number nearest to `num / den`. -/
def roundMagnitude (p : Precision) (num den : Nat) : Nat :=
  if num = 0 then 0
  else
    let place := lastPlace p num den
    let kept := roundQuotient (num <<< (-place).toNat) (den <<< place.toNat)
    min p.infinityBits ((place - p.leastExponent).toNat <<< p.fractionBits + kept)

/-- The number nearest to `num / den` with a sign. -/
def ofQuotient (negative : Bool) (num den : Nat) : Binary p :=
  ofMagnitude negative (roundMagnitude p num den)

/-- The number nearest to a natural number. -/
def ofNat (n : Nat) : Binary p := ofQuotient false n 1

/-- The number nearest to an integer; zero has no sign. -/
def ofInt (n : Int) : Binary p := ofQuotient (n < 0) n.natAbs 1

def convert (q : Precision) (x : Binary p) : Binary q :=
  if x.isNaN then nan
  else if x.isInfinite then infinity x.isNegative
  else ofQuotient x.isNegative x.numerator x.denominator

def toSingle (x : Double) : Single := x.convert .single

end Binary

end RenderGraph
