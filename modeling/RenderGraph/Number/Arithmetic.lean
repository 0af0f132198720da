import RenderGraph.Number.Binary
/-!
# Arithmetic and comparison of binary numbers

Every operation computes the exact result as a quotient of natural numbers and rounds it once.
Comparisons read both zeros as equal and hold of nothing that is not a number.
-/

namespace RenderGraph.Binary

variable {p : Precision}

def neg (x : Binary p) : Binary p := ofMagnitude (!x.isNegative) x.magnitude

/-- The sum. A sum that is exactly zero has a sign only if both terms have it. -/
def add (x y : Binary p) : Binary p :=
  if x.isNaN || y.isNaN then nan
  else if x.isInfinite then
    if y.isInfinite && x.isNegative != y.isNegative then nan else x
  else if y.isInfinite then y
  else
    let sum := x.signedNumerator * y.denominator + y.signedNumerator * x.denominator
    if sum = 0 then zero (x.isNegative && y.isNegative)
    else ofQuotient (sum < 0) sum.natAbs (x.denominator * y.denominator)

def mul (x y : Binary p) : Binary p :=
  let negative := x.isNegative != y.isNegative
  if x.isNaN || y.isNaN then nan
  else if x.isInfinite || y.isInfinite then
    if x.isZero || y.isZero then nan else infinity negative
  else ofQuotient negative (x.numerator * y.numerator) (x.denominator * y.denominator)

def div (x y : Binary p) : Binary p :=
  let negative := x.isNegative != y.isNegative
  if x.isNaN || y.isNaN then nan
  else if x.isInfinite then
    if y.isInfinite then nan else infinity negative
  else if y.isInfinite then zero negative
  else if y.isZero then
    if x.isZero then nan else infinity negative
  else ofQuotient negative (x.numerator * y.denominator) (x.denominator * y.numerator)

instance : Neg (Binary p) := ⟨neg⟩
instance : Add (Binary p) := ⟨add⟩
instance : Mul (Binary p) := ⟨mul⟩
instance : Div (Binary p) := ⟨div⟩

/-- The place of a number in the order of all numbers; both zeros stand at 0. -/
def rank (x : Binary p) : Int := if x.isNegative then -x.magnitude else x.magnitude

/-- Whether both are numbers and the first is not above the second. -/
def le (x y : Binary p) : Bool := !x.isNaN && !y.isNaN && decide (x.rank ≤ y.rank)

def eq (x y : Binary p) : Bool := !x.isNaN && !y.isNaN && decide (x.rank = y.rank)

/-- Whether `x` is finite and above zero. -/
def isPositive (x : Binary p) : Bool := x.isFinite && decide (0 < x.rank)

def isWhole (x : Binary p) : Bool := x.isFinite && x.numerator % x.denominator = 0

/-- The whole part of a finite number, toward zero. -/
def truncate (x : Binary p) : Int :=
  let whole : Int := (x.numerator / x.denominator : Nat)
  if x.isNegative then -whole else whole

/-- The whole part as a signed 64-bit integer; what lies outside its range becomes its end. -/
def toInt64 (x : Binary p) : Int64 :=
  Int64.ofInt (max Int64.minValue.toInt (min Int64.maxValue.toInt x.truncate))

end RenderGraph.Binary
