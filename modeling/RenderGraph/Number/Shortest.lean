import RenderGraph.Number.Arithmetic
import RenderGraph.Number.Digits
/-!
# The shortest decimal of a binary number

Of all decimals that round to a given number, the one on the coarsest decimal grid, and on that
grid the one nearest to the number; a decimal half-way between two goes to the even one.

The reals that round to a magnitude `m * 2 ^ e` form an interval, half a place wide on both sides
(a quarter below a power of two), with its ends exactly if `m` is even. If a grid has a point in
the interval, one of the two grid points next to the number is in it, so only these are tried.
-/

namespace RenderGraph

/-- The decimal `d₁.d₂d₃… * 10 ^ scale`. -/
structure Decimal where
  /-- The digits, highest first, the last one not zero unless it is the only one. -/
  digits : List Digit
  /-- The power of ten of the first digit. -/
  scale : Int
deriving DecidableEq, Repr

namespace Decimal

/-- The decimal `n * 10 ^ k`, without zeros at the end. -/
def ofScaled (n : Nat) (k : Int) : Decimal :=
  let ds := Digit.digits n
  let kept := (ds.reverse.dropWhile (· = Digit.zero)).reverse
  ⟨if kept.isEmpty then [Digit.zero] else kept, k + (ds.length : Int) - 1⟩

end Decimal

namespace Binary

variable {p : Precision}

/-- The decimal of the grid `10 ^ k` next to the magnitude of `x` that rounds to it, if any, in
units of the grid. All quantities are in quarters of the last place of `x`, times a common factor. -/
def onGrid? (x : Binary p) (k : Int) : Option Nat :=
  let m := x.significand
  let quarter := x.exponent - 2
  let below := if m = p.hiddenBit ∧ p.leastExponent < x.exponent then 1 else 2
  let quarters (n : Nat) : Nat := (n <<< quarter.toNat) * Digit.weight (-k).toNat
  let step := (1 <<< (-quarter).toNat) * Digit.weight k.toNat
  let value := quarters (4 * m)
  let closed := m % 2 = 0
  let low := value / step
  let high := low + 1
  let lowFits := if closed then quarters (4 * m - below) ≤ low * step else quarters (4 * m - below) < low * step
  let highFits := if closed then high * step ≤ quarters (4 * m + 2) else high * step < quarters (4 * m + 2)
  if lowFits then
    if highFits then
      let left := value - low * step
      let right := high * step - value
      if left < right ∨ (left = right ∧ low % 2 = 0) then some low else some high
    else some low
  else if highFits then some high
  else none

/-- A power of ten above the magnitude of `x`, as its exponent. -/
def scaleBound (x : Binary p) : Int :=
  (x.exponent + x.significand.log2 + 1) * 30103 / 100000 + 2

/-- The shortest decimal that rounds to the magnitude of `x`, for finite `x`: grids are tried from
the coarsest down, and seventeen digits always suffice. -/
def shortest (x : Binary p) : Decimal :=
  if x.isZero then ⟨[Digit.zero], 0⟩
  else
    ((List.range 24).findSome? fun (i : Nat) =>
      (x.onGrid? (x.scaleBound - i)).map fun n => Decimal.ofScaled n (x.scaleBound - i)).getD ⟨[Digit.zero], 0⟩

end Binary

end RenderGraph
