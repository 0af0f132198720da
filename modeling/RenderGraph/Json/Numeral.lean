import RenderGraph.Number.Positional
/-!
# JSON numerals

A `Numeral` is the written form of a number: sign, whole digits, fraction digits and an exponent.
`Numeral.value?` says what it stands for: an integer if it has neither fraction nor exponent and
fits 64 bits, else a 64-bit binary number; a numeral too large for that stands for nothing.

The binary value is found in two rounded steps: the digits are collected in 64 bits, and the
result is scaled by a power of ten. Digits that no longer fit are dropped (a dropped whole digit
still counts as a factor of ten).
-/

namespace RenderGraph.Json

structure Numeral where
  negative : Bool
  whole : List Digit
  /-- The digits after the point; none if there is no point. -/
  fraction : List Digit
  /-- The sign (`true` for minus) and the digits of the exponent. -/
  exponent : Option (Bool × List Digit)
deriving DecidableEq, Repr

namespace Numeral

/-- The text of a numeral. The sign of an exponent is always written. -/
def text (n : Numeral) : List Char :=
  (if n.negative then ['-'] else []) ++ Digit.text n.whole ++
    (if n.fraction.isEmpty then [] else '.' :: Digit.text n.fraction) ++
    match n.exponent with
    | none => []
    | some (negative, ds) => 'e' :: (if negative then '-' else '+') :: Digit.text ds

/-! ## Reading -/

/-- Splits digits off the front of a text. -/
def takeDigits : List Char → List Digit × List Char
  | [] => ([], [])
  | c :: rest =>
    match Digit.ofChar? c with
    | some d => let (ds, tail) := takeDigits rest; (d :: ds, tail)
    | none => ([], c :: rest)

/-- The exponent that makes up a whole text. -/
def exponentOf? (cs : List Char) : Option (Bool × List Digit) :=
  let (negative, rest) := match cs with
    | '-' :: rest => (true, rest)
    | '+' :: rest => (false, rest)
    | rest => (false, rest)
  let (ds, tail) := takeDigits rest
  if ds.isEmpty || !tail.isEmpty then none else some (negative, ds)

/-- The fraction and exponent that make up a whole text. -/
def tailOf? : List Char → Option (List Digit × Option (Bool × List Digit))
  | [] => some ([], none)
  | '.' :: rest =>
    let (ds, tail) := takeDigits rest
    if ds.isEmpty then none
    else match tail with
      | [] => some (ds, none)
      | 'e' :: ex | 'E' :: ex => (exponentOf? ex).map fun e => (ds, some e)
      | _ => none
  | 'e' :: ex | 'E' :: ex => (exponentOf? ex).map fun e => ([], some e)
  | _ => none

/-- The numeral that makes up a whole text: whole digits without a leading zero, then possibly a
point with at least one digit, then possibly an exponent with at least one digit. -/
def ofText? (cs : List Char) : Option Numeral :=
  let (negative, unsigned) := match cs with
    | '-' :: rest => (true, rest)
    | rest => (false, rest)
  let (whole, tail) := takeDigits unsigned
  match whole with
  | [] => none
  | ⟨0, _⟩ :: _ :: _ => none
  | _ => (tailOf? tail).map fun (fraction, exponent) => ⟨negative, whole, fraction, exponent⟩

/-! ## Values -/

/-- Digits collected so far, and the power of ten they are to be scaled by. -/
structure Collected where
  /-- The digits that fit 64 bits, as a number. -/
  significand : Nat
  scale : Int
  /-- Whether a digit was dropped: then all later ones of the same part are. -/
  full : Bool

def Collected.addWhole (c : Collected) (d : Digit) : Collected :=
  if c.full || UInt64.size ≤ 10 * c.significand + d.val then { c with scale := c.scale + 1, full := true }
  else { c with significand := 10 * c.significand + d.val }

def Collected.addFraction (c : Collected) (d : Digit) : Collected :=
  if c.full || UInt64.size ≤ 10 * c.significand + d.val then { c with full := true }
  else { c with significand := 10 * c.significand + d.val, scale := c.scale - 1 }

/-- The digits of a numeral, collected. -/
def collected (n : Numeral) : Collected :=
  let whole := n.whole.foldl Collected.addWhole ⟨0, 0, false⟩
  let all := n.fraction.foldl Collected.addFraction { whole with full := false }
  match n.exponent with
  | none => all
  | some (true, ds) => { all with scale := all.scale - Digit.ofDigits ds }
  | some (false, ds) => { all with scale := all.scale + Digit.ofDigits ds }

/-- A power of ten, rounded. -/
def powerOfTen (n : Nat) : Double := Binary.ofNat (Digit.weight n)

/-- The largest power of ten that is a finite number. -/
def largestPower : Nat := 308

theorem largestPower_pos : 0 < largestPower := by decide

/-- `x` divided by `10 ^ n`, in steps that each divide by a power of ten in range. -/
def scaleDown (x : Double) (n : Nat) : Double :=
  if _h : n ≤ largestPower then x / powerOfTen n
  else if x.isZero then x
  else scaleDown (x / powerOfTen largestPower) (n - largestPower)
termination_by n
decreasing_by have := largestPower_pos; omega

/-- The binary value of collected digits, unless it is too large. -/
def Collected.toDouble? (c : Collected) : Option Double :=
  let x : Double := Binary.ofNat c.significand
  if c.scale < 0 then some (scaleDown x (-c.scale).toNat)
  else if x.isZero then some x
  else if (largestPower : Int) < c.scale then none
  else
    let scaled := x * powerOfTen c.scale.toNat
    if scaled.isFinite then some scaled else none

end Numeral

inductive Number where
  | integer (n : Int)
  | real (x : Double)
deriving DecidableEq

namespace Numeral

/-- The integer that a numeral without fraction and exponent shows. -/
def toInt? (n : Numeral) : Option Int :=
  if n.fraction.isEmpty && n.exponent.isNone then
    let m : Int := Digit.ofDigits n.whole
    some (if n.negative then -m else m)
  else none

/-- The binary value of a numeral, unless it is too large. -/
def toDouble? (n : Numeral) : Option Double :=
  n.collected.toDouble?.map fun x => if n.negative then -x else x

/-- The value of a numeral, unless it is too large. An integer from `-2 ^ 63` to `2 ^ 64 - 1`
stays one, apart from `-0`, which keeps its sign as a binary number. -/
def value? (n : Numeral) : Option Number :=
  match n.toInt? with
  | some i =>
    if (i = 0 && n.negative) || i < Int64.minValue.toInt || UInt64.size ≤ i then n.toDouble?.map .real
    else some (.integer i)
  | none => n.toDouble?.map .real

/-! ## Writing -/

def ofInt (i : Int) : Numeral := ⟨decide (i < 0), Digit.digits i.natAbs, [], none⟩

def ofNat (n : Nat) : Numeral := ⟨false, Digit.digits n, [], none⟩

/-- The powers of ten of a first digit for which a number is written without exponent. -/
structure PlainRange where
  least : Int
  greatest : Int

/-- 32-bit numbers are plain from a millionth to below ten million millions, 64-bit numbers from a
hundred-thousandth to below ten thousand million millions. -/
def plainRange : Precision → PlainRange
  | .single => ⟨-6, 12⟩
  | .double => ⟨-5, 15⟩

/-- The numeral of a finite number: its shortest digits, a fraction also for plain whole numbers,
and one digit before the point when there is an exponent. -/
def ofBinary {p : Precision} (x : Binary p) : Numeral :=
  let d := x.shortest
  let range := plainRange p
  if range.least ≤ d.scale ∧ d.scale ≤ range.greatest then
    ⟨x.isNegative, d.whole, if d.fraction.isEmpty then [Digit.zero] else d.fraction, none⟩
  else
    ⟨x.isNegative, d.digits.take 1, d.digits.drop 1, some (decide (d.scale < 0), Digit.digits d.scale.natAbs)⟩

end Numeral

end RenderGraph.Json
