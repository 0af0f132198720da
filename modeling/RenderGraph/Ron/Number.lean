import RenderGraph.Number.Digits
import RenderGraph.Ron.Basic
import RenderGraph.Text.Hex
/-!
# Numbers of the settings notation

An integer may have a sign, be written in base 2, 8, 10 or 16, and have underscores after its first
digit. Any other number is decimal with a point or an exponent. The name of a type may follow, and
then the number has to be of that type.
-/

namespace RenderGraph.Ron

/-- Takes a sign off a written number, and says whether it was a minus. -/
def unsigned : List Char → Bool × List Char
  | '-' :: rest => (true, rest)
  | '+' :: rest => (false, rest)
  | rest => (false, rest)

/-- The base and the digits of a written integer. -/
def base : List Char → Nat × List Char
  | '0' :: 'b' :: rest => (2, rest)
  | '0' :: 'o' :: rest => (8, rest)
  | '0' :: 'x' :: rest => (16, rest)
  | rest => (10, rest)

/-- Takes one digit or underscore of an integer. -/
def addDigit? (base n : Nat) (c : Char) : Option Nat :=
  if c = '_' then some n
  else (Hex.ofChar? c).bind fun d => if d < base then some (base * n + d) else none

def magnitude? (written : List Char) : Option Nat :=
  let (b, ds) := base written
  match ds with
  | [] | '_' :: _ => none
  | ds => ds.foldlM (addDigit? b) 0

def integer? (written : List Char) : Option Int :=
  let (negative, rest) := unsigned written
  (magnitude? rest).map fun n => if negative then -(n : Int) else n

/-- Whether digits and underscores make up a text. -/
def areDigits (cs : List Char) : Bool := cs.all fun c => Digit.isDigit c || c = '_'

/-- Whether a text is empty or an exponent. -/
def isExponent (cs : List Char) : Bool :=
  match cs with
  | [] => true
  | 'e' :: rest | 'E' :: rest => let (_, ds) := unsigned rest; !ds.isEmpty && areDigits ds
  | _ => false

/-- Whether a number was written in decimal, perhaps with a point and an exponent. -/
def isDecimal (written : List Char) : Bool :=
  let inDigits (c : Char) : Bool := Digit.isDigit c || c = '_'
  let (_, rest) := unsigned written
  let whole := rest.takeWhile inDigits
  match rest.dropWhile inDigits with
  | '.' :: tail =>
    let fraction := tail.takeWhile inDigits
    !(whole ++ fraction).isEmpty && isExponent (tail.dropWhile inDigits)
  | tail => !whole.isEmpty && isExponent tail

/-! ## Types after numbers -/

/-- The types of integers with their least and greatest values. -/
def integerTypes : List (String × Int × Int) := [
  ("i8", Int8.minValue.toInt, Int8.maxValue.toInt), ("u8", 0, UInt8.size - 1),
  ("i16", Int16.minValue.toInt, Int16.maxValue.toInt), ("u16", 0, UInt16.size - 1),
  ("i32", Int32.minValue.toInt, Int32.maxValue.toInt), ("u32", 0, UInt32.size - 1),
  ("i64", Int64.minValue.toInt, Int64.maxValue.toInt), ("u64", 0, UInt64.size - 1)]

def realTypes : List String := ["f32", "f64"]

/-- What stands before the name of a type at the end of a written number. -/
def beforeType? (type : String) (written : List Char) : Option (List Char) :=
  if type.toList.isSuffixOf written then some (written.take (written.length - type.length)) else none

/-- Whether what was written is an integer of the type that is named at its end. -/
def isTypedInteger (written : List Char) : Bool :=
  integerTypes.any fun (type, least, greatest) =>
    ((beforeType? type written).bind integer?).any fun n => decide (least ≤ n ∧ n ≤ greatest)

/-- Whether what was written is a number with the name of a type for such numbers at its end. -/
def isTypedReal (written : List Char) : Bool :=
  realTypes.any fun type => (beforeType? type written).any isDecimal

/-- Whether what was written is a number; the two that no digits can write have names. -/
def isNumber (written : List Char) : Bool :=
  (integer? written).isSome || isDecimal written || isTypedInteger written || isTypedReal written ||
    ["inf".toList, "NaN".toList].contains (unsigned written).2

def asUInt32? : Ron → Option UInt32
  | number written =>
    (integer? ((beforeType? "u32" written).getD written)).bind fun n =>
      if 0 ≤ n ∧ n < UInt32.size then some (UInt32.ofNat n.toNat) else none
  | _ => none

end RenderGraph.Ron
