import RenderGraph.Number.Arithmetic
/-!
# Parameters

The values that a user gives to nodes: truth values, 64-bit integers and numbers, texts, and lists
of these. Integers and whole numbers stand in for one another where a number is asked for.
-/

namespace RenderGraph

inductive Param where
  | bool (b : Bool)
  | int (n : Int64)
  | float (x : Double)
  | text (s : String)
  | list (items : List Param)

structure Color where
  red : Single
  green : Single
  blue : Single
  alpha : Single
deriving DecidableEq

namespace Param

instance : Inhabited Param := ⟨bool false⟩

mutual

/-- Equality of parameters, decided item by item; numbers are compared by their bits. -/
def decEq : (a b : Param) → Decidable (a = b)
  | bool a, bool b => if h : a = b then isTrue (h ▸ rfl) else isFalse (by simp [h])
  | int a, int b => if h : a = b then isTrue (h ▸ rfl) else isFalse (by simp [h])
  | float a, float b => if h : a = b then isTrue (h ▸ rfl) else isFalse (by simp [h])
  | text a, text b => if h : a = b then isTrue (h ▸ rfl) else isFalse (by simp [h])
  | list as, list bs =>
    match decEqList as bs with
    | isTrue h => isTrue (h ▸ rfl)
    | isFalse h => isFalse (by simp [h])
  | bool _, int _ | bool _, float _ | bool _, text _ | bool _, list _
  | int _, bool _ | int _, float _ | int _, text _ | int _, list _
  | float _, bool _ | float _, int _ | float _, text _ | float _, list _
  | text _, bool _ | text _, int _ | text _, float _ | text _, list _
  | list _, bool _ | list _, int _ | list _, float _ | list _, text _ => isFalse (by simp)

def decEqList : (as bs : List Param) → Decidable (as = bs)
  | [], [] => isTrue rfl
  | [], _ :: _ | _ :: _, [] => isFalse (by simp)
  | a :: as, b :: bs =>
    match decEq a b, decEqList as bs with
    | isTrue h, isTrue hs => isTrue (h ▸ hs ▸ rfl)
    | isFalse h, _ => isFalse (by simp [h])
    | _, isFalse hs => isFalse (by simp [hs])

end

instance : DecidableEq Param := decEq

/-- The number of an integer or a number. -/
def number? : Param → Option Double
  | int n => some (Binary.ofInt n.toInt)
  | float x => some x
  | _ => none

/-- The integer of an integer or a whole number; one out of range becomes the nearest in range. -/
def integer? : Param → Option Int64
  | int n => some n
  | float x => if x.isWhole then some x.toInt64 else none
  | _ => none

def bool? : Param → Option Bool
  | bool b => some b
  | _ => none

def text? : Param → Option String
  | text s => some s
  | _ => none

/-- The color of a list of three or four numbers; without a fourth it is opaque. -/
def color? : Param → Option Color
  | list items =>
    match items.mapM fun p => p.number?.map Binary.toSingle with
    | some [r, g, b] => some ⟨r, g, b, Binary.ofNat 1⟩
    | some [r, g, b, a] => some ⟨r, g, b, a⟩
    | _ => none
  | _ => none

/-- The name of the type of a value. -/
def typeName : Param → String
  | bool _ => "bool"
  | int _ => "int"
  | float _ => "float"
  | text _ => "string"
  | list _ => "list"

def ofInt (n : Int) : Param := int (Int64.ofInt n)

/-- The number parameter with that whole value. -/
def whole (n : Nat) : Param := float (Binary.ofNat n)

/-- The number parameter nearest to a quotient. -/
def ratio (num den : Nat) : Param := float (Binary.ofQuotient false num den)

end Param

/-- A parameter of another type than was asked for. -/
structure TypeMismatch where
  name : String
  expected : String
  found : String
deriving DecidableEq, Repr

namespace TypeMismatch

def of (name expected : String) (value : Param) : TypeMismatch := ⟨name, expected, value.typeName⟩

/-- The text of a mismatch after the word for a parameter. -/
def message (e : TypeMismatch) : String :=
  "'" ++ e.name ++ "' expects " ++ e.expected ++ ", got " ++ e.found

end TypeMismatch

end RenderGraph
