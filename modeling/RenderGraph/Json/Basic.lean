import RenderGraph.Json.Numeral
/-!
# JSON values

A `Json` value as it is written: numbers are kept as numerals, and an object keeps all of its
fields in order, repeated ones too. What a number stands for and which fields an object may have
is decided by whoever decodes the value.
-/

namespace RenderGraph

inductive Json where
  | null
  | bool (b : Bool)
  | number (n : Json.Numeral)
  | string (s : String)
  | array (items : List Json)
  | object (fields : List (String × Json))

namespace Json

instance : Inhabited Json := ⟨null⟩

def ofInt (i : Int) : Json := number (Numeral.ofInt i)

def ofNat (n : Nat) : Json := number (Numeral.ofNat n)

/-- A binary number; what is not finite has no numeral and becomes `null`. -/
def ofBinary {p : Precision} (x : Binary p) : Json :=
  if x.isFinite then number (Numeral.ofBinary x) else null

/-- The value of an option, `null` for none. -/
def ofOption {α : Type} (write : α → Json) : Option α → Json
  | none => null
  | some a => write a

def asString? : Json → Option String
  | string s => some s
  | _ => none

def asBool? : Json → Option Bool
  | bool b => some b
  | _ => none

def asArray? : Json → Option (List Json)
  | array items => some items
  | _ => none

def asObject? : Json → Option (List (String × Json))
  | object fields => some fields
  | _ => none

def asNumber? : Json → Option Number
  | number n => n.value?
  | _ => none

/-- A natural number below a bound; a numeral with a fraction or exponent is none. -/
def asNatBelow? (bound : Nat) (j : Json) : Option Nat :=
  match j.asNumber? with
  | some (.integer i) => if 0 ≤ i ∧ i < bound then some i.toNat else none
  | _ => none

def asUInt32? (j : Json) : Option UInt32 := (j.asNatBelow? UInt32.size).map UInt32.ofNat

/-- A 32-bit number: an integer is rounded once, any other number first to 64 bits. -/
def asSingle? (j : Json) : Option Single :=
  j.asNumber?.map fun
    | .integer i => Binary.ofInt i
    | .real x => x.toSingle

end Json

end RenderGraph
