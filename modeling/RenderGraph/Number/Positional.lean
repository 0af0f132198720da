import RenderGraph.Number.Shortest
/-!
# Numbers in messages

A number in a message is written in positional notation with its shortest digits: never an
exponent, no point after a whole number, and the sign of zero is kept.
-/

namespace RenderGraph

namespace Decimal

/-- The digits before the point; at least one. -/
def whole (d : Decimal) : List Digit :=
  if d.scale < 0 then [Digit.zero]
  else d.digits.take (d.scale.toNat + 1) ++ List.replicate (d.scale.toNat + 1 - d.digits.length) Digit.zero

/-- The digits after the point; none for a whole number. -/
def fraction (d : Decimal) : List Digit :=
  if d.scale < 0 then List.replicate (-d.scale - 1).toNat Digit.zero ++ d.digits
  else d.digits.drop (d.scale.toNat + 1)

end Decimal

namespace Binary

variable {p : Precision}

/-- The text of a number in a message. -/
def positional (x : Binary p) : String :=
  if x.isNaN then "NaN"
  else
    let sign := if x.isNegative then "-" else ""
    if x.isInfinite then sign ++ "inf"
    else
      let d := x.shortest
      let point := if d.fraction.isEmpty then [] else '.' :: Digit.text d.fraction
      sign ++ String.ofList (Digit.text d.whole ++ point)

end Binary

end RenderGraph
