import RenderGraph.Json.Record
import RenderGraph.Node
/-!
# Parameters and sockets as JSON

A parameter is written as the JSON value that shows its kind: an integer has neither fraction nor
exponent. An integer beyond 64 signed bits is read as a number. `null` and objects are no
parameters.
-/

namespace RenderGraph

namespace Param

mutual

def toJson : Param → Json
  | bool b => .bool b
  | int n => .ofInt n.toInt
  | float x => .ofBinary x
  | text s => .string s
  | list items => .array (toJsonList items)

def toJsonList : List Param → List Json
  | [] => []
  | p :: rest => toJson p :: toJsonList rest

end

def ofNumber : Json.Number → Param
  | .integer n => if Int64.minValue.toInt ≤ n ∧ n ≤ Int64.maxValue.toInt then ofInt n else float (Binary.ofInt n)
  | .real x => float x

mutual

/-- The parameter that a JSON value is. -/
def ofJson? : Json → Option Param
  | .null => none
  | .bool b => some (bool b)
  | .number n => n.value?.map ofNumber
  | .string s => some (text s)
  | .array items => (ofJsonList? items).map list
  | .object _ => none

def ofJsonList? : List Json → Option (List Param)
  | [] => some []
  | j :: rest => (ofJson? j).bind fun p => (ofJsonList? rest).map fun ps => p :: ps

end

end Param

namespace Params

def toJson (p : Params) : Json := .object (p.entries.map fun e => (e.1, e.2.toJson))

/-- The named parameters of a JSON object. -/
def ofJson? (j : Json) : Option Params := (j.entries? some Param.ofJson?).map Table.ofList

end Params

namespace SocketKind

def ofJson? (j : Json) : Option SocketKind := j.choice?.bind ofName?

end SocketKind

namespace NodeKind

def ofJson? (j : Json) : Option NodeKind := j.choice?.bind ofName?

end NodeKind

end RenderGraph
