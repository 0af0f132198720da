import RenderGraph.Graph
import RenderGraph.Json.Params
import RenderGraph.Json.Reader
import RenderGraph.Json.Writer
/-!
# Complete graphs as JSON

Apart from the short form in which graphs are saved, a graph has a complete form that keeps every
socket and identity. It is taken as it is: nothing is checked that the form itself does not say.
-/

namespace RenderGraph

namespace Socket

def sideName : Direction → String
  | .input => "input"
  | .output => "output"

/-- The name of a number of connections. -/
def countName : Multiplicity → String
  | .single => "Single"
  | .multiple => "Multiple"

def sideOfJson? (j : Json) : Option Direction :=
  j.choice?.bind fun s => [Direction.input, .output].find? fun d => sideName d = s

/-- The number of connections of a JSON value. -/
def countOfJson? (j : Json) : Option Multiplicity :=
  j.choice?.bind fun s => [Multiplicity.single, .multiple].find? fun m => countName m = s

def toJson (s : Socket) : Json :=
  .object [
    ("name", .string s.name),
    ("kind", .string s.kind.name),
    ("direction", .string (sideName s.direction)),
    ("multiplicity", .string (countName s.multiplicity))]

def ofJson? (j : Json) : Option Socket := do
  let r ← Json.Record.of? ["name", "kind", "direction", "multiplicity"] j
  return {
    name := ← r.required? "name" Json.asString?
    kind := ← r.required? "kind" SocketKind.ofJson?
    direction := ← r.required? "direction" sideOfJson?
    multiplicity := ← r.required? "multiplicity" countOfJson? }

end Socket

def pairToJson (a b : Single) : Json := .array [.ofBinary a, .ofBinary b]

/-- The two numbers of a JSON value. -/
def pairOfJson? : Json → Option (Single × Single) := Json.pair? Json.asSingle? Json.asSingle?

def Point.ofJson? (j : Json) : Option Point := (pairOfJson? j).map fun e => ⟨e.1, e.2⟩

def Extent.ofJson? (j : Json) : Option Extent := (pairOfJson? j).map fun e => ⟨e.1, e.2⟩

def Identity.ofJson? (j : Json) : Option Nat := j.asString?.bind Identity.ofText?

/-- The node identity of a JSON value. -/
def NodeId.ofJson? (j : Json) : Option NodeId := (Identity.ofJson? j).map NodeId.mk

/-- The connection identity of a JSON value. -/
def ConnectionId.ofJson? (j : Json) : Option ConnectionId := (Identity.ofJson? j).map ConnectionId.mk

namespace Node

/-- The names of the fields in order. -/
def fieldNames : List String :=
  ["id", "title", "instance_name", "kind", "inputs", "outputs", "params", "position", "size"]

def toJson (n : Node) : Json :=
  .object [
    ("id", .string (Identity.text n.id.value)),
    ("title", .string n.title),
    ("instance_name", .ofOption .string n.instanceName),
    ("kind", .string n.kind.name),
    ("inputs", .array (n.inputs.map Socket.toJson)),
    ("outputs", .array (n.outputs.map Socket.toJson)),
    ("params", Params.toJson n.params),
    ("position", pairToJson n.position.x n.position.y),
    ("size", pairToJson n.size.width n.size.height)]

def ofJson? (j : Json) : Option Node := do
  let r ← Json.Record.of? fieldNames j
  return {
    id := ← r.required? "id" NodeId.ofJson?
    title := ← r.required? "title" Json.asString?
    instanceName := ← r.optional? "instance_name" Json.asString?
    kind := ← r.required? "kind" NodeKind.ofJson?
    inputs := ← r.required? "inputs" (Json.list? Socket.ofJson?)
    outputs := ← r.required? "outputs" (Json.list? Socket.ofJson?)
    params := ← r.required? "params" Params.ofJson?
    position := ← r.required? "position" Point.ofJson?
    size := ← r.required? "size" Extent.ofJson? }

end Node

namespace Connection

def toJson (c : Connection) : Json :=
  .object [
    ("id", .string (Identity.text c.id.value)),
    ("from_node", .string (Identity.text c.fromNode.value)),
    ("from_socket", .string c.fromSocket),
    ("to_node", .string (Identity.text c.toNode.value)),
    ("to_socket", .string c.toSocket)]

def ofJson? (j : Json) : Option Connection := do
  let r ← Json.Record.of? ["id", "from_node", "from_socket", "to_node", "to_socket"] j
  return {
    id := ← r.required? "id" ConnectionId.ofJson?
    fromNode := ← r.required? "from_node" NodeId.ofJson?
    fromSocket := ← r.required? "from_socket" Json.asString?
    toNode := ← r.required? "to_node" NodeId.ofJson?
    toSocket := ← r.required? "to_socket" Json.asString? }

end Connection

namespace Frame

def toJson (f : Frame) : Json :=
  .object [
    ("title", .string f.title),
    ("viewport_name", .string f.viewport),
    ("position", pairToJson f.position.x f.position.y),
    ("size", pairToJson f.size.width f.size.height)]

def ofJson? (j : Json) : Option Frame := do
  let r ← Json.Record.of? ["title", "viewport_name", "position", "size"] j
  return {
    title := ← r.required? "title" Json.asString?
    viewport := ← r.required? "viewport_name" Json.asString?
    position := ← r.required? "position" Point.ofJson?
    size := ← r.required? "size" Extent.ofJson? }

end Frame

namespace Graph

def toJson (g : Graph) : Json :=
  .object [
    ("name", .string g.name),
    ("nodes", .object (g.nodes.entries.map fun e => (Identity.text e.1.value, e.2.toJson))),
    ("connections", .object (g.connections.entries.map fun e => (Identity.text e.1.value, e.2.toJson))),
    ("viewport_frames", .array (g.frames.map Frame.toJson))]

def ofJson? (j : Json) : Option Graph := do
  let r ← Json.Record.of? ["name", "nodes", "connections", "viewport_frames"] j
  let nodeKey (s : String) : Option NodeId := (Identity.ofText? s).map NodeId.mk
  let connectionKey (s : String) : Option ConnectionId := (Identity.ofText? s).map ConnectionId.mk
  return {
    name := ← r.required? "name" Json.asString?
    nodes := .ofList (← r.required? "nodes" (Json.entries? nodeKey Node.ofJson?))
    connections := .ofList (← r.required? "connections" (Json.entries? connectionKey Connection.ofJson?))
    frames := ← r.required? "viewport_frames" (Json.list? Frame.ofJson?) }

/-- The text of a graph in complete form. -/
def toText (g : Graph) : String := g.toJson.pretty

/-- The graph of a text in complete form. -/
def ofText? (text : String) : Option Graph := (Json.read? text).bind ofJson?

end Graph

end RenderGraph
