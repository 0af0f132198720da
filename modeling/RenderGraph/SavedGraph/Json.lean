import RenderGraph.Json.Params
import RenderGraph.Json.Reader
import RenderGraph.Json.Writer
import RenderGraph.SavedGraph
/-!
# The text of saved graphs

Saved graphs are JSON. Everything about a graph may be left out, and of a node everything but its
class and place; connections and frames are complete. Fields that are left out are not written.
-/

namespace RenderGraph

def presentFields (fields : List (String × Option Json)) : List (String × Json) :=
  fields.filterMap fun (name, value) => value.map fun v => (name, v)

namespace SavedNode

/-- The names of the fields in order. -/
def fieldNames : List String :=
  ["type", "x", "y", "node_type", "name", "params", "width", "height", "dynamic_inputs"]

/-- The JSON value of an added input. -/
def inputToJson (e : String × SocketKind) : Json := .array [.string e.1, .string e.2.name]

/-- The JSON value of a saved node. -/
def toJson (s : SavedNode) : Json :=
  .object (presentFields [
    ("type", some (.string s.className)),
    ("x", some (.ofBinary s.x)),
    ("y", some (.ofBinary s.y)),
    ("node_type", s.kind.map fun k => .string k.name),
    ("name", s.name.map .string),
    ("params", s.params.map Params.toJson),
    ("width", s.width.map .ofBinary),
    ("height", s.height.map .ofBinary),
    ("dynamic_inputs", s.extraInputs.map fun items => .array (items.map inputToJson))])

/-- A field that may be left out or `null`. -/
def field? {α : Type} (r : Json.Record) (name : String) (decode : Json → Option α) : Option (Option α) :=
  r.orElse? name none (Json.Record.nullable? decode)

/-- The saved node of a JSON value. -/
def ofJson? (j : Json) : Option SavedNode := do
  let r ← Json.Record.of? fieldNames j
  return {
    className := ← r.required? "type" Json.asString?
    x := ← r.required? "x" Json.asSingle?
    y := ← r.required? "y" Json.asSingle?
    kind := ← field? r "node_type" NodeKind.ofJson?
    name := ← field? r "name" Json.asString?
    params := ← field? r "params" Params.ofJson?
    width := ← field? r "width" Json.asSingle?
    height := ← field? r "height" Json.asSingle?
    extraInputs := ← field? r "dynamic_inputs" (Json.list? (Json.pair? Json.asString? SocketKind.ofJson?)) }

end SavedNode

namespace SavedGraph

/-- The JSON value of a saved connection. -/
def linkToJson (l : Link) : Json :=
  .object [
    ("from_node", .ofNat l.fromNode),
    ("from_socket", .string l.fromSocket),
    ("to_node", .ofNat l.toNode),
    ("to_socket", .string l.toSocket)]

/-- The position of a node, a 64-bit number. -/
def asIndex? (j : Json) : Option Nat := j.asNatBelow? UInt64.size

/-- The saved connection of a JSON value. -/
def linkOfJson? (j : Json) : Option Link := do
  let r ← Json.Record.of? ["from_node", "from_socket", "to_node", "to_socket"] j
  return {
    fromNode := ← r.required? "from_node" asIndex?
    fromSocket := ← r.required? "from_socket" Json.asString?
    toNode := ← r.required? "to_node" asIndex?
    toSocket := ← r.required? "to_socket" Json.asString? }

/-- The JSON value of a saved frame. -/
def frameToJson (f : Frame) : Json :=
  .object [
    ("title", .string f.title),
    ("viewport_name", .string f.viewport),
    ("x", .ofBinary f.position.x),
    ("y", .ofBinary f.position.y),
    ("width", .ofBinary f.size.width),
    ("height", .ofBinary f.size.height)]

/-- The saved frame of a JSON value. -/
def frameOfJson? (j : Json) : Option Frame := do
  let r ← Json.Record.of? ["title", "viewport_name", "x", "y", "width", "height"] j
  let title ← r.required? "title" Json.asString?
  let viewport ← r.required? "viewport_name" Json.asString?
  let x ← r.required? "x" Json.asSingle?
  let y ← r.required? "y" Json.asSingle?
  let width ← r.required? "width" Json.asSingle?
  let height ← r.required? "height" Json.asSingle?
  return ⟨title, viewport, ⟨x, y⟩, ⟨width, height⟩⟩

/-- The JSON value of a saved graph. -/
def toJson (s : SavedGraph) : Json :=
  .object [
    ("name", .string s.name),
    ("nodes", .array (s.nodes.map SavedNode.toJson)),
    ("connections", .array (s.links.map linkToJson)),
    ("viewport_frames", .array (s.frames.map frameToJson))]

/-- The saved graph of a JSON value. -/
def ofJson? (j : Json) : Option SavedGraph := do
  let r ← Json.Record.of? ["name", "nodes", "connections", "viewport_frames"] j
  return {
    name := ← r.orElse? "name" "" Json.asString?
    nodes := ← r.orElse? "nodes" [] (Json.list? SavedNode.ofJson?)
    links := ← r.orElse? "connections" [] (Json.list? linkOfJson?)
    frames := ← r.orElse? "viewport_frames" [] (Json.list? frameOfJson?) }

def toText (s : SavedGraph) : String := s.toJson.pretty

def ofText? (text : String) : Option SavedGraph := (Json.read? text).bind ofJson?

def openText (catalog : NodeCatalog) (text : String) : Except OpenError Graph :=
  match ofText? text with
  | none => .error .malformed
  | some s => s.toGraph catalog

end SavedGraph

end RenderGraph
