import RenderGraph.Catalog
import RenderGraph.Identity
import RenderGraph.Param
import RenderGraph.Socket
import RenderGraph.Table
/-!
# Nodes and their templates

A node has a class, by which its pass is found, a role, sockets in order, parameters in order and
a place in the editor. A `Template` is what new nodes of a class look like, and a `NodeCatalog`
lists the templates by class.
-/

namespace RenderGraph

inductive NodeKind where
  | resource
  | pass
  | effect
  | viewport
deriving DecidableEq, Repr

namespace NodeKind

def all : List NodeKind := [resource, pass, effect, viewport]

def name : NodeKind → String
  | resource => "resource"
  | pass => "pass"
  | effect => "effect"
  | viewport => "viewport"

def ofName? (s : String) : Option NodeKind := all.find? fun k => k.name = s

theorem ofName?_name (k : NodeKind) : ofName? k.name = some k := by cases k <;> rfl

/-- Whether nodes of this role become passes. -/
def isPass (k : NodeKind) : Bool := k = pass || k = effect

end NodeKind

structure Point where
  x : Single
  y : Single
deriving DecidableEq

/-- The width and height of something in the editor plane. -/
structure Extent where
  width : Single
  height : Single
deriving DecidableEq

def Point.origin : Point := ⟨Binary.zero false, Binary.zero false⟩

/-- The parameters of a node in order. -/
abbrev Params := Table String Param

/-- What new nodes of a class look like. -/
structure Template where
  className : String
  kind : NodeKind
  category : String
  description : String
  inputs : List Socket
  outputs : List Socket
  params : Params
deriving DecidableEq

instance : Named Template := ⟨Template.className⟩

abbrev NodeCatalog := Catalog Template

structure Node where
  id : NodeId
  title : String
  /-- The name the user gave, which counts only if it is not empty. -/
  instanceName : Option String
  kind : NodeKind
  inputs : List Socket
  outputs : List Socket
  params : Params
  position : Point
  size : Extent
deriving DecidableEq

namespace Node

/-- The size the editor gives to a node: as many rows of 22 units as the longer side has sockets,
under a title of 24 units and above a margin of 8, and 180 units wide. -/
def defaultSize (inputs outputs : Nat) : Extent :=
  let rows : Single := Binary.ofNat (max inputs outputs)
  ⟨Binary.ofNat 180, Binary.ofNat 24 + rows * Binary.ofNat 22 + Binary.ofNat 8⟩

def bare (id : NodeId) (title : String) (kind : NodeKind) : Node where
  id := id
  title := title
  instanceName := none
  kind := kind
  inputs := []
  outputs := []
  params := .empty
  position := .origin
  size := defaultSize 0 0

def ofTemplate (id : NodeId) (t : Template) : Node :=
  { bare id t.className t.kind with
    inputs := t.inputs
    outputs := t.outputs
    params := t.params
    size := defaultSize t.inputs.length t.outputs.length }

/-- The node with one more input; whatever socket is given becomes an input. -/
def addInput (n : Node) (s : Socket) : Node := { n with inputs := n.inputs ++ [{ s with direction := .input }] }

/-- The node with one more output; whatever socket is given becomes an output. -/
def addOutput (n : Node) (s : Socket) : Node := { n with outputs := n.outputs ++ [{ s with direction := .output }] }

def input? (n : Node) (name : String) : Option Socket := n.inputs.find? fun s => s.name = name

def output? (n : Node) (name : String) : Option Socket := n.outputs.find? fun s => s.name = name

def sockets (n : Node) : List Socket := n.inputs ++ n.outputs

/-- The name the user gave, if it is not empty. -/
def givenName? (n : Node) : Option String := n.instanceName.filter (· ≠ "")

/-- The name shown to users and given to passes. -/
def displayName (n : Node) : String := n.givenName?.getD n.title

/-- The point by which a node is assigned to a viewport. -/
def center (n : Node) : Point :=
  let half : Single := Binary.ofQuotient false 1 2
  ⟨n.position.x + n.size.width * half, n.position.y + n.size.height * half⟩

/-- Whether a node declares a render target: a resource whose only output is one. -/
def declaresTarget (n : Node) : Bool :=
  n.kind = .resource &&
    match n.outputs with
    | [s] => s.kind = .fbo
    | _ => false

end Node

namespace NodeCatalog

/-- A new node of a listed class. -/
def create? (c : NodeCatalog) (id : NodeId) (className : String) : Option Node :=
  (c.find? className).map (Node.ofTemplate id)

/-- The templates of a role in order. -/
def ofKind (c : NodeCatalog) (kind : NodeKind) : List Template := c.entries.filter fun t => t.kind = kind

end NodeCatalog

end RenderGraph
