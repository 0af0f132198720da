import RenderGraph.Graph
/-!
# Saved graphs

A graph as it is kept in a file: nodes by class with what differs from the template of the class,
connections by node position. What is left out comes from the template when the graph is opened.

Nodes of unknown classes are kept, so that a compile can report them: their sockets are those that
were saved and those that connections name.
-/

namespace RenderGraph

structure SavedNode where
  className : String
  x : Single
  y : Single
  /-- The role, where it is not that of the class. -/
  kind : Option NodeKind
  name : Option String
  params : Option Params
  /-- The width, where it is not the default. -/
  width : Option Single
  /-- The height, where it is not the default. -/
  height : Option Single
  extraInputs : Option (List (String × SocketKind))
deriving DecidableEq

structure SavedGraph where
  name : String
  nodes : List SavedNode
  links : List Link
  frames : List Frame
deriving DecidableEq

/-- Why a saved graph cannot be opened. -/
inductive OpenError where
  /-- The text is not that of a saved graph. -/
  | malformed
  | invalidConnection (index node nodeCount : Nat)
deriving DecidableEq, Repr

/-- The message of a graph that cannot be opened; for malformed text only its kind. -/
def OpenError.message : OpenError → String
  | malformed => "JSON error"
  | invalidConnection index node nodeCount =>
    "Connection " ++ toString index ++ " refers to node " ++ toString node ++
      ", but the document has " ++ toString nodeCount ++ " nodes"

namespace SavedNode

/-- The node without what was saved of it: by its template, or bare. -/
def blank (catalog : NodeCatalog) (id : NodeId) (s : SavedNode) : Node :=
  match catalog.find? s.className with
  | some t => .ofTemplate id t
  | none => .bare id s.className (s.kind.getD .pass)

/-- Adds a saved input unless there is one of its name. -/
def addExtra (n : Node) (e : String × SocketKind) : Node :=
  if (n.input? e.1).isNone then n.addInput (.input e.1 e.2) else n

def toNode (catalog : NodeCatalog) (id : NodeId) (s : SavedNode) : Node :=
  let base := s.blank catalog id
  let named : Node :=
    { base with
      kind := s.kind.getD base.kind
      instanceName := s.name.filter (· ≠ "")
      params := base.params.insertAll ((s.params.map Table.entries).getD []) }
  let full := (s.extraInputs.getD []).foldl addExtra named
  let size := Node.defaultSize full.inputs.length full.outputs.length
  { full with
    position := ⟨s.x, s.y⟩
    size := ⟨s.width.getD size.width, s.height.getD size.height⟩ }

/-- A list, none standing for the empty one. -/
def unlessEmpty {α : Type} (items : List α) : Option (List α) := if items.isEmpty then none else some items

def ofNode (catalog : NodeCatalog) (n : Node) : SavedNode :=
  let template := catalog.find? n.title
  let known := ((template.map Template.inputs).getD []).map Socket.name
  { className := n.title
    x := n.position.x
    y := n.position.y
    kind := if (template.map Template.kind) = some n.kind then none else some n.kind
    name := n.instanceName
    params := if n.params.isEmpty then none else some n.params
    width := some n.size.width
    height := some n.size.height
    extraInputs := unlessEmpty ((n.inputs.filter fun s => !known.contains s.name).map fun s => (s.name, s.kind)) }

end SavedNode

namespace SavedGraph

def ofGraph (catalog : NodeCatalog) (g : Graph) : SavedGraph where
  name := g.name
  nodes := g.nodes.values.map (SavedNode.ofNode catalog)
  links := g.links
  frames := g.frames

/-- The first connection that points past the last node, and where it points. -/
def invalidLink? (count : Nat) (links : List (Link × Nat)) : Option OpenError :=
  links.findSome? fun (l, i) =>
    if count ≤ l.fromNode then some (.invalidConnection i l.fromNode count)
    else if count ≤ l.toNode then some (.invalidConnection i l.toNode count)
    else none

/-- Gives a node of an unknown class the output that a connection names. -/
def growOutput (catalog : NodeCatalog) (socket : String) (n : Node) : Node :=
  if (catalog.find? n.title).isNone && (n.output? socket).isNone then n.addOutput (.output socket .any) else n

/-- Gives a node of an unknown class the input that a connection names. -/
def growInput (catalog : NodeCatalog) (socket : String) (n : Node) : Node :=
  if (catalog.find? n.title).isNone && (n.input? socket).isNone then n.addInput (.input socket .any) else n

/-- Gives nodes of unknown classes the sockets that a connection names. -/
def grow (catalog : NodeCatalog) (nodes : List Node) (l : Link) : List Node :=
  (nodes.modify l.fromNode (growOutput catalog l.fromSocket)).modify l.toNode (growInput catalog l.toSocket)

/-- The nodes that were saved, identified by their positions. -/
def loadNodes (catalog : NodeCatalog) (s : SavedGraph) : List Node :=
  s.links.foldl (grow catalog) (s.nodes.zipIdx.map fun (n, i) => n.toNode catalog ⟨i⟩)

/-- Makes a saved connection if it can be made. -/
def connectLink (g : Graph) (e : Link × Nat) : Graph :=
  ((Graph.connect ⟨e.2⟩ ⟨e.1.fromNode⟩ e.1.fromSocket ⟨e.1.toNode⟩ e.1.toSocket).on g).2

/-- Opens a saved graph. Connections that cannot be made are dropped. -/
def toGraph (catalog : NodeCatalog) (s : SavedGraph) : Except OpenError Graph :=
  match invalidLink? s.nodes.length s.links.zipIdx with
  | some e => .error e
  | none =>
    let nodes := (s.loadNodes catalog).foldl Graph.addNode (.empty s.name)
    let connected := s.links.zipIdx.foldl connectLink nodes
    .ok { connected with frames := s.frames }

end SavedGraph

end RenderGraph
