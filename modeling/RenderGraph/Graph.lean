import RenderGraph.Identity
import RenderGraph.Snapshot
/-!
# Graphs

A `Graph` is what the editor works on: nodes by identity, connections by identity and frames, each
in the order of insertion. `connect` admits only connections from an output to an input of another
node that suit each other, and an input for one connection gives up its old one. It is
an `Edit`: what it answers and the graph that it leaves behind are given in any case.

New identities are supplied by the caller, who takes ones that are not in use.
-/

namespace RenderGraph

/-- A connection from an output to an input. -/
structure Connection where
  id : ConnectionId
  fromNode : NodeId
  fromSocket : String
  toNode : NodeId
  toSocket : String
deriving DecidableEq, Repr

namespace Connection

/-- Whether a node is at one of the ends. -/
def involves (c : Connection) (id : NodeId) : Bool := c.fromNode = id || c.toNode = id

def endsAt (c : Connection) (id : NodeId) (socket : String) : Bool := c.toNode = id && c.toSocket = socket

def startsAt (c : Connection) (id : NodeId) (socket : String) : Bool :=
  c.fromNode = id && c.fromSocket = socket

end Connection

inductive ConnectError where
  | nodeNotFound (id : NodeId)
  /-- The node has no socket of that name on that side. -/
  | socketNotFound (name : String)
  | incompatible (source target : SocketKind)
  | selfLoop
deriving DecidableEq, Repr

def ConnectError.message : ConnectError → String
  | nodeNotFound id => "Node not found: NodeId(" ++ Identity.text id.value ++ ")"
  | socketNotFound name => "Socket not found: " ++ name
  | incompatible source target => "Incompatible sockets: " ++ source.name ++ " -> " ++ target.name
  | selfLoop => "Self-loop not allowed"

structure Graph where
  name : String
  nodes : Table NodeId Node
  connections : Table ConnectionId Connection
  frames : List Frame
deriving DecidableEq

namespace Graph

def empty (name : String) : Graph := ⟨name, .empty, .empty, []⟩

/-- The name of a graph that was not given one. -/
def untitled : Graph := empty "Untitled"

/-- Adds a node under its identity; one that has that identity already is replaced in its place. -/
def addNode (g : Graph) (n : Node) : Graph := { g with nodes := g.nodes.insert n.id n }

/-- Removes a node and the connections at it. -/
def removeNode (g : Graph) (id : NodeId) : Graph :=
  { g with
    nodes := g.nodes.erase id
    connections := g.connections.filter fun _ c => !c.involves id }

def node? (g : Graph) (id : NodeId) : Option Node := g.nodes.get? id

/-- The position of a node in the order. -/
def nodeIndex? (g : Graph) (id : NodeId) : Option Nat := g.nodes.position? id

def editNode (g : Graph) (id : NodeId) (edit : Node → Node) : Graph :=
  match g.node? id with
  | some n => { g with nodes := g.nodes.insert id (edit n) }
  | none => g

/-- Checks a connection and finds the sockets at its ends. -/
def endpoints (g : Graph) (source : NodeId) (output : String) (target : NodeId) (input : String) :
    Except ConnectError (Socket × Socket) := do
  let some sourceNode := g.node? source | throw (.nodeNotFound source)
  let some targetNode := g.node? target | throw (.nodeNotFound target)
  let some out := sourceNode.output? output | throw (.socketNotFound output)
  let some into := targetNode.input? input | throw (.socketNotFound input)
  if source = target then throw .selfLoop
  if !out.canConnect into then throw (.incompatible out.kind into.kind)
  return (out, into)

/-- A change of a graph that may be refused. What it did before it was refused stays done. -/
abbrev Edit := ExceptT ConnectError (StateM Graph)

/-- What an edit answers on a graph, and the graph that it leaves behind. -/
def Edit.on {α : Type} (edit : Edit α) (g : Graph) : Except ConnectError α × Graph := edit.run.run g

/-- Connects an output to an input under a new identity. An input for one connection gives up the one it has. -/
def connect (id : ConnectionId) (source : NodeId) (output : String) (target : NodeId) (input : String) :
    Edit ConnectionId := do
  let (_, into) ← (← get).endpoints source output target input
  if into.multiplicity = .single then
    modify fun g => { g with connections := g.connections.filter fun _ c => !c.endsAt target input }
  modify fun g => { g with connections := g.connections.insert id ⟨id, source, output, target, input⟩ }
  return id

def disconnect (g : Graph) (id : ConnectionId) : Graph := { g with connections := g.connections.erase id }

def connection? (g : Graph) (id : ConnectionId) : Option Connection := g.connections.get? id

def connectionsFrom (g : Graph) (id : NodeId) (socket : String) : List Connection :=
  g.connections.values.filter fun c => c.startsAt id socket

/-- The first connection that feeds an input. -/
def connectionTo? (g : Graph) (id : NodeId) (socket : String) : Option Connection :=
  g.connections.values.find? fun c => c.endsAt id socket

def connectionsAt (g : Graph) (id : NodeId) : List Connection :=
  g.connections.values.filter fun c => c.involves id

def addFrame (g : Graph) (f : Frame) : Graph := { g with frames := g.frames ++ [f] }

/-- Removes the frame at a position, if there is one. -/
def removeFrame (g : Graph) (index : Nat) : Graph := { g with frames := g.frames.eraseIdx index }

/-- The viewport of a node, or the empty name. -/
def viewportOfNode (g : Graph) (id : NodeId) : String :=
  ((g.node? id).map (viewportOf g.frames)).getD ""

/-- A connection by node position, if both ends are nodes of the graph. -/
def link? (g : Graph) (c : Connection) : Option Link :=
  (g.nodeIndex? c.fromNode).bind fun i =>
    (g.nodeIndex? c.toNode).map fun j => ⟨i, c.fromSocket, j, c.toSocket⟩

/-- The links of all connections in order. -/
def links (g : Graph) : List Link := g.connections.values.filterMap g.link?

/-- What a compile reads of the graph. -/
def snapshot (g : Graph) : Snapshot := ⟨g.name, g.nodes.values, g.links, g.frames⟩

end Graph

end RenderGraph
