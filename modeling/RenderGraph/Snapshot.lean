import RenderGraph.Viewport
/-!
# Snapshots

What a compile reads: the nodes in order, the connections between them by node position, and the
frames. A link may point at nodes and sockets that do not exist; it then counts for nothing.
-/

namespace RenderGraph

structure Link where
  fromNode : Nat
  fromSocket : String
  toNode : Nat
  toSocket : String
deriving DecidableEq, Repr

/-- What a compile reads of a graph. -/
structure Snapshot where
  name : String
  nodes : List Node
  links : List Link
  frames : List Frame
deriving DecidableEq

namespace Snapshot

def indexed (s : Snapshot) : List (Node × Nat) := s.nodes.zipIdx

/-- The nodes that become passes, with their positions. -/
def passNodes (s : Snapshot) : List (Node × Nat) := s.indexed.filter fun e => e.1.kind.isPass

/-- The positions of the nodes that become passes. -/
def passIndices (s : Snapshot) : List Nat := s.passNodes.map Prod.snd

def viewports (s : Snapshot) : List String := s.nodes.map (viewportOf s.frames)

end Snapshot

end RenderGraph
