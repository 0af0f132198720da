import RenderGraph.Node
/-!
# Viewport frames

A frame is a rectangle of the editor plane that assigns a viewport to the nodes whose centers lie in
it, its edges included. Where frames overlap, the first one in order decides.
-/

namespace RenderGraph

structure Frame where
  title : String
  viewport : String
  position : Point
  size : Extent
deriving DecidableEq

namespace Frame

/-- Whether a point lies in the frame or on its edge. -/
def containsPoint (f : Frame) (p : Point) : Bool :=
  f.position.x.le p.x && p.x.le (f.position.x + f.size.width) &&
    (f.position.y.le p.y && p.y.le (f.position.y + f.size.height))

/-- Whether the center of a node lies in the frame. -/
def contains (f : Frame) (n : Node) : Bool := f.containsPoint n.center

end Frame

/-- The viewport of a node: that of the first frame around it, or the empty name. -/
def viewportOf (frames : List Frame) (n : Node) : String :=
  ((frames.find? fun f => f.contains n).map Frame.viewport).getD ""

end RenderGraph
