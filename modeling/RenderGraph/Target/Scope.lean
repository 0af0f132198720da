import RenderGraph.Table
/-!
# Viewport scopes

The viewport that a resource belongs to. A resource belongs to the viewport of the node that
declares it; a superseded name and the name that replaced it share their viewport, the one of
the superseded name if it has any.
-/

namespace RenderGraph

abbrev Scopes := Table String String

namespace Scopes

/-- Gives a declared resource the viewport of its node, unless that is the empty name. -/
def declare (viewports : List String) (scopes : Scopes) (declared : String × Nat) : Scopes :=
  match viewports[declared.2]? with
  | some v => if v = "" then scopes else scopes.insert declared.1 v
  | none => scopes

/-- Lets a superseded name and its replacement share their viewport. -/
def share (scopes : Scopes) (redirect : String × String) : Scopes :=
  match (scopes.get? redirect.1).or (scopes.get? redirect.2) with
  | some v => (scopes.insert redirect.1 v).insert redirect.2 v
  | none => scopes

/-- The viewports of all resources, where `declared` has the position of the node that declares a
resource, `viewports` those of the nodes, and `redirects` the superseded names. -/
def of (declared : Table String Nat) (viewports : List String) (redirects : Table String String) : Scopes :=
  redirects.entries.foldl share (declared.entries.foldl (declare viewports) .empty)

end Scopes

end RenderGraph
