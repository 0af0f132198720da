import RenderGraph.Pass.Class
/-!
# Building passes from nodes

A pass gets its arguments by name: its own name, the resources at its sockets, its viewport, and
the parameters of its node unless a name is already taken. A class that refuses one of them as
unexpected is given only those it declares; what is left over, apart from resources and the
viewport, becomes the attributes of the pass.
-/

namespace RenderGraph

/-- The resources at the sockets of a node, without the inputs that redirect. -/
structure Bindings where
  inputs : SocketBindings
  outputs : SocketBindings
  unlinked : List String
deriving DecidableEq

namespace Bindings

/-- Whether nothing is linked to an input. -/
def isUnlinked (b : Bindings) (socket : String) : Bool := b.unlinked.contains socket

/-- All sockets with their resources, inputs first. -/
def all (b : Bindings) : List (String × String) := b.inputs.entries ++ b.outputs.entries

/-- All sockets with their resources as one table, where an output overrides an input. -/
def merged (b : Bindings) : SocketBindings := .ofList b.all

end Bindings

inductive BuildError where
  | unknownClass (className : String)
  | refused (className : String) (cause : ConstructError)
deriving DecidableEq

/-- The message of a node without pass. -/
def BuildError.message : BuildError → String
  | unknownClass className => "Unknown pass class: " ++ className
  | refused className cause => "Failed to construct " ++ className ++ ": " ++ cause.message

namespace Pass

/-- The arguments for the pass of a node. -/
def argumentsFor (n : Node) (b : Bindings) (viewport : String) : Params :=
  let named : Params := Table.empty.insert passNameKey (.text n.displayName)
  let bound := b.all.foldl (fun t e => t.insert e.1 (.text e.2)) named
  let placed := if viewport = "" then bound else bound.insert viewportKey (.text viewport)
  n.params.entries.foldl (fun t e => t.insertNew e.1 e.2) placed

/-- The configuration that a class makes, and the arguments it did not take. -/
def configure (c : PassClass) (arguments : Params) (bindings : SocketBindings) :
    Except ConstructError (PassConfig × Params) :=
  match c.construct arguments bindings with
  | .ok config => .ok (config, .empty)
  | .error (.unexpected _) =>
    let declared := arguments.filter fun k _ => c.catchAll || c.declares k
    let rest := arguments.filter fun k _ => !(c.catchAll || c.declares k)
    (c.construct declared bindings).map fun config => (config, rest)
  | .error e => .error e

/-- The outputs of a pass that use the buffer of a linked input, by resource name. -/
def inplaceOf (c : PassClass) (b : Bindings) : List InplaceAlias :=
  c.inplace.filterMap fun (output, input) =>
    if b.isUnlinked input then none
    else
      match b.outputs.get? output, b.inputs.get? input with
      | some written, some read => if written = read then none else some ⟨written, read⟩
      | _, _ => none

/-- The pass of a node. An empty viewport name stands for off screen. -/
def build (catalog : PassCatalog) (n : Node) (b : Bindings) (viewport : String) : Except BuildError Pass :=
  match catalog.find? n.title with
  | none => .error (.unknownClass n.title)
  | some c =>
    match configure c (argumentsFor n b viewport) b.merged with
    | .error cause => .error (.refused c.name cause)
    | .ok (config, rest) =>
      .ok
        { className := c.name
          name := n.displayName
          viewport := viewport
          config := config
          inputs := b.inputs
          outputs := b.outputs
          inplace := inplaceOf c b
          attributes := rest.filter fun k _ => k ≠ viewportKey && k ≠ passNameKey && !b.merged.contains k }

end Pass

end RenderGraph
