import RenderGraph.Node
/-!
# Passes

A compiled pass: its class, its name, the viewport it renders into, its configuration and the
resources bound to its sockets.
-/

namespace RenderGraph

inductive TonemapOperator where
  | aces
  | reinhard
  | filmic
deriving DecidableEq, Repr

namespace TonemapOperator

def all : List TonemapOperator := [aces, reinhard, filmic]

def name : TonemapOperator → String
  | aces => "aces"
  | reinhard => "reinhard"
  | filmic => "filmic"

def ofName? (s : String) : Option TonemapOperator := all.find? fun o => o.name = s

/-- The curve of that name in any letter case. -/
def parse? (s : String) : Option TonemapOperator := ofName? (Text.lowercase s)

/-- The message for text that names no curve. -/
def unknownMessage (s : String) : String := "unknown tonemap operator '" ++ Text.lowercase s ++ "'"

theorem ofName?_name (o : TonemapOperator) : ofName? o.name = some o := by cases o <;> rfl

end TonemapOperator

inductive PassConfig where
  /-- A shadow map with an edge length in texels and a number of cascades. -/
  | shadow (resolution cascades : UInt32)
  | depth
  /-- Scene color, drawn after clearing the target or not, with faces or edges. -/
  | color (clear wireframe : Bool)
  | skybox (intensity : Single) (cubemap : String)
  /-- Light around what is brighter than a threshold. -/
  | bloom (threshold intensity : Single) (iterations : UInt32)
  | tonemap (exposure : Single) (operator : TonemapOperator)
  | colorGrading (saturation contrast : Single)
  | fxaa (subpixel : Single)
  /-- A shader of the user with further values for it. -/
  | postProcess (shader : String) (uniforms : Params)
  | present
deriving DecidableEq

/-- An output that uses the buffer of an input, both by resource name. -/
structure InplaceAlias where
  output : String
  input : String
deriving DecidableEq, Repr

/-- Socket names with the resources bound to them. -/
abbrev SocketBindings := Table String String

structure Pass where
  className : String
  /-- The name: that of its node or its class. -/
  name : String
  /-- The viewport it renders into; empty off screen. -/
  viewport : String
  config : PassConfig
  inputs : SocketBindings
  outputs : SocketBindings
  /-- The outputs that use the buffer of an input. -/
  inplace : List InplaceAlias
  /-- The parameters that its class does not declare. -/
  attributes : Params
deriving DecidableEq

namespace Pass

def reads (p : Pass) : List String := p.inputs.values

def writes (p : Pass) : List String := p.outputs.values

/-- The resource bound to a socket, an input before an output. -/
def binding? (p : Pass) (socket : String) : Option String := (p.inputs.get? socket).or (p.outputs.get? socket)

/-- Whether the first pass writes a resource that the second one reads. -/
def feeds (writer reader : Pass) : Bool := writer.writes.any reader.reads.contains

end Pass

end RenderGraph
