import RenderGraph.Param
import RenderGraph.Text.Search
/-!
# Render targets

How a render target is created: its texel format, samples, size and what it is cleared to.
-/

namespace RenderGraph

inductive TextureFormat where
  | rgba8
  | rgba8Srgb
  | rgba16Float
  | rgba32Float
  | r11g11b10Float
  | depth24Stencil8
  | depth32Float
deriving DecidableEq, Repr

namespace TextureFormat

def all : List TextureFormat :=
  [rgba8, rgba8Srgb, rgba16Float, rgba32Float, r11g11b10Float, depth24Stencil8, depth32Float]

def name : TextureFormat → String
  | rgba8 => "rgba8"
  | rgba8Srgb => "rgba8_srgb"
  | rgba16Float => "rgba16f"
  | rgba32Float => "rgba32f"
  | r11g11b10Float => "r11g11b10f"
  | depth24Stencil8 => "depth24_stencil8"
  | depth32Float => "depth32f"

def otherNames : TextureFormat → List String
  | rgba8 => ["rgba8unorm", "rgba8_unorm"]
  | rgba8Srgb => ["rgba8unormsrgb", "srgba8"]
  | rgba16Float => ["rgba16float", "rgba16_float"]
  | rgba32Float => ["rgba32float", "rgba32_float"]
  | r11g11b10Float => ["rg11b10float"]
  | depth24Stencil8 => ["depth24plusstencil8", "d24s8"]
  | depth32Float => ["depth32float", "d32f"]

def ofName? (s : String) : Option TextureFormat := all.find? fun f => f.name = s

/-- The format a user means, by any of its names in any letter case. -/
def parse? (s : String) : Option TextureFormat :=
  all.find? fun f => (f.name :: f.otherNames).contains (Text.lowercase s)

/-- The message for text that names no format. -/
def unknownMessage (s : String) : String := "unknown texture format '" ++ Text.lowercase s ++ "'"

theorem ofName?_name (f : TextureFormat) : ofName? f.name = some f := by cases f <;> rfl

end TextureFormat

inductive SizePolicy where
  /-- Both axes are those of the viewport times a factor. -/
  | viewport (scale : Single)
  | fixed (width height : UInt32)
deriving DecidableEq

def SizePolicy.full : SizePolicy := viewport (Binary.ofNat 1)

structure TargetSpec where
  name : String
  format : TextureFormat
  samples : UInt32
  size : SizePolicy
  /-- The color it is cleared to, if it is. -/
  clearColor : Option Color
  /-- The depth it is cleared to, if it is. -/
  clearDepth : Option Single
  /-- The viewport it belongs to; none for a shared one. -/
  viewport : Option String
deriving DecidableEq

end RenderGraph
