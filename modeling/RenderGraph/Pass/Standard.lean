import RenderGraph.Pass.Class
/-!
# The standard classes

The pass classes that every graph can use, the configurations they make, and the templates of the
nodes that declare resources and mark viewports.
-/

namespace RenderGraph

/-! ## How the standard classes make their configurations -/

namespace Factory

def outOfRange {α : Type} (name : String) (fault : RangeFault) : Except ConstructError α :=
  .error (.outOfRange name fault)

/-- Whether a number is a power of two. -/
def isPowerOfTwo (n : UInt32) : Bool := n ≠ 0 && 1 <<< n.toNat.log2 = n.toNat

/-- Shadow maps: the edge is a power of two, and there are one to four cascades. -/
def shadow : Factory := fun a => do
  let resolution ← a.natural "resolution" 2048
  if !isPowerOfTwo resolution then outOfRange "resolution" (.notPowerOfTwo resolution)
  let cascades ← a.natural "cascades" 1
  if cascades < 1 ∨ 4 < cascades then outOfRange "cascades" (.notBetween 1 4)
  return .shadow resolution cascades

def depth : Factory := fun _ => return .depth

def color : Factory := fun a => do
  let clear ← a.bool "clear" true
  let wireframe ← a.bool "wireframe" false
  return .color clear wireframe

def skybox : Factory := fun a => do
  let intensity ← a.single "intensity" (Binary.ofNat 1)
  let cubemap ← a.text "cubemap" ""
  return .skybox intensity cubemap

def bloom : Factory := fun a => do
  let iterations ← a.natural "iterations" 5
  if iterations < 1 ∨ 16 < iterations then outOfRange "iterations" (.notBetween 1 16)
  let threshold ← a.single "threshold" (Binary.ofNat 1)
  let intensity ← a.single "intensity" (Binary.ofQuotient false 1 2)
  return .bloom threshold intensity iterations

def tonemap : Factory := fun a => do
  let curve ← a.text "operator" "aces"
  match TonemapOperator.parse? curve with
  | none => outOfRange "operator" (.unknownOperator curve)
  | some operator => return .tonemap (← a.single "exposure" (Binary.ofNat 1)) operator

def colorGrading : Factory := fun a => do
  let saturation ← a.single "saturation" (Binary.ofNat 1)
  let contrast ← a.single "contrast" (Binary.ofNat 1)
  return .colorGrading saturation contrast

/-- A shader of the user: what its class does not declare is handed on to it. -/
def postProcess : Factory := fun a => do
  let shader ← a.text "shader" ""
  return .postProcess shader a.extras

/-- Smoothed edges, by an amount between zero and one. -/
def fxaa : Factory := fun a => do
  let subpixel ← a.single "subpixel" (Binary.ofQuotient false 3 4)
  if !(Binary.le (Binary.ofNat 0) subpixel && Binary.le subpixel (Binary.ofNat 1)) then
    outOfRange "subpixel" (.notBetween 0 1)
  return .fxaa subpixel

def present : Factory := fun _ => return .present

end Factory

namespace PassCatalog

/-- A class with an input for what it works on and an output that can be redirected. -/
def effect (name category description : String) (factory : Factory) : PassClass :=
  (((PassClass.plain name .effect category description factory).withInput (.input "input_res" .fbo)).withRedirectableOutput
    (.output "output_res" .fbo)).withViewport

/-- A class that works on the buffer of its input. -/
def inPlace (name : String) (kind : NodeKind) (category description : String) (factory : Factory) : PassClass :=
  ((((PassClass.plain name kind category description factory).withInput (.input "input_res" .fbo)).withOutput
    (.output "output_res" .fbo)).withInplace "output_res" "input_res").withViewport

def standardClasses : List PassClass := [
  (((PassClass.plain "ShadowPass" .pass "Geometry" "Render shadow casters into a shadow map" Factory.shadow).withOutput
    (.output "shadow_map" .shadow)).withParam "resolution" (.ofInt 2048)).withParam "cascades" (.ofInt 1),
  ((PassClass.plain "DepthPass" .pass "Geometry" "Depth-only prepass" Factory.depth).withRedirectableOutput
    (.output "depth_res" .fbo)).withViewport,
  ((((((PassClass.plain "ColorPass" .pass "Geometry" "Forward-shaded scene color" Factory.color).withInput
    (.input "input_res" .fbo)).withInput (.input "shadow_map" .shadow)).withRedirectableOutput
    (.output "output_res" .fbo)).withParam "clear" (.bool true)).withParam "wireframe" (.bool false)).withViewport,
  ((inPlace "SkyboxPass" .pass "Geometry" "Draw the sky behind scene color" Factory.skybox).withParam
    "intensity" (.whole 1)).withParam "cubemap" (.text ""),
  (((effect "BloomPass" "Post Process" "Threshold, blur, and add bright areas" Factory.bloom).withParam
    "threshold" (.whole 1)).withParam "intensity" (.ratio 1 2)).withParam "iterations" (.ofInt 5),
  ((effect "TonemapPass" "Post Process" "Map HDR color to display range" Factory.tonemap).withParam
    "exposure" (.whole 1)).withParam "operator" (.text "aces"),
  ((inPlace "ColorGradingPass" .effect "Post Process" "Adjust saturation and contrast in place"
    Factory.colorGrading).withParam "saturation" (.whole 1)).withParam "contrast" (.whole 1),
  ((effect "PostProcessPass" "Post Process" "Run a user shader over the input" Factory.postProcess).withParam
    "shader" (.text "")).withCatchAll,
  (effect "FxaaPass" "Anti-Aliasing" "Fast approximate anti-aliasing" Factory.fxaa).withParam
    "subpixel" (.ratio 3 4),
  (PassClass.plain "PresentToScreenPass" .pass "Output" "Copy the input to the swapchain" Factory.present).withInput
    (.input "input_res" .fbo)]

/-- The catalog of the standard pass classes. -/
def standard : PassCatalog := .ofList standardClasses

end PassCatalog

namespace NodeCatalog

/-- The template of nodes that declare render targets. -/
def fboTemplate : Template where
  className := "FBO"
  kind := .resource
  category := "Resources"
  description := "Render target declared by the user"
  inputs := []
  outputs := [.output "output" .fbo]
  params := .ofList [
    ("format", .text "rgba8"),
    ("samples", .ofInt 1),
    ("size_mode", .text "viewport"),
    ("scale", .whole 1),
    ("width", .ofInt 0),
    ("height", .ofInt 0),
    ("clear_color", .bool true),
    ("clear_color_value", .list [.whole 0, .whole 0, .whole 0, .whole 1]),
    ("clear_depth", .bool false),
    ("clear_depth_value", .whole 1)]

/-- The template of nodes that load textures. -/
def textureTemplate : Template where
  className := "Texture"
  kind := .resource
  category := "Resources"
  description := "Texture asset"
  inputs := []
  outputs := [.output "texture" .texture]
  params := .ofList [("path", .text "")]

/-- The template of nodes that mark viewports. -/
def viewportTemplate : Template where
  className := "Viewport"
  kind := .viewport
  category := "Output"
  description := "Viewport marker"
  inputs := []
  outputs := []
  params := .empty

/-- The catalog of all standard templates: resources, the viewport marker and the pass classes. -/
def standard : NodeCatalog :=
  PassCatalog.standard.extendTemplates (.ofList [fboTemplate, textureTemplate, viewportTemplate])

end NodeCatalog

end RenderGraph
