import RenderGraph.Json.Params
import RenderGraph.Json.Reader
import RenderGraph.Json.Writer
import RenderGraph.Pipeline
/-!
# The text of pipelines

Pipelines are JSON. A configuration carries its kind in the field `type`, a size in the field
`mode`; attributes are left out if there are none.
-/

namespace RenderGraph

namespace SocketBindings

def toJson (b : SocketBindings) : Json := .object (b.entries.map fun e => (e.1, .string e.2))

def ofJson? (j : Json) : Option SocketBindings := (j.entries? some Json.asString?).map Table.ofList

end SocketBindings

namespace TonemapOperator

/-- The curve of a JSON value inside a configuration. -/
def ofJson? (j : Json) : Option TonemapOperator := j.choiceInTagged?.bind ofName?

end TonemapOperator

namespace TextureFormat

def ofJson? (j : Json) : Option TextureFormat := j.choice?.bind ofName?

end TextureFormat

namespace PassConfig

/-- The name of the kind of a configuration. -/
def tag : PassConfig → String
  | shadow .. => "shadow"
  | depth => "depth"
  | color .. => "color"
  | skybox .. => "skybox"
  | bloom .. => "bloom"
  | tonemap .. => "tonemap"
  | colorGrading .. => "color_grading"
  | fxaa .. => "fxaa"
  | postProcess .. => "post_process"
  | present => "present"

/-- The fields of a configuration apart from its kind. -/
def fieldsToJson : PassConfig → List (String × Json)
  | shadow resolution cascades => [("resolution", .ofNat resolution.toNat), ("cascades", .ofNat cascades.toNat)]
  | depth => []
  | color clear wireframe => [("clear", .bool clear), ("wireframe", .bool wireframe)]
  | skybox intensity cubemap => [("intensity", .ofBinary intensity), ("cubemap", .string cubemap)]
  | bloom threshold intensity iterations =>
    [("threshold", .ofBinary threshold), ("intensity", .ofBinary intensity),
      ("iterations", .ofNat iterations.toNat)]
  | tonemap exposure operator => [("exposure", .ofBinary exposure), ("operator", .string operator.name)]
  | colorGrading saturation contrast => [("saturation", .ofBinary saturation), ("contrast", .ofBinary contrast)]
  | fxaa subpixel => [("subpixel", .ofBinary subpixel)]
  | postProcess shader uniforms => [("shader", .string shader), ("uniforms", Params.toJson uniforms)]
  | present => []

def toJson (c : PassConfig) : Json := .object (("type", .string c.tag) :: c.fieldsToJson)

def ofJson? (j : Json) : Option PassConfig := do
  let t ← Json.Tagged.of? "type" j
  let record (names : List String) : Option Json.Record := Json.Record.of? names t.content
  match t.tag with
  | "shadow" =>
    let r ← record ["resolution", "cascades"]
    return .shadow (← r.required? "resolution" Json.asUInt32?) (← r.required? "cascades" Json.asUInt32?)
  | "depth" => if t.isBare then some .depth else none
  | "color" =>
    let r ← record ["clear", "wireframe"]
    return .color (← r.required? "clear" Json.asBool?) (← r.required? "wireframe" Json.asBool?)
  | "skybox" =>
    let r ← record ["intensity", "cubemap"]
    return .skybox (← r.required? "intensity" Json.asSingle?) (← r.required? "cubemap" Json.asString?)
  | "bloom" =>
    let r ← record ["threshold", "intensity", "iterations"]
    return .bloom (← r.required? "threshold" Json.asSingle?) (← r.required? "intensity" Json.asSingle?)
      (← r.required? "iterations" Json.asUInt32?)
  | "tonemap" =>
    let r ← record ["exposure", "operator"]
    return .tonemap (← r.required? "exposure" Json.asSingle?) (← r.required? "operator" TonemapOperator.ofJson?)
  | "color_grading" =>
    let r ← record ["saturation", "contrast"]
    return .colorGrading (← r.required? "saturation" Json.asSingle?) (← r.required? "contrast" Json.asSingle?)
  | "fxaa" =>
    let r ← record ["subpixel"]
    return .fxaa (← r.required? "subpixel" Json.asSingle?)
  | "post_process" =>
    let r ← record ["shader", "uniforms"]
    return .postProcess (← r.required? "shader" Json.asString?) (← r.required? "uniforms" Params.ofJson?)
  | "present" => if t.isBare then some .present else none
  | _ => none

end PassConfig

namespace InplaceAlias

/-- The JSON value of an output in place. -/
def toJson (a : InplaceAlias) : Json := .object [("output", .string a.output), ("input", .string a.input)]

/-- The output in place of a JSON value. -/
def ofJson? (j : Json) : Option InplaceAlias := do
  let r ← Json.Record.of? ["output", "input"] j
  return ⟨← r.required? "output" Json.asString?, ← r.required? "input" Json.asString?⟩

end InplaceAlias

namespace Pass

/-- The names of the fields in order. -/
def fieldNames : List String :=
  ["class_name", "name", "viewport_name", "config", "inputs", "outputs", "inplace", "attributes"]

def toJson (p : Pass) : Json :=
  .object ([
    ("class_name", .string p.className),
    ("name", .string p.name),
    ("viewport_name", .string p.viewport),
    ("config", p.config.toJson),
    ("inputs", SocketBindings.toJson p.inputs),
    ("outputs", SocketBindings.toJson p.outputs),
    ("inplace", .array (p.inplace.map InplaceAlias.toJson))] ++
    if p.attributes.isEmpty then [] else [("attributes", Params.toJson p.attributes)])

def ofJson? (j : Json) : Option Pass := do
  let r ← Json.Record.of? fieldNames j
  return {
    className := ← r.required? "class_name" Json.asString?
    name := ← r.required? "name" Json.asString?
    viewport := ← r.required? "viewport_name" Json.asString?
    config := ← r.required? "config" PassConfig.ofJson?
    inputs := ← r.required? "inputs" SocketBindings.ofJson?
    outputs := ← r.required? "outputs" SocketBindings.ofJson?
    inplace := ← r.required? "inplace" (Json.list? InplaceAlias.ofJson?)
    attributes := ← r.orElse? "attributes" .empty Params.ofJson? }

end Pass

namespace SizePolicy

def toJson : SizePolicy → Json
  | viewport scale => .object [("mode", .string "viewport"), ("scale", .ofBinary scale)]
  | fixed width height =>
    .object [("mode", .string "fixed"), ("width", .ofNat width.toNat), ("height", .ofNat height.toNat)]

def ofJson? (j : Json) : Option SizePolicy := do
  let t ← Json.Tagged.of? "mode" j
  match t.tag with
  | "viewport" =>
    let r ← Json.Record.of? ["scale"] t.content
    return .viewport (← r.required? "scale" Json.asSingle?)
  | "fixed" =>
    let r ← Json.Record.of? ["width", "height"] t.content
    return .fixed (← r.required? "width" Json.asUInt32?) (← r.required? "height" Json.asUInt32?)
  | _ => none

end SizePolicy

namespace Color

def toJson (c : Color) : Json :=
  .array [.ofBinary c.red, .ofBinary c.green, .ofBinary c.blue, .ofBinary c.alpha]

def ofJson? (j : Json) : Option Color := do
  let [r, g, b, a] ← Json.list? Json.asSingle? j | none
  return ⟨r, g, b, a⟩

end Color

namespace TargetSpec

/-- The names of the fields in order. -/
def fieldNames : List String :=
  ["name", "format", "samples", "size", "clear_color", "clear_depth", "viewport_name"]

def toJson (s : TargetSpec) : Json :=
  .object [
    ("name", .string s.name),
    ("format", .string s.format.name),
    ("samples", .ofNat s.samples.toNat),
    ("size", s.size.toJson),
    ("clear_color", .ofOption Color.toJson s.clearColor),
    ("clear_depth", .ofOption .ofBinary s.clearDepth),
    ("viewport_name", .ofOption .string s.viewport)]

def ofJson? (j : Json) : Option TargetSpec := do
  let r ← Json.Record.of? fieldNames j
  return {
    name := ← r.required? "name" Json.asString?
    format := ← r.required? "format" TextureFormat.ofJson?
    samples := ← r.required? "samples" Json.asUInt32?
    size := ← r.required? "size" SizePolicy.ofJson?
    clearColor := ← r.optional? "clear_color" Color.ofJson?
    clearDepth := ← r.optional? "clear_depth" Json.asSingle?
    viewport := ← r.optional? "viewport_name" Json.asString? }

end TargetSpec

namespace Pipeline

def toJson (p : Pipeline) : Json :=
  .object [
    ("name", .string p.name),
    ("passes", .array (p.passes.map Pass.toJson)),
    ("resource_specs", .array (p.specs.map TargetSpec.toJson))]

def ofJson? (j : Json) : Option Pipeline := do
  let r ← Json.Record.of? ["name", "passes", "resource_specs"] j
  return {
    name := ← r.required? "name" Json.asString?
    passes := ← r.required? "passes" (Json.list? Pass.ofJson?)
    specs := ← r.required? "resource_specs" (Json.list? TargetSpec.ofJson?) }

def toText (p : Pipeline) : String := p.toJson.pretty

def ofText? (text : String) : Option Pipeline := (Json.read? text).bind ofJson?

end Pipeline

end RenderGraph
