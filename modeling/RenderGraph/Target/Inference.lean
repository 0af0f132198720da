import RenderGraph.Node
import RenderGraph.Number.Positional
import RenderGraph.Settings
/-!
# Specs of render targets

The spec of a target is read off the parameters of the node that declares it. A target without
such a node gets one if a pass class that uses it needs high range or gains from several samples,
and is otherwise left to the defaults of the system.
-/

namespace RenderGraph

/-- Why the parameters of a resource node are refused. -/
inductive SpecError where
  | unknownFormat (text : String)
  | invalidSamples (count : Int64)
  | unknownSizeMode (text : String)
  | invalidScale (scale : Double)
  /-- The size is not positive or too large. -/
  | invalidSize (width height : Int64)
  /-- The depth is not between zero and one. -/
  | invalidClearDepth (depth : Double)
  | mismatch (m : TypeMismatch)
deriving DecidableEq

def SpecError.message : SpecError → String
  | unknownFormat text => "Unknown texture format: " ++ text
  | invalidSamples count => "Invalid sample count: " ++ toString count.toInt
  | unknownSizeMode text => "Unknown size mode: " ++ text
  | invalidScale scale => "Invalid viewport scale: " ++ scale.positional
  | invalidSize width height => "Invalid fixed size: " ++ toString width.toInt ++ "x" ++ toString height.toInt
  | invalidClearDepth depth => "Invalid clear depth: " ++ depth.positional
  | mismatch m => "Parameter " ++ m.message

namespace TargetSpec

/-- Reads a parameter by `read`, or takes `missing` if there is none. -/
def param {α : Type} (params : Params) (name expected : String) (missing : α) (read : Param → Option α) :
    Except SpecError α :=
  match params.get? name with
  | none => .ok missing
  | some value =>
    match read value with
    | some a => .ok a
    | none => .error (.mismatch (.of name expected value))

def formatOf (params : Params) : Except SpecError TextureFormat := do
  let text ← param params "format" "string" TextureFormat.rgba8.name Param.text?
  match TextureFormat.parse? text with
  | some f => return f
  | none => throw (.unknownFormat text)

/-- The number of samples that parameters ask for. -/
def samplesOf (params : Params) : Except SpecError UInt32 := do
  let count ← param params "samples" "integer" 1 Param.integer?
  match Settings.sampleCounts.find? fun n => (n.toNat : Int) = count.toInt with
  | some n => return n
  | none => throw (.invalidSamples count)

def sideOf (params : Params) (name : String) : Except SpecError Int64 :=
  match params.get? name with
  | none => .error (.invalidSize 0 0)
  | some value =>
    match value.integer? with
    | some n => .ok n
    | none => .error (.mismatch (.of name "integer" value))

/-- Whether an integer can be the side of a fixed size. -/
def isSide (n : Int64) : Bool := 0 < n.toInt && n.toInt < UInt32.size

def sizeOf (params : Params) : Except SpecError SizePolicy := do
  let mode ← param params "size_mode" "string" "viewport" Param.text?
  if mode = "viewport" ∨ mode = "relative" then
    let scale ← param params "scale" "number" (Binary.ofNat 1) Param.number?
    if scale.isPositive then return .viewport scale.toSingle else throw (.invalidScale scale)
  else if mode = "fixed" then
    let width ← sideOf params "width"
    let height ← sideOf params "height"
    if isSide width && isSide height then
      return .fixed (UInt32.ofNat width.toInt.toNat) (UInt32.ofNat height.toInt.toNat)
    else throw (.invalidSize width height)
  else throw (.unknownSizeMode mode)

def black : Color := ⟨Binary.ofNat 0, Binary.ofNat 0, Binary.ofNat 0, Binary.ofNat 1⟩

/-- The color that parameters ask to clear to. -/
def clearColorOf (params : Params) : Except SpecError (Option Color) := do
  if ← param params "clear_color" "bool" true Param.bool? then
    return some (← param params "clear_color_value" "RGBA list" black Param.color?)
  else return none

/-- The depth that parameters ask to clear to. -/
def clearDepthOf (params : Params) : Except SpecError (Option Single) := do
  if ← param params "clear_depth" "bool" false Param.bool? then
    let depth ← param params "clear_depth_value" "number" (Binary.ofNat 1) Param.number?
    if Binary.le (Binary.ofNat 0) depth && Binary.le depth (Binary.ofNat 1) then return some depth.toSingle
    else throw (.invalidClearDepth depth)
  else return none

/-- The spec that the parameters of a resource node ask for; the first that is refused decides. -/
def declared (name : String) (params : Params) : Except SpecError TargetSpec := do
  let format ← formatOf params
  let samples ← samplesOf params
  let size ← sizeOf params
  let clearColor ← clearColorOf params
  let clearDepth ← clearDepthOf params
  return ⟨name, format, samples, size, clearColor, clearDepth, none⟩

/-- The spec of a target that no node declares, from the classes of the passes that use it. -/
def guessed (settings : Settings) (name : String) (users : List String) : Option TargetSpec :=
  let hdr := users.any settings.wantsHdr
  let msaa := users.any settings.wantsMsaa
  if hdr || msaa then
    some
      { name := name
        format := if hdr then settings.hdrFormat else settings.defaultFormat
        samples := if msaa then settings.msaaSamples else 1
        size := .full
        clearColor := none
        clearDepth := none
        viewport := none }
  else none

/-- The spec of a target: declared by a node if there is one, else guessed; none leaves it to the
defaults of the system. An empty viewport name counts as none. -/
def infer (settings : Settings) (name : String) (declaredBy : Option Node) (users : List String)
    (viewport : Option String) : Except SpecError (Option TargetSpec) := do
  let spec ←
    match declaredBy with
    | some n => (declared name n.params).map some
    | none => pure (guessed settings name users)
  return spec.map fun s => { s with viewport := viewport.filter (· ≠ "") }

end TargetSpec

end RenderGraph
