import RenderGraph.Pipeline.Json
import RenderGraph.Proofs.Decoding
/-!
# Pipelines as text

Each part of a pipeline is decoded from its value as itself, whatever strings
and tables are in it, as long as its numbers are. A text can hold the value if
parameters are not nested too deep, and then the pipeline is read from its text
as itself, entries in their order (`Pipeline.Holdable.ofText?_toText`).
-/

namespace RenderGraph

open Json (RereadsSingle RereadsDouble)

namespace Json

/-! ## Values that a text can hold -/

/-- A value that a text can hold, with at most `n` arrays and objects inside one another. -/
structure Fits (n : Nat) (j : Json) : Prop where
  proper : j.Proper
  valued : Json.valued j.numerals = true
  depth_le : j.depth ≤ n

variable {m n : Nat}

theorem Fits.mono {j : Json} (h : Fits m j) (hmn : m ≤ n) : Fits n j := ⟨h.proper, h.valued, Nat.le_trans h.depth_le hmn⟩

theorem fits_null : Fits n null := ⟨nofun, rfl, Nat.zero_le n⟩

theorem fits_bool (b : Bool) : Fits n (bool b) := ⟨nofun, rfl, Nat.zero_le n⟩

theorem fits_string (s : String) : Fits n (string s) := ⟨nofun, rfl, Nat.zero_le n⟩

theorem fits_ofNat (k : UInt32) : Fits n (ofNat k.toNat) := by
  have hk : k.toNat < UInt64.size := Nat.lt_trans k.toNat_lt (by decide)
  exact ⟨(proper_number_iff _).2 (Numeral.proper_ofNat _), by simp [ofNat, numerals, Json.valued, Numeral.value?_ofNat hk],
    Nat.zero_le n⟩

theorem fits_ofBinary {x : Single} (h : RereadsSingle x) : Fits n (ofBinary x) :=
  ⟨proper_ofBinary x, valued_of_rereadsSingle h, Nat.le_trans (Nat.le_of_eq (depth_ofBinary x)) (Nat.zero_le n)⟩

theorem fits_ofOption {α : Type} {write : α → Json} {o : Option α} (h : ∀ a ∈ o, Fits n (write a)) : Fits n (ofOption write o) := by
  cases o with
  | none => exact fits_null
  | some a => exact h a rfl

theorem fits_array {items : List Json} (h : ∀ j ∈ items, Fits n j) : Fits (n + 1) (array items) := by
  refine ⟨(proper_array_iff items).2 fun j hj => (h j hj).proper, ?_, depth_array_le_iff.2 fun j hj => (h j hj).depth_le⟩
  rw [valued_array, List.all_eq_true]
  exact fun j hj => (h j hj).valued

theorem fits_object {fields : List (String × Json)} (h : ∀ f ∈ fields, Fits n f.2) : Fits (n + 1) (object fields) := by
  refine ⟨(proper_object_iff fields).2 fun f hf => (h f hf).proper, ?_, depth_object_le_iff.2 fun f hf => (h f hf).depth_le⟩
  rw [valued_object, List.all_eq_true]
  exact fun f hf => (h f hf).valued

theorem Fits.read?_pretty {j : Json} (h : Fits depthLimit j) : read? j.pretty = some j := by
  rw [pretty, read?_write ⟨true⟩ h.proper, if_pos ⟨h.valued, h.depth_le⟩]

/-! ## Decoding parts -/

theorem asUInt32?_ofNat (k : UInt32) : asUInt32? (ofNat k.toNat) = some k := by
  have hvalue : (ofNat k.toNat).asNumber? = some (.integer k.toNat) :=
    Numeral.value?_ofNat (Nat.lt_trans k.toNat_lt (by decide))
  have hbelow : (ofNat k.toNat).asNatBelow? UInt32.size = some k.toNat := by
    have hk : (k.toNat : Int) < UInt32.size := Int.ofNat_lt.2 k.toNat_lt
    simp only [asNatBelow?, hvalue, Int.natCast_nonneg, hk, and_self, if_true, Int.toNat_natCast]
  rw [asUInt32?, hbelow, Option.map_some, UInt32.ofNat_toNat]

/-- The fields of a map are decoded as the entries they were written for. -/
theorem entries?_object {α : Type} {encode : α → Json} {decode : Json → Option α} {entries : List (String × α)}
    (h : ∀ e ∈ entries, decode (encode e.2) = some e.2) :
    entries? some decode (.object (entries.map fun e => (e.1, encode e.2))) = some entries := by
  refine mapM_map_eq_some_iff.2 fun e he => ?_
  rw [h e he]
  rfl

/-- The tag of a value is the one that was written before its other fields. -/
theorem Tagged.of?_object {name tag : String} {fields : List (String × Json)} (h : ∀ f ∈ fields, f.1 ≠ name) :
    Tagged.of? name (.object ((name, .string tag) :: fields)) = some ⟨tag, .object fields⟩ := by
  have htag : (((name, Json.string tag) :: fields).filter fun f => f.1 = name) = [(name, .string tag)] := by
    rw [List.filter_cons_of_pos (by simp), List.filter_eq_nil_iff.2 fun f hf => by simpa using h f hf]
  have hrest : (((name, Json.string tag) :: fields).filter fun f => f.1 ≠ name) = fields := by
    rw [List.filter_cons_of_neg (by simp), List.filter_eq_self.2 fun f hf => by simpa using h f hf]
  simp only [Tagged.of?, htag, hrest]

theorem Record.nullable?_ofOption {α : Type} {encode : α → Json} {decode : Json → Option α} {o : Option α}
    (hnull : decode .null = none) (h : ∀ a ∈ o, decode (encode a) = some a) : nullable? decode (ofOption encode o) = some o := by
  cases o with
  | none => rfl
  | some a => exact (nullable?_eq_some_some_iff hnull).2 (h a rfl)

end Json

/-! ## Parameters -/

namespace Param

mutual

/-- The number of lists inside one another. -/
def nesting : Param → Nat
  | list items => itemNesting items + 1
  | _ => 0

def itemNesting : List Param → Nat
  | [] => 0
  | p :: rest => max (nesting p) (itemNesting rest)

end

theorem nesting_le_itemNesting {items : List Param} {p : Param} (h : p ∈ items) : p.nesting ≤ itemNesting items := by
  induction items with
  | nil => cases h
  | cons q rest ih =>
    rw [itemNesting]
    rcases List.mem_cons.1 h with rfl | h
    · exact Nat.le_max_left ..
    · exact Nat.le_trans (ih h) (Nat.le_max_right ..)

/-- The value of a parameter is nested no deeper than the parameter. -/
theorem depth_toJson_le_nesting (p : Param) : p.toJson.depth ≤ p.nesting := by
  induction p using Param.induction with
  | bool | int | text => exact Nat.le_refl 0
  | float x => exact Nat.le_of_eq (Json.depth_ofBinary x)
  | list items ih =>
    rw [toJson, toJsonList_eq, nesting]
    refine Json.depth_array_le_iff.2 fun j hj => ?_
    obtain ⟨p, hp, rfl⟩ := List.mem_map.1 hj
    exact Nat.le_trans (ih p hp) (nesting_le_itemNesting hp)

/-- A parameter whose numbers are read as themselves and whose lists are nested at most `n` deep. -/
structure Holdable (n : Nat) (p : Param) : Prop where
  rereads : ∀ x ∈ p.floats, RereadsDouble x
  nesting_le : p.nesting ≤ n

variable {n : Nat} {p : Param}

theorem Holdable.ofJson?_toJson (h : p.Holdable n) : ofJson? p.toJson = some p := (ofJson?_toJson_iff p).2 h.rereads

theorem Holdable.fits (h : p.Holdable n) : p.toJson.Fits n :=
  ⟨p.proper_toJson, valued_toJson h.rereads, Nat.le_trans p.depth_toJson_le_nesting h.nesting_le⟩

end Param

variable {n : Nat}

theorem Params.ofJson?_toJson {ps : Params} (h : ∀ p ∈ ps.values, p.Holdable n) : ofJson? (toJson ps) = some ps :=
  ps.ofJson?_toJson_iff.2 fun p hp => (h p hp).ofJson?_toJson

theorem Params.fits_toJson {ps : Params} (h : ∀ p ∈ ps.values, p.Holdable n) : (toJson ps).Fits (n + 1) := by
  refine Json.fits_object fun f hf => ?_
  obtain ⟨e, he, rfl⟩ := List.mem_map.1 hf
  exact (h e.2 (List.mem_map_of_mem he)).fits

/-! ## Passes -/

namespace SocketBindings

theorem ofJson?_toJson (b : SocketBindings) : ofJson? b.toJson = some b := by
  rw [ofJson?, toJson, Json.entries?_object fun _ _ => rfl, Option.map_some, Table.ofList_entries]

theorem fits_toJson (b : SocketBindings) : b.toJson.Fits (n + 1) := by
  refine Json.fits_object fun f hf => ?_
  obtain ⟨e, -, rfl⟩ := List.mem_map.1 hf
  exact Json.fits_string e.2

end SocketBindings

namespace PassConfig

/-- The 32-bit numbers of a configuration. -/
def singles : PassConfig → List Single
  | skybox intensity _ => [intensity]
  | bloom threshold intensity _ => [threshold, intensity]
  | tonemap exposure _ => [exposure]
  | colorGrading saturation contrast => [saturation, contrast]
  | fxaa subpixel => [subpixel]
  | _ => []

/-- The further values for a shader. -/
def params : PassConfig → List Param
  | postProcess _ uniforms => uniforms.values
  | _ => []

theorem ofJson?_toJson {c : PassConfig} (hsingles : ∀ x ∈ c.singles, RereadsSingle x)
    (hparams : ∀ p ∈ c.params, p.Holdable n) : ofJson? c.toJson = some c := by
  have htag : Json.Tagged.of? "type" c.toJson = some ⟨c.tag, .object c.fieldsToJson⟩ :=
    Json.Tagged.of?_object (by cases c <;> simp [fieldsToJson])
  have hread : ∀ x ∈ c.singles, (Json.ofBinary x).asSingle? = some x := hsingles
  unfold ofJson?
  rw [htag]
  cases c with
  | depth | color | present => rfl
  | shadow resolution cascades =>
    change ((Json.ofNat resolution.toNat).asUInt32?.bind fun r => (Json.ofNat cascades.toNat).asUInt32?.bind fun c =>
      some (shadow r c)) = _
    rw [Json.asUInt32?_ofNat, Json.asUInt32?_ofNat]
    rfl
  | skybox intensity cubemap =>
    change ((Json.ofBinary intensity).asSingle?.bind fun i => some (skybox i cubemap)) = _
    rw [hread intensity (by simp [singles])]
    rfl
  | bloom threshold intensity iterations =>
    change ((Json.ofBinary threshold).asSingle?.bind fun t => (Json.ofBinary intensity).asSingle?.bind fun i =>
      (Json.ofNat iterations.toNat).asUInt32?.bind fun n => some (bloom t i n)) = _
    rw [hread threshold (by simp [singles]), hread intensity (by simp [singles]), Json.asUInt32?_ofNat]
    rfl
  | tonemap exposure operator =>
    have hoperator : TonemapOperator.ofJson? (.string operator.name) = some operator := operator.ofName?_name
    change ((Json.ofBinary exposure).asSingle?.bind fun e => (TonemapOperator.ofJson? (.string operator.name)).bind fun o =>
      some (tonemap e o)) = _
    rw [hread exposure (by simp [singles]), hoperator]
    rfl
  | colorGrading saturation contrast =>
    change ((Json.ofBinary saturation).asSingle?.bind fun s => (Json.ofBinary contrast).asSingle?.bind fun c =>
      some (colorGrading s c)) = _
    rw [hread saturation (by simp [singles]), hread contrast (by simp [singles])]
    rfl
  | fxaa subpixel =>
    change ((Json.ofBinary subpixel).asSingle?.bind fun s => some (fxaa s)) = _
    rw [hread subpixel (by simp [singles])]
    rfl
  | postProcess shader uniforms =>
    change ((Params.ofJson? (Params.toJson uniforms)).bind fun u => some (postProcess shader u)) = _
    rw [Params.ofJson?_toJson hparams]
    rfl

theorem fits_toJson {c : PassConfig} (hsingles : ∀ x ∈ c.singles, RereadsSingle x)
    (hparams : ∀ p ∈ c.params, p.Holdable n) : c.toJson.Fits (n + 2) := by
  have hnumbers : ∀ x ∈ c.singles, (Json.ofBinary x).Fits (n + 1) := fun x hx => Json.fits_ofBinary (hsingles x hx)
  refine Json.fits_object (List.forall_mem_cons.2 ⟨Json.fits_string c.tag, ?_⟩)
  cases c with
  | postProcess shader uniforms => simpa [fieldsToJson, Json.fits_string] using Params.fits_toJson hparams
  | skybox | bloom | tonemap | colorGrading | fxaa =>
    simpa [fieldsToJson, singles, Json.fits_ofNat, Json.fits_string] using hnumbers
  | _ => simp [fieldsToJson, Json.fits_ofNat, Json.fits_bool]

end PassConfig

theorem InplaceAlias.ofJson?_toJson (a : InplaceAlias) : ofJson? a.toJson = some a := rfl

theorem InplaceAlias.fits_toJson (a : InplaceAlias) : a.toJson.Fits (n + 1) := by
  refine Json.fits_object ?_
  simp only [List.forall_mem_cons, Json.fits_string, List.not_mem_nil, false_imp_iff, implies_true, and_self]

namespace Pass

/-- The parameters of a pass: those of its configuration and those that its class does not declare. -/
def params (p : Pass) : List Param := p.config.params ++ p.attributes.values

/-- The fields of a pass, those that are left out if empty as well. -/
def fieldsToJson (p : Pass) : List (String × Json) :=
  [("class_name", .string p.className), ("name", .string p.name), ("viewport_name", .string p.viewport),
    ("config", p.config.toJson), ("inputs", SocketBindings.toJson p.inputs), ("outputs", SocketBindings.toJson p.outputs),
    ("inplace", .array (p.inplace.map InplaceAlias.toJson))] ++
  if p.attributes.isEmpty then [] else [("attributes", Params.toJson p.attributes)]

theorem of?_toJson (p : Pass) : Json.Record.of? fieldNames p.toJson = some ⟨false, p.fieldsToJson⟩ := by
  refine Json.Record.of?_object ?_ ?_
  · split <;> simp [fieldNames]
  · split <;> simp

theorem orElse?_attributes {p : Pass} (h : ∀ v ∈ p.attributes.values, v.Holdable n) :
    Json.Record.orElse? ⟨false, p.fieldsToJson⟩ "attributes" .empty Params.ofJson? = some p.attributes := by
  unfold fieldsToJson
  split
  · rename_i hempty
    have hattributes : p.attributes = .empty := Table.ext_entries (List.isEmpty_iff.1 hempty)
    rw [hattributes]
    rfl
  · exact Params.ofJson?_toJson h

theorem ofJson?_toJson {p : Pass} (hsingles : ∀ x ∈ p.config.singles, RereadsSingle x)
    (hparams : ∀ v ∈ p.params, v.Holdable n) : ofJson? p.toJson = some p := by
  have hconfig : PassConfig.ofJson? p.config.toJson = some p.config :=
    PassConfig.ofJson?_toJson hsingles fun v hv => hparams v (List.mem_append_left _ hv)
  have hinplace : Json.list? InplaceAlias.ofJson? (.array (p.inplace.map InplaceAlias.toJson)) = some p.inplace :=
    Json.list?_array_iff.2 fun a _ => a.ofJson?_toJson
  have hattributes := orElse?_attributes fun v hv => hparams v (List.mem_append_right _ hv)
  unfold ofJson?
  rw [of?_toJson]
  change ((PassConfig.ofJson? p.config.toJson).bind fun config => (SocketBindings.ofJson? p.inputs.toJson).bind fun inputs =>
    (SocketBindings.ofJson? p.outputs.toJson).bind fun outputs =>
      (Json.list? InplaceAlias.ofJson? (.array (p.inplace.map InplaceAlias.toJson))).bind fun inplace =>
        (Json.Record.orElse? ⟨false, p.fieldsToJson⟩ "attributes" .empty Params.ofJson?).bind fun attributes =>
          some (⟨p.className, p.name, p.viewport, config, inputs, outputs, inplace, attributes⟩ : Pass)) = _
  rw [hconfig, p.inputs.ofJson?_toJson, p.outputs.ofJson?_toJson, hinplace, hattributes]
  rfl

theorem fits_toJson {p : Pass} (hsingles : ∀ x ∈ p.config.singles, RereadsSingle x)
    (hparams : ∀ v ∈ p.params, v.Holdable n) : p.toJson.Fits (n + 3) := by
  have hconfig : p.config.toJson.Fits (n + 2) :=
    PassConfig.fits_toJson hsingles fun v hv => hparams v (List.mem_append_left _ hv)
  have hinplace : (Json.array (p.inplace.map InplaceAlias.toJson)).Fits (n + 2) :=
    Json.fits_array (List.forall_mem_map.2 fun a _ => a.fits_toJson)
  have hattributes : (Params.toJson p.attributes).Fits (n + 2) :=
    (Params.fits_toJson fun v hv => hparams v (List.mem_append_right _ hv)).mono (Nat.le_succ _)
  refine Json.fits_object (List.forall_mem_append.2 ⟨?_, ?_⟩)
  · simp only [List.forall_mem_cons, Json.fits_string, hconfig, SocketBindings.fits_toJson, hinplace, List.not_mem_nil,
      false_imp_iff, implies_true, and_self]
  · split
    · exact nofun
    · exact List.forall_mem_singleton.2 hattributes

end Pass

/-! ## Render targets -/

namespace SizePolicy

/-- The 32-bit numbers of a size. -/
def singles : SizePolicy → List Single
  | viewport scale => [scale]
  | fixed .. => []

theorem ofJson?_toJson {s : SizePolicy} (h : ∀ x ∈ s.singles, RereadsSingle x) : ofJson? s.toJson = some s := by
  cases s with
  | viewport scale =>
    have hscale : (Json.ofBinary scale).asSingle? = some scale := h scale (by simp [singles])
    change ((Json.ofBinary scale).asSingle?.bind fun s => some (viewport s)) = _
    rw [hscale]
    rfl
  | fixed width height =>
    change ((Json.ofNat width.toNat).asUInt32?.bind fun w => (Json.ofNat height.toNat).asUInt32?.bind fun h =>
      some (fixed w h)) = _
    rw [Json.asUInt32?_ofNat, Json.asUInt32?_ofNat]
    rfl

theorem fits_toJson {s : SizePolicy} (h : ∀ x ∈ s.singles, RereadsSingle x) : s.toJson.Fits (n + 1) := by
  cases s with
  | viewport scale =>
    refine Json.fits_object ?_
    simp [Json.fits_string, Json.fits_ofBinary (h scale (by simp [singles]))]
  | fixed width height =>
    refine Json.fits_object ?_
    simp [Json.fits_string, Json.fits_ofNat]

end SizePolicy

namespace Color

/-- The parts of a color. -/
def singles (c : Color) : List Single := [c.red, c.green, c.blue, c.alpha]

theorem toJson_eq (c : Color) : c.toJson = .array (c.singles.map .ofBinary) := rfl

theorem ofJson?_toJson {c : Color} (h : ∀ x ∈ c.singles, RereadsSingle x) : ofJson? c.toJson = some c := by
  have hsingles : Json.list? Json.asSingle? (.array (c.singles.map .ofBinary)) = some c.singles := Json.list?_array_iff.2 h
  rw [ofJson?, toJson_eq, hsingles]
  rfl

theorem fits_toJson {c : Color} (h : ∀ x ∈ c.singles, RereadsSingle x) : c.toJson.Fits (n + 1) := by
  rw [toJson_eq]
  exact Json.fits_array (List.forall_mem_map.2 fun x hx => Json.fits_ofBinary (h x hx))

end Color

namespace TargetSpec

/-- The 32-bit numbers of a render target. -/
def singles (s : TargetSpec) : List Single := s.size.singles ++ s.clearColor.toList.flatMap Color.singles ++ s.clearDepth.toList

variable {s : TargetSpec}

theorem forall_mem_singles {motive : Single → Prop} (s : TargetSpec) : (∀ x ∈ s.singles, motive x) ↔
    (∀ x ∈ s.size.singles, motive x) ∧ (∀ c ∈ s.clearColor, ∀ x ∈ c.singles, motive x) ∧ ∀ x ∈ s.clearDepth, motive x := by
  simp only [singles, List.forall_mem_append, List.forall_mem_flatMap, Option.mem_toList, Option.mem_def, and_assoc]

theorem ofJson?_toJson (h : ∀ x ∈ s.singles, RereadsSingle x) : ofJson? s.toJson = some s := by
  obtain ⟨hsize, hcolor, hdepth⟩ := s.forall_mem_singles.1 h
  have hrecord : Json.Record.of? fieldNames s.toJson = some ⟨false, [("name", .string s.name),
      ("format", .string s.format.name), ("samples", .ofNat s.samples.toNat), ("size", s.size.toJson),
      ("clear_color", .ofOption Color.toJson s.clearColor), ("clear_depth", .ofOption .ofBinary s.clearDepth),
      ("viewport_name", .ofOption .string s.viewport)]⟩ :=
    Json.Record.of?_object (by simp [fieldNames]) (by simp)
  have hformat : TextureFormat.ofJson? (.string s.format.name) = some s.format := s.format.ofName?_name
  have hclearColor : Json.Record.nullable? Color.ofJson? (.ofOption Color.toJson s.clearColor) = some s.clearColor :=
    Json.Record.nullable?_ofOption rfl fun c hc => Color.ofJson?_toJson (hcolor c hc)
  have hclearDepth : Json.Record.nullable? Json.asSingle? (.ofOption .ofBinary s.clearDepth) = some s.clearDepth :=
    Json.Record.nullable?_ofOption rfl hdepth
  have hviewport : Json.Record.nullable? Json.asString? (.ofOption .string s.viewport) = some s.viewport :=
    Json.Record.nullable?_ofOption rfl fun _ _ => rfl
  unfold ofJson?
  rw [hrecord]
  change ((TextureFormat.ofJson? (.string s.format.name)).bind fun format =>
    (Json.ofNat s.samples.toNat).asUInt32?.bind fun samples => (SizePolicy.ofJson? s.size.toJson).bind fun size =>
      (Json.Record.nullable? Color.ofJson? (.ofOption Color.toJson s.clearColor)).bind fun clearColor =>
        (Json.Record.nullable? Json.asSingle? (.ofOption .ofBinary s.clearDepth)).bind fun clearDepth =>
          (Json.Record.nullable? Json.asString? (.ofOption .string s.viewport)).bind fun viewport =>
            some (⟨s.name, format, samples, size, clearColor, clearDepth, viewport⟩ : TargetSpec)) = _
  rw [hformat, Json.asUInt32?_ofNat, SizePolicy.ofJson?_toJson hsize, hclearColor, hclearDepth, hviewport]
  rfl

theorem fits_toJson (h : ∀ x ∈ s.singles, RereadsSingle x) : s.toJson.Fits (n + 2) := by
  obtain ⟨hsize, hcolor, hdepth⟩ := s.forall_mem_singles.1 h
  have hclearColor : (Json.ofOption Color.toJson s.clearColor).Fits (n + 1) :=
    Json.fits_ofOption fun c hc => Color.fits_toJson (hcolor c hc)
  have hclearDepth : (Json.ofOption Json.ofBinary s.clearDepth).Fits (n + 1) :=
    Json.fits_ofOption fun x hx => Json.fits_ofBinary (hdepth x hx)
  have hviewport : (Json.ofOption Json.string s.viewport).Fits (n + 1) := Json.fits_ofOption fun v _ => Json.fits_string v
  refine Json.fits_object ?_
  simp only [List.forall_mem_cons, Json.fits_string, Json.fits_ofNat, SizePolicy.fits_toJson hsize, hclearColor, hclearDepth,
    hviewport, List.not_mem_nil, false_imp_iff, implies_true, and_self]

end TargetSpec

/-! ## Pipelines -/

namespace Pipeline

/-- The parameters in a pipeline. -/
def params (p : Pipeline) : List Param := p.passes.flatMap Pass.params

/-- The 32-bit numbers of a pipeline. -/
def singles (p : Pipeline) : List Single := p.passes.flatMap (·.config.singles) ++ p.specs.flatMap TargetSpec.singles

/-- The 64-bit numbers of a pipeline, which are in its parameters. -/
def doubles (p : Pipeline) : List Double := p.params.flatMap Param.floats

/-- A pipeline whose numbers are read as themselves and whose lists are nested at most `n` deep. -/
structure Holdable (n : Nat) (p : Pipeline) : Prop where
  passes : ∀ q ∈ p.passes, (∀ x ∈ q.config.singles, RereadsSingle x) ∧ ∀ v ∈ q.params, v.Holdable n
  specs : ∀ s ∈ p.specs, ∀ x ∈ s.singles, RereadsSingle x

variable {p : Pipeline}

theorem Holdable.ofJson?_toJson (h : p.Holdable n) : ofJson? p.toJson = some p := by
  have hpasses : Json.list? Pass.ofJson? (.array (p.passes.map Pass.toJson)) = some p.passes :=
    Json.list?_array_iff.2 fun q hq => Pass.ofJson?_toJson (h.passes q hq).1 (h.passes q hq).2
  have hspecs : Json.list? TargetSpec.ofJson? (.array (p.specs.map TargetSpec.toJson)) = some p.specs :=
    Json.list?_array_iff.2 fun s hs => TargetSpec.ofJson?_toJson (h.specs s hs)
  have hrecord : Json.Record.of? ["name", "passes", "resource_specs"] p.toJson =
      some ⟨false, [("name", .string p.name), ("passes", .array (p.passes.map Pass.toJson)),
        ("resource_specs", .array (p.specs.map TargetSpec.toJson))]⟩ :=
    Json.Record.of?_object (by simp) (by simp)
  unfold ofJson?
  rw [hrecord]
  change ((Json.list? Pass.ofJson? (.array (p.passes.map Pass.toJson))).bind fun passes =>
    (Json.list? TargetSpec.ofJson? (.array (p.specs.map TargetSpec.toJson))).bind fun specs =>
      some (⟨p.name, passes, specs⟩ : Pipeline)) = _
  rw [hpasses, hspecs]
  rfl

theorem Holdable.fits (h : p.Holdable n) : p.toJson.Fits (n + 5) := by
  have hpasses : (Json.array (p.passes.map Pass.toJson)).Fits (n + 4) :=
    Json.fits_array (List.forall_mem_map.2 fun q hq => Pass.fits_toJson (h.passes q hq).1 (h.passes q hq).2)
  have hspecs : (Json.array (p.specs.map TargetSpec.toJson)).Fits (n + 4) :=
    Json.fits_array (List.forall_mem_map.2 fun s hs => TargetSpec.fits_toJson (h.specs s hs))
  refine Json.fits_object ?_
  simp only [List.forall_mem_cons, Json.fits_string, hpasses, hspecs, List.not_mem_nil, false_imp_iff, implies_true, and_self]

/-- Parameters stand in five arrays and objects of the text, which leaves room for those inside them. -/
theorem Holdable.ofText?_toText (h : p.Holdable n) (hn : n + 5 ≤ Json.depthLimit) : ofText? p.toText = some p := by
  rw [ofText?, toText, (h.fits.mono hn).read?_pretty, Option.bind_some]
  exact h.ofJson?_toJson

theorem holdable (hsingles : ∀ x ∈ p.singles, RereadsSingle x) (hdoubles : ∀ x ∈ p.doubles, RereadsDouble x)
    (hnesting : ∀ v ∈ p.params, v.nesting ≤ n) : p.Holdable n := by
  simp only [singles, List.forall_mem_append, List.forall_mem_flatMap] at hsingles
  refine ⟨fun q hq => ⟨hsingles.1 q hq, fun v hv => ?_⟩, hsingles.2⟩
  have hmem : v ∈ p.params := List.mem_flatMap.2 ⟨q, hq, hv⟩
  exact ⟨fun x hx => hdoubles x (List.mem_flatMap.2 ⟨v, hmem, hx⟩), hnesting v hmem⟩

/-- A pipeline is read from its text as itself if it has only finite numbers, each of which is read from its numeral as itself,
and no parameter with more than a hundred lists inside one another. -/
theorem ofText?_toText_of_finite {p : Pipeline} (hsingles : ∀ x ∈ p.singles, x.isFinite = true)
    (hdoubles : ∀ x ∈ p.doubles, x.isFinite = true) (hnesting : ∀ v ∈ p.params, v.nesting ≤ 100)
    (hreadsSingle : ∀ x ∈ p.singles, x.isFinite = true → RereadsSingle x)
    (hreadsDouble : ∀ x ∈ p.doubles, x.isFinite = true → RereadsDouble x) : ofText? p.toText = some p := by
  have hp : p.Holdable 100 :=
    holdable (fun x hx => hreadsSingle x hx (hsingles x hx)) (fun x hx => hreadsDouble x hx (hdoubles x hx)) hnesting
  exact hp.ofText?_toText (by decide)

end Pipeline

/-- A shader with a table of weights, in which a whole number stands beside an integer, and a curve applied in place. -/
def vignette : Pipeline where
  name := "dusk \"2\"\n"
  passes := [
    { className := "Vignette", name := "edges", viewport := "", config := .postProcess "edges.wgsl" (.ofList [
        ("weights", .list [.int 1, .whole 1, .list [.ratio 1 10, .bool true]]), ("title", .text "\\é")])
      inputs := .ofList [("Color", "scene"), ("Mask", "mask")], outputs := .ofList [("Out", "lit")], inplace := []
      attributes := .empty },
    { className := "Tonemap", name := "curve", viewport := "Main", config := .tonemap (Binary.ofQuotient true 1 3) .filmic
      inputs := .ofList [("In", "lit")], outputs := .ofList [("Out", "lit")], inplace := [⟨"lit", "lit"⟩]
      attributes := .ofList [("levels", .list [])] }]
  specs := [⟨"lit", .rgba16Float, 4, .viewport (Binary.ofQuotient false 1 2),
    some ⟨Binary.ofNat 0, Binary.ofQuotient false 1 10, Binary.ofNat 0, Binary.ofNat 1⟩, none, some "Main"⟩,
    ⟨"mask", .depth32Float, 1, .fixed 1024 1, none, some (Binary.ofNat 1), none⟩]

theorem ofText?_toText_vignette :
    vignette.singles.length = 7 ∧ vignette.doubles.length = 2 ∧ vignette.params.map Param.nesting = [2, 0, 1] ∧
    Pipeline.ofText? vignette.toText = some vignette := by
  have hsingles : ∀ x ∈ vignette.singles, x.isFinite = true ∧ RereadsSingle x := by decide +kernel
  have hdoubles : ∀ x ∈ vignette.doubles, x.isFinite = true ∧ RereadsDouble x := by decide +kernel
  refine ⟨by decide +kernel, by decide +kernel, by decide +kernel, ?_⟩
  exact Pipeline.ofText?_toText_of_finite (fun x hx => (hsingles x hx).1) (fun x hx => (hdoubles x hx).1) (by decide +kernel)
    (fun x hx _ => (hsingles x hx).2) (fun x hx _ => (hdoubles x hx).2)

end RenderGraph
