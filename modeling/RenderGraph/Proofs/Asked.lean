import RenderGraph.Target.Inference
/-!
# What the parameters of a render target ask for

`Asks` says part by part what spec the parameters of a resource node ask for, and
`Refuses` what can be wrong with them. The spec that is read off parameters is the
one that they ask for (`declared_eq_ok_iff`). Where they ask for none, the cause
that is given is something that is wrong with them (`refuses_of_declared`).
-/

namespace RenderGraph

/-! ## What checks that follow one another come to -/

namespace Except

variable {ε α β : Type} {x : Except ε α} {e e' : ε}

theorem bind_eq_ok_iff {f : α → Except ε β} {b : β} : (x >>= f) = .ok b ↔ ∃ a, x = .ok a ∧ f a = .ok b := by
  cases x <;> simp [bind, Except.bind]

theorem bind_eq_error_iff {f : α → Except ε β} : (x >>= f) = .error e ↔ x = .error e ∨ ∃ a, x = .ok a ∧ f a = .error e := by
  cases x <;> simp [bind, Except.bind]

theorem pure_eq_ok_iff {a b : α} : (pure a : Except ε α) = .ok b ↔ a = b := by simp [pure, Except.pure]

theorem pure_ne_error {a : α} : (pure a : Except ε α) ≠ .error e := by simp [pure, Except.pure]

section Guard
variable {p : Prop} [Decidable p]

theorem ite_throw_eq_ok_iff {b : α} : (if p then x else throw e) = .ok b ↔ p ∧ x = .ok b := by
  by_cases h : p <;> simp [h, throw, throwThe, MonadExceptOf.throw]

theorem ite_throw_eq_error_iff : (if p then x else throw e) = .error e' ↔ p ∧ x = .error e' ∨ ¬ p ∧ e = e' := by
  by_cases h : p <;> simp [h, throw, throwThe, MonadExceptOf.throw]

end Guard

end Except

namespace TargetSpec

/-! ## Parts of a spec -/

section Parts
variable (params : Params)

/-- What parameters say under a name, as `read` takes it. They say `missing` if nothing stands there. -/
def Says {α : Type} (name : String) (read : Param → Option α) (missing said : α) : Prop :=
  match params.get? name with
  | none => said = missing
  | some value => read value = some said

/-- The format by any of its names, 8 bits a channel unless parameters say otherwise. -/
def AsksFormat (format : TextureFormat) : Prop :=
  ∃ text, Says params "format" Param.text? "rgba8" text ∧ TextureFormat.parse? text = some format

/-- A power of two up to 16, one sample unless parameters say otherwise. -/
def AsksSamples (samples : UInt32) : Prop :=
  samples ∈ [1, 2, 4, 8, 16] ∧ ∃ count, Says params "samples" Param.integer? 1 count ∧ count.toInt = samples.toNat

/-- A size that follows the viewport, as it does unless parameters say otherwise. -/
def AsksViewport : Prop := ∃ mode ∈ ["viewport", "relative"], Says params "size_mode" Param.text? "viewport" mode

/-- A size of its own. -/
def AsksFixed : Prop := Says params "size_mode" Param.text? "viewport" "fixed"

/-- The integer that stands under a name. -/
def Gives (name : String) (n : Int64) : Prop := ∃ value, params.get? name = some value ∧ value.integer? = some n

/-- A side of a fixed size has no default. -/
def AsksSide (name : String) (side : UInt32) : Prop := 0 < side ∧ ∃ n, Gives params name n ∧ n.toInt = side.toNat

/-- A positive part of the viewport, all of it unless parameters say otherwise, or two sides. -/
def AsksSize : SizePolicy → Prop
  | .viewport scale => AsksViewport params ∧
    ∃ asked, Says params "scale" Param.number? (Binary.ofNat 1) asked ∧ asked.isPositive = true ∧ scale = asked.toSingle
  | .fixed width height => AsksFixed params ∧ AsksSide params "width" width ∧ AsksSide params "height" height

/-- A color to clear to unless parameters say that there is none, opaque black if they do not say which. -/
def AsksColor : Option Color → Prop
  | none => Says params "clear_color" Param.bool? true false
  | some color => Says params "clear_color" Param.bool? true true ∧
    Says params "clear_color_value" Param.color? ⟨Binary.ofNat 0, Binary.ofNat 0, Binary.ofNat 0, Binary.ofNat 1⟩ color

/-- Whether a depth is between zero and one. -/
def IsDepth (depth : Double) : Prop := Binary.le (Binary.ofNat 0) depth = true ∧ Binary.le depth (Binary.ofNat 1) = true

/-- No depth to clear to unless parameters say that there is one, the far end if they do not say which. -/
def AsksDepth : Option Single → Prop
  | none => Says params "clear_depth" Param.bool? false false
  | some depth => Says params "clear_depth" Param.bool? false true ∧
    ∃ asked, Says params "clear_depth_value" Param.number? (Binary.ofNat 1) asked ∧ IsDepth asked ∧ depth = asked.toSingle

/-- The parts of a spec that parameters decide are what they ask for. -/
structure Asks (spec : TargetSpec) : Prop where
  format : AsksFormat params spec.format
  samples : AsksSamples params spec.samples
  size : AsksSize params spec.size
  clearColor : AsksColor params spec.clearColor
  clearDepth : AsksDepth params spec.clearDepth

/-- The names of the parameters that are read, with the types that they are to have. -/
def types : List (String × String × (Param → Bool)) :=
  [("format", "string", (·.text?.isSome)), ("samples", "integer", (·.integer?.isSome)),
    ("size_mode", "string", (·.text?.isSome)), ("scale", "number", (·.number?.isSome)),
    ("width", "integer", (·.integer?.isSome)), ("height", "integer", (·.integer?.isSome)),
    ("clear_color", "bool", (·.bool?.isSome)), ("clear_color_value", "RGBA list", (·.color?.isSome)),
    ("clear_depth", "bool", (·.bool?.isSome)), ("clear_depth_value", "number", (·.number?.isSome))]

/-- What is wrong with parameters. -/
inductive Refuses : SpecError → Prop
  | mistyped {name expected : String} {fits : Param → Bool} {value : Param} : (name, expected, fits) ∈ types →
    params.get? name = some value → fits value = false → Refuses (.mismatch ⟨name, expected, value.typeName⟩)
  | format {text : String} : Says params "format" Param.text? "rgba8" text → TextureFormat.parse? text = none →
    Refuses (.unknownFormat text)
  | samples {count : Int64} : Says params "samples" Param.integer? 1 count → count.toInt ∉ [1, 2, 4, 8, 16] →
    Refuses (.invalidSamples count)
  | sizeMode {mode : String} : Says params "size_mode" Param.text? "viewport" mode → mode ∉ ["viewport", "relative", "fixed"] →
    Refuses (.unknownSizeMode mode)
  | scale {asked : Double} : AsksViewport params → Says params "scale" Param.number? (Binary.ofNat 1) asked →
    asked.isPositive = false → Refuses (.invalidScale asked)
  | missingSide {name : String} : AsksFixed params → name ∈ ["width", "height"] → params.get? name = none →
    Refuses (.invalidSize 0 0)
  | side {width height : Int64} : AsksFixed params → Gives params "width" width → Gives params "height" height →
    ¬ (0 < width.toInt ∧ width.toInt < UInt32.size ∧ 0 < height.toInt ∧ height.toInt < UInt32.size) →
    Refuses (.invalidSize width height)
  | clearDepth {asked : Double} : Says params "clear_depth" Param.bool? false true →
    Says params "clear_depth_value" Param.number? (Binary.ofNat 1) asked → ¬ IsDepth asked → Refuses (.invalidClearDepth asked)

end Parts

/-! ## Reading one parameter -/

section Reading
variable {params : Params} {α : Type} {name expected : String} {missing said : α} {read : Param → Option α} {cause : SpecError}

theorem param_eq_ok_iff : param params name expected missing read = .ok said ↔ Says params name read missing said := by
  unfold param Says
  cases params.get? name with
  | none => simp [eq_comm]
  | some value => cases h : read value <;> simp [h]

theorem param_eq_error_iff : param params name expected missing read = .error cause ↔
    ∃ value, params.get? name = some value ∧ read value = none ∧ cause = .mismatch ⟨name, expected, value.typeName⟩ := by
  unfold param
  cases params.get? name with
  | none => simp
  | some value => cases h : read value <;> simp [h, TypeMismatch.of, eq_comm]

theorem refuses_of_param (htype : (name, expected, fun v => (read v).isSome) ∈ types)
    (h : param params name expected missing read = .error cause) : Refuses params cause := by
  obtain ⟨value, hvalue, hread, rfl⟩ := param_eq_error_iff.1 h
  exact .mistyped htype hvalue (by rw [hread]; rfl)

theorem sideOf_eq_ok_iff {n : Int64} : sideOf params name = .ok n ↔ Gives params name n := by
  unfold sideOf Gives
  cases params.get? name with
  | none => simp
  | some value => cases h : value.integer? <;> simp [h]

theorem refuses_of_sideOf {n : String} (hn : n ∈ ["width", "height"]) (hfixed : AsksFixed params)
    (h : sideOf params n = .error cause) : Refuses params cause := by
  unfold sideOf at h
  split at h
  · rename_i hnone
    cases h
    exact .missingSide hfixed hn hnone
  · rename_i value hvalue
    split at h
    · cases h
    · rename_i hinteger
      cases h
      have htype : (n, "integer", fun v : Param => v.integer?.isSome) ∈ types := by
        simp only [List.mem_cons, List.not_mem_nil, or_false] at hn
        rcases hn with rfl | rfl <;> simp [types]
      exact .mistyped htype hvalue (by rw [hinteger]; rfl)

end Reading

/-! ## Reading the parts -/

section Parts
variable {params : Params} {cause : SpecError}

theorem formatOf_eq_ok_iff {format : TextureFormat} : formatOf params = .ok format ↔ AsksFormat params format := by
  simp only [formatOf, Except.bind_eq_ok_iff, param_eq_ok_iff, AsksFormat]
  refine exists_congr fun text => and_congr_right fun _ => ?_
  cases TextureFormat.parse? text <;> simp [pure, Except.pure, throw, throwThe, MonadExceptOf.throw]

theorem refuses_of_formatOf (h : formatOf params = .error cause) : Refuses params cause := by
  rcases Except.bind_eq_error_iff.1 h with h | ⟨text, htext, h⟩
  · exact refuses_of_param (by simp [types]) h
  · split at h
    · cases h
    · rename_i hnone
      cases h
      exact .format (param_eq_ok_iff.1 htext) hnone

/-- The sample counts are told apart by their numbers. -/
theorem find?_sampleCounts_eq_some_iff {count : Int} {n : UInt32} :
    (Settings.sampleCounts.find? fun n => (n.toNat : Int) = count) = some n ↔ n ∈ [1, 2, 4, 8, 16] ∧ count = n.toNat := by
  constructor
  · intro h
    exact ⟨List.mem_of_find?_eq_some h, (of_decide_eq_true (List.find?_some h :)).symm⟩
  · rintro ⟨hmem, rfl⟩
    simp only [List.mem_cons, List.not_mem_nil, or_false] at hmem
    rcases hmem with rfl | rfl | rfl | rfl | rfl <;> decide

theorem samplesOf_eq_ok_iff {samples : UInt32} : samplesOf params = .ok samples ↔ AsksSamples params samples := by
  simp only [samplesOf, Except.bind_eq_ok_iff, param_eq_ok_iff, AsksSamples, ← exists_and_left]
  refine exists_congr fun count => ?_
  rw [and_left_comm, ← find?_sampleCounts_eq_some_iff]
  refine and_congr_right fun _ => ?_
  cases Settings.sampleCounts.find? fun n => (n.toNat : Int) = count.toInt <;>
    simp [pure, Except.pure, throw, throwThe, MonadExceptOf.throw]

theorem refuses_of_samplesOf (h : samplesOf params = .error cause) : Refuses params cause := by
  rcases Except.bind_eq_error_iff.1 h with h | ⟨count, hcount, h⟩
  · exact refuses_of_param (by simp [types]) h
  · split at h
    · cases h
    · rename_i hnone
      cases h
      refine .samples (param_eq_ok_iff.1 hcount) fun hmem => ?_
      obtain ⟨n, hn, heq⟩ : ∃ n ∈ Settings.sampleCounts, (n.toNat : Int) = count.toInt := by
        simpa [Settings.sampleCounts, eq_comm] using hmem
      exact List.find?_eq_none.1 hnone n hn (decide_eq_true heq)

theorem asksSide_iff {name : String} {side : UInt32} : AsksSide params name side ↔
    ∃ n, Gives params name n ∧ isSide n = true ∧ UInt32.ofNat n.toInt.toNat = side := by
  simp only [AsksSide, ← exists_and_left]
  refine exists_congr fun n => ?_
  rw [and_left_comm]
  refine and_congr_right fun _ => ?_
  simp only [isSide, UInt32.size, Bool.and_eq_true, decide_eq_true_eq, UInt32.lt_iff_toNat_lt, UInt32.toNat_zero,
    ← UInt32.toNat_inj, UInt32.toNat_ofNat']
  have := side.toNat_lt
  constructor <;> intro h <;> omega

theorem asksSize_of_sizeOf {size : SizePolicy} (h : sizeOf params = .ok size) : AsksSize params size := by
  obtain ⟨mode, hmode, h⟩ := Except.bind_eq_ok_iff.1 h
  rw [param_eq_ok_iff] at hmode
  split at h
  · rename_i hviewport
    simp only [Except.bind_eq_ok_iff, param_eq_ok_iff, Except.ite_throw_eq_ok_iff, Except.pure_eq_ok_iff] at h
    obtain ⟨asked, hasked, hpositive, rfl⟩ := h
    exact ⟨⟨mode, by simpa using hviewport, hmode⟩, asked, hasked, hpositive, rfl⟩
  · simp only [Except.bind_eq_ok_iff, sideOf_eq_ok_iff, Except.ite_throw_eq_ok_iff, Except.pure_eq_ok_iff, Bool.and_eq_true] at h
    obtain ⟨rfl, width, hwidth, height, hheight, hsides, rfl⟩ := h
    exact ⟨hmode, asksSide_iff.2 ⟨width, hwidth, hsides.1, rfl⟩, asksSide_iff.2 ⟨height, hheight, hsides.2, rfl⟩⟩

theorem sizeOf_of_asksSize {size : SizePolicy} (h : AsksSize params size) : sizeOf params = .ok size := by
  cases size with
  | viewport scale =>
    obtain ⟨⟨mode, hmem, hmode⟩, asked, hasked, hpositive, rfl⟩ := h
    refine Except.bind_eq_ok_iff.2 ⟨mode, param_eq_ok_iff.2 hmode, ?_⟩
    rw [if_pos (by simpa using hmem)]
    exact Except.bind_eq_ok_iff.2 ⟨asked, param_eq_ok_iff.2 hasked, if_pos hpositive⟩
  | fixed width height =>
    obtain ⟨hfixed, hwidth, hheight⟩ := h
    obtain ⟨w, hw, hwside, rfl⟩ := asksSide_iff.1 hwidth
    obtain ⟨h, hh, hhside, rfl⟩ := asksSide_iff.1 hheight
    refine Except.bind_eq_ok_iff.2 ⟨"fixed", param_eq_ok_iff.2 hfixed, ?_⟩
    rw [if_neg (by simp), if_pos rfl]
    exact Except.bind_eq_ok_iff.2 ⟨w, sideOf_eq_ok_iff.2 hw, Except.bind_eq_ok_iff.2 ⟨h, sideOf_eq_ok_iff.2 hh,
      if_pos (Bool.and_eq_true_iff.2 ⟨hwside, hhside⟩)⟩⟩

theorem sizeOf_eq_ok_iff {size : SizePolicy} : sizeOf params = .ok size ↔ AsksSize params size :=
  ⟨asksSize_of_sizeOf, sizeOf_of_asksSize⟩

theorem refuses_of_sizeOf (h : sizeOf params = .error cause) : Refuses params cause := by
  rcases Except.bind_eq_error_iff.1 h with h | ⟨mode, hmode, h⟩
  · exact refuses_of_param (by simp [types]) h
  rw [param_eq_ok_iff] at hmode
  split at h
  · rename_i hviewport
    have hasks : AsksViewport params := ⟨mode, by simpa using hviewport, hmode⟩
    simp only [Except.bind_eq_error_iff, param_eq_ok_iff, Except.ite_throw_eq_error_iff, Except.pure_ne_error, and_false,
      false_or] at h
    rcases h with h | ⟨asked, hasked, hpositive, rfl⟩
    · exact refuses_of_param (by simp [types]) h
    · exact .scale hasks hasked (Bool.eq_false_iff.2 hpositive)
  · rename_i hviewport
    simp only [Except.bind_eq_error_iff, sideOf_eq_ok_iff, Except.ite_throw_eq_error_iff, Except.pure_ne_error, and_false,
      false_or] at h
    rcases h with ⟨rfl, h | ⟨width, hwidth, h | ⟨height, hheight, hsides, rfl⟩⟩⟩ | ⟨hfixed, rfl⟩
    · exact refuses_of_sideOf (by simp) hmode h
    · exact refuses_of_sideOf (by simp) hmode h
    · refine .side hmode hwidth hheight fun hrange => hsides ?_
      simpa [isSide, UInt32.size, and_assoc] using hrange
    · exact .sizeMode hmode (by simpa [and_assoc, hfixed] using hviewport)

theorem clearColorOf_eq_ok_iff {color? : Option Color} : clearColorOf params = .ok color? ↔ AsksColor params color? := by
  simp only [clearColorOf, Except.bind_eq_ok_iff, param_eq_ok_iff, Bool.exists_bool, Bool.false_eq_true, if_false, if_true,
    Except.pure_eq_ok_iff]
  cases color? with
  | none => simp [AsksColor]
  | some color => simp [AsksColor, black]

theorem refuses_of_clearColorOf (h : clearColorOf params = .error cause) : Refuses params cause := by
  simp only [clearColorOf, Except.bind_eq_error_iff, Bool.exists_bool, Bool.false_eq_true, if_false, if_true,
    Except.pure_ne_error, and_false, exists_false, or_false, false_or] at h
  rcases h with h | ⟨-, h⟩
  · exact refuses_of_param (by simp [types]) h
  · exact refuses_of_param (by simp [types]) h

theorem clearDepthOf_eq_ok_iff {depth? : Option Single} : clearDepthOf params = .ok depth? ↔ AsksDepth params depth? := by
  simp only [clearDepthOf, Except.bind_eq_ok_iff, param_eq_ok_iff, Bool.exists_bool, Bool.false_eq_true, if_false, if_true,
    Except.ite_throw_eq_ok_iff, Except.pure_eq_ok_iff]
  cases depth? with
  | none => simp [AsksDepth]
  | some depth => simp [AsksDepth, IsDepth, eq_comm (a := depth)]

theorem refuses_of_clearDepthOf (h : clearDepthOf params = .error cause) : Refuses params cause := by
  simp only [clearDepthOf, Except.bind_eq_error_iff, param_eq_ok_iff, Bool.exists_bool, Bool.false_eq_true, if_false, if_true,
    Except.ite_throw_eq_error_iff, Except.pure_ne_error, and_false, false_or] at h
  rcases h with h | ⟨hclears, h | ⟨asked, hasked, hrange, rfl⟩⟩
  · exact refuses_of_param (by simp [types]) h
  · exact refuses_of_param (by simp [types]) h
  · exact .clearDepth hclears hasked fun hdepth => hrange (Bool.and_eq_true_iff.2 hdepth)

/-! ## The spec as a whole -/

/-- Parameters make just the spec that they ask for, with the name that is given and no viewport yet. -/
theorem declared_eq_ok_iff {name : String} {spec : TargetSpec} : declared name params = .ok spec ↔
    spec.name = name ∧ spec.viewport = none ∧ Asks params spec := by
  simp only [declared, Except.bind_eq_ok_iff, formatOf_eq_ok_iff, samplesOf_eq_ok_iff, sizeOf_eq_ok_iff, clearColorOf_eq_ok_iff,
    clearDepthOf_eq_ok_iff]
  constructor
  · rintro ⟨format, hformat, samples, hsamples, size, hsize, clearColor, hclearColor, clearDepth, hclearDepth, h⟩
    cases h
    exact ⟨rfl, rfl, hformat, hsamples, hsize, hclearColor, hclearDepth⟩
  · obtain ⟨_, format, samples, size, clearColor, clearDepth, _⟩ := spec
    rintro ⟨rfl, rfl, h⟩
    exact ⟨format, h.format, samples, h.samples, size, h.size, clearColor, h.clearColor, clearDepth, h.clearDepth, rfl⟩

/-- Parameters that make no spec have the fault that is given as the cause. -/
theorem refuses_of_declared {name : String} (h : declared name params = .error cause) : Refuses params cause := by
  rcases Except.bind_eq_error_iff.1 h with h | ⟨format, -, h⟩
  · exact refuses_of_formatOf h
  rcases Except.bind_eq_error_iff.1 h with h | ⟨samples, -, h⟩
  · exact refuses_of_samplesOf h
  rcases Except.bind_eq_error_iff.1 h with h | ⟨size, -, h⟩
  · exact refuses_of_sizeOf h
  rcases Except.bind_eq_error_iff.1 h with h | ⟨clearColor, -, h⟩
  · exact refuses_of_clearColorOf h
  rcases Except.bind_eq_error_iff.1 h with h | ⟨clearDepth, -, h⟩
  · exact refuses_of_clearDepthOf h
  · cases h

/-- Parameters decide neither the name of a spec nor its viewport. -/
theorem Asks.place {spec : TargetSpec} (h : Asks params spec) (name : String) (viewport : Option String) :
    Asks params { spec with name := name, viewport := viewport } :=
  ⟨h.format, h.samples, h.size, h.clearColor, h.clearDepth⟩

/-- Parameters that ask for a spec are not refused. -/
theorem not_asks_of_declared {name : String} (h : declared name params = .error cause) : ¬ ∃ spec, Asks params spec := by
  rintro ⟨spec, hspec⟩
  have hok : declared name params = .ok { spec with name := name, viewport := none } :=
    declared_eq_ok_iff.2 ⟨rfl, rfl, hspec.place name none⟩
  rw [h] at hok
  cases hok

end Parts

end TargetSpec

end RenderGraph
