import RenderGraph.Proofs.Rounding
import RenderGraph.Proofs.Targets
import RenderGraph.Settings.Ron
/-!
# Specs that can be used

Samples, sides and clear depths are checked as they end up in a spec. A scale
is checked before it is rounded to 32 bits, so it can still come to nothing or
to infinity (`Compile.compile_specs_usable`).
-/

namespace RenderGraph

theorem Settings.msaaSamples_of_ofText {text : String} {settings : Settings} (h : Settings.ofText text = .ok settings) :
    settings.msaaSamples ∈ sampleCounts := by
  unfold Settings.ofText at h
  split at h
  · cases h
  · split at h
    · cases h
    · rename_i hfault
      cases h
      simpa [fault?] using hfault

namespace TargetSpec

variable {params : Params}

/-- The scale that parameters ask for is `asked`, which is 1 unless they say otherwise. -/
def AsksScale (params : Params) (asked : Double) : Prop :=
  param params "scale" "number" (Binary.ofNat 1) Param.number? = .ok asked

theorem AsksSize.checked {size : SizePolicy} (h : AsksSize params size) :
    (∃ width height, size = .fixed width height ∧ 1 ≤ width ∧ 1 ≤ height) ∨
      ∃ asked, AsksScale params asked ∧ asked.isPositive = true ∧ size = .viewport asked.toSingle := by
  cases size with
  | viewport scale =>
    obtain ⟨-, asked, hasked, hpositive, rfl⟩ := h
    exact .inr ⟨asked, param_eq_ok_iff.2 hasked, hpositive, rfl⟩
  | fixed width height =>
    obtain ⟨-, ⟨hwidth, -⟩, hheight, -⟩ := h
    exact .inl ⟨width, height, rfl, UInt32.le_iff_toNat_le.2 hwidth, UInt32.le_iff_toNat_le.2 hheight⟩

theorem AsksDepth.checked {depth? : Option Single} (h : AsksDepth params depth?) :
    ∀ depth ∈ depth?, Binary.le (Binary.ofNat 0) depth = true ∧ Binary.le depth (Binary.ofNat 1) = true := by
  rintro depth rfl
  obtain ⟨-, asked, -, hrange, rfl⟩ := h
  exact Binary.le_toSingle_of_le hrange

/-- What every spec has: allowed samples, a size that is fixed with sides or takes a scale some parameters ask for, and a depth
to clear to between zero and one. -/
structure Checked (asks : Double → Prop) (spec : TargetSpec) : Prop where
  samples : spec.samples ∈ Settings.sampleCounts
  size : (∃ width height, spec.size = .fixed width height ∧ 1 ≤ width ∧ 1 ≤ height) ∨
    ∃ asked, asks asked ∧ asked.isPositive = true ∧ spec.size = .viewport asked.toSingle
  clearDepth : ∀ depth ∈ spec.clearDepth, Binary.le (Binary.ofNat 0) depth = true ∧ Binary.le depth (Binary.ofNat 1) = true

theorem Checked.mono {asks asks' : Double → Prop} {spec : TargetSpec} (h : spec.Checked asks) (hasks : ∀ asked, asks asked → asks' asked) :
    spec.Checked asks' := by
  refine ⟨h.samples, h.size.imp_right ?_, h.clearDepth⟩
  rintro ⟨asked, hasked, hsize⟩
  exact ⟨asked, hasks asked hasked, hsize⟩

/-- The viewport of a spec is not among what is checked. -/
theorem Checked.place {asks : Double → Prop} {spec : TargetSpec} (h : spec.Checked asks) (viewport : Option String) :
    Checked asks { spec with viewport := viewport } :=
  ⟨h.samples, h.size, h.clearDepth⟩

theorem checked_of_declared {name : String} {spec : TargetSpec} (h : declared name params = .ok spec) :
    spec.Checked (AsksScale params) := by
  obtain ⟨-, -, hasks⟩ := declared_eq_ok_iff.1 h
  exact ⟨hasks.samples.1, hasks.size.checked, hasks.clearDepth.checked⟩

theorem checked_of_guessed {settings : Settings} (hsamples : settings.msaaSamples ∈ Settings.sampleCounts) {name : String}
    {users : List String} {spec : TargetSpec} (h : guessed settings name users = some spec) :
    spec.Checked (· = Binary.ofNat 1) := by
  have hone : (1 : UInt32) ∈ Settings.sampleCounts := by decide
  simp only [guessed] at h
  split at h
  · cases h
    refine ⟨?_, .inr ⟨Binary.ofNat 1, rfl, by decide, ?_⟩, fun depth h => absurd h (Option.not_mem_none depth)⟩
    · dsimp only
      split
      · exact hsamples
      · exact hone
    · exact congrArg SizePolicy.viewport (by decide)
  · cases h

end TargetSpec

namespace Compile

variable {c : Compiler} {s : Snapshot}

/-- A scale that a spec of a snapshot may start from: 1, or one that a render target of it asks for. -/
def AskedIn (s : Snapshot) (asked : Double) : Prop :=
  asked = Binary.ofNat 1 ∨ ∃ n ∈ s.nodes, n.declaresTarget = true ∧ TargetSpec.AsksScale n.params asked

theorem checked_of_mem_specs (hsamples : c.settings.msaaSamples ∈ Settings.sampleCounts) {spec : TargetSpec}
    (h : spec ∈ (c.compile s).pipeline.specs) : spec.Checked (AskedIn s) := by
  obtain ⟨target, u, -, hspec⟩ := mem_specs_iff.1 h
  rw [specOf_contextOf] at hspec
  cases hnode : (target :: u.members).findSome? (declaring? s) with
  | some e =>
    obtain ⟨name, -, he⟩ := List.exists_of_findSome?_eq_some hnode
    obtain ⟨hat, hdeclares⟩ := of_declaring? he
    rw [hnode, Option.map_some, TargetSpec.infer_some] at hspec
    cases hbase : TargetSpec.declared target e.1.params with
    | error cause => rw [hbase] at hspec; cases hspec
    | ok base =>
      rw [hbase] at hspec
      cases hspec
      exact ((TargetSpec.checked_of_declared hbase).mono fun asked hasked =>
        .inr ⟨e.1, List.mem_of_getElem? hat, hdeclares, hasked⟩).place _
  | none =>
    rw [hnode, Option.map_none, TargetSpec.infer_none, Except.ok.injEq] at hspec
    obtain ⟨base, hbase, rfl⟩ := Option.map_eq_some_iff.1 hspec
    exact ((TargetSpec.checked_of_guessed hsamples hbase).mono fun asked hasked => .inl hasked).place _

/-- Whatever settings are read, each spec of a pipeline has allowed samples, a depth to clear to between zero and one if any, and
a fixed size of at least one texel or a scale. The scale is rounded from a positive finite one that a render target asks for,
or 1, and is itself positive and finite just if that one is neither too small nor too large for 32 bits. -/
theorem compile_specs_usable {text : String} {settings : Settings} (hsettings : Settings.ofText text = .ok settings)
    (catalog : PassCatalog) (scheduler : Scheduler) (s : Snapshot) :
    ∀ spec ∈ (Compiler.compile ⟨catalog, scheduler, settings⟩ s).pipeline.specs,
      spec.samples ∈ Settings.sampleCounts ∧
      (∀ depth ∈ spec.clearDepth, Binary.le (Binary.ofNat 0) depth = true ∧ Binary.le depth (Binary.ofNat 1) = true) ∧
      ((∃ width height, spec.size = .fixed width height ∧ 1 ≤ width ∧ 1 ≤ height) ∨
        ∃ asked scale, spec.size = .viewport scale ∧ AskedIn s asked ∧ asked.isPositive = true ∧ scale = asked.toSingle ∧
          (scale.isPositive = true ↔ asked.Narrows)) := by
  intro spec hspec
  have hsamples : settings.msaaSamples ∈ Settings.sampleCounts := Settings.msaaSamples_of_ofText hsettings
  have h : spec.Checked (AskedIn s) := checked_of_mem_specs hsamples hspec
  refine ⟨h.samples, h.clearDepth, h.size.imp_right ?_⟩
  rintro ⟨asked, hasked, hpositive, hsize⟩
  exact ⟨asked, asked.toSingle, hsize, hasked, hpositive, rfl, Binary.isPositive_toSingle_iff hpositive⟩

/-- The redirected sky with a scale for the render target it is drawn to, and a depth pass that draws to one of a fixed size. -/
def scaledSky (scale : Param) : Snapshot :=
  { redirectedSky with
    nodes := { Graph.standardNode 0 "FBO" with params := .ofList [("scale", scale)] } :: redirectedSky.nodes.tail ++
      [{ Graph.standardNode 5 "FBO" with
          params := .ofList [("samples", .whole 16), ("size_mode", .text "fixed"), ("width", .ofInt 512), ("height", .whole 1),
            ("clear_depth", .bool true), ("clear_depth_value", .ratio 1 3)] },
        Graph.standardNode 6 "DepthPass"]
    links := redirectedSky.links ++ [⟨5, "output", 6, "depth_res_target"⟩] }

theorem scaledSky_usable :
    let settings := { Settings.standard with msaaSamples := 8 }
    let specs := (Compiler.compile ⟨.standard, Schedule.topological, settings⟩ (scaledSky (.ratio 1 3))).pipeline.specs
    Settings.ofText "(msaa_samples: 8)" = .ok settings ∧
    specs.map TargetSpec.size = [.viewport (Binary.ofQuotient false 1 3), .fixed 512 1] ∧
    ∀ spec ∈ specs, spec.samples ∈ Settings.sampleCounts ∧ ∀ scale, spec.size = .viewport scale →
      ∃ asked, AskedIn (scaledSky (.ratio 1 3)) asked ∧ asked.Narrows ∧ scale = asked.toSingle := by
  intro settings specs
  have hsettings : Settings.ofText "(msaa_samples: 8)" = .ok settings := by decide +kernel
  have hsizes : specs.map TargetSpec.size = [.viewport (Binary.ofQuotient false 1 3), .fixed 512 1] := by decide +kernel
  refine ⟨hsettings, hsizes, fun spec hspec => ?_⟩
  obtain ⟨hsamples, -, hsize⟩ :=
    compile_specs_usable hsettings .standard Schedule.topological (scaledSky (.ratio 1 3)) spec hspec
  refine ⟨hsamples, fun scale hscale => ?_⟩
  have hmem : spec.size ∈ specs.map TargetSpec.size := List.mem_map_of_mem hspec
  rw [hsizes, hscale] at hmem
  obtain rfl : scale = Binary.ofQuotient false 1 3 := by simpa using hmem
  rcases hsize with ⟨width, height, hfixed, -⟩ | ⟨asked, scale, hviewport, hasked, -, hrounded, hnarrows⟩
  · cases hscale.symm.trans hfixed
  · cases hscale.symm.trans hviewport
    exact ⟨asked, hasked, hnarrows.1 (by decide +kernel), hrounded⟩

/-- A scale that is positive and finite, but too large or too small for 32 bits, leaves a spec that cannot be used. -/
theorem scaledSky_not_usable :
    let specs (scale : Param) := (Compiler.standard.compile (scaledSky scale)).pipeline.specs
    Settings.ofText "()" = .ok .standard ∧
    (∃ spec ∈ specs (.ratio (10 ^ 39) 1), spec.size = .viewport (Binary.infinity false)) ∧
    (∃ spec ∈ specs (.ratio 1 (10 ^ 50)), spec.size = .viewport (Binary.zero false)) ∧
    (Binary.infinity false : Single).isPositive = false ∧ (Binary.zero false : Single).isPositive = false := by
  intro specs
  exact ⟨by decide +kernel, by decide +kernel, by decide +kernel, by decide, by decide⟩

end Compile

end RenderGraph
