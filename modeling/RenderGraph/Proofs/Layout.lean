import RenderGraph.Proofs.Arguments
import RenderGraph.Proofs.Conserved
import RenderGraph.Proofs.Outline
/-!
# The layout selects viewports and nothing else

The layout of a graph is where its nodes are, how large they are, and the frames around them. It
says which viewport a pass renders into and a render target belongs to. Each stage of a compile
gives the same without it (`unplaced`) but for these viewports: the passes that are built, their
order, the buffers, the specs and what is reported.

`compile_unplaced` puts the stages together, for classes that do not look at the viewport, and
`compile_of_unplaced_eq` compares two layouts of one graph.
-/

namespace RenderGraph

/-- The node without its place in the editor. -/
def Node.unplaced (n : Node) : Node := { n with position := .origin, size := defaultSize 0 0 }

/-- What a compile reads, without the layout. -/
def Snapshot.unplaced (s : Snapshot) : Snapshot := { s with nodes := s.nodes.map Node.unplaced, frames := [] }

/-- The spec without the viewport that the render target belongs to. -/
def TargetSpec.unplaced (spec : TargetSpec) : TargetSpec := { spec with viewport := none }

/-- The pipeline without the viewports. -/
def Pipeline.unplaced (p : Pipeline) : Pipeline :=
  { p with passes := p.passes.map Pass.unplaced, specs := p.specs.map TargetSpec.unplaced }

/-! ## The order -/

namespace Schedule

theorem readers_unplaced (passes : List Pass) : readers (passes.map Pass.unplaced) = readers passes := by
  simp only [readers, List.zipIdx_map, List.map_map, List.filter_map]
  rfl

theorem progress_unplaced (passes : List Pass) : progress (passes.map Pass.unplaced) = progress passes := by
  rw [progress, readers_unplaced, List.length_map]
  rfl

theorem map_name_stuck (passes : List Pass) (s : Progress) :
    (stuck (passes.map Pass.unplaced) s).map Pass.name = (stuck passes s).map Pass.name := by
  simp only [stuck, List.zip_map_left, List.filterMap_map, List.map_filterMap]
  refine List.filterMap_congr fun e _ => ?_
  simp only [Function.comp_apply, Prod.map_fst, Prod.map_snd, id]
  split <;> rfl

theorem arrange_map {α β : Type} (f : α → β) (items : List α) (order : List Nat) :
    arrange (items.map f) order = (arrange items order).map f := by
  simp only [arrange, List.getElem?_map, List.map_filterMap]

theorem aliases_unplaced (passes : List Pass) : aliases (passes.map Pass.unplaced) = aliases passes := by
  rw [aliases, aliasPairs, List.flatMap_map]
  rfl

theorem topological_unplaced (passes : List Pass) : topological (passes.map Pass.unplaced) = topological passes := by
  simp only [topological, progress_unplaced, List.length_map, map_name_stuck, arrange_map, aliases_unplaced]

end Schedule

namespace Compile

open Naming

theorem order_unplaced (passes : List Pass) : order Schedule.topological (passes.map Pass.unplaced) =
    let o := order Schedule.topological passes
    { o with passes := o.passes.map Pass.unplaced } := by
  simp only [order, scheduled_topological, Schedule.topological_unplaced]
  cases Schedule.topological passes with
  | ok schedule => simp only [Schedule.arrange_map]
  | error cause => simp only [Schedule.aliases_unplaced]

theorem usages_unplaced (r : Naming) (o : Ordered) : usages r { o with passes := o.passes.map Pass.unplaced } = usages r o := by
  rw [usages, usesOf, List.flatMap_map]
  rfl

end Compile

/-! ## Specs -/

theorem TargetSpec.infer_unplaced (settings : Settings) (name : String) (declaredBy : Option Node) (users : List String)
    (viewport : Option String) : (infer settings name declaredBy users viewport).map (Option.map unplaced) =
      infer settings name declaredBy users none := by
  cases declaredBy with
  | none =>
    rw [infer_none, infer_none]
    exact congrArg Except.ok (Option.map_map ..)
  | some n =>
    rw [infer_some, infer_some]
    cases declared name n.params <;> rfl

namespace Compile

open Naming

/-- What is known of viewports decides about the viewport of a spec alone. -/
theorem specOf_unplaced {k k' : Context} (hsettings : k.settings = k'.settings)
    (hparams : k.nodes.map Node.params = k'.nodes.map Node.params) (hdeclared : k.declared = k'.declared) (target : String)
    (u : Usage) : (specOf k target u).map (Option.map TargetSpec.unplaced) =
      (specOf k' target u).map (Option.map TargetSpec.unplaced) := by
  obtain ⟨settings, nodes, declared, scopes⟩ := k
  obtain ⟨_, nodes', _, scopes'⟩ := k'
  cases hsettings
  cases hdeclared
  rw [specOf_congr hparams, specOf, specOf, TargetSpec.infer_unplaced, TargetSpec.infer_unplaced]

section Contexts
variable {k k' : Context}
  (h : ∀ target u, (specOf k target u).map (Option.map TargetSpec.unplaced) = (specOf k' target u).map (Option.map TargetSpec.unplaced))
include h

theorem map_spec?_unplaced (e : String × Usage) : (spec? k e).map TargetSpec.unplaced = (spec? k' e).map TargetSpec.unplaced := by
  have he := h e.1 e.2
  unfold spec?
  generalize specOf k e.1 e.2 = found at he ⊢
  generalize specOf k' e.1 e.2 = found' at he ⊢
  cases found <;> cases found'
  case error.error => rfl
  case error.ok | ok.error => cases he
  case ok.ok => exact Except.ok.inj he

theorem omitted?_unplaced (hdeclared : k.declared = k'.declared) (e : String × Usage) : omitted? k e = omitted? k' e := by
  have he := h e.1 e.2
  unfold omitted?
  rw [hdeclared]
  generalize specOf k e.1 e.2 = found at he ⊢
  generalize specOf k' e.1 e.2 = found' at he ⊢
  cases found <;> cases found'
  case error.error =>
    cases he
    rfl
  case error.ok | ok.error => cases he
  case ok.ok => rfl

end Contexts

/-! ## The stages of a compile -/

theorem outline_unplaced (s : Snapshot) : s.unplaced.nodes.map Node.outline = s.nodes.map Node.outline := by
  rw [Snapshot.unplaced, List.map_map]
  rfl

theorem resolve_unplaced (s : Snapshot) : resolve s.unplaced.nodes s.unplaced.links = resolve s.nodes s.links :=
  resolve_congr (outline_unplaced s) s.links

theorem passNodes_unplaced (s : Snapshot) : s.unplaced.passNodes = s.passNodes.map fun e => (e.1.unplaced, e.2) :=
  passNodes_map rfl fun _ => rfl

section Stages
variable {c : Compiler} (hcatalog : ∀ k ∈ c.catalog.entries, k.IgnoresViewport) (s : Snapshot)
include hcatalog

theorem passOf_unplaced (r : Naming) (n : Node) (index : Nat) :
    passOf c.catalog s.unplaced r n.unplaced index = (passOf c.catalog s r n index).map Pass.unplaced :=
  Pass.build_unplaced hcatalog n (bindingsOf r n index) (viewportOf s.frames n)

theorem builtPasses_unplaced : builtPasses c s.unplaced = (builtPasses c s).map Pass.unplaced := by
  rw [builtPasses, builtPasses, passNodes_unplaced, List.filterMap_map, List.map_filterMap]
  refine List.filterMap_congr fun e _ => ?_
  simp only [Function.comp_apply, nodePass?, resolve_unplaced, pass?, passOf_unplaced hcatalog]
  cases passOf c.catalog s (resolve s.nodes s.links) e.1 e.2 <;> rfl

theorem skipped_unplaced (r : Naming) : s.unplaced.passNodes.filterMap (skipped? c.catalog s.unplaced r) =
    s.passNodes.filterMap (skipped? c.catalog s r) := by
  rw [passNodes_unplaced, List.filterMap_map]
  refine List.filterMap_congr fun e _ => ?_
  simp only [Function.comp_apply, skipped?, passOf_unplaced hcatalog]
  cases passOf c.catalog s r e.1 e.2 <;> rfl

variable (hc : c.scheduler = Schedule.topological)
include hc

theorem ordered_unplaced : ordered c s.unplaced =
    { ordered c s with passes := (ordered c s).passes.map Pass.unplaced } := by
  have hbuilt (s : Snapshot) : ordered c s = order Schedule.topological (builtPasses c s) := by rw [ordered, hc]; rfl
  rw [hbuilt, hbuilt, builtPasses_unplaced hcatalog, order_unplaced]

theorem targets_unplaced : targets c s.unplaced = targets c s := by
  rw [targets, targets, resolve_unplaced, ordered_unplaced hcatalog s hc, usages_unplaced]

/-- With classes that do not look at the viewport, a compile without the layout reports the same, and makes the same
pipeline but for the viewports. -/
theorem compile_unplaced : (c.compile s.unplaced).diagnostics = (c.compile s).diagnostics ∧
    (c.compile s.unplaced).pipeline.unplaced = (c.compile s).pipeline.unplaced := by
  by_cases hempty : s.passNodes = []
  · rw [compile_of_no_passes hempty, compile_of_no_passes (by rw [passNodes_unplaced, hempty]; rfl)]
    exact ⟨rfl, rfl⟩
  have hempty' : s.unplaced.passNodes ≠ [] := by simpa [passNodes_unplaced] using hempty
  have hdeclared : (contextOf c s.unplaced).declared = (contextOf c s).declared := by
    rw [contextOf, contextOf, resolve_unplaced]
    exact declarations_congr (outline_unplaced s) _
  have hparams : s.unplaced.nodes.map Node.params = s.nodes.map Node.params := by
    rw [Snapshot.unplaced, List.map_map]
    rfl
  have hsettings : (contextOf c s.unplaced).settings = (contextOf c s).settings := rfl
  have hspecOf := specOf_unplaced hsettings hparams hdeclared
  have hordered := ordered_unplaced hcatalog s hc
  have htargets := targets_unplaced hcatalog s hc
  constructor
  · rw [diagnostics_compile hempty, diagnostics_compile hempty', resolve_unplaced, skipped_unplaced hcatalog, hordered,
      htargets]
    exact congrArg (_ ++ ·) (List.filterMap_congr fun e _ => omitted?_unplaced hspecOf hdeclared e)
  · simp only [Pipeline.unplaced, Pipeline.mk.injEq]
    refine ⟨?_, ?_, ?_⟩
    · rw [name_compile hempty, name_compile hempty']
      rfl
    · rw [← passes_ordered, ← passes_ordered, hordered, List.map_map]
      rfl
    · rw [specs_compile, specs_compile, htargets, List.map_filterMap, List.map_filterMap]
      exact List.filterMap_congr fun e _ => map_spec?_unplaced hspecOf e

end Stages

/-- Two graphs that differ in the layout alone, compiled with the standard classes in topological order, are reported on
alike, and their pipelines differ in viewports alone. -/
theorem compile_of_unplaced_eq {s s' : Snapshot} (h : s.unplaced = s'.unplaced) (settings : Settings) :
    let c : Compiler := ⟨.standard, Schedule.topological, settings⟩
    (c.compile s).diagnostics = (c.compile s').diagnostics ∧
      (c.compile s).pipeline.unplaced = (c.compile s').pipeline.unplaced := by
  intro c
  have hcatalog : ∀ k ∈ c.catalog.entries, k.IgnoresViewport := fun k hk => ignoresViewport_standard k (Catalog.mem_ofList hk)
  obtain ⟨hreports, hpipeline⟩ := compile_unplaced hcatalog s rfl
  obtain ⟨hreports', hpipeline'⟩ := compile_unplaced hcatalog s' rfl
  rw [h] at hreports hpipeline
  exact ⟨hreports.symm.trans hreports', hpipeline.symm.trans hpipeline'⟩

/-- A color pass with an input named as the viewport is, and a shader of the user with a parameter named so, in a frame.
The shadow pass takes no viewport. -/
def framedShader : Snapshot where
  name := "framed shader"
  nodes := [Graph.standardNode 0 "FBO",
    { Graph.standardNode 1 "ShadowPass" with params := .ofList [("note", .text "soft")] },
    (Graph.standardNode 2 "ColorPass").addInput (.input viewportKey .texture),
    { Graph.standardNode 3 "PostProcessPass" with params := .ofList [(viewportKey, .text "ui"), ("strength", .whole 2)] }]
  links := [⟨0, "output", 2, "output_res_target"⟩, ⟨1, "shadow_map", 2, "shadow_map"⟩, ⟨2, "output_res", 3, "input_res"⟩]
  frames := [⟨"Frame", "main", .origin, ⟨Binary.ofNat 640, Binary.ofNat 480⟩⟩]

/-- The same nodes beside the frame. -/
def unframedShader : Snapshot :=
  { framedShader with
    nodes := framedShader.nodes.map fun n => { n with position := ⟨Binary.ofNat 1000, Binary.ofNat 0⟩ } }

/-- The viewports differ; neither the configurations and attributes nor the reports do. -/
theorem framedShader_unplaced :
    let o := Compiler.standard.compile framedShader
    let o' := Compiler.standard.compile unframedShader
    o.pipeline.passes.map Pass.viewport = ["main", "main", "main"] ∧ o'.pipeline.passes.map Pass.viewport = ["", "", ""] ∧
      o.pipeline.specs.map TargetSpec.viewport ≠ o'.pipeline.specs.map TargetSpec.viewport ∧
      o.diagnostics = o'.diagnostics ∧ o.pipeline.unplaced = o'.pipeline.unplaced := by
  intro o o'
  have hlayout : framedShader.unplaced = unframedShader.unplaced := rfl
  obtain ⟨hreports, hpipeline⟩ := compile_of_unplaced_eq hlayout .standard
  exact ⟨by decide +kernel, by decide +kernel, by decide +kernel, hreports, hpipeline⟩

end Compile

end RenderGraph
