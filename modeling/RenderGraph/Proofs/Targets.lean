import RenderGraph.Proofs.Connections
import RenderGraph.Proofs.Specs
/-!
# No render target in use is dropped

The names of one buffer are a group, and `exists_usage` tells what the pipeline
counts for a render target in terms of its group. A node declares a name if its
output resolves to it, and the first node in order has its way (`declaring?`).

`compile_keeps_targets`: if the canonical name or another name of the group is
declared, the node that declares the first one gives it the spec that its
parameters ask for (`spec_of_declared`), whoever uses the target, or the output
says what is wrong with them. A target that nothing declares has a spec just where
a class asks for one (`spec_of_undeclared`). Without an order this holds all the same.
-/

namespace RenderGraph.Compile

open Naming

section Targets
variable {c : Compiler} {s : Snapshot}

/-- The first node in order that declares a name. -/
def declaring? (s : Snapshot) (name : String) : Option (Node × Nat) :=
  s.indexed.find? fun e => declaredName? (resolve s.nodes s.links) e = some name

/-- The names of the kind of render targets that share the buffer of a name, in the order in which passes use them. -/
def group (r : Naming) (passes : List Pass) (target : String) : List String :=
  (passes.flatMap fun p => p.reads ++ p.writes).filter fun name =>
    (!r.isPlaceholder name && r.kind? name = some .fbo) && (Schedule.aliases passes).canonical name = target

theorem get?_declarations (r : Naming) (name : String) :
    (declarations s r).get? name = (s.indexed.find? fun e => declaredName? r e = some name).map Prod.snd := by
  -- What is in the table stays, so it is the first that counts.
  have hfold : ∀ (es : List (Node × Nat)) (t : Table String Nat), (es.foldl (declare r) t).get? name =
      (t.get? name).or ((es.find? fun e => declaredName? r e = some name).map Prod.snd) := by
    intro es
    induction es with
    | nil => intro t; simp
    | cons e es ih =>
      intro t
      rw [List.foldl_cons, ih, declare, List.find?_cons]
      cases he : declaredName? r e with
      | none => simp
      | some other =>
        rw [Table.get?_insertNew]
        by_cases ho : name = other
        · subst ho
          simp
        · simp [ho, Ne.symm ho]
  exact (hfold s.indexed .empty).trans (by simp)

theorem of_declaring? {name : String} {e : Node × Nat} (h : declaring? s name = some e) :
    s.nodes[e.2]? = some e.1 ∧ e.1.declaresTarget = true := by
  have hmem := List.mem_of_find?_eq_some h
  have hname : declaredName? (resolve s.nodes s.links) e = some name := by simpa using List.find?_some h
  rw [Snapshot.indexed, List.mem_zipIdx_iff_getElem?] at hmem
  refine ⟨hmem, ?_⟩
  unfold declaredName? at hname
  split at hname
  · assumption
  · cases hname

/-- The node that decides a spec is the one that declares the first declared name. -/
theorem node_of_declarations (names : List String) :
    ((names.findSome? (declarations s (resolve s.nodes s.links)).get?).bind fun i => s.nodes[i]?) =
      (names.findSome? (declaring? s)).map Prod.fst := by
  induction names with
  | nil => rfl
  | cons name names ih =>
    have hget : (declarations s (resolve s.nodes s.links)).get? name = (declaring? s name).map Prod.snd :=
      get?_declarations _ name
    rw [List.findSome?_cons, List.findSome?_cons, hget]
    cases h : declaring? s name with
    | none => exact ih
    | some e => exact (of_declaring? h).1

theorem mem_group {r : Naming} {passes : List Pass} {target name : String} : name ∈ group r passes target ↔
    Used passes name ∧ (r.isPlaceholder name = false ∧ r.kind? name = some .fbo) ∧
      (Schedule.aliases passes).canonical name = target := by
  simp [group, Used]

/-- The names that a render target is known by are its group. -/
theorem map_usesFor (hc : c.scheduler = Schedule.topological) (target : String) :
    (usesFor (resolve s.nodes s.links) (ordered c s) target).map Prod.fst =
      group (resolve s.nodes s.links) (c.compile s).pipeline.passes target := by
  have hnames : (c.compile s).pipeline.passes.flatMap (fun p => p.reads ++ p.writes) =
      (usesOf (c.compile s).pipeline.passes).map Prod.fst := by
    simp [usesOf, List.map_flatMap, Function.comp_def]
  rw [usesFor, group, hnames, List.filter_map, passes_ordered]
  refine congrArg (List.map Prod.fst) (List.filter_congr fun e he => ?_)
  obtain ⟨p, hp, hname, -⟩ := mem_usesOf.1 he
  have hiff := targetName?_eq_some_iff (c := c) hc ⟨p, hp, hname⟩ target
  simp [hiff]

/-- The uses of a render target are those of its group, by the classes that have one of its names. -/
theorem exists_usage (hc : c.scheduler = Schedule.topological) {target name : String}
    (hname : name ∈ group (resolve s.nodes s.links) (c.compile s).pipeline.passes target) :
    ∃ u, (targets c s).get? target = some u ∧
      (∀ {β : Type} (f : String → Option β), (target :: u.members).findSome? f =
        (target :: group (resolve s.nodes s.links) (c.compile s).pipeline.passes target).findSome? f) ∧
      ∀ P : String → Prop, (∃ user ∈ u.users, P user) ↔ ∃ p ∈ (c.compile s).pipeline.passes,
        (∃ member ∈ group (resolve s.nodes s.links) (c.compile s).pipeline.passes target,
          member ∈ p.reads ∨ member ∈ p.writes) ∧ P p.className := by
  have hmap := map_usesFor (s := s) hc target
  refine ⟨_, (get?_usages _ _ target _).2 ⟨fun h => ?_, rfl⟩, fun f => ?_, fun P => ?_⟩
  -- A use of `name` is counted, so the render target is known.
  · rw [h] at hmap
    rw [← hmap] at hname
    cases hname
  · rw [List.findSome?_cons, List.findSome?_cons, hmap, findSome?_foldl_addNew, List.nil_append]
  · simp only [mem_foldl_addNew, List.not_mem_nil, false_or, List.mem_map]
    constructor
    · rintro ⟨_, ⟨e, he, rfl⟩, hP⟩
      have hmem : e.1 ∈ group (resolve s.nodes s.links) (c.compile s).pipeline.passes target :=
        hmap ▸ List.mem_map_of_mem he
      obtain ⟨he, -⟩ := List.mem_filter.1 he
      rw [passes_ordered] at he
      obtain ⟨p, hp, hused, hclass⟩ := mem_usesOf.1 he
      exact ⟨p, hp, ⟨e.1, hmem, hused⟩, hclass ▸ hP⟩
    · rintro ⟨p, hp, ⟨member, hmem, hused⟩, hP⟩
      obtain ⟨-, hkind, hcanonical⟩ := mem_group.1 hmem
      refine ⟨p.className, ⟨(member, p.className), List.mem_filter.2 ⟨?_, ?_⟩, rfl⟩, hP⟩
      · rw [passes_ordered]
        exact mem_usesOf.2 ⟨p, hp, hused, rfl⟩
      · exact decide_eq_true ((targetName?_eq_some_iff hc ⟨p, hp, hused⟩ target).2 ⟨hkind, hcanonical⟩)

theorem specOf_contextOf (target : String) (u : Usage) : specOf (contextOf c s) target u =
    TargetSpec.infer c.settings target (((target :: u.members).findSome? (declaring? s)).map Prod.fst) u.users
      ((target :: u.members).findSome? (contextOf c s).scopes.get?) := by
  rw [← node_of_declarations]
  rfl

/-- A spec of that name can only come from the uses of that render target. -/
theorem exists_spec_iff {target : String} {u : Usage} (hu : (targets c s).get? target = some u) :
    (∃ spec ∈ (c.compile s).pipeline.specs, spec.name = target) ↔ ∃ spec, specOf (contextOf c s) target u = .ok (some spec) := by
  constructor
  · rintro ⟨spec, hmem, hname⟩
    obtain ⟨target', u', hu', hspec⟩ := mem_specs_iff.1 hmem
    obtain rfl : target' = target := (name_of_specOf hspec).symm.trans hname
    rw [hu] at hu'
    cases hu'
    exact ⟨spec, hspec⟩
  · rintro ⟨spec, hspec⟩
    exact ⟨spec, mem_specs_iff.2 ⟨target, u, hu, hspec⟩, name_of_specOf hspec⟩

/-- A render target that a node declares gets the spec its parameters ask for. If they ask for none, it has no spec, and
a report says what is wrong with them. -/
theorem spec_of_declared {target : String} {u : Usage} (hu : (targets c s).get? target = some u) {e : Node × Nat}
    (he : (target :: u.members).findSome? (declaring? s) = some e) :
    (∃ spec ∈ (c.compile s).pipeline.specs, spec.name = target ∧ TargetSpec.Asks e.1.params spec) ∨
    (¬ ∃ spec, TargetSpec.Asks e.1.params spec) ∧ (¬ ∃ spec ∈ (c.compile s).pipeline.specs, spec.name = target) ∧
      ∃ cause, TargetSpec.Refuses e.1.params cause ∧
        ∃ d ∈ (c.compile s).diagnostics, d.isError = true ∧ d.problem = .omitted target cause := by
  have hspec := specOf_contextOf (c := c) (s := s) target u
  rw [he, Option.map_some, TargetSpec.infer_some] at hspec
  cases hbase : TargetSpec.declared target e.1.params with
  | ok base =>
    left
    obtain ⟨hname, -, hasks⟩ := TargetSpec.declared_eq_ok_iff.1 hbase
    rw [hbase] at hspec
    exact ⟨_, mem_specs_iff.2 ⟨target, u, hu, hspec⟩, hname, hasks.place _ _⟩
  | error cause =>
    right
    -- A refusal stops the spec, and is what gets reported.
    rw [hbase] at hspec
    have hnone : ¬ ∃ spec ∈ (c.compile s).pipeline.specs, spec.name = target := by
      rw [exists_spec_iff hu, hspec]
      exact nofun
    have homitted : omitted? (contextOf c s) (target, u) = some ⟨(contextOf c s).declared.get? target, .omitted target cause⟩ := by
      rw [omitted?, hspec]
      rfl
    exact ⟨TargetSpec.not_asks_of_declared hbase, hnone, cause, TargetSpec.refuses_of_declared hbase, _,
      mem_diagnostics_of_omitted c s ((Table.get?_eq_some_iff _ _ _).1 hu) homitted, rfl, rfl⟩

/-- A render target that no node declares gets a spec just if a class that uses it asks for one. -/
theorem spec_of_undeclared {target : String} {u : Usage} (hu : (targets c s).get? target = some u)
    (hnone : (target :: u.members).findSome? (declaring? s) = none) :
    (∃ spec ∈ (c.compile s).pipeline.specs, spec.name = target) ↔
      ∃ user ∈ u.users, c.settings.wantsHdr user = true ∨ c.settings.wantsMsaa user = true := by
  have hspec := specOf_contextOf (c := c) (s := s) target u
  rw [hnone, Option.map_none, TargetSpec.infer_none] at hspec
  rw [← TargetSpec.isSome_guessed c.settings target, exists_spec_iff hu, hspec]
  cases TargetSpec.guessed c.settings target u.users <;> simp

/-- Each render target in use is told of: where a node declares its canonical name or another name of its buffer, the
first declared one gives it the spec that the parameters of that node ask for, or they ask for none, it has no spec and
the report on it says what is wrong with them; where none does, it has a spec just if a class of a pass that uses it asks
for high range or several samples. -/
theorem compile_keeps_targets (hc : c.scheduler = Schedule.topological) {name : String}
    (hused : Used (c.compile s).pipeline.passes name)
    (hreal : (resolve s.nodes s.links).isPlaceholder name = false)
    (hfbo : (resolve s.nodes s.links).kind? name = some .fbo) :
    let o := c.compile s
    let target := (Schedule.aliases o.pipeline.passes).canonical name
    let names := group (resolve s.nodes s.links) o.pipeline.passes target
    (∀ member ∈ target :: names, (declaring? s member).isSome →
      ∃ e, (target :: names).findSome? (declaring? s) = some e ∧
        ((∃ spec ∈ o.pipeline.specs, spec.name = target ∧ TargetSpec.Asks e.1.params spec) ∨
        (¬ ∃ spec, TargetSpec.Asks e.1.params spec) ∧ (¬ ∃ spec ∈ o.pipeline.specs, spec.name = target) ∧
          ∃ cause, TargetSpec.Refuses e.1.params cause ∧
            ∃ d ∈ o.diagnostics, d.isError = true ∧ d.problem = .omitted target cause)) ∧
    ((∀ member ∈ target :: names, declaring? s member = none) →
      ((∃ spec ∈ o.pipeline.specs, spec.name = target) ↔ ∃ p ∈ o.pipeline.passes,
        (∃ member ∈ names, member ∈ p.reads ∨ member ∈ p.writes) ∧
          (c.settings.wantsHdr p.className = true ∨ c.settings.wantsMsaa p.className = true))) := by
  intro o target names
  obtain ⟨u, hu, hmembers, husers⟩ := exists_usage hc (mem_group.2 ⟨hused, ⟨hreal, hfbo⟩, rfl⟩)
  refine ⟨fun member hmem hsome => ?_, fun hnone => ?_⟩
  · have hfirst : ((target :: names).findSome? (declaring? s)).isSome := List.findSome?_isSome_iff.2 ⟨member, hmem, hsome⟩
    obtain ⟨e, he⟩ := Option.isSome_iff_exists.1 hfirst
    exact ⟨e, he, spec_of_declared hu ((hmembers _).trans he)⟩
  · rw [spec_of_undeclared hu ((hmembers _).trans (List.findSome?_eq_none_iff.2 hnone))]
    exact husers _

end Targets

/-- A sky pass that is redirected into a render target, and works in place on what the color pass drew. Nothing declares
where the antialiasing in front of the screen draws to. -/
def redirectedSky : Snapshot where
  name := "redirected sky"
  nodes := [Graph.standardNode 0 "FBO", Graph.standardNode 1 "ColorPass",
    (Graph.standardNode 2 "SkyboxPass").addInput (.input "output_res_target" .fbo), Graph.standardNode 3 "FxaaPass",
    Graph.standardNode 4 "PresentToScreenPass"]
  links := [⟨0, "output", 2, "output_res_target"⟩, ⟨1, "output_res", 2, "input_res"⟩, ⟨2, "output_res", 3, "input_res"⟩,
    ⟨3, "output_res", 4, "input_res"⟩]
  frames := []

/-- A render target with every part of its spec given. -/
def paintedTarget : Node :=
  { Graph.standardNode 0 "FBO" with
    params := .ofList [("format", .text "RGBA16F"), ("samples", .whole 4), ("size_mode", .text "fixed"), ("width", .ofInt 640),
      ("height", .whole 360), ("clear_color_value", .list [.ratio 1 4, .whole 0, .ofInt 1]), ("clear_depth", .bool true),
      ("clear_depth_value", .ratio 1 2)] }

/-- A render target with a number of samples that there is not. -/
def oddTarget : Node := { Graph.standardNode 5 "FBO" with params := .ofList [("samples", .ofInt 3)] }

/-- The redirected sky on a render target with a spec of its own, and a depth pass that draws to one that is refused. -/
def paintedSky : Snapshot :=
  { redirectedSky with
    nodes := paintedTarget :: redirectedSky.nodes.tail ++ [oddTarget, Graph.standardNode 6 "DepthPass"]
    links := redirectedSky.links ++ [⟨5, "output", 6, "depth_res_target"⟩] }

/-- The color pass's name stands for the buffer, with the parameters of the render target that shares it; the one that is
refused is reported; and the buffer behind the antialiasing is used by no class that asks for anything. -/
theorem paintedSky_specs :
    let o := Compiler.standard.compile paintedSky
    (∀ name ∈ ["fbo_0", "fbo_5", "FxaaPass_3_output_res"], Used o.pipeline.passes name ∧
      (resolve paintedSky.nodes paintedSky.links).isPlaceholder name = false ∧
      (resolve paintedSky.nodes paintedSky.links).kind? name = some .fbo) ∧
    (Schedule.aliases o.pipeline.passes).canonical "fbo_0" = "ColorPass_1_output_res" ∧
    (∃ spec ∈ o.pipeline.specs, spec.name = "ColorPass_1_output_res" ∧ TargetSpec.Asks paintedTarget.params spec ∧
      spec.format = .rgba16Float ∧ spec.samples = 4 ∧ spec.size = .fixed 640 360 ∧
      spec.clearColor = some ⟨Binary.ofQuotient false 1 4, Binary.ofNat 0, Binary.ofNat 1, Binary.ofNat 1⟩ ∧
      spec.clearDepth = some (Binary.ofQuotient false 1 2)) ∧
    (¬ ∃ spec, TargetSpec.Asks oddTarget.params spec) ∧ TargetSpec.Refuses oddTarget.params (.invalidSamples 3) ∧
    (∃ d ∈ o.diagnostics, d.isError = true ∧ d.problem = .omitted "fbo_5" (.invalidSamples 3)) ∧
    ¬ ∃ spec ∈ o.pipeline.specs, spec.name = "FxaaPass_3_output_res" := by
  intro o
  have hnames : ∀ name ∈ ["fbo_0", "fbo_5", "FxaaPass_3_output_res"], Used o.pipeline.passes name ∧
      (resolve paintedSky.nodes paintedSky.links).isPlaceholder name = false ∧
      (resolve paintedSky.nodes paintedSky.links).kind? name = some .fbo := by decide +kernel
  have hcanonical : (Schedule.aliases o.pipeline.passes).canonical "fbo_0" = "ColorPass_1_output_res" ∧
      (Schedule.aliases o.pipeline.passes).canonical "fbo_5" = "fbo_5" ∧
      (Schedule.aliases o.pipeline.passes).canonical "FxaaPass_3_output_res" = "FxaaPass_3_output_res" := by decide +kernel
  have hgroups : let group := group (resolve paintedSky.nodes paintedSky.links) o.pipeline.passes
      group "ColorPass_1_output_res" = ["ColorPass_1_output_res", "ColorPass_1_output_res", "fbo_0", "fbo_0"] ∧
      group "fbo_5" = ["fbo_5"] ∧ group "FxaaPass_3_output_res" = ["FxaaPass_3_output_res", "FxaaPass_3_output_res"] := by
    decide +kernel
  have hdeclaring : declaring? paintedSky "ColorPass_1_output_res" = none ∧ declaring? paintedSky "fbo_0" = some (paintedTarget, 0) ∧
      declaring? paintedSky "fbo_5" = some (oddTarget, 5) ∧ declaring? paintedSky "FxaaPass_3_output_res" = none := by decide +kernel
  have hspecs : o.pipeline.specs = [⟨"ColorPass_1_output_res", .rgba16Float, 4, .fixed 640 360,
      some ⟨Binary.ofQuotient false 1 4, Binary.ofNat 0, Binary.ofNat 1, Binary.ofNat 1⟩,
      some (Binary.ofQuotient false 1 2), none⟩] := by decide +kernel
  have hdiagnostics : o.diagnostics = [⟨some 5, .omitted "fbo_5" (.invalidSamples 3)⟩] := by decide +kernel
  refine ⟨hnames, hcanonical.1, ?_, ?_⟩
  · obtain ⟨hused, hreal, hfbo⟩ := hnames "fbo_0" (by decide)
    have h := (compile_keeps_targets (c := .standard) rfl hused hreal hfbo).1 "fbo_0"
    rw [hcanonical.1, hgroups.1] at h
    obtain ⟨e, he, h⟩ := h (by decide) (by rw [hdeclaring.2.1]; rfl)
    simp only [List.findSome?_cons, hdeclaring, Option.some.injEq] at he
    subst he
    rcases h with ⟨spec, hspec, hname, hasks⟩ | ⟨-, -, cause, -, d, hd, -, hproblem⟩
    · have hmem := hspec
      rw [hspecs, List.mem_singleton] at hmem
      subst hmem
      exact ⟨_, hspec, hname, hasks, rfl, rfl, rfl, rfl, rfl⟩
    · rw [hdiagnostics, List.mem_singleton] at hd
      subst hd
      exact absurd (Problem.omitted.inj hproblem).1 (by decide)
  · obtain ⟨hused, hreal, hfbo⟩ := hnames "fbo_5" (by decide)
    have h := (compile_keeps_targets (c := .standard) rfl hused hreal hfbo).1 "fbo_5"
    rw [hcanonical.2.1, hgroups.2.1] at h
    obtain ⟨e, he, h⟩ := h (by decide) (by rw [hdeclaring.2.2.1]; rfl)
    simp only [List.findSome?_cons, hdeclaring, Option.some.injEq] at he
    subst he
    rcases h with ⟨spec, hspec, hname, -⟩ | ⟨hnone, -, cause, hcause, d, hd, herror, hproblem⟩
    · rw [hspecs, List.mem_singleton] at hspec
      subst hspec
      exact absurd hname (by decide)
    · have hmem := hd
      rw [hdiagnostics, List.mem_singleton] at hmem
      subst hmem
      cases hproblem
      refine ⟨hnone, hcause, ⟨_, hd, herror, rfl⟩, ?_⟩
      obtain ⟨hused, hreal, hfbo⟩ := hnames "FxaaPass_3_output_res" (by decide)
      have h := (compile_keeps_targets (c := .standard) rfl hused hreal hfbo).2
      rw [hcanonical.2.2, hgroups.2.2] at h
      rw [h (by simp [hdeclaring])]
      decide +kernel

end RenderGraph.Compile
