import RenderGraph.Proofs.Links
import RenderGraph.Proofs.Specs
/-!
# No pass is lost, whatever the scheduler answers

Nothing is asked of the scheduler: it may fail, leave passes out, name one twice
or one that there is not. Its answer counts just if it is an order of the passes
(`scheduled_eq_ok_iff`), and is reported otherwise.

`compile_conserves_passes`: the pipeline has the pass of each node that has one,
once, in the order of the answer or else in that of the nodes; each pass is what
its node says (`Carries`); and the nodes without a pass are reported one by one.
So a compile has failed just if a node has no pass or a spec is refused.
-/

namespace RenderGraph.Compile

open Naming

/-- The pass says of its node the class, the name, the viewport, and the resources at its sockets, those of `_target`
inputs left out. -/
structure Carries (s : Snapshot) (e : Node × Nat) (p : Pass) : Prop where
  className : p.className = e.1.title
  name : p.name = e.1.displayName
  viewport : p.viewport = viewportOf s.frames e.1
  inputs : ∀ socket name, p.inputs.get? socket = some name ↔
    (∃ t ∈ e.1.inputs, t.isTarget = false ∧ t.name = socket) ∧ (resolve s.nodes s.links).input? e.2 socket = some name
  outputs : ∀ socket name, p.outputs.get? socket = some name ↔
    (∃ t ∈ e.1.outputs, t.name = socket) ∧ (resolve s.nodes s.links).output? e.2 socket = some name

section Conserved
variable {c : Compiler} {s : Snapshot}

theorem carries {e : Node × Nat} {p : Pass} (h : nodePass? c s e = some p) : Carries s e p := by
  obtain ⟨k, config, rest, hk, -, rfl⟩ := build_eq_ok (pass?_eq_some_iff.1 h)
  refine ⟨Catalog.name_of_find? hk, rfl, rfl, fun socket name => ?_, fun socket name => ?_⟩
  · refine get?_named_iff.trans (and_congr_left' ?_)
    simp only [List.mem_filter, Bool.not_eq_true', and_assoc]
  · exact get?_named_iff

/-- The values of a list, each with the item it is the value of. -/
theorem forall₂_filterMap {α β : Type} (f : α → Option β) (items : List α) :
    List.Forall₂ (fun a b => f a = some b) (items.filter fun a => (f a).isSome) (items.filterMap f) := by
  induction items with
  | nil => exact .nil
  | cons a items ih =>
    cases hf : f a with
    | none => rw [List.filter_cons_of_neg (by simp [hf]), List.filterMap_cons_none hf]; exact ih
    | some b => rw [List.filter_cons_of_pos (by simp [hf]), List.filterMap_cons_some hf]; exact .cons hf ih

/-! ## The order -/

theorem scheduled_eq_ok_iff {scheduler : Scheduler} {passes : List Pass} {schedule : Schedule} :
    scheduled scheduler passes = .ok schedule ↔
      scheduler passes = .ok schedule ∧ schedule.order.Perm (List.range passes.length) := by
  constructor
  · intro h
    refine ⟨?_, scheduled_eq_ok h⟩
    unfold scheduled at h
    split at h
    · cases h
    · rename_i hs
      split at h
      · cases h
      · cases h; exact hs
  · rintro ⟨hs, hperm⟩
    simp only [scheduled, hs, (orderFault?_eq_none_iff _ _).2 hperm]

/-- The passes of a snapshot in the order of their nodes. -/
def builtPasses (c : Compiler) (s : Snapshot) : List Pass := s.passNodes.filterMap (nodePass? c s)

theorem passes_of_ok {schedule : Schedule} (h : scheduled c.scheduler (builtPasses c s) = .ok schedule) (x : Nat) :
    (c.compile s).pipeline.passes[x]? = (schedule.order[x]?).bind fun i => (builtPasses c s)[i]? := by
  have hperm := scheduled_eq_ok h
  rw [← passes_ordered, ordered, passes_order, show scheduled c.scheduler (s.passNodes.filterMap (nodePass? c s)) = _ from h]
  exact getElem?_arrange (fun i hi => List.mem_range.1 (hperm.mem_iff.1 hi)) x

theorem passes_of_error {cause : ScheduleError} (h : scheduled c.scheduler (builtPasses c s) = .error cause) :
    (c.compile s).pipeline.passes = builtPasses c s := by
  rw [← passes_ordered, ordered, passes_order, show scheduled c.scheduler (s.passNodes.filterMap (nodePass? c s)) = _ from h]
  rfl

/-- The passes in their order are those of the nodes that have one, in some order, and each is what its node says. -/
theorem exists_perm_passes (c : Compiler) (s : Snapshot) : ∃ es, es.Perm (built c s) ∧
    List.Forall₂ (fun e p => nodePass? c s e = some p ∧ Carries s e p) es (c.compile s).pipeline.passes := by
  refine ⟨nodesInOrder c s, perm_nodesInOrder c s, ?_⟩
  have hall : (nodesInOrder c s).filter (fun e => (nodePass? c s e).isSome) = nodesInOrder c s := by
    rw [List.filter_eq_self]
    exact fun e he => (List.mem_filter.1 ((perm_nodesInOrder c s).mem_iff.1 he)).2
  have h := forall₂_filterMap (nodePass? c s) (nodesInOrder c s)
  rw [hall, ← passes_compile] at h
  exact h.imp fun e p hp => ⟨hp, carries hp⟩

/-! ## The reports -/

theorem diagnostics_compile (hne : s.passNodes ≠ []) : (c.compile s).diagnostics =
    s.passNodes.filterMap (skipped? c.catalog s (resolve s.nodes s.links)) ++ (ordered c s).diagnostics ++
      (targets c s).entries.filterMap (omitted? (contextOf c s)) := by
  unfold Compiler.compile
  rw [if_neg (by simpa using hne)]
  rfl

theorem stage_ordered {d : Diagnostic} (h : d ∈ (ordered c s).diagnostics) : d.stage = .scheduling := by
  unfold ordered order at h
  split at h
  · cases h
  · obtain rfl := List.mem_singleton.1 h
    rfl

theorem filter_stage {ds : List Diagnostic} {stage : Stage} (h : ∀ d ∈ ds, d.stage = stage) (wanted : Stage) :
    ds.filter (fun d => d.stage = wanted) = if stage = wanted then ds else [] := by
  split
  · rename_i hs
    rw [List.filter_eq_self]
    intro d hd
    simp [h d hd, hs]
  · rename_i hs
    rw [List.filter_eq_nil_iff]
    intro d hd
    simp [h d hd, hs]

/-- The stages report one after another, each on what it found. -/
theorem filter_diagnostics (hne : s.passNodes ≠ []) (wanted : Stage) :
    ((c.compile s).diagnostics.filter fun d => d.stage = wanted) =
      (if .building = wanted then s.passNodes.filterMap (skipped? c.catalog s (resolve s.nodes s.links)) else []) ++
        (if .scheduling = wanted then (ordered c s).diagnostics else []) ++
        if .inferring = wanted then (targets c s).entries.filterMap (omitted? (contextOf c s)) else [] := by
  rw [diagnostics_compile hne, List.filter_append, List.filter_append, filter_stage (fun d hd => ?_) wanted,
    filter_stage (fun _ => stage_ordered) wanted, filter_stage (fun d hd => ?_) wanted]
  · obtain ⟨e, -, he⟩ := List.mem_filterMap.1 hd
    exact stage_omitted? he
  · obtain ⟨e, -, he⟩ := List.mem_filterMap.1 hd
    exact stage_skipped? he

theorem skipped?_eq_some_iff {e : Node × Nat} {d : Diagnostic} :
    skipped? c.catalog s (resolve s.nodes s.links) e = some d ↔
      ∃ cause, passOf c.catalog s (resolve s.nodes s.links) e.1 e.2 = .error cause ∧
        d = ⟨some e.2, .skipped e.1.displayName cause⟩ := by
  unfold skipped?
  cases passOf c.catalog s (resolve s.nodes s.links) e.1 e.2 with
  | ok p => simp
  | error cause => simp [eq_comm]

theorem skipped?_eq_none_iff {e : Node × Nat} :
    skipped? c.catalog s (resolve s.nodes s.links) e = none ↔ (nodePass? c s e).isSome := by
  unfold skipped? nodePass? pass?
  cases passOf c.catalog s (resolve s.nodes s.links) e.1 e.2 <;> simp [Except.toOption]

/-- The nodes without a pass, each with the report on it. -/
theorem forall₂_skipped (hne : s.passNodes ≠ []) :
    List.Forall₂ (fun e d => ∃ cause, passOf c.catalog s (resolve s.nodes s.links) e.1 e.2 = .error cause ∧
        d = ⟨some e.2, .skipped e.1.displayName cause⟩ ∧ d.severity = .error)
      (s.passNodes.filter fun e => (nodePass? c s e).isNone)
      ((c.compile s).diagnostics.filter fun d => d.stage = .building) := by
  have hskipped : (s.passNodes.filter fun e => (nodePass? c s e).isNone) =
      s.passNodes.filter fun e => (skipped? c.catalog s (resolve s.nodes s.links) e).isSome := by
    refine List.filter_congr fun e _ => ?_
    have h := skipped?_eq_none_iff (c := c) (s := s) (e := e)
    rw [← Option.isNone_iff_eq_none] at h
    rw [← Option.not_isSome, ← Bool.eq_iff_iff.2 h, Option.not_isNone]
  rw [hskipped, filter_diagnostics hne]
  simp only [if_true, reduceCtorEq, if_false, List.append_nil]
  refine (forall₂_filterMap _ _).imp fun e d hd => ?_
  obtain ⟨cause, hcause, rfl⟩ := skipped?_eq_some_iff.1 hd
  exact ⟨cause, hcause, rfl, rfl⟩

theorem omitted?_eq_none_iff {k : Context} {e : String × Usage} :
    omitted? k e = none ↔ ∃ spec, specOf k e.1 e.2 = .ok spec := by
  unfold omitted?
  cases specOf k e.1 e.2 <;> simp

/-- Only a node without a pass and a spec that is refused are errors; that there is no order is a warning. -/
theorem isEmpty_errors_iff (hne : s.passNodes ≠ []) : (c.compile s).errors.isEmpty ↔
    (∀ e ∈ s.passNodes, (nodePass? c s e).isSome) ∧
      ∀ e ∈ (targets c s).entries, ∃ spec, specOf (contextOf c s) e.1 e.2 = .ok spec := by
  have hskipped : ∀ e d, skipped? c.catalog s (resolve s.nodes s.links) e = some d → d.isError = true := by
    intro e d he
    obtain ⟨cause, -, rfl⟩ := skipped?_eq_some_iff.1 he
    rfl
  have homitted : ∀ e d, omitted? (contextOf c s) e = some d → d.isError = true := by
    intro e d he
    unfold omitted? at he
    split at he <;> cases he
    rfl
  have hordered : ∀ d ∈ (ordered c s).diagnostics, d.isError = false := by
    intro d hd
    unfold ordered order at hd
    split at hd
    · cases hd
    · obtain rfl := List.mem_singleton.1 hd
      rfl
  rw [CompileOutput.errors, errorsOf, diagnostics_compile hne, List.isEmpty_iff, List.filter_eq_nil_iff]
  constructor
  · intro h
    refine ⟨fun e he => skipped?_eq_none_iff.1 (Option.eq_none_iff_forall_ne_some.2 fun d hd => ?_),
      fun e he => omitted?_eq_none_iff.1 (Option.eq_none_iff_forall_ne_some.2 fun d hd => ?_)⟩
    · exact h d (by simp only [List.mem_append, List.mem_filterMap]; exact .inl (.inl ⟨e, he, hd⟩)) (hskipped e d hd)
    · exact h d (by simp only [List.mem_append, List.mem_filterMap]; exact .inr ⟨e, he, hd⟩) (homitted e d hd)
  · rintro ⟨hpasses, hspecs⟩ d hd
    simp only [List.mem_append, List.mem_filterMap] at hd
    rcases hd with (⟨e, he, hd⟩ | hd) | ⟨e, he, hd⟩
    · rw [skipped?_eq_none_iff.2 (hpasses e he)] at hd
      cases hd
    · rw [hordered d hd]
      exact Bool.false_ne_true
    · rw [omitted?_eq_none_iff.2 (hspecs e he)] at hd
      cases hd

/-- Whatever the scheduler answers, a pipeline has the pass of each node that has one, once, and each pass is what its
node says. The passes stand in the order of the answer if that is an order of them, without a report on the order, and
else in the order of the nodes, with one warning. The nodes without a pass are reported in order, and the compile is
good just if there are none and no spec is refused. -/
theorem compile_conserves_passes (hne : s.passNodes ≠ []) :
    let o := c.compile s
    let passes := builtPasses c s
    (∃ es, es.Perm (built c s) ∧
      List.Forall₂ (fun e p => nodePass? c s e = some p ∧ Carries s e p) es o.pipeline.passes) ∧
    (∀ schedule, c.scheduler passes = .ok schedule → schedule.order.Perm (List.range passes.length) →
      (∀ x : Nat, o.pipeline.passes[x]? = (schedule.order[x]?).bind fun i => passes[i]?) ∧
        ∀ d ∈ o.diagnostics, d.stage ≠ .scheduling) ∧
    ((∀ schedule, c.scheduler passes = .ok schedule → ¬ schedule.order.Perm (List.range passes.length)) →
      o.pipeline.passes = passes ∧
        ∃ cause, (o.diagnostics.filter fun d => d.stage = .scheduling) = [⟨none, .unordered cause⟩] ∧
          (Problem.unordered cause).severity = .warning) ∧
    List.Forall₂ (fun e d => ∃ cause, passOf c.catalog s (resolve s.nodes s.links) e.1 e.2 = .error cause ∧
        d = ⟨some e.2, .skipped e.1.displayName cause⟩ ∧ d.severity = .error)
      (s.passNodes.filter fun e => (nodePass? c s e).isNone) (o.diagnostics.filter fun d => d.stage = .building) ∧
    ((∃ p, o.result = .ok p) ↔ (∀ e ∈ s.passNodes, (nodePass? c s e).isSome) ∧
      ∀ e ∈ (targets c s).entries, ∃ spec, specOf (contextOf c s) e.1 e.2 = .ok spec) := by
  intro o passes
  refine ⟨exists_perm_passes c s, ?_, ?_, forall₂_skipped hne, ?_⟩
  · intro schedule hs hperm
    have hok := scheduled_eq_ok_iff.2 ⟨hs, hperm⟩
    exact ⟨passes_of_ok hok, (inOrder_compile_iff c s hne).2 ⟨schedule, hok⟩⟩
  · intro hnone
    cases hs : scheduled c.scheduler passes with
    | ok schedule =>
      obtain ⟨hs, hperm⟩ := scheduled_eq_ok_iff.1 hs
      exact absurd hperm (hnone schedule hs)
    | error cause =>
      refine ⟨passes_of_error hs, cause, ?_, rfl⟩
      rw [filter_diagnostics hne]
      simp [ordered, order, show scheduled c.scheduler (s.passNodes.filterMap (nodePass? c s)) = _ from hs]
  · rw [← isEmpty_errors_iff hne, CompileOutput.result]
    split
    · rename_i h
      exact iff_of_true ⟨_, rfl⟩ h
    · rename_i h
      exact iff_of_false (by simp) h

end Conserved

/-- The contested effect beside a frame, with the color pass inside it. -/
def framedContest : Snapshot :=
  { contested with
    nodes := contested.nodes.modify 0 fun n => { n with position := ⟨Binary.ofNat 1000, Binary.ofNat 0⟩ }
    frames := [⟨"Frame", "main", .origin, ⟨Binary.ofNat 640, Binary.ofNat 480⟩⟩] }

/-- An answer that names one pass twice: the two passes stay where their nodes are, each with the viewport of its node,
the order is refused, and the node of a class that there is not makes the compile fail. -/
theorem framedContest_repeated :
    let o := Compiler.compile { Compiler.standard with scheduler := fun _ => .ok ⟨[1, 1], .empty⟩ } framedContest
    o.pipeline.passes.map Pass.className = ["BloomPass", "ColorPass"] ∧
      (∀ p ∈ o.pipeline.passes, p.viewport = if p.className = "BloomPass" then "" else "main") ∧
      (∃ cause, (o.diagnostics.filter fun d => d.stage = .scheduling) = [⟨none, .unordered cause⟩]) ∧
      ¬ ∃ p, o.result = .ok p := by
  intro o
  obtain ⟨⟨es, hperm, hcarried⟩, -, hfallback, -, hresult⟩ := compile_conserves_passes
    (c := { Compiler.standard with scheduler := fun _ => .ok ⟨[1, 1], .empty⟩ }) (s := framedContest) (by decide)
  obtain ⟨hpasses, cause, hcause, -⟩ := hfallback fun schedule hs hperm => by
    cases hs
    exact absurd (hperm.nodup_iff.2 List.nodup_range) (by decide)
  refine ⟨?_, fun p hp => ?_, ⟨cause, hcause⟩, fun h => ?_⟩
  · rw [hpasses]
    decide +kernel
  · have hplaced : ∀ e ∈ framedContest.passNodes, viewportOf framedContest.frames e.1 =
        if e.1.title = "BloomPass" then "" else "main" := by decide +kernel
    obtain ⟨hlength, hall⟩ := List.forall₂_iff_get.1 hcarried
    obtain ⟨i, hi, rfl⟩ := List.getElem_of_mem hp
    have hi' : i < es.length := by rwa [hlength]
    obtain ⟨-, hcarries⟩ := hall i hi' hi
    rw [List.get_eq_getElem, List.get_eq_getElem] at hcarries
    rw [hcarries.viewport, hcarries.className]
    exact hplaced _ (mem_built_iff.1 (hperm.mem_iff.1 (List.getElem_mem hi'))).1
  · exact absurd ((hresult.1 h).1) (by decide +kernel)

end RenderGraph.Compile
