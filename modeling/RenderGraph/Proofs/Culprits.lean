import RenderGraph.Proofs.Parameters
/-!
# The node that a refused spec is reported with

The parameters behind a spec are those of the first node that declares the
canonical name of the render target or another name of its buffer. The report
about a refusal looks for the node once more, and by the canonical name alone
(`omitted?_eq_some_iff`).

`reported_node`: a report never points at a node that is not to blame, but it
points at the one that is just where that node declares the canonical name. Where
a pass works in place on what another one drew and is redirected into a render
target, the report has no node (`refusedSky_without_node`).
-/

namespace RenderGraph.Compile

open Naming

section Culprits
variable {c : Compiler} {s : Snapshot}

/-- A spec is reported just if the first node that declares one of its names has parameters that are refused. -/
theorem omitted?_eq_some_iff {target : String} {u : Usage} {d : Diagnostic} :
    omitted? (contextOf c s) (target, u) = some d ↔
      ∃ e cause, (target :: u.members).findSome? (declaring? s) = some e ∧
        TargetSpec.declared target e.1.params = .error cause ∧
        d = ⟨(declaring? s target).map Prod.snd, .omitted target cause⟩ := by
  have hnode : (contextOf c s).declared.get? target = (declaring? s target).map Prod.snd := get?_declarations _ target
  rw [omitted?, specOf_contextOf, hnode]
  cases (target :: u.members).findSome? (declaring? s) with
  | none => simp [TargetSpec.infer_none]
  | some e =>
    rw [Option.map_some, TargetSpec.infer_some]
    constructor
    · intro h
      cases hbase : TargetSpec.declared target e.1.params with
      | ok spec =>
        rw [hbase] at h
        cases h
      | error cause =>
        rw [hbase] at h
        cases h
        exact ⟨e, cause, rfl, hbase, rfl⟩
    · rintro ⟨e', cause, he, hrefused, rfl⟩
      cases he
      rw [hrefused]
      rfl

theorem exists_omitted {d : Diagnostic} (hd : d ∈ (c.compile s).diagnostics) (hstage : d.stage = .inferring) :
    ∃ target u, (targets c s).get? target = some u ∧ omitted? (contextOf c s) (target, u) = some d := by
  have hne : s.passNodes ≠ [] := by
    intro hempty
    rw [compile_of_no_passes hempty] at hd
    cases hd
  have hmem : d ∈ (c.compile s).diagnostics.filter fun d => d.stage = .inferring :=
    List.mem_filter.2 ⟨hd, decide_eq_true hstage⟩
  rw [filter_diagnostics hne] at hmem
  obtain ⟨⟨target, u⟩, he, homitted⟩ := List.mem_filterMap.1 hmem
  exact ⟨target, u, (Table.get?_eq_some_iff _ _ _).2 he, homitted⟩

/-- A first value among the names that a spec looks for its node by is one among the names of the buffer. -/
theorem findSome?_members (hc : c.scheduler = Schedule.topological) {target : String} {u : Usage}
    (hu : (targets c s).get? target = some u) {β : Type} (f : String → Option β) :
    (target :: u.members).findSome? f =
      (target :: group (resolve s.nodes s.links) (c.compile s).pipeline.passes target).findSome? f := by
  rw [List.findSome?_cons, List.findSome?_cons, ((get?_usages _ _ _ _).1 hu).2, map_usesFor hc, findSome?_foldl_addNew,
    List.nil_append]

/-- Each report about a spec has a culprit: the first node that declares the canonical name or another name of the
buffer has parameters that are refused. The report points at this node if it is the canonical name that is
declared, and otherwise at none. -/
theorem reported_node (hc : c.scheduler = Schedule.topological) {d : Diagnostic} (hd : d ∈ (c.compile s).diagnostics)
    (hstage : d.stage = .inferring) :
    ∃ target cause n i, d.problem = .omitted target cause ∧
      (target :: group (resolve s.nodes s.links) (c.compile s).pipeline.passes target).findSome? (declaring? s) = some (n, i) ∧
      s.nodes[i]? = some n ∧ n.declaresTarget = true ∧ TargetSpec.declared target n.params = .error cause ∧
      d.node = if (declaring? s target).isSome then some i else none := by
  obtain ⟨target, u, hu, homitted⟩ := exists_omitted hd hstage
  obtain ⟨⟨n, i⟩, cause, hfirst, hcause, rfl⟩ := omitted?_eq_some_iff.1 homitted
  obtain ⟨name, -, hname⟩ := List.exists_of_findSome?_eq_some hfirst
  obtain ⟨hn, hdeclares⟩ := of_declaring? hname
  refine ⟨target, cause, n, i, rfl, (findSome?_members hc hu _).symm.trans hfirst, hn, hdeclares, hcause, ?_⟩
  -- The canonical name is tried first, so a node that declares it is the culprit.
  cases htarget : declaring? s target with
  | none => rfl
  | some e =>
    rw [List.findSome?_cons, htarget] at hfirst
    cases hfirst
    rfl

end Culprits

/-- Two render targets with parameters that are refused: the sky is redirected into the first one, and the depth pass
draws to the other one. -/
def refusedSky : Snapshot := refusedDepth.withParams 0 (.ofList [("format", .text "paper")])

/-- The render target that the depth pass draws to is the culprit of a report, and pointed at. -/
theorem refusedSky_with_node :
    let d : Diagnostic := ⟨some 5, .omitted "fbo_5" (.invalidSamples 3)⟩
    d ∈ (Compiler.standard.compile refusedSky).diagnostics ∧ d.stage = .inferring ∧
    ∃ n, refusedSky.nodes[5]? = some n ∧ n.declaresTarget = true ∧
      TargetSpec.declared "fbo_5" n.params = .error (.invalidSamples 3) := by
  intro d
  have hd : d ∈ (Compiler.standard.compile refusedSky).diagnostics := by decide +kernel
  refine ⟨hd, rfl, ?_⟩
  obtain ⟨target, cause, n, i, hproblem, -, hn, hdeclares, hcause, hnode⟩ := reported_node (c := .standard) rfl hd rfl
  cases hproblem
  split at hnode
  · cases hnode
    exact ⟨n, hn, hdeclares, hcause⟩
  · cases hnode

/-- The render target that the sky is redirected into is the culprit of a report too, which has no node. -/
theorem refusedSky_without_node :
    let d : Diagnostic := ⟨none, .omitted "ColorPass_1_output_res" (.unknownFormat "paper")⟩
    d ∈ (Compiler.standard.compile refusedSky).diagnostics ∧ d.stage = .inferring ∧ d.node = none ∧
    ∃ n, refusedSky.nodes[0]? = some n ∧ n.declaresTarget = true ∧
      TargetSpec.declared "ColorPass_1_output_res" n.params = .error (.unknownFormat "paper") := by
  intro d
  refine ⟨by decide +kernel, rfl, rfl, _, rfl, by decide +kernel, by decide +kernel⟩

end RenderGraph.Compile
