import RenderGraph.Proofs.Conserved
import RenderGraph.Proofs.Outline
import RenderGraph.Proofs.Sockets
import RenderGraph.Proofs.Targets
/-!
# What the parameters of a render target decide

Only specs are read off the parameters of a node that declares a render target.
Such a node declares one name, each name belongs to one buffer, and a spec takes
its node from the names of its own buffer (`canonical_of_member`). So there is
one spec that the node can decide, however many names are tried for each.

`compile_withParams` compares two compiles: everything else is the same in both.
-/

namespace RenderGraph

/-- The snapshot with other parameters for one of its nodes. -/
def Snapshot.withParams (s : Snapshot) (i : Nat) (params : Params) : Snapshot :=
  { s with nodes := s.nodes.modify i fun n => { n with params := params } }

/-- The render target whose spec is omitted. -/
def Diagnostic.target? (d : Diagnostic) : Option String :=
  match d.problem with
  | .omitted target _ => some target
  | _ => none

theorem Diagnostic.stage_of_target? {d : Diagnostic} {target : String} (h : d.target? = some target) :
    d.stage = .inferring := by
  obtain ⟨node, problem⟩ := d
  cases problem with
  | omitted target cause => rfl
  | skipped displayName cause => cases h
  | unordered cause => cases h

namespace Compile

open Naming

/-! ## What stays as it is -/

section WithParams
variable {c : Compiler} {s : Snapshot} {i : Nat} {n : Node} (hn : s.nodes[i]? = some n) (params : Params)

include hn in
theorem nodes_withParams : ∃ before after, before.length = i ∧ s.nodes = before ++ n :: after ∧
    (s.withParams i params).nodes = before ++ { n with params := params } :: after := by
  obtain ⟨hi, -⟩ := List.getElem?_eq_some_iff.1 hn
  obtain ⟨before, m, after, hnodes, hlength, hchanged⟩ := List.exists_of_modify (fun n => { n with params := params }) hi
  rw [hnodes, ← hlength, List.getElem?_append_right (Nat.le_refl _), Nat.sub_self] at hn
  obtain rfl : m = n := Option.some.inj hn
  exact ⟨before, after, hlength, hnodes, hchanged⟩

include hn in
theorem outline_withParams : (s.withParams i params).nodes.map Node.outline = s.nodes.map Node.outline := by
  obtain ⟨before, after, -, hnodes, hchanged⟩ := nodes_withParams hn params
  rw [hnodes, hchanged, List.map_append, List.map_append]
  rfl

include hn in
theorem viewports_withParams : (s.withParams i params).viewports = s.viewports := by
  obtain ⟨before, after, -, hnodes, hchanged⟩ := nodes_withParams hn params
  rw [Snapshot.viewports, Snapshot.viewports, hnodes, hchanged, List.map_append, List.map_append]
  rfl

include hn in
theorem resolve_withParams : resolve (s.withParams i params).nodes (s.withParams i params).links = resolve s.nodes s.links :=
  resolve_congr (outline_withParams hn params) s.links

include hn in
theorem contextOf_withParams : contextOf c (s.withParams i params) =
    { contextOf c s with nodes := (s.withParams i params).nodes } := by
  rw [contextOf, contextOf, resolve_withParams hn, declarations_congr (outline_withParams hn params),
    viewports_withParams hn]

variable (hpass : n.kind.isPass = false)
include hn hpass

/-- A node that becomes no pass is passed over, whatever its parameters are. -/
theorem passNodes_withParams : (s.withParams i params).passNodes = s.passNodes := by
  obtain ⟨before, after, -, hnodes, hchanged⟩ := nodes_withParams hn params
  rw [Snapshot.passNodes, Snapshot.passNodes, Snapshot.indexed, Snapshot.indexed, hnodes, hchanged]
  simp [List.zipIdx_append, hpass]

theorem ordered_withParams : ordered c (s.withParams i params) = ordered c s := by
  have hbuilt : nodePass? c (s.withParams i params) = nodePass? c s := by
    funext e
    rw [nodePass?, resolve_withParams hn]
    rfl
  rw [ordered, ordered, passNodes_withParams hn params hpass, hbuilt]

theorem targets_withParams : targets c (s.withParams i params) = targets c s := by
  rw [targets, targets, resolve_withParams hn, ordered_withParams hn params hpass]

end WithParams

/-! ## Parts of the output -/

theorem filter_filterMap_congr {α β : Type} {f g : α → Option β} {p : β → Bool} {items : List α}
    (h : ∀ a ∈ items, f a = g a ∨ (∀ b, f a = some b → p b = false) ∧ ∀ b, g a = some b → p b = false) :
    (items.filterMap f).filter p = (items.filterMap g).filter p := by
  rw [List.filter_filterMap, List.filter_filterMap]
  refine List.filterMap_congr fun a ha => ?_
  rcases h a ha with heq | ⟨hf, hg⟩
  · rw [heq]
  · have hnone {o : Option β} (ho : ∀ b, o = some b → p b = false) : o.filter p = none :=
      Option.filter_eq_none_iff.2 fun b hb => by rw [ho b hb]; exact Bool.false_ne_true
    rw [hnone hf, hnone hg]

theorem target?_of_omitted? {k : Context} {e : String × Usage} {d : Diagnostic} (h : omitted? k e = some d) :
    d.target? = some e.1 := by
  unfold omitted? at h
  split at h
  · cases h
  · cases h
    rfl

/-- Reports outside of specs are among those that are not about one render target. -/
theorem filter_stage_filter_target? (target : String) (ds : List Diagnostic) :
    (ds.filter fun d => d.target? ≠ some target).filter (fun d => d.stage ≠ .inferring) =
      ds.filter fun d => d.stage ≠ .inferring := by
  rw [List.filter_filter]
  refine List.filter_congr fun d _ => ?_
  by_cases h : d.target? = some target
  · simp [h, Diagnostic.stage_of_target? h]
  · simp [h]

/-! ## What a node decides -/

section Decides
variable {c : Compiler} {s : Snapshot} {i : Nat} {n : Node}

theorem exists_declaredName (hn : s.nodes[i]? = some n) (htarget : n.declaresTarget = true) :
    ∃ name, declaredName? (resolve s.nodes s.links) (n, i) = some name := by
  have houtput : ∃ o, n.outputs.head? = some o := by
    unfold Node.declaresTarget at htarget
    split at htarget
    · rename_i o ho
      exact ⟨o, by rw [ho]; rfl⟩
    · simp at htarget
  obtain ⟨o, ho⟩ := houtput
  rw [declaredName?, if_pos htarget, ho]
  exact Option.isSome_iff_exists.1 (exists_name (hasSocket_output hn (List.mem_of_head? ho)))

theorem declaredName?_of_get? {name : String} {j : Nat} (h : (declarations s (resolve s.nodes s.links)).get? name = some j) :
    ∃ m, s.nodes[j]? = some m ∧ declaredName? (resolve s.nodes s.links) (m, j) = some name := by
  rw [get?_declarations] at h
  obtain ⟨⟨m, j⟩, he, rfl⟩ := Option.map_eq_some_iff.1 h
  have hmem := List.mem_of_find?_eq_some he
  rw [Snapshot.indexed, List.mem_zipIdx_iff_getElem?] at hmem
  exact ⟨m, hmem, of_decide_eq_true (List.find?_some he :)⟩

variable (hc : c.scheduler = Schedule.topological)
include hc

/-- The names that a spec looks for its node by are those of its own buffer. -/
theorem canonical_of_member {target name : String} {u : Usage} (hu : (targets c s).get? target = some u)
    (hname : name ∈ target :: u.members) : (Schedule.aliases (c.compile s).pipeline.passes).canonical name = target := by
  rcases List.mem_cons.1 hname with rfl | hmember
  · obtain ⟨used, -, -, hcanonical⟩ := exists_use hc hu
    rw [← hcanonical]
    exact Aliases.canonical_canonical (Aliases.acyclic_assignAll _) used
  · rw [((get?_usages _ _ _ _).1 hu).2, map_usesFor hc, mem_foldl_addNew] at hmember
    exact (mem_group.1 (hmember.resolve_left List.not_mem_nil)).2.2

variable (hn : s.nodes[i]? = some n) (params : Params) {target : String}
  (hdecides : ∀ name, declaredName? (resolve s.nodes s.links) (n, i) = some name →
    (Schedule.aliases (c.compile s).pipeline.passes).canonical name = target)
include hn hdecides

/-- The spec of a buffer that a node declares no name of does not see the parameters of that node. -/
theorem specOf_withParams {e : String × Usage} (he : e ∈ (targets c s).entries) (hne : e.1 ≠ target) :
    specOf (contextOf c (s.withParams i params)) e.1 e.2 = specOf (contextOf c s) e.1 e.2 := by
  have hnode : (((e.1 :: e.2.members).findSome? (contextOf c s).declared.get?).bind fun j => (s.withParams i params).nodes[j]?) =
      (((e.1 :: e.2.members).findSome? (contextOf c s).declared.get?).bind fun j => s.nodes[j]?) := by
    cases hfirst : (e.1 :: e.2.members).findSome? (contextOf c s).declared.get? with
    | none => rfl
    | some j =>
      obtain ⟨name, hname, hget⟩ := List.exists_of_findSome?_eq_some hfirst
      obtain ⟨m, hm, hdeclared⟩ := declaredName?_of_get? hget
      have hj : i ≠ j := by
        rintro rfl
        obtain rfl : n = m := Option.some.inj (hn.symm.trans hm)
        have hown := canonical_of_member hc ((Table.get?_eq_some_iff _ _ _).2 he) hname
        exact hne (hown.symm.trans (hdecides name hdeclared))
      simp [Snapshot.withParams, hj]
  rw [contextOf_withParams hn]
  simp only [specOf, hnode]
  rfl

variable (hpass : n.kind.isPass = false)
include hpass

theorem specs_withParams : ((c.compile (s.withParams i params)).pipeline.specs.filter fun spec => spec.name ≠ target) =
    (c.compile s).pipeline.specs.filter fun spec => spec.name ≠ target := by
  rw [specs_compile, specs_compile, targets_withParams hn params hpass]
  refine filter_filterMap_congr fun e he => ?_
  by_cases hne : e.1 = target
  · refine .inr ⟨fun spec hs => ?_, fun spec hs => ?_⟩ <;>
      simpa [hne] using name_of_specOf (spec?_eq_some_iff.1 hs)
  · exact .inl (by rw [spec?, spec?, specOf_withParams hc hn params hdecides he hne])

theorem diagnostics_withParams (hne : s.passNodes ≠ []) :
    ((c.compile (s.withParams i params)).diagnostics.filter fun d => d.target? ≠ some target) =
      (c.compile s).diagnostics.filter fun d => d.target? ≠ some target := by
  have hpassNodes := passNodes_withParams hn params hpass
  have homitted : ((targets c s).entries.filterMap (omitted? (contextOf c (s.withParams i params)))).filter
      (fun d => d.target? ≠ some target) =
        ((targets c s).entries.filterMap (omitted? (contextOf c s))).filter fun d => d.target? ≠ some target := by
    refine filter_filterMap_congr fun e he => ?_
    by_cases hne : e.1 = target
    · refine .inr ⟨fun d hd => ?_, fun d hd => ?_⟩ <;> simp [target?_of_omitted? hd, hne]
    · left
      rw [omitted?, omitted?, specOf_withParams hc hn params hdecides he hne, contextOf_withParams hn]
  have hskipped : skipped? c.catalog (s.withParams i params) = skipped? c.catalog s := rfl
  rw [diagnostics_compile hne, diagnostics_compile (hpassNodes ▸ hne), ordered_withParams hn params hpass,
    targets_withParams hn params hpass, hpassNodes, resolve_withParams hn, hskipped, List.filter_append, homitted,
    ← List.filter_append]

end Decides

/-- The parameters of a node that declares a render target decide about one render target at most, that of the name
which it declares. The passes and their order, each other spec, and what is reported of anything else are the same with
other parameters. -/
theorem compile_withParams {c : Compiler} (hc : c.scheduler = Schedule.topological) {s : Snapshot} {i : Nat} {n : Node}
    (hn : s.nodes[i]? = some n) (htarget : n.declaresTarget = true) (params : Params) :
    let o := c.compile s
    let o' := c.compile (s.withParams i params)
    o'.pipeline.name = o.pipeline.name ∧ o'.pipeline.passes = o.pipeline.passes ∧
    (o'.diagnostics.filter fun d => d.stage ≠ .inferring) = (o.diagnostics.filter fun d => d.stage ≠ .inferring) ∧
    ∃ name, declaredName? (resolve s.nodes s.links) (n, i) = some name ∧
      let target := (Schedule.aliases o.pipeline.passes).canonical name
      (o'.pipeline.specs.filter fun spec => spec.name ≠ target) = (o.pipeline.specs.filter fun spec => spec.name ≠ target) ∧
      (o'.diagnostics.filter fun d => d.target? ≠ some target) = (o.diagnostics.filter fun d => d.target? ≠ some target) := by
  intro o o'
  have hpass : n.kind.isPass = false := by
    obtain ⟨hkind, -⟩ := Bool.and_eq_true_iff.1 htarget
    rw [of_decide_eq_true hkind]
    rfl
  have hpassNodes := passNodes_withParams hn params hpass
  obtain ⟨name, hname⟩ := exists_declaredName hn htarget
  by_cases hempty : s.passNodes = []
  · have hsame : o' = o := (compile_of_no_passes (hpassNodes.trans hempty)).trans (compile_of_no_passes hempty).symm
    rw [hsame]
    exact ⟨rfl, rfl, rfl, name, hname, rfl, rfl⟩
  have hdecides : ∀ name', declaredName? (resolve s.nodes s.links) (n, i) = some name' →
      (Schedule.aliases o.pipeline.passes).canonical name' = (Schedule.aliases o.pipeline.passes).canonical name := by
    intro name' hname'
    rw [Option.some.inj (hname'.symm.trans hname)]
  have hreports := diagnostics_withParams hc hn params hdecides hpass hempty
  refine ⟨?_, ?_, ?_, name, hname, specs_withParams hc hn params hdecides hpass, hreports⟩
  · rw [show o'.pipeline.name = _ from name_compile (hpassNodes ▸ hempty), show o.pipeline.name = _ from name_compile hempty]
    rfl
  · rw [← passes_ordered, ← passes_ordered, ordered_withParams hn params hpass]
  · rw [← filter_stage_filter_target?, hreports, filter_stage_filter_target?]

/-- The redirected sky, and a depth pass that draws to a render target whose parameters are refused. -/
def refusedDepth : Snapshot :=
  { redirectedSky with
    nodes := redirectedSky.nodes ++
      [{ Graph.standardNode 5 "FBO" with params := .ofList [("samples", .ofInt 3)] }, Graph.standardNode 6 "DepthPass"]
    links := redirectedSky.links ++ [⟨5, "output", 6, "depth_res_target"⟩] }

/-- With a format that there is not, the first render target loses its spec, under the name of the color pass that shares
the buffer. The report about the other one stays. -/
theorem refusedDepth_withParams :
    let o := Compiler.standard.compile refusedDepth
    let o' := Compiler.standard.compile (refusedDepth.withParams 0 (.ofList [("format", .text "paper")]))
    o.pipeline.specs.map TargetSpec.name = ["ColorPass_1_output_res"] ∧ o'.pipeline.specs = [] ∧
    o'.pipeline.passes = o.pipeline.passes ∧
    (o'.diagnostics.filter fun d => d.target? ≠ some "ColorPass_1_output_res") =
      [⟨some 5, .omitted "fbo_5" (.invalidSamples 3)⟩] := by
  intro o o'
  obtain ⟨-, hpasses, -, name, hname, -, hreports⟩ := compile_withParams (c := .standard) rfl (s := refusedDepth) (i := 0)
    (n := Graph.standardNode 0 "FBO") rfl (by decide +kernel) (.ofList [("format", .text "paper")])
  have hdeclared : declaredName? (resolve refusedDepth.nodes refusedDepth.links) (Graph.standardNode 0 "FBO", 0) = some "fbo_0" := by
    decide +kernel
  obtain rfl : name = "fbo_0" := Option.some.inj (hname.symm.trans hdeclared)
  have htarget : (Schedule.aliases o.pipeline.passes).canonical "fbo_0" = "ColorPass_1_output_res" := by decide +kernel
  rw [show Compiler.standard.compile refusedDepth = o from rfl, htarget] at hreports
  refine ⟨by decide +kernel, by decide +kernel, hpasses, hreports.trans ?_⟩
  decide +kernel

end Compile

end RenderGraph
