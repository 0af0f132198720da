import RenderGraph.Proofs.Appended
import RenderGraph.Proofs.Parameters
/-!
# A node without a pass stays by itself

A compile reads names, kinds and placeholders from tables that all nodes share. What it reads of
the other nodes is the same with one more node that no link touches (`Naming.keeps_resolve`), so
their passes are, and with them the order and the uses of render targets. The node itself declares
nothing and has no pass.

`compile_adding`: with a pass node that cannot be built at the end, the pipeline is the same, and
there is one more report, on that node.
-/

namespace RenderGraph

/-- The snapshot with one more node, which comes last. -/
def Snapshot.adding (s : Snapshot) (u : Node) : Snapshot := { s with nodes := s.nodes ++ [u] }

namespace Compile

open Naming

variable {c : Compiler} {s : Snapshot} {u : Node}

theorem indexed_adding (s : Snapshot) (u : Node) : (s.adding u).indexed = s.indexed ++ [(u, s.nodes.length)] := by
  simp [Snapshot.indexed, Snapshot.adding, List.zipIdx_append]

theorem passNodes_adding (hkind : u.kind.isPass = true) : (s.adding u).passNodes = s.passNodes ++ [(u, s.nodes.length)] := by
  simp [Snapshot.passNodes, indexed_adding, hkind]

theorem ne_length_of_mem_indexed {e : Node × Nat} (he : e ∈ s.indexed) : e.2 ≠ s.nodes.length := by
  rw [Snapshot.indexed, List.mem_zipIdx_iff_getElem?] at he
  exact Nat.ne_of_lt (List.getElem?_eq_some_iff.1 he).1

theorem declaresTarget_of_isPass (hkind : u.kind.isPass = true) : u.declaresTarget = false := by
  unfold Node.declaresTarget
  cases hu : u.kind <;> simp [hu, NodeKind.isPass] at hkind ⊢

/-- What a pass reads or writes is the name of a socket. -/
theorem exists_key_of_used {name : String} (h : Used (c.compile s).pipeline.passes name) :
    ∃ key, (resolve s.nodes s.links).names.get? key = some name := by
  obtain ⟨p, hp, h⟩ := h
  obtain ⟨e, -, hp⟩ := exists_node hp
  rcases h with h | h
  · obtain ⟨t, -, -, hin⟩ := (mem_reads_iff (pass?_eq_some_iff.1 hp) name).1 h
    exact ⟨_, hin⟩
  · obtain ⟨o, -, hout⟩ := (mem_writes_iff (pass?_eq_some_iff.1 hp) name).1 h
    exact ⟨_, hout⟩

/-! ## What names decide -/

section Keeps
variable {r r' : Naming} (hkeeps : Keeps s.nodes.length r r')
include hkeeps

theorem bindingsOf_of_keeps (n : Node) {i : Nat} (hi : i ≠ s.nodes.length) : bindingsOf r' n i = bindingsOf r n i := by
  have hinput : ∀ socket, r'.input? i socket = r.input? i socket := fun socket => hkeeps.names _ hi
  have houtput : ∀ socket, r'.output? i socket = r.output? i socket := fun socket => hkeeps.names _ hi
  simp only [bindingsOf, hinput, houtput, Bindings.mk.injEq, true_and]
  refine congrArg (List.map Prod.fst) (List.filter_congr fun e he => ?_)
  have hname := (get?_named_iff.1 ((Table.get?_eq_some_iff _ _ _).2 he)).2
  exact hkeeps.placeholders _ _ hname

theorem passOf_adding (catalog : PassCatalog) {e : Node × Nat} (he : e ∈ s.indexed) :
    passOf catalog (s.adding u) r' e.1 e.2 = passOf catalog s r e.1 e.2 := by
  rw [passOf, passOf, bindingsOf_of_keeps hkeeps _ (ne_length_of_mem_indexed he)]
  rfl

/-- A node that becomes a pass declares nothing. -/
theorem declarations_adding (hkind : u.kind.isPass = true) : declarations (s.adding u) r' = declarations s r := by
  have hlast : declaredName? r' (u, s.nodes.length) = none := by simp [declaredName?, declaresTarget_of_isPass hkind]
  rw [declarations, declarations, indexed_adding, List.foldl_append, List.foldl_cons, List.foldl_nil, declare, hlast]
  refine List.foldl_ext _ _ _ fun declared e he => ?_
  have houtput : ∀ socket, r'.output? e.2 socket = r.output? e.2 socket := fun socket =>
    hkeeps.names _ (ne_length_of_mem_indexed he)
  simp only [declare, declaredName?, houtput]

end Keeps

/-- The reports on nodes without a pass get one more, which comes last. -/
theorem skipped_adding {catalog : PassCatalog} {r r' : Naming} (hkeeps : Keeps s.nodes.length r r')
    (hkind : u.kind.isPass = true) {cause : BuildError} (hcause : passOf catalog (s.adding u) r' u s.nodes.length = .error cause) :
    (s.adding u).passNodes.filterMap (skipped? catalog (s.adding u) r') =
      s.passNodes.filterMap (skipped? catalog s r) ++ [⟨some s.nodes.length, .skipped u.displayName cause⟩] := by
  have hlast : skipped? catalog (s.adding u) r' (u, s.nodes.length) = some ⟨some s.nodes.length, .skipped u.displayName cause⟩ := by
    rw [skipped?, hcause]
  rw [passNodes_adding hkind, List.filterMap_append, List.filterMap_cons_some hlast, List.filterMap_nil]
  refine congrArg (· ++ _) (List.filterMap_congr fun e he => ?_)
  rw [skipped?, skipped?, passOf_adding hkeeps catalog (List.mem_filter.1 he).1]

/-! ## A compile with one more node -/

section Adding
variable (hkeeps : Keeps s.nodes.length (resolve s.nodes s.links) (resolve (s.adding u).nodes (s.adding u).links))
  (hkind : u.kind.isPass = true)
include hkeeps hkind

theorem contextOf_adding : contextOf c (s.adding u) = { contextOf c s with nodes := (s.adding u).nodes } := by
  have hscopes : Scopes.of (declarations s (resolve s.nodes s.links)) (s.adding u).viewports (resolve s.nodes s.links).redirects =
      Scopes.of (declarations s (resolve s.nodes s.links)) s.viewports (resolve s.nodes s.links).redirects := by
    unfold Scopes.of
    refine congrArg (List.foldl _ · _) (List.foldl_ext _ _ _ fun scopes e he => ?_)
    obtain ⟨m, hm, -⟩ := declaredName?_of_get? ((Table.get?_eq_some_iff _ e.1 e.2).2 he)
    have hviewport : (s.adding u).viewports[e.2]? = s.viewports[e.2]? := by
      simp only [Snapshot.viewports, Snapshot.adding, List.getElem?_map]
      rw [getElem?_concat_of_ne u (Nat.ne_of_lt (List.getElem?_eq_some_iff.1 hm).1)]
    rw [Scopes.declare, Scopes.declare, hviewport]
  rw [contextOf, contextOf, declarations_adding hkeeps hkind, hkeeps.redirects, hscopes]

/-- The node of a spec is one that declares a name, so it is not the last one. -/
theorem specOf_adding (target : String) (usage : Usage) :
    specOf (contextOf c (s.adding u)) target usage = specOf (contextOf c s) target usage := by
  have hnode : (((target :: usage.members).findSome? (contextOf c s).declared.get?).bind fun i => (s.adding u).nodes[i]?) =
      ((target :: usage.members).findSome? (contextOf c s).declared.get?).bind fun i => s.nodes[i]? := by
    cases hfirst : (target :: usage.members).findSome? (contextOf c s).declared.get? with
    | none => rfl
    | some i =>
      obtain ⟨name, -, hget⟩ := List.exists_of_findSome?_eq_some hfirst
      obtain ⟨m, hm, -⟩ := declaredName?_of_get? hget
      exact getElem?_concat_of_ne u (Nat.ne_of_lt (List.getElem?_eq_some_iff.1 hm).1)
  rw [contextOf_adding hkeeps hkind]
  simp only [specOf, hnode]
  rfl

theorem spec?_adding : spec? (contextOf c (s.adding u)) = spec? (contextOf c s) := by
  funext e
  rw [spec?, spec?, specOf_adding hkeeps hkind]

theorem omitted?_adding : omitted? (contextOf c (s.adding u)) = omitted? (contextOf c s) := by
  funext e
  rw [omitted?, omitted?, specOf_adding hkeeps hkind, contextOf_adding hkeeps hkind]

variable (hbroken : nodePass? c (s.adding u) (u, s.nodes.length) = none)
include hbroken

theorem ordered_adding : ordered c (s.adding u) = ordered c s := by
  have hpasses : (s.adding u).passNodes.filterMap (nodePass? c (s.adding u)) = s.passNodes.filterMap (nodePass? c s) := by
    rw [passNodes_adding hkind, List.filterMap_append, List.filterMap_cons_none hbroken, List.filterMap_nil, List.append_nil]
    refine List.filterMap_congr fun e he => ?_
    rw [nodePass?, nodePass?, pass?, pass?, passOf_adding hkeeps _ (List.mem_filter.1 he).1]
  rw [ordered, ordered, hpasses]

/-- Passes use names of sockets, so what each use counts for is the same. -/
theorem targets_adding (hc : c.scheduler = Schedule.topological) : targets c (s.adding u) = targets c s := by
  have hordered := ordered_adding hkeeps hkind hbroken
  have hpasses : (c.compile (s.adding u)).pipeline.passes = (c.compile s).pipeline.passes := by
    rw [← passes_ordered, ← passes_ordered, hordered]
  rw [targets, targets, hordered, usages, usages]
  refine List.foldl_ext _ _ _ fun counted e he => ?_
  have htarget : targetName? (resolve (s.adding u).nodes (s.adding u).links) (ordered c s).aliases e.1 =
      targetName? (resolve s.nodes s.links) (ordered c s).aliases e.1 := by
    rw [passes_ordered] at he
    obtain ⟨p, hp, hname, -⟩ := mem_usesOf.1 he
    have hused : Used (c.compile s).pipeline.passes e.1 := ⟨p, hp, hname⟩
    have hused' : Used (c.compile (s.adding u)).pipeline.passes e.1 := by rwa [hpasses]
    obtain ⟨key, hkey⟩ := exists_key_of_used hused
    ext target
    rw [← hordered, targetName?_eq_some_iff hc hused', hordered, targetName?_eq_some_iff hc hused, hpasses,
      hkeeps.placeholders key _ hkey]
    refine and_congr_left' (and_congr_right fun hreal => ?_)
    rw [hkeeps.kinds key _ hkey hreal]
  rw [use, use, htarget]

theorem pipeline_adding (hc : c.scheduler = Schedule.topological) (hne : s.passNodes ≠ []) :
    (c.compile (s.adding u)).pipeline = (c.compile s).pipeline := by
  have hne' : (s.adding u).passNodes ≠ [] := by simp [passNodes_adding hkind]
  have hname : (c.compile (s.adding u)).pipeline.name = (c.compile s).pipeline.name := by
    rw [name_compile hne, name_compile hne']
    rfl
  have hpasses : (c.compile (s.adding u)).pipeline.passes = (c.compile s).pipeline.passes := by
    rw [← passes_ordered, ← passes_ordered, ordered_adding hkeeps hkind hbroken]
  have hspecs : (c.compile (s.adding u)).pipeline.specs = (c.compile s).pipeline.specs := by
    rw [specs_compile, specs_compile, targets_adding hkeeps hkind hbroken hc, spec?_adding hkeeps hkind]
  exact (Pipeline.mk.injEq ..).mpr ⟨hname, hpasses, hspecs⟩

end Adding

/-- A pass node that no link touches and that cannot be built is contained, if none of its placeholders is the name of a
socket: put last, it leaves the pipeline as it is, and all that is reported besides is an error on its position, behind
those on other nodes. -/
theorem compile_adding (catalog : PassCatalog) (settings : Settings) (s : Snapshot) (u : Node) (hne : s.passNodes ≠ [])
    (hkind : u.kind.isPass = true) (hlinks : Untouched s.links s.nodes.length)
    (hfresh : ∀ t ∈ u.inputs, ∀ key, (resolve s.nodes s.links).names.get? key ≠ some (placeholderName u s.nodes.length t))
    (hbroken : nodePass? ⟨catalog, Schedule.topological, settings⟩ (s.adding u) (u, s.nodes.length) = none) :
    let c : Compiler := ⟨catalog, Schedule.topological, settings⟩
    (c.compile (s.adding u)).pipeline = (c.compile s).pipeline ∧
    ∃ before after d, (c.compile s).diagnostics = before ++ after ∧
      (c.compile (s.adding u)).diagnostics = before ++ d :: after ∧
      (∀ d' ∈ before, d'.stage = .building) ∧ (∀ d' ∈ after, d'.stage ≠ .building) ∧
      d.node = some s.nodes.length ∧ d.stage = .building ∧ d.severity = .error ∧
      ∃ cause, passOf catalog (s.adding u) (resolve (s.adding u).nodes s.links) u s.nodes.length = .error cause ∧
        d.problem = .skipped u.displayName cause := by
  intro c
  have hkeeps : Keeps s.nodes.length (resolve s.nodes s.links) (resolve (s.adding u).nodes (s.adding u).links) :=
    keeps_resolve hlinks hfresh
  have hne' : (s.adding u).passNodes ≠ [] := by simp [passNodes_adding hkind]
  obtain ⟨cause, hcause⟩ : ∃ cause, passOf catalog (s.adding u) (resolve (s.adding u).nodes (s.adding u).links) u
      s.nodes.length = .error cause := by
    cases h : passOf catalog (s.adding u) (resolve (s.adding u).nodes (s.adding u).links) u s.nodes.length with
    | ok p => rw [nodePass?, pass?_eq_some_iff.2 h] at hbroken; cases hbroken
    | error cause => exact ⟨cause, rfl⟩
  let before := s.passNodes.filterMap (skipped? catalog s (resolve s.nodes s.links))
  let after := (ordered c s).diagnostics ++ (targets c s).entries.filterMap (omitted? (contextOf c s))
  refine ⟨pipeline_adding hkeeps hkind hbroken rfl hne, before, after, ⟨some s.nodes.length, .skipped u.displayName cause⟩,
    ?_, ?_, ?_, ?_, rfl, rfl, rfl, cause, hcause, rfl⟩
  · rw [diagnostics_compile hne, List.append_assoc]
  · rw [diagnostics_compile hne', skipped_adding hkeeps hkind hcause, ordered_adding hkeeps hkind hbroken,
      targets_adding hkeeps hkind hbroken rfl, omitted?_adding hkeeps hkind, List.append_assoc, List.append_assoc]
    rfl
  · intro d hd
    obtain ⟨e, -, he⟩ := List.mem_filterMap.1 hd
    exact stage_skipped? he
  · intro d hd
    rcases List.mem_append.1 hd with hd | hd
    · rw [stage_ordered hd]
      decide
    · obtain ⟨e, -, he⟩ := List.mem_filterMap.1 hd
      rw [stage_omitted? he]
      decide

/-- A node of a class that there is not, whose output has the name of the color pass's output but not the kind. -/
def impostor : Node :=
  { ((Node.bare ⟨5⟩ "WaterPass" .effect).addInput (.input "output_res_target" .fbo)).addOutput (.output "output_res" .texture) with
    instanceName := some "ColorPass_1" }

theorem impostor_contained :
    let s := redirectedSky.adding impostor
    redirectedSky.passNodes ≠ [] ∧ impostor.kind.isPass = true ∧ Untouched redirectedSky.links 5 ∧
    (∀ t ∈ impostor.inputs, ∀ key,
      (resolve redirectedSky.nodes redirectedSky.links).names.get? key ≠ some (placeholderName impostor 5 t)) ∧
    nodePass? .standard s (impostor, 5) = none ∧
    (resolve s.nodes s.links).output? 1 "output_res" = (resolve s.nodes s.links).output? 5 "output_res" ∧
    (Compiler.standard.compile s).diagnostics.map Diagnostic.node = [some 5] ∧
    (Compiler.standard.compile s).pipeline = (Compiler.standard.compile redirectedSky).pipeline := by
  intro s
  have hne : redirectedSky.passNodes ≠ [] := by decide
  have hlinks : Untouched redirectedSky.links 5 := by decide
  have hfresh : ∀ t ∈ impostor.inputs, ∀ key,
      (resolve redirectedSky.nodes redirectedSky.links).names.get? key ≠ some (placeholderName impostor 5 t) := by
    have hvalues : ∀ t ∈ impostor.inputs,
        placeholderName impostor 5 t ∉ (resolve redirectedSky.nodes redirectedSky.links).names.values := by decide +kernel
    exact fun t ht key hkey => hvalues t ht ((Table.mem_values_iff _ _).2 ⟨key, hkey⟩)
  have hbroken : nodePass? .standard s (impostor, 5) = none := by decide +kernel
  exact ⟨hne, rfl, hlinks, hfresh, hbroken, by decide +kernel, by decide +kernel,
    (compile_adding .standard .standard redirectedSky impostor hne rfl hlinks hfresh hbroken).1⟩

/-- A placeholder of the new node that is the name of a socket hides that resource. Here the color pass was named for it, and
the buffer goes by the next of its names. -/
example :
    let s := { redirectedSky with
      nodes := redirectedSky.nodes.modify 1 fun n => { n with instanceName := some "empty_WaterPass_5" } }
    let water := (Node.bare ⟨5⟩ "WaterPass" .effect).addInput (.input "output_res" .fbo)
    (Compiler.standard.compile s).pipeline.specs.map TargetSpec.name = ["empty_WaterPass_5_output_res"] ∧
    (Compiler.standard.compile (s.adding water)).pipeline.specs.map TargetSpec.name = ["fbo_0"] := by
  decide +kernel

end Compile

end RenderGraph
