import RenderGraph.Proofs.Asked
import RenderGraph.Proofs.Buffers
import RenderGraph.Proofs.Usages
/-!
# The specs of a pipeline

A spec has the name of its render target (`name_of_specOf`), and a pipeline has
the specs of the render targets that its passes use (`mem_specs_iff`).

`compile_specs_canonical`: these names are distinct, and each is the canonical
name of a buffer, bound by a pass, so no buffer is described twice.
-/

namespace RenderGraph

namespace TargetSpec

theorem infer_some (settings : Settings) (name : String) (n : Node) (users : List String) (viewport : Option String) :
    infer settings name (some n) users viewport =
      (declared name n.params).map fun spec => some { spec with viewport := viewport.filter (· ≠ "") } := by
  simp only [infer]
  cases declared name n.params <;> rfl

theorem infer_none (settings : Settings) (name : String) (users : List String) (viewport : Option String) :
    infer settings name none users viewport =
      .ok ((guessed settings name users).map fun spec => { spec with viewport := viewport.filter (· ≠ "") }) := rfl

theorem name_of_guessed {settings : Settings} {name : String} {users : List String} {spec : TargetSpec}
    (h : guessed settings name users = some spec) : spec.name = name := by
  simp only [guessed] at h
  split at h <;> cases h
  rfl

theorem isSome_guessed (settings : Settings) (name : String) (users : List String) :
    (guessed settings name users).isSome ↔ ∃ user ∈ users, settings.wantsHdr user = true ∨ settings.wantsMsaa user = true := by
  simp only [guessed]
  split <;> rename_i h
  · simpa [and_or_left, exists_or] using h
  · simpa [and_or_left, exists_or] using h

theorem name_of_infer {settings : Settings} {name : String} {declaredBy : Option Node} {users : List String}
    {viewport : Option String} {spec : TargetSpec} (h : infer settings name declaredBy users viewport = .ok (some spec)) :
    spec.name = name := by
  cases declaredBy with
  | none =>
    rw [infer_none, Except.ok.injEq] at h
    obtain ⟨base, hbase, rfl⟩ := Option.map_eq_some_iff.1 h
    exact (name_of_guessed hbase :)
  | some n =>
    rw [infer_some] at h
    cases hbase : declared name n.params with
    | error cause => rw [hbase] at h; cases h
    | ok base =>
      rw [hbase] at h
      cases h
      exact (declared_eq_ok_iff.1 hbase).1

end TargetSpec

namespace Compile

open Naming

/-! ## The specs -/

section Specs
variable (c : Compiler) (s : Snapshot)

/-- What a compile knows when it infers specs. -/
def contextOf : Context :=
  let r := resolve s.nodes s.links
  ⟨c.settings, s.nodes, declarations s r, .of (declarations s r) s.viewports r.redirects⟩

/-- The render targets of a compile. -/
def targets : Table String Usage := usages (resolve s.nodes s.links) (ordered c s)

theorem targets_of_isEmpty (h : s.passNodes.isEmpty) : (targets c s).entries = [] := by
  have hpasses : (c.compile s).pipeline.passes = [] := by
    unfold Compiler.compile
    rw [if_pos h]
    rfl
  simp [targets, usages, usesOf, passes_ordered, hpasses, Table.empty]

theorem specs_compile : (c.compile s).pipeline.specs = (targets c s).entries.filterMap (spec? (contextOf c s)) := by
  by_cases h : s.passNodes.isEmpty
  -- Without pass nodes a compile stops early, with nothing in use.
  · rw [targets_of_isEmpty c s h]
    unfold Compiler.compile
    rw [if_pos h]
    rfl
  · unfold Compiler.compile
    rw [if_neg h]
    rfl

theorem mem_diagnostics_of_omitted {e : String × Usage} (he : e ∈ (targets c s).entries) {d : Diagnostic}
    (hd : omitted? (contextOf c s) e = some d) : d ∈ (c.compile s).diagnostics := by
  by_cases h : s.passNodes.isEmpty
  · rw [targets_of_isEmpty c s h] at he
    cases he
  · unfold Compiler.compile
    rw [if_neg h]
    exact List.mem_append_right _ (List.mem_filterMap.2 ⟨e, he, hd⟩)

variable {c s}

theorem spec?_eq_some_iff {k : Context} {e : String × Usage} {spec : TargetSpec} :
    spec? k e = some spec ↔ specOf k e.1 e.2 = .ok (some spec) := by
  unfold spec?
  cases specOf k e.1 e.2 <;> simp

theorem name_of_specOf {k : Context} {target : String} {u : Usage} {spec : TargetSpec}
    (h : specOf k target u = .ok (some spec)) : spec.name = target :=
  TargetSpec.name_of_infer h

/-- The specs of a pipeline are those of its render targets. -/
theorem mem_specs_iff {spec : TargetSpec} : spec ∈ (c.compile s).pipeline.specs ↔
    ∃ target u, (targets c s).get? target = some u ∧ specOf (contextOf c s) target u = .ok (some spec) := by
  simp only [specs_compile, List.mem_filterMap, Prod.exists, Table.get?_eq_some_iff, spec?_eq_some_iff]

theorem sublist_map_filterMap {α β κ : Type} {key : α → κ} {key' : β → κ} {f : α → Option β}
    (h : ∀ a b, f a = some b → key' b = key a) (items : List α) :
    ((items.filterMap f).map key').Sublist (items.map key) := by
  induction items with
  | nil => exact .slnil
  | cons a items ih =>
    cases hf : f a with
    | none => rw [List.filterMap_cons_none hf]; exact ih.cons _
    | some b => rw [List.filterMap_cons_some hf, List.map_cons, List.map_cons, h a b hf]; exact ih.cons_cons _

theorem nodup_names_specs : ((c.compile s).pipeline.specs.map TargetSpec.name).Nodup := by
  rw [specs_compile]
  exact (sublist_map_filterMap (fun _ _ h => name_of_specOf (spec?_eq_some_iff.1 h)) _).nodup (targets c s).keys_nodup

/-- A render target of a compile is the canonical name of a name in use. -/
theorem exists_use (hc : c.scheduler = Schedule.topological) {target : String} {u : Usage}
    (h : (targets c s).get? target = some u) :
    ∃ name, Used (c.compile s).pipeline.passes name ∧ (resolve s.nodes s.links).isPlaceholder name = false ∧
      (Schedule.aliases (c.compile s).pipeline.passes).canonical name = target := by
  obtain ⟨e, he⟩ := List.exists_mem_of_ne_nil _ ((get?_usages _ _ _ _).1 h).1
  obtain ⟨he, htarget⟩ := List.mem_filter.1 he
  rw [passes_ordered] at he
  obtain ⟨p, hp, hname, -⟩ := mem_usesOf.1 he
  have hused : Used (c.compile s).pipeline.passes e.1 := ⟨p, hp, hname⟩
  obtain ⟨⟨hreal, -⟩, hcanonical⟩ := (targetName?_eq_some_iff hc hused target).1 (of_decide_eq_true htarget)
  exact ⟨e.1, hused, hreal, hcanonical⟩

end Specs

/-- However the passes are ordered, no two specs of a pipeline have one name or are about one buffer, and the name of a
spec is one that a pass reads or writes, canonical, not superseded and no placeholder. -/
theorem compile_specs_canonical (catalog : PassCatalog) (settings : Settings) (s : Snapshot) :
    let r := resolve s.nodes s.links
    let p := (Compiler.compile ⟨catalog, Schedule.topological, settings⟩ s).pipeline
    (p.specs.map TargetSpec.name).Nodup ∧
    (∀ spec ∈ p.specs, r.isPlaceholder spec.name = false ∧ r.redirect? spec.name = none ∧ Used p.passes spec.name ∧
      (Schedule.aliases p.passes).canonical spec.name = spec.name) ∧
    (∀ spec ∈ p.specs, ∀ spec' ∈ p.specs,
      (Schedule.aliases p.passes).canonical spec.name = (Schedule.aliases p.passes).canonical spec'.name → spec = spec') := by
  intro r p
  have hnodup : (p.specs.map TargetSpec.name).Nodup := nodup_names_specs
  have hall : ∀ spec ∈ p.specs, r.isPlaceholder spec.name = false ∧ r.redirect? spec.name = none ∧ Used p.passes spec.name ∧
      (Schedule.aliases p.passes).canonical spec.name = spec.name := by
    intro spec hspec
    obtain ⟨target, u, hu, hspec⟩ := mem_specs_iff.1 hspec
    obtain ⟨name, hused, hreal, hcanonical⟩ := exists_use rfl hu
    rw [← name_of_specOf hspec] at hcanonical
    -- The name is what `name` shares a buffer under, so it is in use along with `name`.
    obtain ⟨htarget, htreal⟩ := canonical_of_used hused hreal
    rw [hcanonical] at htarget htreal
    refine ⟨htreal, redirect?_of_used htarget htreal, htarget, ?_⟩
    rw [← hcanonical]
    exact Aliases.canonical_canonical (Aliases.acyclic_assignAll _) name
  refine ⟨hnodup, hall, fun spec hspec spec' hspec' h => ?_⟩
  rw [(hall spec hspec).2.2.2, (hall spec' hspec').2.2.2] at h
  exact List.inj_on_of_nodup_map hnodup hspec hspec' h

end Compile

end RenderGraph
