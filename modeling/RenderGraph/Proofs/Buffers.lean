import RenderGraph.Proofs.Aliases
import RenderGraph.Proofs.Ordering
import RenderGraph.Proofs.Superseded
/-!
# Names of one buffer in a pipeline

Passes that work in place let an output share the buffer of an input. A set that
is written out as a table of canonical names and read back tells the same
buffers (`canonical_ofTable_toTable`), so a pipeline has the buffers of its
passes in their order, whether or not there was an order (`canonical_order`).

A name that passes use has a canonical name that they use as well, and neither
a placeholder nor a superseded name comes in on the way (`canonical_of_used`,
`redirect?_of_used`). So the render target of a name is its canonical name
(`targetName?_eq_some_iff`).
-/

namespace RenderGraph.Aliases

/-! ## Sets of pairs -/

theorem not_contains_of_canonical {a : Aliases} (hac : Acyclic a.parent) {n : String} (h : a.canonical n = n) :
    ¬ a.parent.contains n = true := by
  have := (ends_canonical hac n).get?_eq_none
  rw [h] at this
  simp [Table.contains, this]

theorem assignAll_concat (a : Aliases) (pairs : List (String × String)) (e : String × String) :
    a.assignAll (pairs ++ [e]) = ((a.assignAll pairs).assign e.1 e.2).2 := by
  simp [assignAll]

theorem acyclic_assignAll (pairs : List (String × String)) : Acyclic (empty.assignAll pairs).parent := by
  induction pairs using List.reverseRecOn with
  | nil => exact acyclic_empty
  | append_singleton pairs e ih => rw [assignAll_concat]; exact acyclic_assign ih e.1 e.2

/-- A canonical name is the name itself, or the target of some pair. -/
theorem canonical_assignAll (pairs : List (String × String)) (n : String) :
    (empty.assignAll pairs).canonical n = n ∨ ∃ e ∈ pairs, (empty.assignAll pairs).canonical n = e.2 := by
  induction pairs using List.reverseRecOn generalizing n with
  | nil => exact .inl (canonical_eq_self acyclic_empty rfl)
  | append_singleton pairs e ih =>
    have hold : ∀ m, (∃ e' ∈ pairs, (empty.assignAll pairs).canonical m = e'.2) →
        ∃ e' ∈ pairs ++ [e], (empty.assignAll pairs).canonical m = e'.2 := by
      rintro m ⟨e', he', h⟩
      exact ⟨e', List.mem_append_left _ he', h⟩
    rw [assignAll_concat, canonical_assign (acyclic_assignAll pairs)]
    split
    · rcases ih e.2 with h | h
      · exact .inr ⟨e, by simp, h⟩
      · exact .inr (hold _ h)
    · exact (ih n).imp_right (hold n)

/-- Where no target is given a target itself, each name gets the one it is paired with. -/
theorem canonical_of_roots (pairs : List (String × String)) (hkeys : (pairs.map Prod.fst).Nodup)
    (hroots : ∀ e ∈ pairs, e.2 ∉ pairs.map Prod.fst) :
    (∀ e ∈ pairs, (empty.assignAll pairs).canonical e.1 = e.2) ∧
      ∀ n ∉ pairs.map Prod.fst, (empty.assignAll pairs).canonical n = n := by
  induction pairs using List.reverseRecOn with
  | nil => exact ⟨nofun, fun n _ => canonical_eq_self acyclic_empty rfl⟩
  | append_singleton pairs e ih =>
    simp only [List.map_append, List.map_cons, List.map_nil, List.nodup_append, List.mem_append, List.mem_singleton,
      not_or] at hkeys hroots ⊢
    have hnew : e.1 ∉ pairs.map Prod.fst := fun h => hkeys.2.2 _ h _ rfl rfl
    obtain ⟨hpaired, hothers⟩ := ih hkeys.1 fun e' he' => (hroots e' (.inl he')).1
    have hac := acyclic_assignAll pairs
    have htarget : (empty.assignAll pairs).canonical e.2 = e.2 := hothers e.2 (hroots e (.inr rfl)).1
    have hself : (empty.assignAll pairs).canonical e.1 = e.1 := hothers e.1 hnew
    -- The last pair is accepted, and moves only the name that it is about.
    have haccepted : ((empty.assignAll pairs).assign e.1 e.2).1 = true := by
      rw [assign_fst hac, htarget]
      exact ⟨fun h => (hroots e (.inr rfl)).2 h.symm, not_contains_of_canonical hac hself, (hroots e (.inr rfl)).2⟩
    rw [assignAll_concat]
    simp only [canonical_assign hac, haccepted, true_and, htarget]
    refine ⟨?_, ?_⟩
    · rintro e' (he' | rfl)
      · rw [hpaired e' he', if_neg (hroots e' (.inl he')).2]
      · rw [if_pos hself]
    · rintro n ⟨hn, hne⟩
      rw [hothers n hn, if_neg hne]

theorem mem_toTable {a : Aliases} {e : String × String} :
    e ∈ a.toTable.entries ↔ e.1 ∈ a.parent.keys ∧ e.2 = a.canonical e.1 := by
  simp only [toTable, Table.keys, List.mem_map]
  constructor
  · rintro ⟨e', he', rfl⟩
    exact ⟨⟨e', he', rfl⟩, rfl⟩
  · rintro ⟨⟨e', he', h⟩, hc⟩
    exact ⟨e', he', by rw [h, ← hc]⟩

/-- A set that is read back from its table of canonical names tells the same buffers. -/
theorem canonical_ofTable_toTable {a : Aliases} (hac : Acyclic a.parent) (n : String) :
    (ofTable a.toTable).canonical n = a.canonical n := by
  have hperm : (sorted a.toTable.entries).Perm a.toTable.entries := List.mergeSort_perm ..
  have hkeys : ((sorted a.toTable.entries).map Prod.fst).Perm a.parent.keys := by
    refine (hperm.map _).trans (.of_eq ?_)
    simp [toTable, Table.keys]
  obtain ⟨hpaired, hothers⟩ := canonical_of_roots (sorted a.toTable.entries) (hkeys.nodup_iff.2 a.parent.keys_nodup) (by
    intro e he
    obtain ⟨-, hc⟩ := mem_toTable.1 (hperm.mem_iff.1 he)
    rw [hkeys.mem_iff, hc, ← Table.get?_eq_none_iff]
    exact (ends_canonical hac e.1).get?_eq_none)
  -- Names without an alias are not in the table, and are their own canonical names in both sets.
  unfold ofTable
  by_cases hn : n ∈ a.parent.keys
  · exact hpaired (n, a.canonical n) (hperm.mem_iff.2 (mem_toTable.2 ⟨hn, rfl⟩))
  · rw [hothers n (by rwa [hkeys.mem_iff]), canonical_eq_self hac ((a.parent.get?_eq_none_iff n).2 hn)]

end RenderGraph.Aliases

namespace RenderGraph.Compile

open Naming

/-! ## The buffers of a pipeline -/

theorem canonical_topological {passes : List Pass} {schedule : Schedule} (h : Schedule.topological passes = .ok schedule) :
    schedule.canonical = (Schedule.aliases (Schedule.arrange passes schedule.order)).toTable := by
  unfold Schedule.topological at h
  dsimp only at h
  split at h
  · cases h
  · cases h
    rfl

/-- With an order or without one, a pipeline has the buffers of its passes in turn. -/
theorem canonical_order (passes : List Pass) (n : String) :
    (order Schedule.topological passes).aliases.canonical n =
      (Schedule.aliases (order Schedule.topological passes).passes).canonical n := by
  rw [order, scheduled_topological]
  cases h : Schedule.topological passes with
  | error cause => rfl
  | ok schedule =>
    dsimp only
    rw [canonical_topological h]
    exact Aliases.canonical_ofTable_toTable (Aliases.acyclic_assignAll _) n

/-- Some pass reads or writes the name. -/
def Used (passes : List Pass) (name : String) : Prop := ∃ p ∈ passes, name ∈ p.reads ∨ name ∈ p.writes

instance (passes : List Pass) (name : String) : Decidable (Used passes name) :=
  inferInstanceAs (Decidable (∃ p ∈ passes, name ∈ p.reads ∨ name ∈ p.writes))

/-- What works in place does so on the resource at an input that something is linked to. -/
theorem mem_inplace {catalog : PassCatalog} {s : Snapshot} {r : Naming} {n : Node} {index : Nat} {p : Pass}
    (h : passOf catalog s r n index = .ok p) {a : InplaceAlias} (ha : a ∈ p.inplace) :
    a.input ∈ p.reads ∧ r.isPlaceholder a.input = false := by
  obtain ⟨c, config, rest, -, -, rfl⟩ := build_eq_ok h
  obtain ⟨⟨output, input⟩, -, hsome⟩ := List.mem_filterMap.1 ha
  dsimp only at hsome
  split at hsome
  · cases hsome
  rename_i hlinked
  split at hsome
  · rename_i written read hout hin
    split at hsome
    · cases hsome
    · cases hsome
      refine ⟨(Table.mem_values_iff _ _).2 ⟨input, hin⟩, ?_⟩
      by_contra hp
      refine hlinked (List.contains_iff_mem.2 (List.mem_map.2 ⟨(input, read), ?_, rfl⟩))
      exact List.mem_filter.2 ⟨(Table.get?_eq_some_iff _ _ _).1 hin, by simpa using hp⟩
  · cases hsome

section Used
variable {c : Compiler} {s : Snapshot}

theorem exists_node {p : Pass} (hp : p ∈ (c.compile s).pipeline.passes) :
    ∃ e ∈ s.passNodes, nodePass? c s e = some p := by
  rw [passes_compile] at hp
  obtain ⟨e, he, hp⟩ := List.mem_filterMap.1 hp
  exact ⟨e, (mem_built_iff.1 ((perm_nodesInOrder c s).mem_iff.1 he)).1, hp⟩

/-- A name in use is not superseded, unless it stands for an input that nothing is linked to. -/
theorem redirect?_of_used {name : String} (h : Used (c.compile s).pipeline.passes name)
    (hreal : (resolve s.nodes s.links).isPlaceholder name = false) : (resolve s.nodes s.links).redirect? name = none := by
  obtain ⟨p, hp, h⟩ := h
  obtain ⟨⟨n, i⟩, he, hp⟩ := exists_node hp
  have hn := ((mem_passNodes_iff s).1 he).1
  rcases h with h | h
  · obtain ⟨t, ht, -, hin⟩ := (mem_reads_iff (pass?_eq_some_iff.1 hp) name).1 h
    -- An input has the name of an output that feeds it, or else a placeholder.
    cases hsource : source? s.nodes s.links i t.name with
    | some k => exact redirect?_of_source hsource hin
    | none =>
      obtain ⟨name', hin', hp'⟩ := isPlaceholder_of_no_source (mem_socketsOf.2 ⟨hn, ht⟩) hsource
      rw [hin] at hin'
      cases hin'
      rw [hreal] at hp'
      cases hp'
  · obtain ⟨o, -, hout⟩ := (mem_writes_iff (pass?_eq_some_iff.1 hp) name).1 h
    exact redirect?_of_output rfl hout

/-- The canonical name of a name in use is in use, and is a placeholder only if the name is one. -/
theorem canonical_of_used {name : String} (h : Used (c.compile s).pipeline.passes name)
    (hreal : (resolve s.nodes s.links).isPlaceholder name = false) :
    let target := (Schedule.aliases (c.compile s).pipeline.passes).canonical name
    Used (c.compile s).pipeline.passes target ∧ (resolve s.nodes s.links).isPlaceholder target = false := by
  intro target
  rcases Aliases.canonical_assignAll (Schedule.aliasPairs (c.compile s).pipeline.passes) name with heq | ⟨e, he, heq⟩
  · rw [show target = name from heq]
    exact ⟨h, hreal⟩
  · rw [show target = e.2 from heq]
    -- Otherwise it is the input of a pass that works in place.
    obtain ⟨p, hp, he⟩ := List.mem_flatMap.1 he
    obtain ⟨a, ha, rfl⟩ := List.mem_map.1 he
    obtain ⟨_, -, hnode⟩ := exists_node hp
    obtain ⟨hread, hinput⟩ := mem_inplace (pass?_eq_some_iff.1 hnode) ha
    exact ⟨⟨p, hp, .inl hread⟩, hinput⟩

/-- The render target of a name in use is its canonical name. -/
theorem targetName?_eq_some_iff (hc : c.scheduler = Schedule.topological) {name : String}
    (h : Used (c.compile s).pipeline.passes name) (target : String) :
    targetName? (resolve s.nodes s.links) (ordered c s).aliases name = some target ↔
      ((resolve s.nodes s.links).isPlaceholder name = false ∧ (resolve s.nodes s.links).kind? name = some .fbo) ∧
        (Schedule.aliases (c.compile s).pipeline.passes).canonical name = target := by
  have hcanonical : (ordered c s).aliases.canonical name =
      (Schedule.aliases (c.compile s).pipeline.passes).canonical name := by
    rw [← passes_ordered, ordered, hc, canonical_order]
  unfold targetName?
  by_cases hp : (resolve s.nodes s.links).isPlaceholder name = true
  · simp [hp]
  rw [Bool.not_eq_true] at hp
  obtain ⟨hused, hreal⟩ := canonical_of_used h hp
  have hcurrent := redirect?_of_used hused hreal
  simp [hp, hcanonical, current, hcurrent, hreal]

end Used

end RenderGraph.Compile
