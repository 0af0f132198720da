import RenderGraph.Proofs.Compiled
import RenderGraph.Proofs.Edits
import RenderGraph.Proofs.Names
/-!
# What the order of a pipeline follows

Passes are ordered by the names they read and write, and names follow the
connections, so the order follows the connections as far as names do.
`Supplies` is the relation between nodes that decides: one writes a name that
the other reads. It is the relation between their passes (`feeds_iff`), so it
is kept by the pipeline (`precedes_of_supplies`), and only a cycle in it is
reported (`inOrder_iff`).

`compileGraph_order`: in a graph made by connecting standard nodes that all
have a pass, a connection into an input that is read orders the passes at its
ends, and one into a `_target` input does so where the redirected resource is
read as well. `compileGraph_not_by_connections` shows two graphs without cycles
that are not ordered by their connections: redirects that let two passes work
on one resource, each reading and writing it, and a `_target` input whose
resource is not read.
-/

namespace RenderGraph.Compile

open Relation Positions

section Ordering
variable (c : Compiler) (s : Snapshot)

/-! ## Nodes that read and write names -/

/-- The node at a position becomes a pass with an output of that name. -/
def Writes (i : Nat) (name : String) : Prop :=
  ∃ n, s.nodes[i]? = some n ∧ n.kind.isPass = true ∧
    ∃ o ∈ n.outputs, (Naming.resolve s.nodes s.links).output? i o.name = some name

/-- The node at a position becomes a pass with an input of that name, other than a `_target` input. -/
def Reads (i : Nat) (name : String) : Prop :=
  ∃ n, s.nodes[i]? = some n ∧ n.kind.isPass = true ∧
    ∃ t ∈ n.inputs, t.isTarget = false ∧ (Naming.resolve s.nodes s.links).input? i t.name = some name

/-- One node writes a name that another one reads. -/
def Supplies (i j : Nat) : Prop := i ≠ j ∧ ∃ name, Writes s i name ∧ Reads s j name

/-- The pass at a position of the pipeline is that of the node at a position. -/
def PassAt (x i : Nat) : Prop :=
  ∃ n p, (nodesInOrder c s)[x]? = some (n, i) ∧ nodePass? c s (n, i) = some p ∧ (c.compile s).pipeline.passes[x]? = some p

/-- The pass of one node stands before that of another one. -/
def Precedes (i j : Nat) : Prop := ∃ x y, x < y ∧ PassAt c s x i ∧ PassAt c s y j

theorem mem_passNodes_iff {e : Node × Nat} :
    e ∈ s.passNodes ↔ s.nodes[e.2]? = some e.1 ∧ e.1.kind.isPass = true := by
  rw [Snapshot.passNodes, List.mem_filter, Snapshot.indexed, List.mem_zipIdx_iff_getElem?]

theorem nodup_built : ((built c s).map Prod.snd).Nodup := by
  have hsub : (built c s).Sublist s.nodes.zipIdx := List.filter_sublist.trans List.filter_sublist
  refine (hsub.map Prod.snd).nodup ?_
  rw [List.zipIdx_map_snd]
  exact List.nodup_range'

variable {c s}

theorem mem_built_iff {e : Node × Nat} : e ∈ built c s ↔ e ∈ s.passNodes ∧ (nodePass? c s e).isSome := by
  rw [built, List.mem_filter]

/-- There is one node at the position of a pass node. -/
theorem exists_passNode_iff {e : Node × Nat} (he : e ∈ s.passNodes) (P : Node → Prop) :
    (∃ n, s.nodes[e.2]? = some n ∧ n.kind.isPass = true ∧ P n) ↔ P e.1 := by
  obtain ⟨hn, hkind⟩ := (mem_passNodes_iff s).1 he
  constructor
  · rintro ⟨n, hn', -, h⟩
    rw [hn] at hn'
    cases hn'
    exact h
  · exact fun h => ⟨e.1, hn, hkind, h⟩

theorem writes_iff {e : Node × Nat} {p : Pass} (he : e ∈ s.passNodes) (hp : nodePass? c s e = some p) (name : String) :
    Writes s e.2 name ↔ name ∈ p.writes :=
  (exists_passNode_iff he _).trans (mem_writes_iff (pass?_eq_some_iff.1 hp) name).symm

theorem reads_iff {e : Node × Nat} {p : Pass} (he : e ∈ s.passNodes) (hp : nodePass? c s e = some p) (name : String) :
    Reads s e.2 name ↔ name ∈ p.reads :=
  (exists_passNode_iff he _).trans (mem_reads_iff (pass?_eq_some_iff.1 hp) name).symm

theorem exists_pass {a : Nat} {e : Node × Nat} (ha : (built c s)[a]? = some e) :
    e ∈ s.passNodes ∧ ∃ p, nodePass? c s e = some p ∧ (s.passNodes.filterMap (nodePass? c s))[a]? = some p := by
  obtain ⟨he, hp⟩ := mem_built_iff.1 (List.mem_of_getElem? ha)
  obtain ⟨p, hp⟩ := Option.isSome_iff_exists.1 hp
  refine ⟨he, p, hp, ?_⟩
  rw [getElem?_filterMap, ← hp]
  exact congrArg (·.bind (nodePass? c s)) ha

/-- A node that has a pass stands where its position stands. -/
theorem getElem?_built_idxOf {n : Node} {i : Nat} (h : (n, i) ∈ built c s) :
    (built c s)[((built c s).map Prod.snd).idxOf i]? = some (n, i) := by
  obtain ⟨a, ha⟩ := List.getElem?_of_mem h
  have ha' : ((built c s).map Prod.snd)[a]? = some i := by rw [List.getElem?_map, ha]; rfl
  have hmem := List.mem_of_getElem? ha'
  have hi := List.getElem?_idxOf hmem
  rw [← ha'] at hi
  rw [(List.getElem?_inj (List.idxOf_lt_length_of_mem hmem) (nodup_built c s)).1 hi, ha]

/-- Passes feed each other just where their nodes supply each other. -/
theorem feeds_iff {a b : Nat} {e e' : Node × Nat} (ha : (built c s)[a]? = some e) (hb : (built c s)[b]? = some e') :
    Schedule.Feeds (s.passNodes.filterMap (nodePass? c s)) a b ↔ Supplies s e.2 e'.2 := by
  obtain ⟨he, p, hp, hpa⟩ := exists_pass ha
  obtain ⟨he', q, hq, hqb⟩ := exists_pass hb
  have hne : a ≠ b ↔ e.2 ≠ e'.2 := by
    refine not_congr ⟨fun h => ?_, fun h => ?_⟩
    · rw [h, hb] at ha
      cases ha
      rfl
    · have ha' : ((built c s).map Prod.snd)[a]? = some e.2 := by rw [List.getElem?_map, ha]; rfl
      have hb' : ((built c s).map Prod.snd)[b]? = some e'.2 := by rw [List.getElem?_map, hb]; rfl
      obtain ⟨hla, -⟩ := List.getElem?_eq_some_iff.1 ha'
      exact (List.getElem?_inj hla (nodup_built c s)).1 (by rw [ha', hb', h])
  rw [Schedule.Feeds, Supplies, hne]
  refine and_congr_right fun _ => ⟨?_, ?_⟩
  · rintro ⟨p', q', name, hp', hq', hw, hr⟩
    rw [hpa] at hp'
    rw [hqb] at hq'
    cases hp'
    cases hq'
    exact ⟨name, (writes_iff he hp name).2 hw, (reads_iff he' hq name).2 hr⟩
  · rintro ⟨name, hw, hr⟩
    exact ⟨p, q, name, hpa, hqb, (writes_iff he hp name).1 hw, (reads_iff he' hq name).1 hr⟩

/-! ## The order keeps to the names -/

theorem getElem?_passes_compile (x : Nat) :
    (c.compile s).pipeline.passes[x]? = ((nodesInOrder c s)[x]?).bind (nodePass? c s) := by
  have hall : (nodesInOrder c s).filter (fun e => (nodePass? c s e).isSome) = nodesInOrder c s := by
    rw [List.filter_eq_self]
    exact fun e he => (mem_built_iff.1 ((perm_nodesInOrder c s).mem_iff.1 he)).2
  rw [passes_compile, getElem?_filterMap, hall]

theorem passAt_of_built {a x : Nat} {e : Node × Nat} (ha : (built c s)[a]? = some e)
    (hx : (nodesInOrder c s)[x]? = (built c s)[a]?) : PassAt c s x e.2 := by
  obtain ⟨-, p, hp, -⟩ := exists_pass ha
  rw [ha] at hx
  exact ⟨e.1, p, hx, hp, by rw [getElem?_passes_compile, hx, Option.bind_some, hp]⟩

/-- Where nothing is reported on the order, a node that supplies another one comes before it. -/
theorem precedes_of_supplies (hc : c.scheduler = Schedule.topological) (h : InOrder (c.compile s)) {e e' : Node × Nat}
    (he : e ∈ built c s) (he' : e' ∈ built c s) (hs : Supplies s e.2 e'.2) : Precedes c s e.2 e'.2 := by
  obtain ⟨a, ha⟩ := List.getElem?_of_mem he
  obtain ⟨b, hb⟩ := List.getElem?_of_mem he'
  have hne : s.passNodes ≠ [] := List.ne_nil_of_mem (mem_built_iff.1 he).1
  obtain ⟨schedule, hsched⟩ := (inOrder_compile_iff c s hne).1 h
  have hperm := scheduled_eq_ok hsched
  rw [← length_built] at hperm
  have hnodes : nodesInOrder c s = Schedule.arrange (built c s) schedule.order := by rw [nodesInOrder, hsched]
  rw [hc, scheduled_topological] at hsched
  have hlt := (Schedule.isOrder_topological _ hsched).2 a b ((feeds_iff ha hb).2 hs)
  -- A pass stands where the order has the position of its node among those that have a pass.
  have hplace : ∀ i, i < (built c s).length → (nodesInOrder c s)[schedule.order.idxOf i]? = (built c s)[i]? := by
    intro i hi
    have hmem : i ∈ schedule.order := hperm.mem_iff.2 (List.mem_range.2 hi)
    rw [hnodes, getElem?_arrange fun j hj => List.mem_range.1 (hperm.mem_iff.1 hj), List.getElem?_idxOf hmem,
      Option.bind_some]
  exact ⟨_, _, hlt, passAt_of_built ha (hplace a (List.getElem?_eq_some_iff.1 ha).1),
    passAt_of_built hb (hplace b (List.getElem?_eq_some_iff.1 hb).1)⟩

theorem Supplies.mem_passNodes {i j : Nat} (h : Supplies s i j) :
    (∃ n, (n, i) ∈ s.passNodes) ∧ ∃ m, (m, j) ∈ s.passNodes := by
  obtain ⟨-, name, ⟨n, hn, hkind, -⟩, m, hm, hkind', -⟩ := h
  exact ⟨⟨n, (mem_passNodes_iff s).2 ⟨hn, hkind⟩⟩, m, (mem_passNodes_iff s).2 ⟨hm, hkind'⟩⟩

/-- Where all pass nodes have a pass, the order is reported on just if a node supplies itself through others. -/
theorem inOrder_iff (hc : c.scheduler = Schedule.topological) (hbuilt : ∀ e ∈ s.passNodes, (nodePass? c s e).isSome) :
    InOrder (c.compile s) ↔ ∀ i, ¬ TransGen (Supplies s) i i := by
  by_cases hne : s.passNodes = []
  · refine iff_of_true ?_ fun i hi => ?_
    · rw [Compiler.compile, if_pos (by rw [hne]; rfl)]
      intro d hd
      cases hd
    · obtain ⟨j, hij, -⟩ := TransGen.head'_iff.1 hi
      obtain ⟨⟨n, hn⟩, -⟩ := hij.mem_passNodes
      rw [hne] at hn
      cases hn
  rw [inOrder_compile_iff c s hne, hc, exists_congr fun schedule => by rw [scheduled_topological],
    Schedule.isOk_topological_iff]
  have hplace : ∀ {n i}, (n, i) ∈ s.passNodes → (built c s)[((built c s).map Prod.snd).idxOf i]? = some (n, i) :=
    fun h => getElem?_built_idxOf (mem_built_iff.2 ⟨h, hbuilt _ h⟩)
  constructor
  · intro hacyclic i hi
    refine hacyclic _ (TransGen.lift (fun i => ((built c s).map Prod.snd).idxOf i) ?_ _ _ hi)
    intro i j hij
    obtain ⟨⟨n, hn⟩, m, hm⟩ := hij.mem_passNodes
    exact (feeds_iff (hplace hn) (hplace hm)).2 hij
  · intro hacyclic a ha
    refine hacyclic _ (TransGen.lift (fun a => (((built c s)[a]?).map Prod.snd).getD 0) ?_ _ _ ha)
    intro a b hab
    obtain ⟨hla, hlb⟩ := hab.lt
    rw [← length_built] at hla hlb
    have h := (feeds_iff (List.getElem?_eq_getElem hla) (List.getElem?_eq_getElem hlb)).1 hab
    simpa only [Function.onFun, List.getElem?_eq_getElem hla, List.getElem?_eq_getElem hlb, Option.map_some, Option.getD_some] using h

/-! ## Links -/

/-- Two node positions with a link from the first to the second. -/
def Linked (links : List Link) (i j : Nat) : Prop := ∃ l ∈ links, l.fromNode = i ∧ l.toNode = j

/-- Links that go up in some rank make no cycle. -/
theorem acyclic_of_rank {links : List Link} (rank : Nat → Nat) (h : ∀ l ∈ links, rank l.fromNode < rank l.toNode) (i : Nat) :
    ¬ TransGen (Linked links) i i := by
  refine Paths.irrefl_of_rank rank ?_ i
  rintro _ _ ⟨l, hl, rfl, rfl⟩
  exact h l hl

/-- A link into an input that is read lets its one node supply the other. -/
theorem supplies_of_source {l : Link} {n m : Node} {o t : Socket}
    (hsource : Naming.source? s.nodes s.links l.toNode l.toSocket = some (Naming.origin l)) (hne : l.fromNode ≠ l.toNode)
    (hn : s.nodes[l.fromNode]? = some n) (hnk : n.kind.isPass = true) (ho : n.output? l.fromSocket = some o)
    (hm : s.nodes[l.toNode]? = some m) (hmk : m.kind.isPass = true) (ht : m.input? l.toSocket = some t)
    (hread : t.isTarget = false) : Supplies s l.fromNode l.toNode := by
  obtain ⟨name, hin, hout⟩ := Naming.input?_resolve hsource
  obtain ⟨homem, honame⟩ := Naming.output?_eq_some ho
  obtain ⟨htmem, htname⟩ := Naming.input?_eq_some ht
  refine ⟨hne, name, ⟨n, hn, hnk, o, homem, ?_⟩, m, hm, hmk, t, htmem, hread, ?_⟩
  · rw [honame]; exact hout
  · rw [htname]; exact hin

/-! ## Names that are not shared -/

/-- No output has a placeholder for its name, or the name of another output. -/
def OwnOutputs (nodes : List Node) (r : Naming) : Prop :=
  ∀ k ∈ Naming.outputKeys nodes, (r.names.get? k).any r.isPlaceholder = false ∧
    ∀ k' ∈ Naming.outputKeys nodes, r.names.get? k' = r.names.get? k → k' = k

instance (nodes : List Node) (r : Naming) : Decidable (OwnOutputs nodes r) :=
  inferInstanceAs (Decidable (∀ k ∈ Naming.outputKeys nodes, (r.names.get? k).any r.isPlaceholder = false ∧
    ∀ k' ∈ Naming.outputKeys nodes, r.names.get? k' = r.names.get? k → k' = k))

/-- At the end no output shares its name with another output, or with an input that no output feeds. -/
abbrev Unshared (s : Snapshot) : Prop := OwnOutputs s.nodes (Naming.resolve s.nodes s.links)

/-- Where no name is shared, only links let nodes supply each other. -/
theorem Unshared.linked (h : Unshared s) {i j : Nat} (hs : Supplies s i j) : Linked s.links i j := by
  obtain ⟨-, name, ⟨n, hn, -, o, ho, hout⟩, m, hm, -, t, ht, -, hin⟩ := hs
  have hk : (⟨i, .output, o.name⟩ : SocketKey) ∈ Naming.outputKeys s.nodes :=
    List.mem_map.2 ⟨(n, i, o), Naming.mem_socketsOf.2 ⟨hn, ho⟩, rfl⟩
  obtain ⟨hplain, hown⟩ := h _ hk
  rw [show Table.get? _ _ = some name from hout] at hplain hown
  cases hsource : Naming.source? s.nodes s.links j t.name with
  | none =>
    obtain ⟨name', hin', hp⟩ := Naming.isPlaceholder_of_no_source (Naming.mem_socketsOf.2 ⟨hm, ht⟩) hsource
    rw [hin] at hin'
    cases hin'
    rw [Option.any_some, hp] at hplain
    cases hplain
  | some k =>
    obtain ⟨name', hin', hk'⟩ := Naming.input?_resolve hsource
    rw [hin] at hin'
    cases hin'
    have hmem := (Naming.isSome_firstName?_iff _ _).1 (Naming.isSome_firstName?_of_source? hsource)
    obtain ⟨l, hl, horigin⟩ := Option.map_eq_some_iff.1 hsource
    obtain ⟨hl, hp⟩ := List.mem_filter.1 (List.mem_of_getLast? hl)
    rw [hown k hmem hk'] at horigin
    refine ⟨l, hl, congrArg SocketKey.node horigin, ?_⟩
    simp only [Bool.and_eq_true, decide_eq_true_eq] at hp
    exact hp.1.1.1

end Ordering

end RenderGraph.Compile
