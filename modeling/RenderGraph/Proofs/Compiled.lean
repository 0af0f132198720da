import Mathlib.Data.List.Induction
import RenderGraph.Compile
import RenderGraph.Proofs.Schedule
/-!
# Where the passes of a pipeline come from

`nodesInOrder` lists the nodes whose passes a pipeline has, in its order:
`passes_compile` says that these are its passes, and `perm_nodesInOrder` that
the nodes are those that have a pass, each once. The reads and writes of a pass
are the names of the sockets of its node (`mem_reads_iff`, `mem_writes_iff`).

`inOrder_compile_iff`: a compile reports on the order just where the scheduler
has none, or one that is not an order of the passes (`orderFault?_eq_none_iff`).
-/

namespace RenderGraph.Compile

open Positions

/-! ## Orders -/

theorem badPosition?_eq_none_iff (count : Nat) (order : List Nat) :
    ∀ seen, badPosition? count seen order = none ↔ order.Nodup ∧ ∀ i ∈ order, i < count ∧ i ∉ seen := by
  induction order with
  | nil => intro seen; simp [badPosition?]
  | cons i order ih =>
    intro seen
    rw [badPosition?]
    by_cases hi : i < count ∧ i ∉ seen
    · rw [if_neg (by simpa using hi), ih, List.nodup_cons]
      constructor
      · rintro ⟨hn, h⟩
        refine ⟨⟨fun hm => (h i hm).2 (by simp), hn⟩, ?_⟩
        intro j hj
        rcases List.mem_cons.1 hj with rfl | hj
        · exact hi
        · exact ⟨(h j hj).1, fun hs => (h j hj).2 (by simp [hs])⟩
      · rintro ⟨⟨him, hn⟩, h⟩
        refine ⟨hn, fun j hj => ⟨(h j (by simp [hj])).1, ?_⟩⟩
        rw [List.mem_cons, not_or]
        exact ⟨fun he => him (he ▸ hj), (h j (by simp [hj])).2⟩
    · rw [if_pos (by simpa [imp_iff_not_or] using hi)]
      constructor
      · intro h; cases h
      · rintro ⟨-, h⟩; exact absurd (h i (by simp)) hi

/-- Positions are an order of so many passes just if they are all positions, each once. -/
theorem orderFault?_eq_none_iff (count : Nat) (order : List Nat) :
    orderFault? count order = none ↔ order.Perm (List.range count) := by
  unfold orderFault?
  constructor
  · intro h
    split at h
    · cases h
    · rename_i hlen
      obtain ⟨hn, hmem⟩ := (badPosition?_eq_none_iff count order []).1 (Option.map_eq_none_iff.1 h)
      refine (List.subperm_of_subset hn fun i hi => List.mem_range.2 (hmem i hi).1).perm_of_length_le ?_
      rw [List.length_range]
      omega
  · intro h
    rw [if_neg (by rw [h.length_eq, List.length_range]; simp), Option.map_eq_none_iff, badPosition?_eq_none_iff]
    exact ⟨h.nodup_iff.2 List.nodup_range, fun i hi => ⟨List.mem_range.1 (h.mem_iff.1 hi), by simp⟩⟩

/-- What the topological order answers is accepted. -/
theorem scheduled_topological (passes : List Pass) : scheduled Schedule.topological passes = Schedule.topological passes := by
  unfold scheduled
  cases h : Schedule.topological passes with
  | error e => rfl
  | ok schedule =>
    have hfault := (orderFault?_eq_none_iff _ _).2 (Schedule.isOrder_topological passes h).1
    simp only [hfault]

/-! ## Arranging -/

theorem arrange_range {α : Type} (items : List α) : Schedule.arrange items (List.range items.length) = items := by
  unfold Schedule.arrange
  induction items using List.reverseRecOn with
  | nil => rfl
  | append_singleton items a ih =>
    rw [List.length_append, List.length_singleton, List.range_succ, List.filterMap_append]
    have hsame : ∀ i ∈ List.range items.length, (items ++ [a])[i]? = items[i]? := fun i hi =>
      List.getElem?_append_left (List.mem_range.1 hi)
    rw [List.filterMap_congr hsame, ih]
    simp

theorem perm_arrange {α : Type} {items : List α} {order : List Nat} (h : order.Perm (List.range items.length)) :
    (Schedule.arrange items order).Perm items := by
  have hp := h.filterMap fun i => items[i]?
  exact hp.trans (.of_eq (arrange_range items))

/-- What stands where in an order of all positions. -/
theorem getElem?_arrange {α : Type} {items : List α} {order : List Nat} (h : ∀ i ∈ order, i < items.length) (k : Nat) :
    (Schedule.arrange items order)[k]? = (order[k]?).bind fun i => items[i]? := by
  unfold Schedule.arrange
  induction order generalizing k with
  | nil => simp
  | cons i order ih =>
    obtain ⟨a, ha⟩ : ∃ a, items[i]? = some a := ⟨_, List.getElem?_eq_getElem (h i (by simp))⟩
    rw [List.filterMap_cons, ha]
    cases k with
    | zero => simp [ha]
    | succ k => simpa using ih (fun j hj => h j (by simp [hj])) k

/-- Items that are mapped, those without a value left out, stand as the items with a value do. -/
theorem getElem?_filterMap {α β : Type} (f : α → Option β) (items : List α) (k : Nat) :
    (items.filterMap f)[k]? = ((items.filter fun a => (f a).isSome)[k]?).bind f := by
  induction items generalizing k with
  | nil => simp
  | cons a items ih =>
    cases hf : f a with
    | none => rw [List.filterMap_cons_none hf, List.filter_cons_of_neg (by simp [hf]), ih]
    | some b =>
      rw [List.filterMap_cons_some hf, List.filter_cons_of_pos (by simp [hf])]
      cases k with
      | zero => simp [hf]
      | succ k => simpa using ih k

/-! ## What a pass reads and writes -/

theorem build_eq_ok {catalog : PassCatalog} {n : Node} {b : Bindings} {viewport : String} {p : Pass}
    (h : Pass.build catalog n b viewport = .ok p) :
    ∃ c config rest, catalog.find? n.title = some c ∧
      Pass.configure c (Pass.argumentsFor n b viewport) b.merged = .ok (config, rest) ∧
      p = { className := c.name, name := n.displayName, viewport := viewport, config := config, inputs := b.inputs,
            outputs := b.outputs, inplace := Pass.inplaceOf c b,
            attributes := rest.filter fun k _ => k ≠ viewportKey && k ≠ passNameKey && !b.merged.contains k } := by
  unfold Pass.build at h
  split at h
  · cases h
  · rename_i c hc
    split at h
    · cases h
    · rename_i config rest hconf
      cases h
      exact ⟨c, config, rest, hc, hconf, rfl⟩

/-- The names of a list of sockets, by socket. -/
abbrev named (sockets : List Socket) (name? : String → Option String) : List (String × String) :=
  sockets.filterMap fun s => (name? s.name).map fun name => (s.name, name)

theorem mem_named {sockets : List Socket} {name? : String → Option String} {e : String × String} :
    e ∈ named sockets name? ↔ (∃ s ∈ sockets, s.name = e.1) ∧ name? e.1 = some e.2 := by
  simp only [named, List.mem_filterMap, Option.map_eq_some_iff]
  constructor
  · rintro ⟨s, hs, name, hname, rfl⟩
    exact ⟨⟨s, hs, rfl⟩, hname⟩
  · rintro ⟨⟨s, hs, hse⟩, hname⟩
    exact ⟨s, hs, e.2, by rw [hse, hname], by rw [hse]⟩

theorem eq_of_mem_named {sockets : List Socket} {name? : String → Option String} :
    ∀ e ∈ named sockets name?, e.2 = (name? e.1).getD "" := fun e he => by
  rw [(mem_named.1 he).2, Option.getD_some]

theorem mem_values_named {sockets : List Socket} {name? : String → Option String} {name : String} :
    name ∈ (Table.ofList (named sockets name?)).values ↔ ∃ s ∈ sockets, name? s.name = some name := by
  rw [Table.mem_values_ofList (fun k => (name? k).getD "") eq_of_mem_named]
  constructor
  · rintro ⟨e, he, rfl⟩
    obtain ⟨⟨s, hs, hse⟩, hname⟩ := mem_named.1 he
    exact ⟨s, hs, by rw [hse, hname]⟩
  · rintro ⟨s, hs, hname⟩
    exact ⟨(s.name, name), mem_named.2 ⟨⟨s, hs, rfl⟩, hname⟩, rfl⟩

theorem get?_named_iff {sockets : List Socket} {name? : String → Option String} {socket name : String} :
    (Table.ofList (named sockets name?)).get? socket = some name ↔
      (∃ s ∈ sockets, s.name = socket) ∧ name? socket = some name := by
  rw [Table.get?_ofList (fun k => (name? k).getD "") eq_of_mem_named]
  constructor
  · intro h
    split at h
    · rename_i hmem
      obtain ⟨e, he, rfl⟩ := List.mem_map.1 hmem
      obtain ⟨hs, hname⟩ := mem_named.1 he
      rw [hname, Option.getD_some] at h
      exact ⟨hs, by rw [hname, h]⟩
    · cases h
  · rintro ⟨hs, hname⟩
    have hmem : (socket, name) ∈ named sockets name? := mem_named.2 ⟨hs, hname⟩
    rw [if_pos (List.mem_map.2 ⟨_, hmem, rfl⟩), hname, Option.getD_some]

theorem get?_named {sockets : List Socket} {name? : String → Option String} {s : Socket} {name : String} (hs : s ∈ sockets)
    (hname : name? s.name = some name) : (Table.ofList (named sockets name?)).get? s.name = some name :=
  get?_named_iff.2 ⟨⟨s, hs, rfl⟩, hname⟩

section Passes
variable {catalog : PassCatalog} {s : Snapshot} {r : Naming} {n : Node} {index : Nat} {p : Pass}

/-- A pass reads what is at the inputs of its node, those that redirect left out. -/
theorem mem_reads_iff (h : passOf catalog s r n index = .ok p) (name : String) :
    name ∈ p.reads ↔ ∃ t ∈ n.inputs, t.isTarget = false ∧ r.input? index t.name = some name := by
  obtain ⟨c, config, rest, -, -, rfl⟩ := build_eq_ok h
  refine mem_values_named.trans ?_
  simp only [List.mem_filter, Bool.not_eq_true', and_assoc]

/-- A pass writes what is at the outputs of its node. -/
theorem mem_writes_iff (h : passOf catalog s r n index = .ok p) (name : String) :
    name ∈ p.writes ↔ ∃ o ∈ n.outputs, r.output? index o.name = some name := by
  obtain ⟨c, config, rest, -, -, rfl⟩ := build_eq_ok h
  exact mem_values_named

theorem get?_inputs (h : passOf catalog s r n index = .ok p) {t : Socket} {name : String} (ht : t ∈ n.inputs)
    (hread : t.isTarget = false) (hname : r.input? index t.name = some name) : p.inputs.get? t.name = some name := by
  obtain ⟨c, config, rest, -, -, rfl⟩ := build_eq_ok h
  exact get?_named (List.mem_filter.2 ⟨ht, by rw [hread]; rfl⟩) hname

theorem get?_outputs (h : passOf catalog s r n index = .ok p) {o : Socket} {name : String} (ho : o ∈ n.outputs)
    (hname : r.output? index o.name = some name) : p.outputs.get? o.name = some name := by
  obtain ⟨c, config, rest, -, -, rfl⟩ := build_eq_ok h
  exact get?_named ho hname

end Passes

theorem pass?_eq_some_iff {catalog : PassCatalog} {s : Snapshot} {r : Naming} {e : Node × Nat} {p : Pass} :
    pass? catalog s r e = some p ↔ passOf catalog s r e.1 e.2 = .ok p := by
  unfold pass?
  cases passOf catalog s r e.1 e.2 <;> simp [Except.toOption]

/-! ## The nodes of a pipeline -/

section Compiling
variable (c : Compiler) (s : Snapshot)

variable {c s} in
/-- Without pass nodes a compile stops early. -/
theorem compile_of_no_passes (h : s.passNodes = []) : c.compile s = ⟨.empty, []⟩ := by
  rw [Compiler.compile, h]
  rfl

variable {c s} in
theorem name_compile (h : s.passNodes ≠ []) : (c.compile s).pipeline.name = s.name := by
  rw [Compiler.compile, if_neg (by simpa using h)]

/-- The pass of a node in a compile. -/
def nodePass? (e : Node × Nat) : Option Pass := pass? c.catalog s (Naming.resolve s.nodes s.links) e

/-- The nodes that have a pass, in the order of the nodes. -/
def built : List (Node × Nat) := s.passNodes.filter fun e => (nodePass? c s e).isSome

/-- The nodes that have a pass, in the order of the pipeline. -/
def nodesInOrder : List (Node × Nat) :=
  match scheduled c.scheduler (s.passNodes.filterMap (nodePass? c s)) with
  | .ok schedule => Schedule.arrange (built c s) schedule.order
  | .error _ => built c s

theorem scheduled_eq_ok {scheduler : Scheduler} {passes : List Pass} {schedule : Schedule}
    (h : scheduled scheduler passes = .ok schedule) : schedule.order.Perm (List.range passes.length) := by
  unfold scheduled at h
  split at h
  · cases h
  · split at h
    · cases h
    · rename_i hfault
      cases h
      exact (orderFault?_eq_none_iff _ _).1 hfault

theorem length_built : (built c s).length = (s.passNodes.filterMap (nodePass? c s)).length := by
  rw [List.length_filterMap_eq_countP, List.countP_eq_length_filter]
  rfl

/-- The nodes of a pipeline are those that have a pass. -/
theorem perm_nodesInOrder : (nodesInOrder c s).Perm (built c s) := by
  unfold nodesInOrder
  split
  · rename_i schedule h
    refine perm_arrange ?_
    rw [length_built]
    exact scheduled_eq_ok h
  · exact .refl _

theorem passes_order (scheduler : Scheduler) (passes : List Pass) :
    (order scheduler passes).passes =
      match scheduled scheduler passes with
      | .ok schedule => Schedule.arrange passes schedule.order
      | .error _ => passes := by
  unfold order
  cases scheduled scheduler passes <;> rfl

theorem perm_passes_order (scheduler : Scheduler) (passes : List Pass) : (order scheduler passes).passes.Perm passes := by
  rw [passes_order]
  cases h : scheduled scheduler passes with
  | ok schedule => exact perm_arrange (scheduled_eq_ok h)
  | error cause => exact .refl _

/-- The passes in order, with what goes with the order. -/
def ordered : Ordered := order c.scheduler (s.passNodes.filterMap (nodePass? c s))

theorem passes_ordered : (ordered c s).passes = (c.compile s).pipeline.passes := by
  unfold Compiler.compile
  by_cases he : s.passNodes.isEmpty
  · rw [if_pos he, ordered, List.isEmpty_iff.1 he, passes_order, List.filterMap_nil]
    cases scheduled c.scheduler [] <;> simp [Pipeline.empty, Schedule.arrange]
  · rw [if_neg he]
    rfl

/-- The passes of a pipeline are those of its nodes, in turn. -/
theorem passes_compile : (c.compile s).pipeline.passes = (nodesInOrder c s).filterMap (nodePass? c s) := by
  rw [← passes_ordered, ordered, passes_order, nodesInOrder]
  cases scheduled c.scheduler (s.passNodes.filterMap (nodePass? c s)) with
  | error e =>
    rw [built, List.filterMap_filter]
    refine List.filterMap_congr fun e _ => ?_
    cases nodePass? c s e <;> rfl
  | ok schedule =>
    simp only [Schedule.arrange, List.filterMap_filterMap]
    exact List.filterMap_congr fun i _ => getElem?_filterMap _ _ i

/-! ## The reports on the order -/

/-- No report is about the order of the passes. -/
def InOrder (o : CompileOutput) : Prop := ∀ d ∈ o.diagnostics, d.stage ≠ .scheduling

instance (o : CompileOutput) : Decidable (InOrder o) :=
  inferInstanceAs (Decidable (∀ d ∈ o.diagnostics, d.stage ≠ .scheduling))

theorem stage_skipped? {catalog : PassCatalog} {s : Snapshot} {r : Naming} {e : Node × Nat} {d : Diagnostic}
    (h : skipped? catalog s r e = some d) : d.stage = .building := by
  unfold skipped? at h
  split at h
  · cases h
  · cases h; rfl

theorem stage_omitted? {c : Context} {e : String × Usage} {d : Diagnostic} (h : omitted? c e = some d) :
    d.stage = .inferring := by
  unfold omitted? at h
  split at h
  · cases h
  · cases h; rfl

theorem diagnostics_order (scheduler : Scheduler) (passes : List Pass) :
    (∀ d ∈ (order scheduler passes).diagnostics, d.stage ≠ .scheduling) ↔
      ∃ schedule, scheduled scheduler passes = .ok schedule := by
  unfold order
  cases h : scheduled scheduler passes with
  | ok schedule => simp
  | error cause => simp [Diagnostic.stage, Problem.stage]

/-- The order is reported on where the scheduler has none that is one. -/
theorem inOrder_compile_iff (hne : s.passNodes ≠ []) :
    InOrder (c.compile s) ↔ ∃ schedule, scheduled c.scheduler (s.passNodes.filterMap (nodePass? c s)) = .ok schedule := by
  have he : ¬ s.passNodes.isEmpty := by simpa using hne
  rw [← diagnostics_order, InOrder, Compiler.compile, if_neg he]
  constructor
  · intro h d hd
    exact h d (List.mem_append_left _ (List.mem_append_right _ hd))
  · intro h d hd
    rcases List.mem_append.1 hd with hd | hd
    · rcases List.mem_append.1 hd with hd | hd
      · obtain ⟨e, -, he⟩ := List.mem_filterMap.1 hd
        rw [stage_skipped? he]
        decide
      · exact h d hd
    · obtain ⟨e, -, he⟩ := List.mem_filterMap.1 hd
      rw [stage_omitted? he]
      decide

end Compiling

end RenderGraph.Compile
