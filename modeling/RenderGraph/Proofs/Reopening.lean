import RenderGraph.Proofs.Saving
import RenderGraph.Proofs.SavedText
/-!
# Saving what was opened

What is read from a text can be held by a text, and opening keeps it so. A graph that was opened is therefore
saved and read again as it is just if each of its numbers is (`reopened_iff`).

Not every number that can be read is such: beyond the 32-bit numbers a place is read as infinite, and
what is saved then is lost.
-/

namespace RenderGraph.SavedGraph

open Json (RereadsSingle RereadsDouble)

/-! ## What was read -/

theorem shallow_of_ofJson? {j : Json} {n : SavedNode} (h : SavedNode.ofJson? j = some n) :
    ∀ ps ∈ n.params, ∀ p ∈ ps.values, p.toJson.depth + 2 ≤ j.depth := by
  simp only [SavedNode.ofJson?, Option.bind_eq_bind, Option.pure_def, Option.bind_eq_some_iff, Option.some.injEq] at h
  obtain ⟨r, hr, -, -, -, -, -, -, -, -, -, -, params, hparams, -, -, -, -, -, -, rfl⟩ := h
  rintro ps rfl p hp
  unfold SavedNode.field? Json.Record.orElse? at hparams
  split at hparams
  · cases hparams
  · rename_i v hv
    have hnull : Params.ofJson? .null = none := rfl
    have hpv := Params.depth_toJson_lt ((Json.Record.nullable?_eq_some_some_iff hnull).1 hparams) p hp
    have hvj := Json.Record.depth_lookup_lt hr hv
    omega

/-- A saved graph that was read can be held by its text. -/
theorem holdable_of_ofText? {text : String} {s : SavedGraph} (h : ofText? text = some s) : s.Holdable := by
  obtain ⟨j, hj, h⟩ := Option.bind_eq_some_iff.1 h
  have hdepth := Json.depth_le_of_read? hj
  simp only [ofJson?, Option.bind_eq_bind, Option.pure_def, Option.bind_eq_some_iff, Option.some.injEq] at h
  obtain ⟨r, hr, -, -, nodes, hnodes, links, hlinks, -, -, rfl⟩ := h
  -- What is in a list that was left out is nothing; else it was decoded from a part of `j`.
  have hpart {α : Type} {name : String} {decode : Json → Option α} {as : List α}
      (has : r.orElse? name [] (Json.list? decode) = some as) : ∀ a ∈ as, ∃ v, v.depth + 2 ≤ j.depth ∧ decode v = some a := by
    intro a ha
    unfold Json.Record.orElse? at has
    split at has
    · cases has
      cases ha
    · rename_i v hv
      obtain ⟨items, hitems, has⟩ := Option.bind_eq_some_iff.1 has
      obtain ⟨b, hb, hdecode⟩ := Json.exists_of_mem_mapM has ha
      refine ⟨b, ?_, hdecode⟩
      have hvj := Json.Record.depth_lookup_lt hr hv
      cases v <;> cases hitems
      have hbv : b.depth + 1 ≤ (Json.array items).depth := Nat.succ_le_succ (Json.depth_le_itemDepth hb)
      omega
  constructor
  · intro l hl
    obtain ⟨v, -, hdecode⟩ := hpart hlinks l hl
    exact indexed_of_linkOfJson? hdecode
  · intro n hn ps hps p hp
    obtain ⟨v, hv, hdecode⟩ := hpart hnodes n hn
    have := shallow_of_ofJson? hdecode ps hps p hp
    unfold parameterDepth
    omega

/-! ## Graphs that were opened -/

/-- A catalog whose templates have no parameters nested too deep. -/
def Shallow (catalog : NodeCatalog) : Prop :=
  ∀ t ∈ catalog.entries, ∀ p ∈ t.params.values, p.toJson.depth ≤ parameterDepth

theorem shallow_standard : Shallow .standard := by
  unfold Shallow
  decide +kernel

/-- The parameters of an opened node are those of its template and those that were saved. -/
theorem shallow_toNode {catalog : NodeCatalog} (hcatalog : Shallow catalog) {n : SavedNode}
    (hn : ∀ ps ∈ n.params, ∀ p ∈ ps.values, p.toJson.depth ≤ parameterDepth) (id : NodeId) :
    ∀ p ∈ (n.toNode catalog id).params.values, p.toJson.depth ≤ parameterDepth := by
  intro p hp
  have hparams : (n.toNode catalog id).params =
      (n.blank catalog id).params.insertAll ((n.params.map Table.entries).getD []) :=
    apply_foldl_addExtra (f := Node.params) (fun _ _ => rfl) _ _
  rw [hparams] at hp
  rcases Table.mem_values_insertAll hp with hp | ⟨e, he, rfl⟩
  · unfold SavedNode.blank at hp
    split at hp
    · rename_i t ht
      exact hcatalog t (Catalog.mem_of_find? ht) p hp
    · cases hp
  · cases hps : n.params with
    | none => rw [hps] at he; cases he
    | some ps =>
      rw [hps] at he
      exact hn ps hps e.2 (List.mem_map_of_mem he)

/-- A graph that was opened is saved as one that its text can hold. -/
theorem Holdable.ofGraph {catalog : NodeCatalog} (hcatalog : Shallow catalog) {s : SavedGraph} (hs : s.Holdable) {g : Graph}
    (hg : s.toGraph catalog = .ok g) : (SavedGraph.ofGraph catalog g).Holdable := by
  obtain ⟨g', hg', hsnapshot⟩ := snapshot_toGraph catalog s (invalidLink?_of_toGraph hg)
  obtain rfl : g' = g := Except.ok.inj (hg'.symm.trans hg)
  have hnodes : g'.nodes.values = s.loadNodes catalog := congrArg Snapshot.nodes hsnapshot
  have hlinks : g'.links = (kept (s.loadNodes catalog) s.links.zipIdx).map Prod.fst := congrArg Snapshot.links hsnapshot
  constructor
  · intro l hl
    have hl : l ∈ g'.links := hl
    rw [hlinks] at hl
    obtain ⟨e, he, rfl⟩ := List.mem_map.1 hl
    exact hs.indexed e.1 (List.fst_mem_of_mem_zipIdx ((kept_sublist s.links.zipIdx).subset he))
  · intro n hn ps hps p hp
    obtain ⟨node, hnode, rfl⟩ := List.mem_map.1 hn
    have hparams : ps = node.params := by
      have hps : (if node.params.isEmpty then none else some node.params) = some ps := hps
      split at hps <;> cases hps
      rfl
    rw [hparams] at hp
    -- Sockets that were added in opening have no part in the parameters, which are those of the saved node.
    have hmem : node.params ∈ (s.loadNodes catalog).map Node.params := List.mem_map_of_mem (hnodes ▸ hnode)
    rw [loadNodes, map_foldl_grow (f := Node.params) (fun _ _ => rfl) (fun _ _ => rfl), List.map_map] at hmem
    obtain ⟨⟨saved, i⟩, hsaved, heq⟩ := List.mem_map.1 hmem
    have heq : (saved.toNode catalog ⟨i⟩).params = node.params := heq
    rw [← heq] at hp
    exact shallow_toNode hcatalog (hs.shallow saved (List.fst_mem_of_mem_zipIdx hsaved)) ⟨i⟩ p hp

/-- A graph that was opened from a text is saved as a text that is read as the same saved graph, just if each of its
numbers is read as itself. -/
theorem reopened_iff {text : String} {g : Graph} (h : openText .standard text = .ok g) :
    ofText? (ofGraph .standard g).toText = some (ofGraph .standard g) ↔ (ofGraph .standard g).Rereads := by
  unfold openText at h
  split at h
  · cases h
  · rename_i s hs
    exact ofText?_toText_iff ((holdable_of_ofText? hs).ofGraph shallow_standard h)

instance (s : SavedGraph) : Decidable s.Rereads :=
  inferInstanceAs (Decidable ((∀ n ∈ s.nodes, (∀ x ∈ n.singles, RereadsSingle x) ∧ ∀ x ∈ n.doubles, RereadsDouble x) ∧
    ∀ f ∈ s.frames, ∀ x ∈ f.singles, RereadsSingle x))

/-- A node at the place `x`, `0`, where `x` is a numeral. -/
def placedAt (x : String) : String := "\x7b\"nodes\":[\x7b\"type\":\"FBO\",\"x\":" ++ x ++ ",\"y\":0\x7d]\x7d"

/-- A place with a fraction comes back. -/
theorem placedAt_reopened : ∃ g, openText .standard (placedAt "0.5") = .ok g ∧
    ofText? (ofGraph .standard g).toText = some (ofGraph .standard g) := by
  have hrereads : (openText .standard (placedAt "0.5")).toOption.any (fun g => decide (ofGraph .standard g).Rereads) = true := by
    decide +kernel
  cases h : openText .standard (placedAt "0.5") with
  | error e => rw [h] at hrereads; cases hrereads
  | ok g =>
    rw [h] at hrereads
    exact ⟨g, rfl, (reopened_iff h).2 (of_decide_eq_true hrereads)⟩

/-- A place beyond the 32-bit numbers is opened, but what is saved then is refused. -/
theorem placedAt_lost : ∃ g, openText .standard (placedAt "1e39") = .ok g ∧
    ofText? (ofGraph .standard g).toText = none := by
  have hplace : (openText .standard (placedAt "1e39")).toOption.any
      (fun g => (ofGraph .standard g).nodes.any fun n => !n.x.isFinite) = true := by decide +kernel
  cases h : openText .standard (placedAt "1e39") with
  | error e => rw [h] at hplace; cases hplace
  | ok g =>
    rw [h] at hplace
    obtain ⟨n, hn, hx⟩ := List.any_eq_true.1 hplace
    exact ⟨g, rfl, ofText?_toText_eq_none (.inl ⟨n, hn, .inl (by simpa using hx)⟩)⟩

end RenderGraph.SavedGraph
