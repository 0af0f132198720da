import Mathlib.Data.List.InsertIdx
import RenderGraph.Proofs.Wiring
/-!
# Removing a node

Links go by the positions of nodes, which change when one is removed: those
behind it move up (`movedUp`).

`Made.removed`: a snapshot taken after a node is removed is the one
taken before without that node and the links at it, all other links standing in
their order at the same nodes as before. Removing a node that is not there
changes nothing, as no connection is left at a node that is gone.
-/

namespace RenderGraph

/-- Where the position `j` is once the one at `i` is gone. -/
def movedUp (i j : Nat) : Nat := if i < j then j - 1 else j

namespace Link

/-- Whether a link starts or ends at the node at a position. -/
def touches (l : Link) (i : Nat) : Bool := l.fromNode = i || l.toNode = i

/-- The link between the same nodes once the node at a position is gone. -/
def movedUp (l : Link) (i : Nat) : Link :=
  { l with fromNode := RenderGraph.movedUp i l.fromNode, toNode := RenderGraph.movedUp i l.toNode }

end Link

/-- The snapshot without the node at a position and the links at it. -/
def Snapshot.without (s : Snapshot) (i : Nat) : Snapshot :=
  { s with
    nodes := s.nodes.eraseIdx i
    links := (s.links.filter fun l => !l.touches i).map fun l => l.movedUp i }

/-! ## A table without a key -/

namespace Table

variable {κ α : Type} [DecidableEq κ] {t : Table κ α} {k k' : κ} {i : Nat}

/-- Where keys are distinct, leaving out a key is leaving out the entry at its position. -/
theorem filter_ne_eq_eraseIdx {entries : List (κ × α)} (hnodup : (entries.map Prod.fst).Nodup) {i : Nat}
    (h : (entries.map Prod.fst)[i]? = some k) : (entries.filter fun e => e.1 ≠ k) = entries.eraseIdx i := by
  induction entries generalizing i with
  | nil => rfl
  | cons e rest ih =>
    obtain ⟨hnew, hnodup⟩ := List.nodup_cons.1 hnodup
    cases i with
    | zero =>
      obtain rfl : e.1 = k := Option.some.inj h
      rw [List.filter_cons_of_neg (by simp), List.eraseIdx_cons_zero, List.filter_eq_self]
      exact fun e' he' => decide_eq_true fun hkey => hnew (hkey ▸ List.mem_map_of_mem he')
    | succ i =>
      have hne : e.1 ≠ k := by
        rintro rfl
        exact hnew (List.mem_of_getElem? h)
      rw [List.filter_cons_of_pos (by simpa using hne), List.eraseIdx_cons_succ, ih hnodup h]

theorem entries_erase (h : t.position? k = some i) : (t.erase k).entries = t.entries.eraseIdx i :=
  filter_ne_eq_eraseIdx t.keys_nodup ((t.position?_eq_some_iff k i).1 h)

theorem erase_eq_self (h : t.get? k = none) : t.erase k = t := by
  refine filter_eq_self fun e he => decide_eq_true fun hkey => ?_
  have hvalue := (t.get?_eq_some_iff e.1 e.2).2 he
  rw [hkey, h] at hvalue
  cases hvalue

/-- One key stands at a position. -/
theorem position?_inj (h : t.position? k = some i) (h' : t.position? k' = some i) : k' = k := by
  rw [position?_eq_some_iff] at h h'
  exact Option.some.inj (h'.symm.trans h)

/-- The keys behind one that is left out move up. -/
theorem position?_erase (h : t.position? k = some i) (hne : k' ≠ k) :
    (t.erase k).position? k' = (t.position? k').map (movedUp i) := by
  have hkeys : (t.erase k).keys = t.keys.eraseIdx i := by
    rw [keys, entries_erase h, keys, ← List.eraseIdx_map]
  cases hj : t.position? k' with
  | none =>
    rw [position?, List.idxOf?_eq_none_iff] at hj
    rw [Option.map_none, position?, List.idxOf?_eq_none_iff, hkeys]
    exact fun hmem => hj (List.eraseIdx_subset hmem)
  | some j =>
    have hij : i ≠ j := by
      rintro rfl
      exact hne (position?_inj h hj)
    rw [position?_eq_some_iff] at hj
    rw [Option.map_some, position?_eq_some_iff, hkeys, List.getElem?_eraseIdx, movedUp]
    by_cases hlt : i < j
    · rw [if_pos hlt, if_neg (by omega), show j - 1 + 1 = j by omega, hj]
    · rw [if_neg hlt, if_pos (by omega), hj]

end Table

/-! ## A graph without a node -/

namespace Graph

variable {g : Graph} {id : NodeId} {i : Nat}

/-- A link is at the position of a node just if its connection is at the node. -/
theorem touches_eq_involves (h : g.nodeIndex? id = some i) {c : Connection} {l : Link} (hl : g.link? c = some l) :
    l.touches i = c.involves id := by
  have hend : ∀ {k : NodeId} {j : Nat}, g.nodeIndex? k = some j → (j = i ↔ k = id) := by
    intro k j hj
    constructor
    · rintro rfl; exact Table.position?_inj h hj
    · rintro rfl; exact Option.some.inj (hj.symm.trans h)
  obtain ⟨hfrom, hto, -⟩ := link?_eq_some_iff.1 hl
  simp only [Link.touches, Connection.involves, hend hfrom, hend hto]

/-- A connection of the graph, read before and after a node is removed: at that node it has no link any more, elsewhere
its link moves up. -/
theorem link?_removeNode (h : g.nodeIndex? id = some i) (c : Connection) :
    (if !c.involves id then (g.removeNode id).link? c else none) =
      ((g.link? c).filter fun l => !l.touches i).map fun l => l.movedUp i := by
  have hfilter : (g.link? c).filter (fun l => !l.touches i) = if !c.involves id then g.link? c else none := by
    cases hl : g.link? c with
    | none => simp
    | some l => rw [Option.filter_some, touches_eq_involves h hl]
  rw [hfilter]
  cases hc : c.involves id with
  | true => rfl
  | false =>
    simp only [Connection.involves, Bool.or_eq_false_iff, decide_eq_false_iff_not] at hc
    have hfrom : (g.removeNode id).nodeIndex? c.fromNode = (g.nodeIndex? c.fromNode).map (movedUp i) :=
      Table.position?_erase h hc.1
    have hto : (g.removeNode id).nodeIndex? c.toNode = (g.nodeIndex? c.toNode).map (movedUp i) :=
      Table.position?_erase h hc.2
    rw [Bool.not_false, if_pos rfl, if_pos rfl, link?, link?, hfrom, hto]
    cases g.nodeIndex? c.fromNode <;> cases g.nodeIndex? c.toNode <;> rfl

theorem snapshot_removeNode (h : g.nodeIndex? id = some i) : (g.removeNode id).snapshot = g.snapshot.without i := by
  have hnodes : (g.removeNode id).nodes.values = g.nodes.values.eraseIdx i := by
    rw [Table.values, removeNode, Table.entries_erase h, Table.values, List.eraseIdx_map]
  have hconnections : (g.removeNode id).connections.values = g.connections.values.filter fun c => !c.involves id := by
    rw [Table.values, Table.values, List.filter_map]
    rfl
  have hlinks : (g.removeNode id).links = (g.links.filter fun l => !l.touches i).map fun l => l.movedUp i := by
    rw [links, hconnections, links, List.filterMap_filter, List.filter_filterMap, List.map_filterMap]
    exact List.filterMap_congr fun c _ => link?_removeNode h c
  rw [snapshot, hnodes, hlinks]
  rfl

/-- No connection of a sound graph is at a node that is not there. -/
theorem Sound.removeNode_eq_self (hg : g.Sound) (h : g.node? id = none) : g.removeNode id = g := by
  have hconnections : g.connections.filter (fun _ c => !c.involves id) = g.connections := by
    refine Table.filter_eq_self fun e he => ?_
    have hne : ∀ k, (g.node? k).isSome → k ≠ id := by
      rintro k hk rfl
      rw [h] at hk
      cases hk
    obtain ⟨hfrom, hto⟩ := hg.ends (List.mem_map_of_mem he)
    simp [Connection.involves, hne _ hfrom, hne _ hto]
  rw [Graph.removeNode, Table.erase_eq_self h, hconnections]

/-- However a graph was made by edits, removing the node at a position takes that node and the links at it out of the
snapshot; the other links keep their order and their nodes, those behind the position moving up by one, and name and
frames stay. Removing a node that is not there leaves the graph as it is. -/
theorem Made.removed {p : Node → Prop} (hg : g.Made p) (id : NodeId) :
    (∀ i, g.nodeIndex? id = some i → (g.removeNode id).snapshot = g.snapshot.without i) ∧
    (g.node? id = none → g.removeNode id = g) :=
  ⟨fun _ => snapshot_removeNode, hg.sound.removeNode_eq_self⟩

/-- Three sources and two sinks behind them. The first sink has given up the third source for the second one, and the
other is fed by the first. -/
def crossed : Graph :=
  draw "crossed" [sourceNode 5, sourceNode 3, sourceNode 4, sinkNode 8, sinkNode 9]
    [(⟨4⟩, "out", ⟨8⟩, "in"), (⟨3⟩, "out", ⟨8⟩, "in"), (⟨5⟩, "out", ⟨9⟩, "in")]

/-- Without the second source the first sink is fed by nothing, and the other one has moved up. There is no node 7. -/
theorem crossed_removed : crossed.snapshot.links = [⟨1, "out", 3, "in"⟩, ⟨0, "out", 4, "in"⟩] ∧
    (crossed.removeNode ⟨3⟩).snapshot = crossed.snapshot.without 1 ∧
    (crossed.removeNode ⟨3⟩).snapshot.links = [⟨0, "out", 3, "in"⟩] ∧ crossed.removeNode ⟨7⟩ = crossed := by
  have hmade : crossed.Made fun _ => True := made_draw _ (fun _ _ => trivial) (by decide +kernel) _
  have hremoved := (hmade.removed ⟨3⟩).1 1 (by decide +kernel)
  refine ⟨by decide +kernel, hremoved, ?_, (hmade.removed ⟨7⟩).2 (by decide +kernel)⟩
  rw [hremoved]
  decide +kernel

end Graph

end RenderGraph
