import Mathlib.Data.List.Induction
import Mathlib.Data.List.Nodup
import RenderGraph.Proofs.Edits
import RenderGraph.SavedGraph
/-!
# Opening a saved graph

The nodes of a saved graph are numbered, and its links are connected one after
another. A link that does not fit the nodes is dropped, and one into an input for
one connection gives way to a later one (`kept`); the rest keeps its order.

`snapshot_toGraph` says what a compile reads of a graph that was opened.
-/

namespace RenderGraph.SavedGraph

open RenderGraph.Graph

/-- The input at the end of a link. -/
def target? (nodes : List Node) (l : Link) : Option Socket := (nodes[l.toNode]?).bind fun n => n.input? l.toSocket

/-- The output at the start of a link. -/
def start? (nodes : List Node) (l : Link) : Option Socket := (nodes[l.fromNode]?).bind fun n => n.output? l.fromSocket

/-- Whether a link can be made: it joins an output of a node to an input of another one that suits it. -/
def fits (nodes : List Node) (l : Link) : Bool :=
  l.fromNode ≠ l.toNode && (start? nodes l).any fun s => (target? nodes l).any s.canConnect

/-- Whether a link takes the input of an earlier one. -/
def displaces (nodes : List Node) (later earlier : Link) : Bool :=
  fits nodes later && (later.toNode = earlier.toNode && later.toSocket = earlier.toSocket) &&
    (target? nodes later).any fun t => t.multiplicity = .single

/-- The links that fit and are not displaced by a later one. -/
def kept (nodes : List Node) : List (Link × Nat) → List (Link × Nat)
  | [] => []
  | e :: rest =>
    if fits nodes e.1 && !rest.any (fun e' => displaces nodes e'.1 e.1) then e :: kept nodes rest else kept nodes rest

/-- A numbered link as a connection. -/
def wire (e : Link × Nat) : ConnectionId × Connection :=
  (⟨e.2⟩, ⟨⟨e.2⟩, ⟨e.1.fromNode⟩, e.1.fromSocket, ⟨e.1.toNode⟩, e.1.toSocket⟩)

section Kept
variable {nodes : List Node} {l : Link}

theorem fits_eq_true_iff : fits nodes l = true ↔ l.fromNode ≠ l.toNode ∧
    ∃ s t, start? nodes l = some s ∧ target? nodes l = some t ∧ s.canConnect t = true := by
  simp only [fits, Bool.and_eq_true, decide_eq_true_eq, Option.any_eq_true]
  constructor
  · rintro ⟨hne, s, hs, t, ht, hst⟩
    exact ⟨hne, s, t, hs, ht, hst⟩
  · rintro ⟨hne, s, t, hs, ht, hst⟩
    exact ⟨hne, s, hs, t, ht, hst⟩

/-- Links that fit nodes point at them. -/
theorem lt_length_of_fits (h : fits nodes l = true) : l.fromNode < nodes.length ∧ l.toNode < nodes.length := by
  obtain ⟨-, s, t, hs, ht, -⟩ := fits_eq_true_iff.1 h
  obtain ⟨n, hn, -⟩ := Option.bind_eq_some_iff.1 hs
  obtain ⟨m, hm, -⟩ := Option.bind_eq_some_iff.1 ht
  exact ⟨(List.getElem?_eq_some_iff.1 hn).1, (List.getElem?_eq_some_iff.1 hm).1⟩

/-- Nodes with links that fit them can be opened. -/
theorem invalidLink?_eq_none {links : List Link} (h : ∀ l ∈ links, fits nodes l = true) :
    invalidLink? nodes.length links.zipIdx = none := by
  rw [invalidLink?, List.findSome?_eq_none_iff]
  rintro ⟨l, i⟩ he
  obtain ⟨hfrom, hto⟩ := lt_length_of_fits (h l (List.fst_mem_of_mem_zipIdx he))
  simp only [if_neg (Nat.not_le.2 hfrom), if_neg (Nat.not_le.2 hto)]

theorem displaces_of_not_fits (h : fits nodes l = false) (earlier : Link) : displaces nodes l earlier = false := by
  rw [displaces, h, Bool.false_and, Bool.false_and]

/-- One more link is kept if it fits, and drives out those that it displaces. -/
theorem kept_append_singleton (es : List (Link × Nat)) (e : Link × Nat) : kept nodes (es ++ [e]) =
    if fits nodes e.1 then (kept nodes es).filter (fun e' => !displaces nodes e.1 e'.1) ++ [e] else kept nodes es := by
  induction es with
  | nil => simp [kept]
  | cons x es ih =>
    simp only [List.cons_append, kept, List.any_append, List.any_cons, List.any_nil, Bool.or_false, ih]
    cases he : fits nodes e.1 with
    | false => simp only [displaces_of_not_fits he, Bool.or_false, Bool.false_eq_true, if_false]
    | true =>
      cases hd : displaces nodes e.1 x.1 <;> cases hx : fits nodes x.1 <;>
        cases hrest : es.any fun e' => displaces nodes e'.1 x.1 <;> simp [hd]

theorem fits_of_mem_kept {es : List (Link × Nat)} {e : Link × Nat} (h : e ∈ kept nodes es) : fits nodes e.1 = true := by
  induction es with
  | nil => cases h
  | cons x es ih =>
    rw [kept] at h
    split at h
    · rename_i hx
      rcases List.mem_cons.1 h with rfl | h
      · exact (Bool.and_eq_true_iff.1 hx).1
      · exact ih h
    · exact ih h

theorem kept_sublist (es : List (Link × Nat)) : (kept nodes es).Sublist es := by
  induction es with
  | nil => exact .slnil
  | cons x es ih =>
    rw [kept]
    split
    · exact ih.cons_cons x
    · exact ih.cons x

/-- Links that fit and do not compete are all kept. -/
theorem kept_eq_self {es : List (Link × Nat)} (hfits : ∀ e ∈ es, fits nodes e.1 = true)
    (hfree : es.Pairwise fun e e' => displaces nodes e'.1 e.1 = false) : kept nodes es = es := by
  induction es with
  | nil => rfl
  | cons x es ih =>
    obtain ⟨hx, hfree⟩ := List.pairwise_cons.1 hfree
    rw [kept, if_pos, ih (fun e he => hfits e (List.mem_cons_of_mem _ he)) hfree]
    rw [hfits x List.mem_cons_self, Bool.true_and, Bool.not_eq_true', List.any_eq_false]
    intro e he
    rw [hx e he]
    exact Bool.false_ne_true

/-- Of the links that are kept, none is displaced by a later one. -/
theorem pairwise_kept (es : List (Link × Nat)) :
    (kept nodes es).Pairwise fun e e' => displaces nodes e'.1 e.1 = false := by
  induction es with
  | nil => exact .nil
  | cons x es ih =>
    rw [kept]
    split
    · rename_i hx
      refine List.pairwise_cons.2 ⟨fun e he => ?_, ih⟩
      have hfree := (Bool.and_eq_true_iff.1 hx).2
      rw [Bool.not_eq_true', List.any_eq_false] at hfree
      simpa using hfree e ((kept_sublist es).subset he)
    · exact ih

/-- Links that fit and do not compete are kept as they stand. -/
theorem kept_links_eq_self {links : List Link} (hfits : ∀ l ∈ links, fits nodes l = true)
    (hfree : links.Pairwise fun l l' => displaces nodes l' l = false) : (kept nodes links.zipIdx).map Prod.fst = links := by
  rw [kept_eq_self]
  · exact List.zipIdx_map_fst ..
  · intro e he
    exact hfits e.1 (List.fst_mem_of_mem_zipIdx he)
  · refine List.Pairwise.of_map (S := fun l l' => displaces nodes l' l = false) Prod.fst (fun _ _ h => h) ?_
    rw [List.zipIdx_map_fst]
    exact hfree

end Kept

/-! ## Nodes by position -/

/-- Nodes under their positions. -/
def Numbered (nodes : List Node) (g : Graph) : Prop := g.nodes.entries = nodes.zipIdx.map fun e => (⟨e.2⟩, e.1)

section Numbered
variable {nodes : List Node} {g : Graph}

theorem Numbered.values (h : Numbered nodes g) : g.nodes.values = nodes := by
  rw [Table.values, h, List.map_map]
  exact List.zipIdx_map_fst ..

theorem Numbered.keys (h : Numbered nodes g) : g.nodes.keys = (List.range nodes.length).map NodeId.mk := by
  rw [Table.keys, h, List.map_map, List.range_eq_range', ← List.zipIdx_map_snd 0 nodes, List.map_map]
  rfl

theorem Numbered.nodeIndex? (h : Numbered nodes g) {i : Nat} (hi : i < nodes.length) : g.nodeIndex? ⟨i⟩ = some i := by
  rw [Graph.nodeIndex?, Table.position?_eq_some_iff, h.keys, List.getElem?_map, List.getElem?_range hi]
  rfl

theorem Numbered.node? (h : Numbered nodes g) (i : Nat) : g.node? ⟨i⟩ = nodes[i]? := by
  by_cases hi : i < nodes.length
  · rw [List.getElem?_eq_getElem hi, Graph.node?, Table.get?_eq_some_iff, h]
    exact List.mem_map.2 ⟨(nodes[i], i), List.mem_iff_getElem?.2 ⟨i, by simp [hi]⟩, rfl⟩
  · rw [List.getElem?_eq_none (Nat.le_of_not_lt hi), Graph.node?, Table.get?_eq_none_iff, h.keys]
    simpa using hi

/-! ## Connecting links one after another -/

theorem endpoints_eq (h : Numbered nodes g) {l : Link} {s t : Socket} :
    g.endpoints ⟨l.fromNode⟩ l.fromSocket ⟨l.toNode⟩ l.toSocket = .ok (s, t) ↔
      start? nodes l = some s ∧ target? nodes l = some t ∧ l.fromNode ≠ l.toNode ∧ s.canConnect t = true := by
  rw [endpoints_eq_ok_iff]
  simp only [h.node?, start?, target?, Option.bind_eq_some_iff, ne_eq, NodeId.mk.injEq]
  constructor
  · rintro ⟨n, m, hn, hm, hs, ht, hne, hc⟩
    exact ⟨⟨n, hn, hs⟩, ⟨m, hm, ht⟩, hne, hc⟩
  · rintro ⟨⟨n, hn, hs⟩, ⟨m, hm, ht⟩, hne, hc⟩
    exact ⟨n, m, hn, hm, hs, ht, hne, hc⟩

theorem connectLink_of_not_fits (h : Numbered nodes g) {e : Link × Nat} (he : fits nodes e.1 = false) :
    connectLink g e = g := by
  rw [connectLink, on_connect]
  cases hends : g.endpoints ⟨e.1.fromNode⟩ e.1.fromSocket ⟨e.1.toNode⟩ e.1.toSocket with
  | error _ => rfl
  | ok ends =>
    obtain ⟨hs, ht, hne, hc⟩ := (endpoints_eq h (s := ends.1) (t := ends.2)).1 hends
    rw [fits_eq_true_iff.2 ⟨hne, ends.1, ends.2, hs, ht, hc⟩] at he
    cases he

/-- A link that fits is connected after those that it does not displace. -/
theorem connectLink_of_fits (h : Numbered nodes g) {e : Link × Nat} (he : fits nodes e.1 = true) {es : List (Link × Nat)}
    (hes : g.connections.entries = es.map wire) (hnew : e.2 ∉ es.map Prod.snd) :
    ∃ after : Table ConnectionId Connection, connectLink g e = { g with connections := after } ∧
      after.entries = (es.filter fun e' => !displaces nodes e.1 e'.1).map wire ++ [wire e] := by
  obtain ⟨hne, s, t, hs, ht, hc⟩ := fits_eq_true_iff.1 he
  have hends := (endpoints_eq h).2 ⟨hs, ht, hne, hc⟩
  rw [connectLink, on_connect, hends]
  refine ⟨_, rfl, ?_⟩
  -- What is there before the new connection is what the link does not displace.
  have hleft : (if t.multiplicity = .single then g.connections.filter fun _ c => !c.endsAt ⟨e.1.toNode⟩ e.1.toSocket
      else g.connections).entries = (es.filter fun e' => !displaces nodes e.1 e'.1).map wire := by
    have hdisplaces (e' : Link × Nat) : displaces nodes e.1 e'.1 =
        ((wire e').2.endsAt ⟨e.1.toNode⟩ e.1.toSocket && decide (t.multiplicity = .single)) := by
      simp [displaces, he, ht, wire, Connection.endsAt, eq_comm]
    simp only [hdisplaces]
    split
    · rename_i hsingle
      simp only [Table.filter, hes, List.filter_map, hsingle, decide_true, Bool.and_true]
      rfl
    · rename_i hmultiple
      simp only [hes, hmultiple, decide_false, Bool.and_false, Bool.not_false, List.filter_true]
  rw [Table.entries_insert_of_not_mem, hleft]
  · rfl
  · rw [Table.keys, hleft, List.map_map]
    simp only [List.mem_map, List.mem_filter, not_exists, not_and]
    rintro e' ⟨he', -⟩ hid
    refine hnew (List.mem_map.2 ⟨e', he', ?_⟩)
    simpa [wire] using hid

/-- The connections after all links. -/
theorem foldl_connectLink (h : Numbered nodes g) (hempty : g.connections.entries = []) (es : List (Link × Nat))
    (hes : (es.map Prod.snd).Nodup) : ∃ after : Table ConnectionId Connection,
      es.foldl connectLink g = { g with connections := after } ∧ after.entries = (kept nodes es).map wire := by
  induction es using List.reverseRecOn with
  | nil => exact ⟨g.connections, rfl, hempty⟩
  | append_singleton es e ih =>
    rw [List.map_append, List.nodup_append] at hes
    obtain ⟨before, hbefore, hentries⟩ := ih hes.1
    rw [List.foldl_append, List.foldl_cons, List.foldl_nil, hbefore, kept_append_singleton]
    have hnumbered : Numbered nodes { g with connections := before } := h
    cases he : fits nodes e.1 with
    | false =>
      rw [connectLink_of_not_fits hnumbered he]
      exact ⟨before, rfl, hentries⟩
    | true =>
      have hnew : e.2 ∉ (kept nodes es).map Prod.snd := fun hmem =>
        hes.2.2 _ (((kept_sublist es).map Prod.snd).subset hmem) _ (List.mem_singleton.2 rfl) rfl
      obtain ⟨after, hafter, hlist⟩ := connectLink_of_fits hnumbered he hentries hnew
      exact ⟨after, hafter, by rw [hlist, if_pos rfl, List.map_append]; rfl⟩

/-- A link that was connected is read off again. -/
theorem link?_wire (h : Numbered nodes g) {e : Link × Nat} (he : fits nodes e.1 = true) : g.link? (wire e).2 = some e.1 := by
  obtain ⟨-, s, t, hs, ht, -⟩ := fits_eq_true_iff.1 he
  obtain ⟨n, hn, -⟩ := Option.bind_eq_some_iff.1 hs
  obtain ⟨m, hm, -⟩ := Option.bind_eq_some_iff.1 ht
  obtain ⟨hi, -⟩ := List.getElem?_eq_some_iff.1 hn
  obtain ⟨hj, -⟩ := List.getElem?_eq_some_iff.1 hm
  exact link?_eq_some_iff.2 ⟨h.nodeIndex? hi, h.nodeIndex? hj, rfl, rfl⟩

theorem links_of_wires (h : Numbered nodes g) {es : List (Link × Nat)} (hes : g.connections.entries = es.map wire)
    (hfits : ∀ e ∈ es, fits nodes e.1 = true) : g.links = es.map Prod.fst := by
  rw [Graph.links, Table.values, hes, List.map_map, List.filterMap_map, ← List.filterMap_eq_map]
  refine List.filterMap_congr fun e he => ?_
  exact link?_wire h (hfits e he)

end Numbered

/-! ## Loading nodes -/

section Unchanged
variable {β : Type} {f : Node → β}

/-- What a change of one node leaves alone. -/
theorem map_modify_of_eq {nodes : List Node} {i : Nat} {change : Node → Node}
    (h : ∀ n, nodes[i]? = some n → f (change n) = f n) : (nodes.modify i change).map f = nodes.map f := by
  refine List.ext_getElem? fun j => ?_
  rw [List.getElem?_map, List.getElem?_map, List.getElem?_modify]
  by_cases hj : i = j
  · subst hj
    cases hn : nodes[i]? with
    | none => rfl
    | some n => simp [h n hn]
  · simp [hj]

/-- What sockets have no part in stays as it is when inputs are added. -/
theorem apply_foldl_addExtra (hinput : ∀ n s, f (n.addInput s) = f n) (extra : List (String × SocketKind)) (n : Node) :
    f (extra.foldl SavedNode.addExtra n) = f n := by
  induction extra generalizing n with
  | nil => rfl
  | cons e extra ih =>
    rw [List.foldl_cons, ih, SavedNode.addExtra]
    split
    · exact hinput _ _
    · rfl

/-- What sockets have no part in stays as it is when nodes grow. -/
theorem map_foldl_grow (hinput : ∀ n s, f (n.addInput s) = f n) (houtput : ∀ n s, f (n.addOutput s) = f n)
    (catalog : NodeCatalog) (links : List Link) (nodes : List Node) :
    (links.foldl (grow catalog) nodes).map f = nodes.map f := by
  induction links generalizing nodes with
  | nil => rfl
  | cons l links ih =>
    rw [List.foldl_cons, ih, grow, map_modify_of_eq, map_modify_of_eq]
    · intro n _
      unfold growOutput
      split
      · exact houtput _ _
      · rfl
    · intro n _
      unfold growInput
      split
      · exact hinput _ _
      · rfl

end Unchanged

theorem id_toNode (catalog : NodeCatalog) (id : NodeId) (n : SavedNode) : (n.toNode catalog id).id = id := by
  refine (apply_foldl_addExtra (f := Node.id) (fun _ _ => rfl) _ _).trans ?_
  change (n.blank catalog id).id = id
  unfold SavedNode.blank
  split <;> rfl

theorem map_id_loadNodes (catalog : NodeCatalog) (s : SavedGraph) :
    (s.loadNodes catalog).map Node.id = (List.range s.nodes.length).map NodeId.mk := by
  rw [loadNodes, map_foldl_grow (f := Node.id) (fun _ _ => rfl) (fun _ _ => rfl), List.map_map, List.range_eq_range',
    ← List.zipIdx_map_snd 0 s.nodes, List.map_map]
  exact List.map_congr_left fun e _ => id_toNode catalog ⟨e.2⟩ e.1

theorem foldl_addNode (nodes : List Node) (g : Graph) :
    nodes.foldl Graph.addNode g = { g with nodes := g.nodes.insertAll (nodes.map fun n => (n.id, n)) } := by
  induction nodes generalizing g with
  | nil => rfl
  | cons n nodes ih => rw [List.foldl_cons, ih]; rfl

/-- Nodes that have their positions as identities stand under them. -/
theorem numbered_foldl_addNode {nodes : List Node} (h : nodes.map Node.id = (List.range nodes.length).map NodeId.mk)
    (name : String) : Numbered nodes (nodes.foldl Graph.addNode (.empty name)) := by
  have hpairs : (nodes.map fun n => (n.id, n)) = nodes.zipIdx.map fun e => (⟨e.2⟩, e.1) := by
    refine List.ext_getElem? fun i => ?_
    have hi := congrArg (·[i]?) h
    simp only [List.getElem?_map] at hi
    rw [List.getElem?_map, List.getElem?_map, List.getElem?_zipIdx]
    cases hn : nodes[i]? with
    | none => rfl
    | some n =>
      have hlt := (List.getElem?_eq_some_iff.1 hn).1
      rw [hn, List.getElem?_range hlt] at hi
      simpa using hi
  rw [Numbered, foldl_addNode, ← hpairs]
  refine (Table.entries_insertAll ?_ fun _ _ => List.not_mem_nil).trans (List.nil_append _)
  rw [List.map_map, show Prod.fst ∘ (fun n : Node => (n.id, n)) = Node.id from rfl, h]
  exact List.Nodup.map (fun _ _ h => NodeId.mk.inj h) List.nodup_range

theorem invalidLink?_of_toGraph {catalog : NodeCatalog} {s : SavedGraph} {g : Graph} (h : s.toGraph catalog = .ok g) :
    invalidLink? s.nodes.length s.links.zipIdx = none := by
  unfold toGraph at h
  split at h
  · cases h
  · assumption

/-- The graph that is opened has the nodes under their positions, and the links that are kept as connections. -/
theorem exists_toGraph (catalog : NodeCatalog) (s : SavedGraph) (hvalid : invalidLink? s.nodes.length s.links.zipIdx = none) :
    ∃ g, s.toGraph catalog = .ok g ∧ Numbered (s.loadNodes catalog) g ∧
      g.connections.entries = (kept (s.loadNodes catalog) s.links.zipIdx).map wire ∧ g.name = s.name ∧ g.frames = s.frames := by
  have hids := map_id_loadNodes catalog s
  have hlength : (s.loadNodes catalog).length = s.nodes.length := by simpa using congrArg List.length hids
  have hnumbered := numbered_foldl_addNode (hlength ▸ hids) s.name
  obtain ⟨after, hafter, hentries⟩ := foldl_connectLink hnumbered (by rw [foldl_addNode]; rfl) s.links.zipIdx
    (by rw [List.zipIdx_map_snd]; exact List.nodup_range')
  let g : Graph := { (s.loadNodes catalog).foldl Graph.addNode (.empty s.name) with connections := after, frames := s.frames }
  have hname : g.name = s.name := congrArg Graph.name (foldl_addNode ..)
  exact ⟨g, by simp only [toGraph, hvalid, hafter, g], hnumbered, hentries, hname, rfl⟩

/-- What a compile reads of a saved graph that was opened: its nodes in order, and the links that are kept. -/
theorem snapshot_toGraph (catalog : NodeCatalog) (s : SavedGraph) (hvalid : invalidLink? s.nodes.length s.links.zipIdx = none) :
    ∃ g, s.toGraph catalog = .ok g ∧ g.snapshot =
      ⟨s.name, s.loadNodes catalog, (kept (s.loadNodes catalog) s.links.zipIdx).map Prod.fst, s.frames⟩ := by
  obtain ⟨g, hg, hnumbered, hentries, hname, hframes⟩ := exists_toGraph catalog s hvalid
  refine ⟨g, hg, ?_⟩
  rw [Graph.snapshot, hnumbered.values, links_of_wires hnumbered hentries fun e he => fits_of_mem_kept he, hname, hframes]

end RenderGraph.SavedGraph
