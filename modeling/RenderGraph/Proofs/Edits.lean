import RenderGraph.Graph
/-!
# What every edit keeps

A graph that is made by edits from an empty one (`Made`) is `Sound`: nodes and
connections stand under their own identities, each connection would be admitted
again, and an input for one connection has at most one. `Made.sound` follows
from one lemma for each edit. Connecting is the one edit that may be refused:
`on_connect` says what it answers and leaves behind, and a refusal leaves the
graph as it was (`connect_eq_error`).

For a sound graph the links of its snapshot are its connections: each connection
has a link (`Sound.exists_link`), between the positions of its nodes
(`link?_eq_some_iff`), and an input for one connection has one (`Sound.link_unique`).
-/

namespace RenderGraph.Graph

/-- The graph that an attempt to connect leaves behind. -/
def connected (g : Graph) (id : ConnectionId) (source : NodeId) (output : String) (target : NodeId) (input : String) :
    Graph :=
  ((connect id source output target input).on g).2

/-- Graphs made by edits from an empty one, of nodes that satisfy `p`. New identities are not in use. -/
inductive Made (p : Node → Prop) : Graph → Prop
  | empty (name : String) : Made p (.empty name)
  | addNode {g : Graph} {n : Node} : Made p g → p n → g.node? n.id = none → Made p (g.addNode n)
  | removeNode {g : Graph} (id : NodeId) : Made p g → Made p (g.removeNode id)
  | connected {g : Graph} {id : ConnectionId} (source : NodeId) (output : String) (target : NodeId) (input : String) :
      Made p g → g.connection? id = none → Made p (g.connected id source output target input)
  | disconnect {g : Graph} (id : ConnectionId) : Made p g → Made p (g.disconnect id)
  | addFrame {g : Graph} (f : Frame) : Made p g → Made p (g.addFrame f)
  | removeFrame {g : Graph} (index : Nat) : Made p g → Made p (g.removeFrame index)

/-- What a connection is admitted for. -/
theorem endpoints_eq_ok_iff {g : Graph} {source target : NodeId} {output input : String} {s t : Socket} :
    g.endpoints source output target input = .ok (s, t) ↔
      ∃ n m, g.node? source = some n ∧ g.node? target = some m ∧ n.output? output = some s ∧ m.input? input = some t ∧
        source ≠ target ∧ s.canConnect t = true := by
  unfold endpoints
  simp only [throw, throwThe, MonadExceptOf.throw, pure, Except.pure, bind, Except.bind]
  constructor
  · intro h
    split at h
    · rename_i n hn
      split at h
      · rename_i m hm
        split at h
        · rename_i s' hs
          split at h
          · rename_i t' ht
            by_cases hne : source = target
            · rw [if_pos hne] at h; cases h
            · by_cases hc : s'.canConnect t' = true
              · rw [if_neg hne, if_neg (by simp [hc])] at h
                cases h
                exact ⟨n, m, hn, hm, hs, ht, hne, hc⟩
              · rw [if_neg hne, if_pos (by simp [hc])] at h; cases h
          · cases h
        · cases h
      · cases h
    · cases h
  · rintro ⟨n, m, hn, hm, hs, ht, hne, hc⟩
    simp only [hn, hm, hs, ht, hne, hc, if_false, Bool.not_true, Bool.false_eq_true]

/-- Whether a connection would be admitted, were it made now. -/
def Admits (g : Graph) (c : Connection) : Prop :=
  ∃ e, g.endpoints c.fromNode c.fromSocket c.toNode c.toSocket = .ok e

theorem Admits.of_nodes {g g' : Graph} {c : Connection} (h : g.Admits c) (hs : g'.node? c.fromNode = g.node? c.fromNode)
    (ht : g'.node? c.toNode = g.node? c.toNode) : g'.Admits c := by
  obtain ⟨e, he⟩ := h
  refine ⟨e, ?_⟩
  unfold endpoints at he ⊢
  rw [hs, ht]
  exact he

/-- What is true of a graph after any edits. -/
structure Sound (g : Graph) : Prop where
  /-- A node stands under its identity. -/
  nodeIds : ∀ id n, g.node? id = some n → n.id = id
  /-- A connection stands under its identity. -/
  connectionIds : ∀ id c, g.connection? id = some c → c.id = id
  /-- A connection joins sockets that suit each other, of two nodes. -/
  admits : ∀ c ∈ g.connections.values, g.Admits c
  /-- An input for one connection has no two. -/
  single : ∀ c ∈ g.connections.values, ∀ c' ∈ g.connections.values, c.toNode = c'.toNode → c.toSocket = c'.toSocket →
    ∀ n t, g.node? c.toNode = some n → n.input? c.toSocket = some t → t.multiplicity = .single → c = c'

/-! ## One lemma for each edit -/

theorem mem_connections {g : Graph} {c : Connection} : c ∈ g.connections.values ↔ ∃ id, g.connection? id = some c :=
  g.connections.mem_values_iff c

/-- An edit that makes no connection and leaves the ends of those that stay alone. -/
theorem Sound.of_fewer {g g' : Graph} (h : Sound g) (hids : ∀ id n, g'.node? id = some n → n.id = id)
    (hconn : ∀ id c, g'.connection? id = some c → g.connection? id = some c)
    (hnodes : ∀ c ∈ g'.connections.values, g'.node? c.fromNode = g.node? c.fromNode ∧ g'.node? c.toNode = g.node? c.toNode) :
    Sound g' := by
  have hmem : ∀ c ∈ g'.connections.values, c ∈ g.connections.values := by
    intro c hc
    obtain ⟨id, hid⟩ := mem_connections.1 hc
    exact mem_connections.2 ⟨id, hconn id c hid⟩
  refine ⟨hids, fun id c hc => h.connectionIds id c (hconn id c hc), ?_, ?_⟩
  · intro c hc
    exact (h.admits c (hmem c hc)).of_nodes (hnodes c hc).1 (hnodes c hc).2
  · intro c hc c' hc' hn hs n t hnode
    rw [(hnodes c hc).2] at hnode
    exact h.single c (hmem c hc) c' (hmem c' hc') hn hs n t hnode

theorem node?_addNode (g : Graph) (n : Node) (id : NodeId) :
    (g.addNode n).node? id = if id = n.id then some n else g.node? id :=
  g.nodes.get?_insert n.id id n

/-- A connection of a sound graph ends at nodes of it. -/
theorem Sound.ends {g : Graph} (h : Sound g) {c : Connection} (hc : c ∈ g.connections.values) :
    (g.node? c.fromNode).isSome ∧ (g.node? c.toNode).isSome := by
  obtain ⟨⟨s, t⟩, he⟩ := h.admits c hc
  obtain ⟨n, m, hn, hm, -⟩ := endpoints_eq_ok_iff.1 he
  exact ⟨by rw [hn]; rfl, by rw [hm]; rfl⟩

theorem Sound.addNode {g : Graph} (h : Sound g) {n : Node} (hnew : g.node? n.id = none) : Sound (g.addNode n) := by
  have hother : ∀ id, (g.node? id).isSome → (g.addNode n).node? id = g.node? id := by
    intro id hid
    rw [node?_addNode, if_neg]
    rintro rfl
    rw [hnew] at hid
    cases hid
  refine h.of_fewer ?_ (fun _ _ hc => hc) fun c hc => ⟨hother _ (h.ends hc).1, hother _ (h.ends hc).2⟩
  intro id m hm
  rw [node?_addNode] at hm
  split at hm
  · rename_i he; cases hm; exact he.symm
  · exact h.nodeIds id m hm

theorem node?_removeNode (g : Graph) (id id' : NodeId) :
    (g.removeNode id).node? id' = if id' = id then none else g.node? id' :=
  g.nodes.get?_erase id id'

theorem connection?_removeNode (g : Graph) (id : NodeId) (k : ConnectionId) :
    (g.removeNode id).connection? k = (g.connection? k).filter fun c => !c.involves id :=
  g.connections.get?_filter (fun _ c => !c.involves id) k

theorem Sound.removeNode {g : Graph} (h : Sound g) (id : NodeId) : Sound (g.removeNode id) := by
  refine h.of_fewer ?_ ?_ ?_
  · intro id' n hn
    rw [node?_removeNode] at hn
    split at hn
    · cases hn
    · exact h.nodeIds id' n hn
  · intro k c hc
    rw [connection?_removeNode] at hc
    exact (Option.filter_eq_some_iff.1 hc).1
  · intro c hc
    obtain ⟨k, hk⟩ := mem_connections.1 hc
    rw [connection?_removeNode] at hk
    have hinv := (Option.filter_eq_some_iff.1 hk).2
    simp only [Connection.involves, Bool.not_eq_true', Bool.or_eq_false_iff, decide_eq_false_iff_not] at hinv
    rw [node?_removeNode, node?_removeNode, if_neg hinv.1, if_neg hinv.2]
    exact ⟨rfl, rfl⟩

theorem Sound.disconnect {g : Graph} (h : Sound g) (id : ConnectionId) : Sound (g.disconnect id) := by
  refine h.of_fewer h.nodeIds (fun k c hc => ?_) fun _ _ => ⟨rfl, rfl⟩
  have hk : (g.connections.erase id).get? k = some c := hc
  rw [Table.get?_erase] at hk
  split at hk
  · cases hk
  · exact hk

/-- A part of an edit that is refused keeps the rest from being done, and nothing else. -/
theorem Edit.on_bind {α β : Type} (edit : Edit α) (rest : α → Edit β) (g : Graph) : (edit >>= rest).on g =
    match edit.on g with
    | (.ok a, g') => (rest a).on g'
    | (.error e, g') => (.error e, g') := by
  change (match edit.on g with | (answer, g') => ExceptT.bindCont rest answer g') = _
  rcases edit.on g with ⟨_ | _, _⟩ <;> rfl

theorem Edit.on_get (g : Graph) : (get : Edit Graph).on g = (.ok g, g) := rfl

theorem Edit.on_check {α : Type} (answer : Except ConnectError α) (g : Graph) : (liftM answer : Edit α).on g = (answer, g) := rfl

/-- A connection is refused for what is wrong at its ends, before anything is changed. -/
theorem on_connect (g : Graph) (id : ConnectionId) (source : NodeId) (output : String) (target : NodeId) (input : String) :
    (connect id source output target input).on g =
      match g.endpoints source output target input with
      | .error e => (.error e, g)
      | .ok (_, t) => (.ok id, { g with
          connections := (if t.multiplicity = .single then g.connections.filter fun _ c => !c.endsAt target input
            else g.connections).insert id ⟨id, source, output, target, input⟩ }) := by
  unfold connect
  rw [Edit.on_bind, Edit.on_get]
  dsimp only
  rw [Edit.on_bind, Edit.on_check]
  cases g.endpoints source output target input with
  | error e => rfl
  | ok ends =>
    dsimp only
    split <;> rfl

section Connect
variable {g g' : Graph} {id k : ConnectionId} {source target : NodeId} {output input : String}

/-- A connection that is refused changes nothing. -/
theorem connect_eq_error {e : ConnectError} (h : (connect id source output target input).on g = (.error e, g')) : g' = g := by
  rw [on_connect] at h
  split at h <;> cases h
  rfl

/-- The connections after connecting. -/
theorem connect_eq_ok (h : (connect id source output target input).on g = (.ok k, g')) :
    k = id ∧ ∃ s t, g.endpoints source output target input = .ok (s, t) ∧ g'.nodes = g.nodes ∧
      g'.connections = (if t.multiplicity = .single then g.connections.filter fun _ c => !c.endsAt target input
        else g.connections).insert id ⟨id, source, output, target, input⟩ := by
  rw [on_connect] at h
  split at h <;> cases h
  rename_i s t he
  exact ⟨rfl, s, t, he, rfl, rfl⟩

end Connect

/-- A connection after connecting is the new one, or an old one that did not have to give up its input. -/
theorem connection?_of_connect {g g' : Graph} {id k : ConnectionId} (new : Connection) {c : Connection} {t : Socket}
    (hg : g'.connections = (if t.multiplicity = .single then g.connections.filter fun _ c => !c.endsAt new.toNode new.toSocket
      else g.connections).insert id new) (h : g'.connection? k = some c) :
    k = id ∧ c = new ∨
      g.connection? k = some c ∧ (t.multiplicity = .single → c.toNode = new.toNode → c.toSocket ≠ new.toSocket) := by
  rw [connection?, hg, Table.get?_insert] at h
  split at h
  · rename_i hk; cases h; exact .inl ⟨hk, rfl⟩
  · right
    split at h
    · rw [Table.get?_filter] at h
      obtain ⟨hc, he⟩ := Option.filter_eq_some_iff.1 h
      refine ⟨hc, fun _ hnode hsocket => ?_⟩
      simp [Connection.endsAt, hnode, hsocket] at he
    · rename_i hm
      exact ⟨h, fun hs => absurd hs hm⟩

theorem Sound.of_connect {g g' : Graph} (h : Sound g) {id k : ConnectionId} {source target : NodeId} {output input : String}
    (hg : (connect id source output target input).on g = (.ok k, g')) : Sound g' := by
  obtain ⟨-, s, t, he, hnodes, hconns⟩ := connect_eq_ok hg
  obtain ⟨n, m, hn, hm, hs, ht, hne, hc⟩ := endpoints_eq_ok_iff.1 he
  have hnode : ∀ id, g'.node? id = g.node? id := fun id => by rw [node?, hnodes]; rfl
  have hnew := fun {k c} (hk : g'.connection? k = some c) =>
    connection?_of_connect ⟨id, source, output, target, input⟩ hconns hk
  refine ⟨fun id n hn => h.nodeIds id n (by rw [← hnode, hn]), ?_, ?_, ?_⟩
  · intro k c hk
    rcases hnew hk with ⟨rfl, rfl⟩ | ⟨hk, -⟩
    · rfl
    · exact h.connectionIds k c hk
  · intro c hc
    obtain ⟨k, hk⟩ := mem_connections.1 hc
    refine Admits.of_nodes (g := g) ?_ (hnode _) (hnode _)
    rcases hnew hk with ⟨-, rfl⟩ | ⟨hk, -⟩
    · exact ⟨(s, t), he⟩
    · exact h.admits c (mem_connections.2 ⟨k, hk⟩)
  · intro c hc c' hc' hsame hsocket n' t' hn' ht' hsingle
    obtain ⟨k, hk⟩ := mem_connections.1 hc
    obtain ⟨k', hk'⟩ := mem_connections.1 hc'
    rw [hnode] at hn'
    -- An old connection into the input of the new one is given up.
    have hgone : ∀ {c : Connection}, c.toNode = target → c.toSocket = input → g.node? c.toNode = some n' →
        n'.input? c.toSocket = some t' → (t.multiplicity = .single → c.toNode = target → c.toSocket ≠ input) → False := by
      intro c hto hin hcn hct hfree
      rw [hto, hm] at hcn
      cases hcn
      rw [hin, ht] at hct
      cases hct
      exact hfree hsingle hto hin
    rcases hnew hk with ⟨-, rfl⟩ | ⟨hk, hfree⟩ <;> rcases hnew hk' with ⟨-, rfl⟩ | ⟨hk', hfree'⟩
    · rfl
    · exact (hgone hsame.symm hsocket.symm (hsame ▸ hn') (hsocket ▸ ht') hfree').elim
    · exact (hgone hsame hsocket hn' ht' hfree).elim
    · exact h.single c (mem_connections.2 ⟨k, hk⟩) c' (mem_connections.2 ⟨k', hk'⟩) hsame hsocket n' t' hn' ht' hsingle

theorem Sound.connected {g : Graph} (h : Sound g) (id : ConnectionId) (source : NodeId) (output : String) (target : NodeId)
    (input : String) : Sound (g.connected id source output target input) := by
  unfold Graph.connected
  rcases hg : (connect id source output target input).on g with ⟨e | k, g'⟩
  · rw [connect_eq_error hg]
    exact h
  · exact h.of_connect hg

/-! ## All edits -/

theorem sound_empty (name : String) : Sound (.empty name) := by
  refine ⟨fun id n h => ?_, fun id c h => ?_, fun c hc => ?_, fun c hc => ?_⟩
  · cases h
  · cases h
  · cases hc
  · cases hc

theorem Made.sound {p : Node → Prop} {g : Graph} (h : Made p g) : Sound g := by
  induction h with
  | empty name => exact sound_empty name
  | addNode _ _ hnew ih => exact ih.addNode hnew
  | removeNode id _ ih => exact ih.removeNode id
  | connected source output target input _ _ ih => exact ih.connected _ source output target input
  | disconnect id _ ih => exact ih.disconnect id
  | addFrame f _ ih => exact ⟨ih.nodeIds, ih.connectionIds, ih.admits, ih.single⟩
  | removeFrame index _ ih => exact ⟨ih.nodeIds, ih.connectionIds, ih.admits, ih.single⟩

theorem node?_connected (g : Graph) (id : ConnectionId) (source : NodeId) (output : String) (target : NodeId)
    (input : String) (k : NodeId) : (g.connected id source output target input).node? k = g.node? k := by
  unfold connected
  rcases hg : (connect id source output target input).on g with ⟨e | _, g'⟩
  · rw [connect_eq_error hg]
  · obtain ⟨-, _, _, -, hnodes, -⟩ := connect_eq_ok hg
    rw [node?, hnodes]
    rfl

/-- Edits leave only nodes that were added. -/
theorem Made.node {p : Node → Prop} {g : Graph} (h : Made p g) : ∀ id n, g.node? id = some n → p n := by
  induction h with
  | empty name => intro id n hn; cases hn
  | @addNode g m _ hm _ ih =>
    intro id n hn
    rw [node?_addNode] at hn
    split at hn
    · cases hn; exact hm
    · exact ih id n hn
  | removeNode id _ ih =>
    intro id' n hn
    rw [node?_removeNode] at hn
    split at hn
    · cases hn
    · exact ih id' n hn
  | connected source output target input _ _ ih =>
    intro id n hn
    rw [node?_connected] at hn
    exact ih id n hn
  | disconnect id _ ih => exact ih
  | addFrame f _ ih => exact ih
  | removeFrame index _ ih => exact ih

/-! ## Drawing a graph -/

/-- The graph of a list of nodes and of connections, which are numbered in order. -/
def draw (name : String) (nodes : List Node) (ends : List (NodeId × String × NodeId × String)) : Graph :=
  ends.zipIdx.foldl (fun g (e, k) => g.connected ⟨k⟩ e.1 e.2.1 e.2.2.1 e.2.2.2) (nodes.foldl addNode (.empty name))

theorem Made.foldl_addNode {p : Node → Prop} {nodes : List Node} (hp : ∀ n ∈ nodes, p n) (hids : (nodes.map Node.id).Nodup)
    {g : Graph} (hg : Made p g) (hnew : ∀ n ∈ nodes, g.node? n.id = none) : Made p (nodes.foldl Graph.addNode g) := by
  induction nodes generalizing g with
  | nil => exact hg
  | cons n nodes ih =>
    rw [List.map_cons, List.nodup_cons] at hids
    refine ih (fun m hm => hp m (List.mem_cons_of_mem _ hm)) hids.2
      (hg.addNode (hp n List.mem_cons_self) (hnew n List.mem_cons_self)) fun m hm => ?_
    rw [node?_addNode, if_neg fun h => hids.1 (List.mem_map.2 ⟨m, hm, h⟩)]
    exact hnew m (List.mem_cons_of_mem _ hm)

theorem connection?_connected_of_ne {g : Graph} {id k : ConnectionId} (hk : k ≠ id) (h : g.connection? k = none)
    (source : NodeId) (output : String) (target : NodeId) (input : String) :
    (g.connected id source output target input).connection? k = none := by
  unfold connected
  rcases hg : (connect id source output target input).on g with ⟨e | _, g'⟩
  · rw [connect_eq_error hg]
    exact h
  · obtain ⟨-, s, t, -, -, hconns⟩ := connect_eq_ok hg
    cases hc : g'.connection? k with
    | none => rfl
    | some c =>
      rcases connection?_of_connect ⟨id, source, output, target, input⟩ hconns hc with ⟨he, -⟩ | ⟨hc, -⟩
      · exact absurd he hk
      · rw [h] at hc; cases hc

/-- A drawn graph is made by edits. -/
theorem made_draw {p : Node → Prop} (name : String) {nodes : List Node} (hp : ∀ n ∈ nodes, p n)
    (hids : (nodes.map Node.id).Nodup) (ends : List (NodeId × String × NodeId × String)) : Made p (draw name nodes ends) := by
  have hfold : ∀ (ends : List (NodeId × String × NodeId × String)) (k : Nat) (g : Graph), Made p g →
      (∀ i, k ≤ i → g.connection? ⟨i⟩ = none) →
      Made p ((ends.zipIdx k).foldl (fun g (e, k) => g.connected ⟨k⟩ e.1 e.2.1 e.2.2.1 e.2.2.2) g) := by
    intro ends
    induction ends with
    | nil => intro k g hg _; exact hg
    | cons e ends ih =>
      intro k g hg hnew
      refine ih (k + 1) _ (hg.connected _ _ _ _ (hnew k (Nat.le_refl k))) fun i hi => ?_
      exact connection?_connected_of_ne (by rintro ⟨⟩; omega) (hnew i (by omega)) _ _ _ _
  have hnodes : ∀ (nodes : List Node) (g : Graph), (nodes.foldl addNode g).connections = g.connections := by
    intro nodes
    induction nodes with
    | nil => intro g; rfl
    | cons n nodes ih => intro g; exact ih _
  refine hfold ends 0 _ (Made.foldl_addNode hp hids (.empty name) fun _ _ => rfl) fun i _ => ?_
  rw [connection?, hnodes]
  rfl

/-! ## Links -/

theorem Sound.nodeIndex? {g : Graph} (h : Sound g) {i : Nat} {n : Node} (hi : g.nodes.values[i]? = some n) :
    g.nodeIndex? n.id = some i ∧ g.node? n.id = some n := by
  rw [Table.values, List.getElem?_map] at hi
  obtain ⟨⟨k, m⟩, he, rfl⟩ := Option.map_eq_some_iff.1 hi
  have hk : g.node? k = some m := (g.nodes.get?_eq_some_iff k m).2 (List.mem_of_getElem? he)
  obtain rfl : m.id = k := h.nodeIds k m hk
  refine ⟨(g.nodes.position?_eq_some_iff m.id i).2 ?_, hk⟩
  rw [Table.keys, List.getElem?_map, he]
  rfl

theorem isSome_nodeIndex?_iff (g : Graph) (id : NodeId) : (g.nodeIndex? id).isSome ↔ (g.node? id).isSome :=
  g.nodes.isSome_position?_iff id

theorem link?_eq_some_iff {g : Graph} {c : Connection} {l : Link} :
    g.link? c = some l ↔ g.nodeIndex? c.fromNode = some l.fromNode ∧ g.nodeIndex? c.toNode = some l.toNode ∧
      c.fromSocket = l.fromSocket ∧ c.toSocket = l.toSocket := by
  obtain ⟨i, o, j, t⟩ := l
  simp only [link?, Option.bind_eq_some_iff, Option.map_eq_some_iff, Link.mk.injEq]
  constructor
  · rintro ⟨i', hi, j', hj, rfl, rfl, rfl, rfl⟩; exact ⟨hi, hj, rfl, rfl⟩
  · rintro ⟨hi, hj, rfl, rfl⟩; exact ⟨i, hi, j, hj, rfl, rfl, rfl, rfl⟩

/-- A connection has a link, between the positions of its nodes. -/
theorem Sound.exists_link {g : Graph} (h : Sound g) {c : Connection} (hc : c ∈ g.connections.values) :
    ∃ l ∈ g.links, g.link? c = some l := by
  obtain ⟨i, hi⟩ := Option.isSome_iff_exists.1 ((isSome_nodeIndex?_iff g c.fromNode).2 (h.ends hc).1)
  obtain ⟨j, hj⟩ := Option.isSome_iff_exists.1 ((isSome_nodeIndex?_iff g c.toNode).2 (h.ends hc).2)
  have hl : g.link? c = some ⟨i, c.fromSocket, j, c.toSocket⟩ := link?_eq_some_iff.2 ⟨hi, hj, rfl, rfl⟩
  exact ⟨_, List.mem_filterMap.2 ⟨c, hc, hl⟩, hl⟩

/-- Links into one input for one connection are one link. -/
theorem Sound.link_unique {g : Graph} (h : Sound g) {l l' : Link} (hl : l ∈ g.links) (hl' : l' ∈ g.links)
    (hnode : l.toNode = l'.toNode) (hsocket : l.toSocket = l'.toSocket)
    (hsingle : ∀ n t, g.nodes.values[l.toNode]? = some n → n.input? l.toSocket = some t → t.multiplicity = .single) :
    l = l' := by
  obtain ⟨c, hc, hcl⟩ := List.mem_filterMap.1 hl
  obtain ⟨c', hc', hcl'⟩ := List.mem_filterMap.1 hl'
  obtain ⟨-, hj, -, ht⟩ := link?_eq_some_iff.1 hcl
  obtain ⟨-, hj', -, ht'⟩ := link?_eq_some_iff.1 hcl'
  obtain ⟨⟨s, t⟩, he⟩ := h.admits c hc
  obtain ⟨_, m, _, hm, _, hi, -⟩ := endpoints_eq_ok_iff.1 he
  have hpos := Table.getElem?_values_of_position? hj hm
  have hto : c.toNode = c'.toNode := by
    rw [Graph.nodeIndex?, Table.position?_eq_some_iff] at hj hj'
    rw [hnode, hj'] at hj
    exact (Option.some.inj hj).symm
  have hcc : c = c' := h.single c hc c' hc' hto (by rw [ht, ht', hsocket]) m t hm hi
    (hsingle m t hpos (by rw [← ht, hi]))
  rw [hcc, hcl'] at hcl
  exact (Option.some.inj hcl).symm

end RenderGraph.Graph
