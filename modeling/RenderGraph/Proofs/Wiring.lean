import Mathlib.Data.List.Forall2
import Mathlib.Data.List.Nodup
import RenderGraph.Proofs.Edits
/-!
# Connections of a graph that was edited

`Made.wired` says what holds after any edits: a connection joins an output of one
node to an input of another one that suits it, and an input for one connection
has at most one. A snapshot leaves out what points nowhere, and nothing does, so
its links are the connections one by one, by the positions of their nodes. An
attempt to connect that is refused leaves the graph behind as it was.
-/

namespace RenderGraph.Graph

section Sound
variable {g : Graph}

theorem Sound.nodup_connections (h : Sound g) : g.connections.values.Nodup := by
  refine List.Nodup.of_map Connection.id ?_
  have hids : g.connections.values.map Connection.id = g.connections.keys := by
    rw [Table.values, Table.keys, List.map_map]
    refine List.map_congr_left fun e he => ?_
    exact h.connectionIds e.1 e.2 ((g.connections.get?_eq_some_iff e.1 e.2).2 he)
  rw [hids]
  exact g.connections.keys_nodup

theorem endsAt_iff {c : Connection} {id : NodeId} {socket : String} :
    c.endsAt id socket = true ↔ c.toNode = id ∧ c.toSocket = socket := by
  simp [Connection.endsAt]

/-- No two connections end at an input for one. -/
theorem Sound.length_endsAt_le_one (h : Sound g) {id : NodeId} {n : Node} {socket : String} {t : Socket}
    (hn : g.node? id = some n) (ht : n.input? socket = some t) (hsingle : t.multiplicity = .single) :
    (g.connections.values.filter fun c => c.endsAt id socket).length ≤ 1 := by
  have hnodup := h.nodup_connections.filter fun c => c.endsAt id socket
  cases hends : g.connections.values.filter fun c => c.endsAt id socket with
  | nil => exact Nat.zero_le 1
  | cons c rest =>
    cases rest with
    | nil => exact Nat.le_refl 1
    | cons c' rest =>
      -- Two that end there are the same connection, which stands there once.
      rw [hends] at hnodup
      refine absurd ?_ ((List.pairwise_cons.1 hnodup).1 c' List.mem_cons_self)
      have hmem : ∀ d ∈ c :: c' :: rest, d ∈ g.connections.values ∧ d.toNode = id ∧ d.toSocket = socket := by
        intro d hd
        rw [← hends, List.mem_filter, endsAt_iff] at hd
        exact hd
      obtain ⟨hc, hnode, hsocket⟩ := hmem c List.mem_cons_self
      obtain ⟨hc', hnode', hsocket'⟩ := hmem c' (List.mem_cons_of_mem c List.mem_cons_self)
      exact h.single c hc c' hc' (hnode.trans hnode'.symm) (hsocket.trans hsocket'.symm) n t (hnode ▸ hn) (hsocket ▸ ht) hsingle

/-- The nodes at the positions of a link are the ones its connection joins. -/
theorem Sound.nodes_of_link? (h : Sound g) {c : Connection} (hc : c ∈ g.connections.values) {l : Link}
    (hl : g.link? c = some l) : ∃ n m, g.nodes.values[l.fromNode]? = some n ∧ n.id = c.fromNode ∧
      g.nodes.values[l.toNode]? = some m ∧ m.id = c.toNode ∧ l.fromSocket = c.fromSocket ∧ l.toSocket = c.toSocket := by
  obtain ⟨hfrom, hto, hout, hin⟩ := link?_eq_some_iff.1 hl
  obtain ⟨n, hn⟩ := Option.isSome_iff_exists.1 (h.ends hc).1
  obtain ⟨m, hm⟩ := Option.isSome_iff_exists.1 (h.ends hc).2
  exact ⟨n, m, Table.getElem?_values_of_position? hfrom hn, h.nodeIds _ n hn,
    Table.getElem?_values_of_position? hto hm, h.nodeIds _ m hm, hout.symm, hin.symm⟩

/-- The links are those of the connections, in their order, and none is left out. -/
theorem Sound.forall₂_links (h : Sound g) :
    List.Forall₂ (fun c l => g.link? c = some l) g.connections.values g.links := by
  have hall : ∀ cs ⊆ g.connections.values, List.Forall₂ (fun c l => g.link? c = some l) cs (cs.filterMap g.link?) := by
    intro cs
    induction cs with
    | nil => intro _; exact .nil
    | cons c cs ih =>
      intro hsub
      obtain ⟨l, -, hl⟩ := h.exists_link (hsub List.mem_cons_self)
      rw [List.filterMap_cons_some hl]
      exact .cons hl (ih fun c' hc' => hsub (List.mem_cons_of_mem c hc'))
  exact hall _ (List.Subset.refl _)

end Sound

/-- A connection that is made stands under its identity. -/
theorem connection?_of_connect_eq_ok {g g' : Graph} {id k : ConnectionId} {source target : NodeId} {output input : String}
    (h : (connect id source output target input).on g = (.ok k, g')) :
    g'.connection? id = some ⟨id, source, output, target, input⟩ := by
  obtain ⟨-, s, t, -, -, hconns⟩ := connect_eq_ok h
  rw [connection?, hconns, Table.get?_insert_self]

/-- However a graph was made by edits, each connection joins an existing output to an existing input of another node,
which suit each other; an input that is looked up as one for one connection has at most one; and the links of the
snapshot are the connections in their order, each by the positions of the two nodes with the identities it names. An
attempt to connect that is refused leaves the graph as it is, and one that is not puts the connection in. -/
theorem Made.wired {p : Node → Prop} (h : Made p g) :
    (∀ c ∈ g.connections.values, ∃ n m s t, g.node? c.fromNode = some n ∧ g.node? c.toNode = some m ∧
      c.fromNode ≠ c.toNode ∧ n.output? c.fromSocket = some s ∧ m.input? c.toSocket = some t ∧ s.canConnect t = true) ∧
    (∀ id n socket t, g.node? id = some n → n.input? socket = some t → t.multiplicity = .single →
      (g.connections.values.filter fun c => c.endsAt id socket).length ≤ 1) ∧
    List.Forall₂ (fun c l => ∃ n m, g.snapshot.nodes[l.fromNode]? = some n ∧ n.id = c.fromNode ∧
        g.snapshot.nodes[l.toNode]? = some m ∧ m.id = c.toNode ∧ l.fromSocket = c.fromSocket ∧ l.toSocket = c.toSocket)
      g.connections.values g.snapshot.links ∧
    ∀ id source output target input answer left, (connect id source output target input).on g = (answer, left) →
      (∀ e, answer = .error e → left = g) ∧
      ∀ k, answer = .ok k → k = id ∧ left.connection? id = some ⟨id, source, output, target, input⟩ := by
  have hsound := h.sound
  refine ⟨fun c hc => ?_, fun id n socket t hn ht hsingle => hsound.length_endsAt_le_one hn ht hsingle, ?_,
    fun id source output target input answer left hleft => ⟨?_, ?_⟩⟩
  · obtain ⟨⟨s, t⟩, he⟩ := hsound.admits c hc
    obtain ⟨n, m, hn, hm, hs, ht, hne, hst⟩ := endpoints_eq_ok_iff.1 he
    exact ⟨n, m, s, t, hn, hm, hne, hs, ht, hst⟩
  · have hlinks := (List.forall₂_and_left _ _).2 ⟨fun c hc => hc, hsound.forall₂_links⟩
    exact hlinks.imp fun c l hl => hsound.nodes_of_link? hl.1 hl.2
  · rintro e rfl
    exact connect_eq_error hleft
  · rintro k rfl
    exact ⟨(connect_eq_ok hleft).1, connection?_of_connect_eq_ok hleft⟩

/-- A new node with one output. -/
def sourceNode (id : Nat) : Node := (Node.bare ⟨id⟩ "Source" .pass).addOutput (.output "out" .fbo)

/-- A new node with one input, for one connection. -/
def sinkNode (id : Nat) : Node := (Node.bare ⟨id⟩ "Sink" .pass).addInput (.input "in" .fbo)

/-- Two sources feed a sink one after the other. The first is then removed, and comes back as the last node. -/
def rewired : Graph :=
  ((draw "rewired" [sourceNode 0, sourceNode 1, sinkNode 2] [(⟨0⟩, "out", ⟨2⟩, "in"), (⟨1⟩, "out", ⟨2⟩, "in")]).removeNode
    ⟨0⟩).addNode (sourceNode 0)

/-- The sink is left with the connection to the second source, which is the first node by then. It stays when one from an
output that the source does not have is refused, and gives way to one from the first source. -/
theorem rewired_wired : rewired.Made (fun _ => True) ∧
    (rewired.connections.values.filter fun c => c.endsAt ⟨2⟩ "in").length ≤ 1 ∧
    (∃ c l n, rewired.connections.values = [c] ∧ rewired.snapshot.links = [l] ∧ c.fromNode = ⟨1⟩ ∧ l.fromNode = 0 ∧
      rewired.snapshot.nodes[l.fromNode]? = some n ∧ n.id = c.fromNode) ∧
    (connect ⟨7⟩ ⟨1⟩ "depth" ⟨2⟩ "in").on rewired = (.error (.socketNotFound "depth"), rewired) ∧
    ∃ left, (connect ⟨7⟩ ⟨0⟩ "out" ⟨2⟩ "in").on rewired = (.ok ⟨7⟩, left) ∧
      left.connection? ⟨7⟩ = some ⟨⟨7⟩, ⟨0⟩, "out", ⟨2⟩, "in"⟩ ∧ left.connection? ⟨1⟩ = none := by
  have hmade : rewired.Made fun _ => True :=
    .addNode (.removeNode _ (made_draw _ (fun _ _ => trivial) (by decide +kernel) _)) trivial (by decide +kernel)
  obtain ⟨-, hsingle, hlinks, hconnect⟩ := hmade.wired
  refine ⟨hmade, ?_, ?_, ?_, ?_⟩
  · exact hsingle ⟨2⟩ (sinkNode 2) "in" (.input "in" .fbo) (by decide +kernel) (by decide +kernel) (by decide +kernel)
  · have hconns : rewired.connections.values = [⟨⟨1⟩, ⟨1⟩, "out", ⟨2⟩, "in"⟩] := by decide +kernel
    have hsnapshot : rewired.snapshot.links = [⟨0, "out", 1, "in"⟩] := by decide +kernel
    rw [hconns, hsnapshot, List.forall₂_cons] at hlinks
    obtain ⟨⟨n, m, hn, hid, -⟩, -⟩ := hlinks
    exact ⟨_, _, n, hconns, hsnapshot, rfl, rfl, hn, hid⟩
  · rcases hrefused : (connect ⟨7⟩ ⟨1⟩ "depth" ⟨2⟩ "in").on rewired with ⟨answer, left⟩
    obtain rfl : .error (.socketNotFound "depth") = answer := congrArg Prod.fst hrefused
    rw [(hconnect _ _ _ _ _ _ _ hrefused).1 _ rfl]
  · rcases hmoved : (connect ⟨7⟩ ⟨0⟩ "out" ⟨2⟩ "in").on rewired with ⟨answer, left⟩
    obtain rfl : .ok ⟨7⟩ = answer := congrArg Prod.fst hmoved
    refine ⟨left, rfl, ((hconnect _ _ _ _ _ _ _ hmoved).2 _ rfl).2, ?_⟩
    obtain rfl : rewired.connected ⟨7⟩ ⟨0⟩ "out" ⟨2⟩ "in" = left := congrArg Prod.snd hmoved
    decide +kernel

end RenderGraph.Graph
