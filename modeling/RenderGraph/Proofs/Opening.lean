import RenderGraph.Proofs.Resaving
/-!
# What a saved graph opens to

A saved graph cannot be opened just if one of its links points past the last
node, and the first such link is reported (`invalidLink?_eq_some`). Otherwise
there is a node for each saved one. Nodes of unlisted classes get the sockets that
links name, each node on its own (`getElem?_foldl_grow`), so between two of them
every link can be made (`fits_of_unlisted`).

`toGraph_lasting`: the links of the graph are, in their order, those that can be
made and are not displaced by a later one.
-/

namespace RenderGraph.SavedGraph

open RenderGraph.Graph

/-! ## Links that point past the last node -/

/-- Whether a link points past the last of so many nodes. -/
def Outside (count : Nat) (l : Link) : Prop := count ≤ l.fromNode ∨ count ≤ l.toNode

instance (count : Nat) (l : Link) : Decidable (Outside count l) :=
  inferInstanceAs (Decidable (count ≤ l.fromNode ∨ count ≤ l.toNode))

section Outside
variable {count : Nat}

theorem invalidLink?_cons (l : Link) (k : Nat) (es : List (Link × Nat)) : invalidLink? count ((l, k) :: es) =
    if Outside count l then some (.invalidConnection k (if count ≤ l.fromNode then l.fromNode else l.toNode) count)
    else invalidLink? count es := by
  rw [invalidLink?, List.findSome?_cons]
  unfold Outside
  by_cases hfrom : count ≤ l.fromNode
  · simp [hfrom]
  · by_cases hto : count ≤ l.toNode
    · simp [hfrom, hto]
    · simp [hfrom, hto, invalidLink?]

theorem invalidLink?_eq_none_iff (links : List Link) :
    ∀ k, invalidLink? count (links.zipIdx k) = none ↔ ∀ l ∈ links, ¬ Outside count l := by
  induction links with
  | nil => intro k; exact ⟨fun _ => nofun, fun _ => rfl⟩
  | cons l links ih =>
    intro k
    rw [List.zipIdx_cons, invalidLink?_cons, List.forall_mem_cons, ← ih (k + 1)]
    by_cases hl : Outside count l <;> simp [hl]

/-- The first link that points past the last node is reported, with the end that does so, the start if both do. -/
theorem invalidLink?_eq_some {e : OpenError} (links : List Link) : ∀ k, invalidLink? count (links.zipIdx k) = some e →
    ∃ before l after, links = before ++ l :: after ∧ (∀ l' ∈ before, ¬ Outside count l') ∧ Outside count l ∧
      e = .invalidConnection (k + before.length) (if count ≤ l.fromNode then l.fromNode else l.toNode) count := by
  induction links with
  | nil => intro k h; cases h
  | cons l links ih =>
    intro k h
    rw [List.zipIdx_cons, invalidLink?_cons] at h
    by_cases hl : Outside count l
    · rw [if_pos hl] at h
      exact ⟨[], l, links, rfl, nofun, hl, (Option.some.inj h).symm⟩
    · rw [if_neg hl] at h
      obtain ⟨before, l', after, rfl, hbefore, hl', rfl⟩ := ih (k + 1) h
      refine ⟨l :: before, l', after, rfl, List.forall_mem_cons.2 ⟨hl, hbefore⟩, hl', ?_⟩
      rw [List.length_cons, Nat.add_right_comm, Nat.add_assoc]

end Outside

/-! ## Each node grows on its own -/

section Growing
variable {catalog : NodeCatalog}

/-- What a link does to the node at a position. -/
def growAt (catalog : NodeCatalog) (i : Nat) (n : Node) (l : Link) : Node :=
  (if l.toNode = i then growInput catalog l.toSocket else id)
    ((if l.fromNode = i then growOutput catalog l.fromSocket else id) n)

theorem getElem?_grow (nodes : List Node) (l : Link) (i : Nat) :
    (grow catalog nodes l)[i]? = (nodes[i]?).map fun n => growAt catalog i n l := by
  rw [grow, List.getElem?_modify, List.getElem?_modify]
  unfold growAt
  cases nodes[i]? with
  | none => rfl
  | some n => by_cases hto : l.toNode = i <;> by_cases hfrom : l.fromNode = i <;> simp [hto, hfrom]

theorem getElem?_foldl_grow (links : List Link) : ∀ (nodes : List Node) (i : Nat),
    (links.foldl (grow catalog) nodes)[i]? = (nodes[i]?).map fun n => links.foldl (growAt catalog i) n := by
  induction links with
  | nil => intro nodes i; exact (Option.map_id' ..).symm
  | cons l links ih =>
    intro nodes i
    rw [List.foldl_cons, ih, getElem?_grow, Option.map_map]
    rfl

/-- The second node is the first one with further sockets, if its class is not listed. -/
structure Grown (catalog : NodeCatalog) (n m : Node) : Prop where
  same : { m with inputs := n.inputs, outputs := n.outputs } = n
  inputs : n.inputs <+: m.inputs
  outputs : n.outputs <+: m.outputs
  listed : (catalog.find? n.title).isSome → m = n

namespace Grown

theorem refl (n : Node) : Grown catalog n n := ⟨rfl, List.prefix_rfl, List.prefix_rfl, fun _ => rfl⟩

variable {n m k : Node}

theorem title_eq (h : Grown catalog n m) : m.title = n.title := (congrArg Node.title h.same :)

theorem trans (h : Grown catalog n m) (h' : Grown catalog m k) : Grown catalog n k where
  same := by rw [← h.same, ← h'.same]
  inputs := h.inputs.trans h'.inputs
  outputs := h.outputs.trans h'.outputs
  listed hlisted := (h'.listed (h.title_eq ▸ hlisted)).trans (h.listed hlisted)

theorem growOutput (n : Node) (socket : String) : Grown catalog n (growOutput catalog socket n) := by
  unfold SavedGraph.growOutput
  split
  · rename_i hgrows
    exact ⟨rfl, List.prefix_rfl, List.prefix_append .., fun hlisted => by simp_all⟩
  · exact refl n

theorem growInput (n : Node) (socket : String) : Grown catalog n (growInput catalog socket n) := by
  unfold SavedGraph.growInput
  split
  · rename_i hgrows
    exact ⟨rfl, List.prefix_append .., List.prefix_rfl, fun hlisted => by simp_all⟩
  · exact refl n

theorem growAt (i : Nat) (n : Node) (l : Link) : Grown catalog n (growAt catalog i n l) := by
  have hstart (m : Node) : Grown catalog m ((if l.fromNode = i then SavedGraph.growOutput catalog l.fromSocket else id) m) := by
    split
    · exact growOutput m _
    · exact refl m
  have hend (m : Node) : Grown catalog m ((if l.toNode = i then SavedGraph.growInput catalog l.toSocket else id) m) := by
    split
    · exact growInput m _
    · exact refl m
  exact (hstart n).trans (hend _)

theorem foldl_growAt (i : Nat) (links : List Link) : ∀ n, Grown catalog n (links.foldl (SavedGraph.growAt catalog i) n) := by
  induction links with
  | nil => exact refl
  | cons l links ih => intro n; exact (growAt i n l).trans (ih _)

theorem isSome_output? (h : Grown catalog n m) {name : String} (ho : (n.output? name).isSome) : (m.output? name).isSome := by
  obtain ⟨rest, hrest⟩ := h.outputs
  rw [Node.output?, ← hrest, List.find?_append, Option.isSome_or, show (n.outputs.find? _).isSome = true from ho, Bool.true_or]

theorem isSome_input? (h : Grown catalog n m) {name : String} (hi : (n.input? name).isSome) : (m.input? name).isSome := by
  obtain ⟨rest, hrest⟩ := h.inputs
  rw [Node.input?, ← hrest, List.find?_append, Option.isSome_or, show (n.inputs.find? _).isSome = true from hi, Bool.true_or]

end Grown

theorem isSome_input?_growInput {n : Node} (hn : catalog.find? n.title = none) (socket : String) :
    ((growInput catalog socket n).input? socket).isSome := by
  unfold growInput
  split
  · simp [Node.input?, Node.addInput, Socket.input, List.find?_append]
  · rename_i hgrows
    simpa [hn, Option.isSome_iff_ne_none] using hgrows

/-- The sockets of an unlisted node that a link names are there in the end. -/
theorem isSome_sockets {i : Nat} {l : Link} {links : List Link} (hl : l ∈ links) :
    ∀ {n : Node}, catalog.find? n.title = none →
      (l.fromNode = i → ((links.foldl (growAt catalog i) n).output? l.fromSocket).isSome) ∧
      (l.toNode = i → ((links.foldl (growAt catalog i) n).input? l.toSocket).isSome) := by
  induction links with
  | nil => cases hl
  | cons l' links ih =>
    intro n hn
    rcases List.mem_cons.1 hl with rfl | hl
    · have hlater : Grown catalog (growAt catalog i n l) _ := Grown.foldl_growAt i links _
      refine ⟨fun hfrom => hlater.isSome_output? ?_, fun hto => hlater.isSome_input? ?_⟩
      · have hstart := isSome_output?_growOutput (n := n) (.inr ⟨hn, rfl⟩ : _ ∨ _ ∧ l.fromSocket = l.fromSocket)
        rw [growAt, if_pos hfrom]
        split
        · exact (Grown.growInput _ _).isSome_output? hstart
        · exact hstart
      · rw [growAt, if_pos hto]
        refine isSome_input?_growInput ?_ _
        split
        · rw [(Grown.growOutput n _).title_eq]; exact hn
        · exact hn
    · exact ih hl ((Grown.growAt i n l').title_eq ▸ hn)

/-- A node as it is opened: the saved one with the sockets that links name. -/
theorem getElem?_loadNodes (catalog : NodeCatalog) (s : SavedGraph) (i : Nat) :
    (s.loadNodes catalog)[i]? = (s.nodes[i]?).map fun n => s.links.foldl (growAt catalog i) (n.toNode catalog ⟨i⟩) := by
  rw [loadNodes, getElem?_foldl_grow, List.getElem?_map, List.getElem?_zipIdx, Option.map_map, Option.map_map, Nat.zero_add]
  rfl

theorem forall₂_loadNodes (s : SavedGraph) :
    List.Forall₂ (fun e n => Grown catalog (e.1.toNode catalog ⟨e.2⟩) n) s.nodes.zipIdx (s.loadNodes catalog) := by
  have hlength : (s.loadNodes catalog).length = s.nodes.length := by
    simpa using congrArg List.length (map_id_loadNodes catalog s)
  refine List.forall₂_iff_get.2 ⟨by rw [List.length_zipIdx, hlength], fun i hi hi' => ?_⟩
  have hlt : i < s.nodes.length := by simpa using hi
  have h := getElem?_loadNodes catalog s i
  rw [List.getElem?_eq_getElem hi', List.getElem?_eq_getElem hlt, Option.map_some, Option.some_inj] at h
  rw [List.get_eq_getElem, List.get_eq_getElem, h, List.getElem_zipIdx, Nat.zero_add]
  exact Grown.foldl_growAt i s.links _

/-! ## Links between unlisted nodes -/

/-- Every output of an unlisted node can feed every input of another one. -/
theorem canConnect_of_unlisted {n m : Node} {o t : Socket} (hn : catalog.Loads n) (hm : catalog.Loads m)
    (hn' : catalog.find? n.title = none) (hm' : catalog.find? m.title = none) (ho : o ∈ n.outputs) (ht : t ∈ m.inputs) :
    o.canConnect t = true := by
  obtain ⟨extra, hinputs, -⟩ := hm.follows.inputs
  have hbare : (catalog.templateOf m).inputs = [] := by rw [NodeCatalog.inputs_templateOf, hm']; rfl
  rw [show m.inputs = _ from hinputs, hbare, List.nil_append] at ht
  obtain ⟨e, -, rfl⟩ := List.mem_map.1 ht
  rw [hn.grown hn' o ho]
  simp [Socket.canConnect, Socket.output, Socket.input, SocketKind.feeds]

/-- A link between two nodes of unlisted classes can be made. -/
theorem fits_of_unlisted {s : SavedGraph} {l : Link} (hl : l ∈ s.links) {n m : SavedNode} (hn : s.nodes[l.fromNode]? = some n)
    (hm : s.nodes[l.toNode]? = some m) (hne : l.fromNode ≠ l.toNode) (hn' : catalog.find? n.className = none)
    (hm' : catalog.find? m.className = none) : fits (s.loadNodes catalog) l = true := by
  have hfrom := getElem?_loadNodes catalog s l.fromNode
  have hto := getElem?_loadNodes catalog s l.toNode
  rw [hn, Option.map_some] at hfrom
  rw [hm, Option.map_some] at hto
  have htitle {k : SavedNode} (hk : catalog.find? k.className = none) (i : Nat) :
      catalog.find? (s.links.foldl (growAt catalog i) (k.toNode catalog ⟨i⟩)).title = none := by
    rw [(Grown.foldl_growAt i s.links _).title_eq, SavedNode.title_toNode, hk]
  obtain ⟨o, ho⟩ := Option.isSome_iff_exists.1 ((isSome_sockets hl
    (n := n.toNode catalog ⟨l.fromNode⟩) (by rw [SavedNode.title_toNode, hn'])).1 rfl)
  obtain ⟨t, ht⟩ := Option.isSome_iff_exists.1 ((isSome_sockets hl
    (n := m.toNode catalog ⟨l.toNode⟩) (by rw [SavedNode.title_toNode, hm'])).2 rfl)
  have hloads := loads_loadNodes catalog s
  refine fits_eq_true_iff.2 ⟨hne, o, t, by rw [start?, hfrom]; exact ho, by rw [target?, hto]; exact ht, ?_⟩
  exact canConnect_of_unlisted (hloads _ (List.mem_of_getElem? hfrom)) (hloads _ (List.mem_of_getElem? hto)) (htitle hn' _)
    (htitle hm' _) (List.mem_of_find?_eq_some ho) (List.mem_of_find?_eq_some ht)

end Growing

/-! ## Links that last -/

/-- The links, with their positions, that can be made and that no later one displaces. -/
def lasting (nodes : List Node) (links : List Link) : List (Link × Nat) :=
  links.zipIdx.filter fun e => fits nodes e.1 && !(links.drop (e.2 + 1)).any fun later => displaces nodes later e.1

theorem kept_zipIdx (nodes : List Node) (links : List Link) : kept nodes links.zipIdx = lasting nodes links := by
  have h : ∀ (links : List Link) (k : Nat), kept nodes (links.zipIdx k) = (links.zipIdx k).filter fun e =>
      fits nodes e.1 && !(links.drop (e.2 + 1 - k)).any fun later => displaces nodes later e.1 := by
    intro links
    induction links with
    | nil => intro k; rfl
    | cons l links ih =>
      intro k
      have hlater : (links.zipIdx (k + 1)).any (fun e => displaces nodes e.1 l) = links.any fun later => displaces nodes later l := by
        conv_rhs => rw [← List.zipIdx_map_fst (k + 1) links, List.any_map]
        rfl
      -- What comes later than a link of the rest is the same without the first link.
      have hrest : ∀ e ∈ links.zipIdx (k + 1), links.drop (e.2 + 1 - (k + 1)) = (l :: links).drop (e.2 + 1 - k) := by
        intro e he
        have hk := (List.mem_zipIdx he).1
        rw [show e.2 + 1 - k = e.2 + 1 - (k + 1) + 1 by omega, List.drop_succ_cons]
      rw [List.zipIdx_cons, kept, hlater, ih, List.filter_cons, show k + 1 - k = 1 by omega]
      rw [List.filter_congr fun e he => congrArg (fun later : List Link =>
        fits nodes e.1 && !later.any fun l' => displaces nodes l' e.1) (hrest e he)]
      rfl
  exact h links 0

/-- A saved graph cannot be opened just if a link points past its last node, and the first such link is reported with the
end that does so. Otherwise each saved node becomes one of the graph, with further sockets if its class is not listed,
and the links are those that can be made and that no later one displaces, in their order. A link between two nodes of
unlisted classes can always be made, so it is there unless a later one displaces it. -/
theorem toGraph_lasting (catalog : NodeCatalog) (s : SavedGraph) :
    ((∃ e, s.toGraph catalog = .error e) ↔ ∃ l ∈ s.links, Outside s.nodes.length l) ∧
    (∀ e, s.toGraph catalog = .error e → ∃ before l after, s.links = before ++ l :: after ∧
      (∀ l' ∈ before, ¬ Outside s.nodes.length l') ∧ Outside s.nodes.length l ∧
      e = .invalidConnection before.length (if s.nodes.length ≤ l.fromNode then l.fromNode else l.toNode) s.nodes.length) ∧
    ∀ g, s.toGraph catalog = .ok g →
      List.Forall₂ (fun e n => Grown catalog (e.1.toNode catalog ⟨e.2⟩) n) s.nodes.zipIdx g.nodes.values ∧
      g.connections.entries = (lasting g.nodes.values s.links).map wire ∧
      g.links = (lasting g.nodes.values s.links).map Prod.fst ∧
      ∀ i l n m, s.links[i]? = some l → s.nodes[l.fromNode]? = some n → s.nodes[l.toNode]? = some m → l.fromNode ≠ l.toNode →
        catalog.find? n.className = none → catalog.find? m.className = none →
        (l, i) ∈ lasting g.nodes.values s.links ∨ ∃ later ∈ s.links.drop (i + 1), displaces g.nodes.values later l = true := by
  have hfails (e : OpenError) : s.toGraph catalog = .error e ↔ invalidLink? s.nodes.length s.links.zipIdx = some e := by
    unfold toGraph
    split <;> rename_i h <;> simp [h]
  refine ⟨?_, fun e he => ?_, fun g hg => ?_⟩
  · simp only [hfails, ← Option.isSome_iff_exists, Option.isSome_iff_ne_none, ne_eq, invalidLink?_eq_none_iff]
    push Not
    rfl
  · simpa using invalidLink?_eq_some s.links 0 ((hfails e).1 he)
  · obtain ⟨g', hg', hnumbered, hentries, -⟩ := exists_toGraph catalog s (invalidLink?_of_toGraph hg)
    obtain rfl : g = g' := Except.ok.inj (hg.symm.trans hg')
    have hlinks := links_of_wires hnumbered hentries fun e he => fits_of_mem_kept he
    rw [kept_zipIdx] at hentries hlinks
    rw [hnumbered.values]
    refine ⟨forall₂_loadNodes s, hentries, hlinks, fun i l n m hl hn hm hne hn' hm' => ?_⟩
    have hfits := fits_of_unlisted (List.mem_of_getElem? hl) hn hm hne hn' hm'
    rw [or_iff_not_imp_right, lasting, List.mem_filter]
    exact fun hfree => ⟨List.mem_zipIdx_iff_getElem?.2 hl, by simpa [hfits] using hfree⟩

/-- Two nodes of unlisted classes and a render target, whose output takes the input that the first link goes to. The
second link runs from a node to itself. -/
def rivals : SavedGraph where
  name := "rivals"
  nodes := ["FBO", "Mystery", "Riddle"].map fun className =>
    ⟨className, Binary.ofNat 10, Binary.ofNat 20, none, none, none, none, none, none⟩
  links := [⟨1, "out", 2, "in"⟩, ⟨1, "self", 1, "self"⟩, ⟨2, "back", 1, "more"⟩, ⟨0, "output", 2, "in"⟩]
  frames := []

/-- The last two links are left, the first one being displaced, and a link that ends past the last node is reported. -/
theorem rivals_opened :
    (∃ g, rivals.toGraph .standard = .ok g ∧ g.links = [⟨2, "back", 1, "more"⟩, ⟨0, "output", 2, "in"⟩] ∧
      ∃ later ∈ rivals.links.drop 1, displaces g.nodes.values later ⟨1, "out", 2, "in"⟩ = true) ∧
    ∃ e, toGraph .standard { rivals with links := rivals.links ++ [⟨1, "out", 7, "in"⟩] } = .error e := by
  obtain ⟨hfails, -, hlinks⟩ := toGraph_lasting .standard rivals
  refine ⟨?_, (toGraph_lasting .standard _).1.2 (by decide)⟩
  cases hg : rivals.toGraph .standard with
  | error e => exact absurd (hfails.1 ⟨e, hg⟩) (by decide)
  | ok g =>
    have hleft : (rivals.toGraph .standard).toOption.map Graph.links =
        some [⟨2, "back", 1, "more"⟩, ⟨0, "output", 2, "in"⟩] := by decide +kernel
    rw [hg] at hleft
    have hleft := Option.some.inj hleft
    obtain ⟨-, -, hlasting, hunlisted⟩ := hlinks g hg
    refine ⟨g, rfl, hleft, (hunlisted 0 _ _ _ rfl rfl rfl (by decide) (by decide +kernel) (by decide +kernel)).resolve_left
      fun hlasts => ?_⟩
    have hmem := List.mem_map_of_mem (f := Prod.fst) hlasts
    rw [← hlasting, hleft] at hmem
    exact absurd hmem (by decide)

end RenderGraph.SavedGraph
