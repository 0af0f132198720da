import RenderGraph.Proofs.Saving
/-!
# Saving a graph that was opened

What is opened is what was saved, filled up: a node of a listed class has the
outputs of its template, and a node of another class those that links name
(`Loads`). These are not saved. Some of the links were dropped, and an output that
only they had named is gone for good; an output that a link in use names grows
again (`Alike.grow`), so that link can be made once more.

`ofGraph_toGraph_ofGraph`: from then on opening and saving change nothing. What
was lost is lost the first time.
-/

namespace RenderGraph

/-! ## Nodes that were loaded -/

/-- A node as it is loaded. Beyond its template it may have inputs and parameters, and if its class is not listed also
outputs that links name. -/
structure NodeCatalog.Loads (catalog : NodeCatalog) (n : Node) : Prop where
  follows : (catalog.ungrown n).Follows (catalog.templateOf n)
  listed : (catalog.find? n.title).isSome → n.outputs = (catalog.templateOf n).outputs
  grown : catalog.find? n.title = none → ∀ s ∈ n.outputs, s = .output s.name .any

theorem Node.input?_eq_none_iff {n : Node} {name : String} : n.input? name = none ↔ name ∉ n.inputs.map Socket.name := by
  simp [Node.input?]

theorem Node.Follows.addExtra {t : Template} {n : Node} (h : n.Follows t) (e : String × SocketKind) :
    (SavedNode.addExtra n e).Follows t := by
  unfold SavedNode.addExtra
  split
  · rename_i hnone
    exact h.addInput (Node.input?_eq_none_iff.1 (Option.isNone_iff_eq_none.1 hnone)) e.2
  · exact h

theorem Node.Follows.foldl_addExtra {t : Template} (extra : List (String × SocketKind)) :
    ∀ {n : Node}, n.Follows t → (extra.foldl SavedNode.addExtra n).Follows t := by
  induction extra with
  | nil => intro n h; exact h
  | cons e extra ih => intro n h; exact ih (h.addExtra e)

namespace SavedNode

variable (catalog : NodeCatalog)

theorem title_toNode (id : NodeId) (s : SavedNode) : (s.toNode catalog id).title = s.className := by
  refine (SavedGraph.apply_foldl_addExtra (f := Node.title) (fun _ _ => rfl) _ _).trans ?_
  change (s.blank catalog id).title = s.className
  unfold blank
  split
  · rename_i t ht; exact Catalog.name_of_find? ht
  · rfl

theorem kind_toNode (id : NodeId) (s : SavedNode) :
    (s.toNode catalog id).kind = s.kind.getD (s.blank catalog id).kind :=
  SavedGraph.apply_foldl_addExtra (f := Node.kind) (fun _ _ => rfl) _ _

/-- A saved node is filled up with the template of what it becomes. -/
theorem blank_eq (id : NodeId) (s : SavedNode) :
    s.blank catalog id = .ofTemplate id (catalog.templateOf (s.toNode catalog id)) := by
  have hkind := kind_toNode catalog id s
  rw [NodeCatalog.templateOf, title_toNode]
  unfold blank at hkind ⊢
  cases h : catalog.find? s.className with
  | some t => rfl
  | none =>
    rw [h] at hkind
    have hsame : (s.toNode catalog id).kind = s.kind.getD .pass := by
      rw [hkind]
      cases s.kind <;> rfl
    rw [Option.getD_none, hsame]
    rfl

theorem follows_toNode (id : NodeId) (s : SavedNode) :
    (s.toNode catalog id).Follows (catalog.templateOf (s.toNode catalog id)) := by
  have hblank := blank_eq catalog id s
  generalize catalog.templateOf (s.toNode catalog id) = t at hblank ⊢
  have hfull := Node.Follows.foldl_addExtra (t := t) (s.extraInputs.getD [])
    (n := { s.blank catalog id with
      kind := s.kind.getD (s.blank catalog id).kind
      instanceName := s.name.filter (· ≠ "")
      params := (s.blank catalog id).params.insertAll ((s.params.map Table.entries).getD []) }) ?_
  · exact ⟨hfull.instanceName, hfull.outputs, hfull.inputs, hfull.params⟩
  · rw [hblank]
    refine ⟨fun h => ?_, rfl, ⟨[], (List.append_nil _).symm, List.nodup_nil, nofun⟩, Table.keys_prefix_insertAll _ _⟩
    simpa using (Option.filter_eq_some_iff.1 h).2

theorem loads_toNode (id : NodeId) (s : SavedNode) : catalog.Loads (s.toNode catalog id) := by
  have h := follows_toNode catalog id s
  refine ⟨⟨h.instanceName, rfl, h.inputs, h.params⟩, fun _ => h.outputs, fun hnone o ho => ?_⟩
  rw [h.outputs, NodeCatalog.templateOf, hnone] at ho
  cases ho

end SavedNode

/-! ## Growing -/

namespace SavedGraph

open RenderGraph.Graph

variable {catalog : NodeCatalog} {nodes nodes' : List Node} {l : Link}

theorem loads_growOutput {n : Node} (h : catalog.Loads n) (socket : String) :
    catalog.Loads (growOutput catalog socket n) := by
  unfold growOutput
  split
  · rename_i hgrows
    simp only [Bool.and_eq_true, Option.isNone_iff_eq_none] at hgrows
    refine ⟨h.follows, fun hlisted => ?_, fun _ o ho => ?_⟩
    · exact absurd hgrows.1 (Option.isSome_iff_ne_none.1 hlisted)
    · rcases List.mem_append.1 ho with ho | ho
      · exact h.grown hgrows.1 o ho
      · obtain rfl := List.mem_singleton.1 ho
        rfl
  · exact h

theorem loads_growInput {n : Node} (h : catalog.Loads n) (socket : String) :
    catalog.Loads (growInput catalog socket n) := by
  unfold growInput
  split
  · rename_i hgrows
    simp only [Bool.and_eq_true, Option.isNone_iff_eq_none] at hgrows
    exact ⟨h.follows.addInput (Node.input?_eq_none_iff.1 hgrows.2) .any, h.listed, h.grown⟩
  · exact h

theorem forall_mem_modify {p : Node → Prop} {change : Node → Node} (h : ∀ n ∈ nodes, p n) (hp : ∀ n, p n → p (change n))
    (i : Nat) : ∀ n ∈ nodes.modify i change, p n := by
  intro n hn
  obtain ⟨j, hj⟩ := List.mem_iff_getElem?.1 hn
  rw [List.getElem?_modify] at hj
  obtain ⟨m, hm, rfl⟩ := Option.map_eq_some_iff.1 hj
  have hm := h m (List.mem_of_getElem? hm)
  split
  · exact hp m hm
  · exact hm

theorem loads_grow (h : ∀ n ∈ nodes, catalog.Loads n) (l : Link) : ∀ n ∈ grow catalog nodes l, catalog.Loads n :=
  forall_mem_modify (forall_mem_modify h (fun _ hn => loads_growOutput hn _) _) (fun _ hn => loads_growInput hn _) _

theorem loads_foldl_grow (links : List Link) :
    ∀ {nodes : List Node}, (∀ n ∈ nodes, catalog.Loads n) → ∀ n ∈ links.foldl (grow catalog) nodes, catalog.Loads n := by
  induction links with
  | nil => intro _ h; exact h
  | cons l links ih => intro _ h; exact ih (loads_grow h l)

variable (catalog) in
theorem loads_loadNodes (s : SavedGraph) : ∀ n ∈ s.loadNodes catalog, catalog.Loads n := by
  refine loads_foldl_grow s.links fun n hn => ?_
  obtain ⟨e, -, rfl⟩ := List.mem_map.1 hn
  exact SavedNode.loads_toNode catalog ⟨e.2⟩ e.1

/-- Nodes that were loaded from what was saved of others: they differ in the outputs that grew, if at all. -/
structure Alike (catalog : NodeCatalog) (nodes nodes' : List Node) : Prop where
  loads : ∀ n ∈ nodes, catalog.Loads n
  loads' : ∀ n ∈ nodes', catalog.Loads n
  same : nodes'.map catalog.ungrown = nodes.map catalog.ungrown

/-- Nodes as they are loaded before they grow again. -/
theorem alike_ungrown (h : ∀ n ∈ nodes, catalog.Loads n) : Alike catalog nodes (nodes.map catalog.ungrown) := by
  refine ⟨h, fun n hn => ?_, by rw [List.map_map]; rfl⟩
  obtain ⟨m, hm, rfl⟩ := List.mem_map.1 hn
  have hm := h m hm
  refine ⟨hm.follows, fun _ => rfl, fun hnone o ho => ?_⟩
  rw [NodeCatalog.ungrown, NodeCatalog.templateOf, show catalog.find? m.title = none from hnone] at ho
  cases ho

/-- The outputs in which nodes may differ are not saved. -/
theorem Alike.map_ofNode (h : Alike catalog nodes nodes') :
    nodes'.map (SavedNode.ofNode catalog) = nodes.map (SavedNode.ofNode catalog) := by
  have hungrown (nodes : List Node) : nodes.map (SavedNode.ofNode catalog) =
      (nodes.map catalog.ungrown).map (SavedNode.ofNode catalog) := by
    rw [List.map_map]
    rfl
  rw [hungrown, h.same, ← hungrown]

/-- The nodes at one position, which have the same class and inputs, and the same outputs if their class is listed. -/
theorem Alike.node (h : Alike catalog nodes nodes') {i : Nat} {n : Node} (hn : nodes[i]? = some n) :
    ∃ m, nodes'[i]? = some m ∧ m.title = n.title ∧ m.inputs = n.inputs ∧ catalog.Loads n ∧ catalog.Loads m ∧
      ((catalog.find? n.title).isSome → m.outputs = n.outputs) := by
  have hi := congrArg (·[i]?) h.same
  simp only [List.getElem?_map, hn, Option.map_some] at hi
  obtain ⟨m, hm, hsame⟩ := Option.map_eq_some_iff.1 hi
  have htitle : m.title = n.title := (congrArg Node.title hsame :)
  have hload := h.loads n (List.mem_of_getElem? hn)
  have hload' := h.loads' m (List.mem_of_getElem? hm)
  refine ⟨m, hm, htitle, (congrArg Node.inputs hsame :), hload, hload', fun hlisted => ?_⟩
  rw [hload.listed hlisted, hload'.listed (htitle ▸ hlisted)]
  exact congrArg Node.outputs hsame

theorem Alike.target? (h : Alike catalog nodes nodes') (ht : (target? nodes l).isSome) :
    SavedGraph.target? nodes' l = SavedGraph.target? nodes l := by
  obtain ⟨t, ht⟩ := Option.isSome_iff_exists.1 ht
  obtain ⟨n, hn, -⟩ := Option.bind_eq_some_iff.1 ht
  obtain ⟨m, hm, -, hinputs, -⟩ := h.node hn
  simp only [SavedGraph.target?, hn, hm, Option.bind_some, Node.input?, hinputs]

/-- An output that a link needs is the same one wherever it exists. -/
theorem Alike.start? (h : Alike catalog nodes nodes') (hs : (start? nodes l).isSome) (hs' : (start? nodes' l).isSome) :
    SavedGraph.start? nodes' l = SavedGraph.start? nodes l := by
  obtain ⟨s, hs⟩ := Option.isSome_iff_exists.1 hs
  obtain ⟨s', hs'⟩ := Option.isSome_iff_exists.1 hs'
  rw [hs, hs']
  obtain ⟨n, hn, ho⟩ := Option.bind_eq_some_iff.1 hs
  obtain ⟨m, hm, htitle, -, hload, hload', houtputs⟩ := h.node hn
  simp only [SavedGraph.start?, hm, Option.bind_some] at hs'
  cases hlisted : catalog.find? n.title with
  | some t =>
    rw [Node.output?, houtputs (by rw [hlisted]; rfl)] at hs'
    rw [← hs', ← ho]
    rfl
  | none =>
    obtain ⟨hmem, hname⟩ := Naming.output?_eq_some ho
    obtain ⟨hmem', hname'⟩ := Naming.output?_eq_some hs'
    rw [hload.grown hlisted s hmem, hload'.grown (htitle ▸ hlisted) s' hmem', hname, hname']

theorem Alike.fits (h : Alike catalog nodes nodes') (hl : fits nodes l = true) (hs : (SavedGraph.start? nodes' l).isSome) :
    SavedGraph.fits nodes' l = true := by
  obtain ⟨hne, s, t, hs', ht, hst⟩ := fits_eq_true_iff.1 hl
  refine fits_eq_true_iff.2 ⟨hne, s, t, ?_, ?_, hst⟩
  · rw [h.start? (by rw [hs']; rfl) hs, hs']
  · rw [h.target? (by rw [ht]; rfl), ht]

/-! ## What grows again -/

theorem isSome_output?_growOutput {n : Node} {socket output : String}
    (h : (n.output? output).isSome ∨ catalog.find? n.title = none ∧ output = socket) :
    ((growOutput catalog socket n).output? output).isSome := by
  unfold growOutput
  split
  · simp only [Node.output?, Node.addOutput, List.find?_append, Option.isSome_or, Bool.or_eq_true]
    rcases h with h | ⟨-, rfl⟩
    · exact .inl h
    · exact .inr (by simp [Socket.output])
  · rename_i hgrows
    rcases h with h | ⟨hnone, rfl⟩
    · exact h
    · simpa [hnone, Option.isSome_iff_ne_none] using hgrows

theorem start?_grow (nodes : List Node) (l l' : Link) : start? (grow catalog nodes l) l' =
    (nodes[l'.fromNode]?).bind fun n =>
      (if l.fromNode = l'.fromNode then growOutput catalog l.fromSocket n else n).output? l'.fromSocket := by
  have hinput (n : Node) : (growInput catalog l.toSocket n).output? l'.fromSocket = n.output? l'.fromSocket := by
    unfold growInput
    split <;> rfl
  simp only [start?, grow, List.getElem?_modify]
  cases nodes[l'.fromNode]? with
  | none => rfl
  | some n =>
    simp only [Option.bind_some]
    split <;> simp [hinput]

/-- Outputs stay when nodes grow. -/
theorem isSome_start?_grow {nodes : List Node} {l' : Link} (h : (start? nodes l').isSome) (l : Link) :
    (start? (grow catalog nodes l) l').isSome := by
  obtain ⟨s, hs⟩ := Option.isSome_iff_exists.1 h
  obtain ⟨n, hn, ho⟩ := Option.bind_eq_some_iff.1 hs
  rw [start?_grow, hn, Option.bind_some]
  split
  · exact isSome_output?_growOutput (.inl (by rw [ho]; rfl))
  · rw [ho]
    rfl

/-- Nodes that grow for a link whose ends there were before get no further input by it. -/
theorem Alike.grow (h : Alike catalog nodes nodes') (hl : SavedGraph.fits nodes l = true) :
    Alike catalog nodes (grow catalog nodes' l) ∧ (SavedGraph.start? (grow catalog nodes' l) l).isSome := by
  obtain ⟨-, s, t, hs, ht, -⟩ := fits_eq_true_iff.1 hl
  refine ⟨⟨h.loads, loads_grow h.loads' l, ?_⟩, ?_⟩
  · rw [← h.same, SavedGraph.grow, map_modify_of_eq, map_modify_of_eq]
    · intro n _
      unfold growOutput
      split <;> rfl
    · intro n hn
      rw [List.getElem?_modify] at hn
      obtain ⟨m, hm, rfl⟩ := Option.map_eq_some_iff.1 hn
      -- The input is there already.
      have hinput : m.input? l.toSocket = some t := by
        have htarget := h.target? (by rw [ht]; rfl)
        rw [ht, SavedGraph.target?, hm] at htarget
        exact htarget
      have hsame : ∀ m', m'.inputs = m.inputs → growInput catalog l.toSocket m' = m' := fun m' hm' => by
        rw [growInput, Node.input?, hm', show m.inputs.find? _ = _ from hinput, Option.isNone_some, Bool.and_false]
        rfl
      rw [hsame]
      split
      · unfold growOutput
        split <;> rfl
      · rfl
  · obtain ⟨n, hn, ho⟩ := Option.bind_eq_some_iff.1 hs
    obtain ⟨m, hm, htitle, -, -, -, houtputs⟩ := h.node hn
    rw [start?_grow, hm, Option.bind_some, if_pos rfl]
    refine isSome_output?_growOutput ?_
    cases hlisted : catalog.find? n.title with
    | none => exact .inr ⟨htitle ▸ hlisted, rfl⟩
    | some t =>
      left
      rw [Node.output?, houtputs (by rw [hlisted]; rfl), show n.outputs.find? _ = _ from ho]
      rfl

/-- Once nodes have grown for all links whose ends there were before, these ends are there again. -/
theorem Alike.foldl_grow {links : List Link} : ∀ {nodes' : List Node}, Alike catalog nodes nodes' →
    (∀ l ∈ links, SavedGraph.fits nodes l = true) →
    Alike catalog nodes (links.foldl (SavedGraph.grow catalog) nodes') ∧
      (∀ l, (SavedGraph.start? nodes' l).isSome →
        (SavedGraph.start? (links.foldl (SavedGraph.grow catalog) nodes') l).isSome) ∧
      ∀ l ∈ links, (SavedGraph.start? (links.foldl (SavedGraph.grow catalog) nodes') l).isSome := by
  induction links with
  | nil => intro nodes' h _; exact ⟨h, fun _ hl => hl, nofun⟩
  | cons l links ih =>
    intro nodes' h hfits
    obtain ⟨hgrow, hstart⟩ := h.grow (hfits l List.mem_cons_self)
    obtain ⟨halike, hstay, hstarts⟩ := ih hgrow fun l' hl' => hfits l' (List.mem_cons_of_mem l hl')
    refine ⟨halike, fun l' hl' => hstay l' (isSome_start?_grow hl' l), fun l' hl' => ?_⟩
    rcases List.mem_cons.1 hl' with rfl | hl'
    · exact hstay l' hstart
    · exact hstarts l' hl'

/-! ## The whole graph -/

/-- What is saved of a graph is decided by its snapshot. -/
theorem ofGraph_eq (g : Graph) : ofGraph catalog g =
    ⟨g.snapshot.name, g.snapshot.nodes.map (SavedNode.ofNode catalog), g.snapshot.links, g.snapshot.frames⟩ := rfl

/-- The nodes of a saved graph are loaded with the outputs of their templates before they grow. -/
theorem loadNodes_of_saved (hloads : ∀ n ∈ nodes, catalog.Loads n)
    (hids : nodes.map Node.id = (List.range nodes.length).map NodeId.mk) (name : String) (links : List Link)
    (frames : List Frame) : loadNodes catalog ⟨name, nodes.map (SavedNode.ofNode catalog), links, frames⟩ =
      links.foldl (grow catalog) (nodes.map catalog.ungrown) := by
  refine congrArg (List.foldl (grow catalog) · links) (List.ext_getElem? fun i => ?_)
  have hi := congrArg (·[i]?) hids
  simp only [List.getElem?_map] at hi
  simp only [List.getElem?_map, List.getElem?_zipIdx]
  cases hn : nodes[i]? with
  | none => rfl
  | some n =>
    rw [hn, List.getElem?_range (List.getElem?_eq_some_iff.1 hn).1] at hi
    have hid : n.id = ⟨i⟩ := Option.some.inj hi
    simp only [Option.map_some, Nat.zero_add]
    rw [SavedNode.toNode_ofNode (hloads n (List.mem_of_getElem? hn)).follows, ← hid]
    rfl

/-- The links of a graph that was opened can all be made again on the nodes as they are loaded from what is saved. -/
theorem Alike.kept_links (h : Alike catalog nodes nodes') {es : List (Link × Nat)}
    (hstarts : ∀ e ∈ kept nodes es, (SavedGraph.start? nodes' e.1).isSome) :
    (kept nodes' ((kept nodes es).map Prod.fst).zipIdx).map Prod.fst = (kept nodes es).map Prod.fst := by
  have hfits : ∀ e ∈ kept nodes es, SavedGraph.fits nodes' e.1 = true := fun e he =>
    h.fits (fits_of_mem_kept he) (hstarts e he)
  refine kept_links_eq_self (fun l hl => ?_) (List.pairwise_map.2 ?_)
  · obtain ⟨e, he, rfl⟩ := List.mem_map.1 hl
    exact hfits e he
  · refine (pairwise_kept es).imp_of_mem fun {e e'} _ he' hfree => ?_
    have hfit := fits_of_mem_kept he'
    obtain ⟨-, -, t, -, ht, -⟩ := fits_eq_true_iff.1 hfit
    rw [displaces, hfits e' he', h.target? (by rw [ht]; rfl)]
    rw [displaces, hfit] at hfree
    exact hfree

/-- What is saved of a graph that was opened can be opened, whatever was saved at first: classes that are not listed,
links that were dropped, displaced or ran from a node to itself. The graph then has the same links in the same order,
and what is saved of it is the same to the bit. -/
theorem ofGraph_toGraph_ofGraph {s : SavedGraph} {g : Graph} (h : s.toGraph catalog = .ok g) :
    ∃ g', (ofGraph catalog g).toGraph catalog = .ok g' ∧ g'.snapshot.links = g.snapshot.links ∧
      ofGraph catalog g' = ofGraph catalog g := by
  obtain ⟨g₁, hg, hsnapshot⟩ := snapshot_toGraph catalog s (invalidLink?_of_toGraph h)
  obtain rfl : g = g₁ := Except.ok.inj (h.symm.trans hg)
  have hids := map_id_loadNodes catalog s
  have hloads := loads_loadNodes catalog s
  generalize s.loadNodes catalog = nodes at hsnapshot hids hloads
  have hlength : nodes.length = s.nodes.length := by simpa using congrArg List.length hids
  have hfits : ∀ l ∈ (kept nodes s.links.zipIdx).map Prod.fst, fits nodes l = true := fun l hl => by
    obtain ⟨e, he, rfl⟩ := List.mem_map.1 hl
    exact fits_of_mem_kept he
  obtain ⟨halike, -, hstarts⟩ := (alike_ungrown hloads).foldl_grow hfits
  have hsaved : ofGraph catalog g = ⟨s.name, nodes.map (SavedNode.ofNode catalog),
      (kept nodes s.links.zipIdx).map Prod.fst, s.frames⟩ := by rw [ofGraph_eq, hsnapshot]
  have hvalid : invalidLink? (ofGraph catalog g).nodes.length (ofGraph catalog g).links.zipIdx = none := by
    rw [hsaved, List.length_map]
    exact invalidLink?_eq_none hfits
  obtain ⟨g', hg', hsnapshot'⟩ := snapshot_toGraph catalog (ofGraph catalog g) hvalid
  rw [hsaved, loadNodes_of_saved hloads (hlength ▸ hids), halike.kept_links fun e he => hstarts e.1 (List.mem_map_of_mem he)]
    at hsnapshot'
  refine ⟨g', hg', by rw [hsnapshot', hsnapshot], ?_⟩
  rw [ofGraph_eq g', hsnapshot', hsaved]
  simp only [halike.map_ofNode]

/-- A node of a class that is not listed, between a render target and a bloom pass. Of the links the first one is
displaced by the last, the second has no input to go to, and the third runs from a node to itself. -/
def patched : SavedGraph where
  name := "patched"
  nodes := ["FBO", "Mystery", "BloomPass"].map fun className =>
    ⟨className, Binary.ofNat 10, Binary.ofNat 20, none, none, none, none, none, none⟩
  links := [⟨0, "output", 2, "input_res"⟩, ⟨1, "lost", 2, "nope"⟩, ⟨1, "self", 1, "self"⟩, ⟨0, "output", 1, "source"⟩,
    ⟨1, "glow", 2, "input_res"⟩]
  frames := []

/-- The outputs of each node of a graph. -/
def outputNames (g : Graph) : List (List String) := g.nodes.values.map fun n => n.outputs.map Socket.name

/-- Two outputs of the unlisted class are gone after the first time, and its two links stay. -/
theorem patched_resaved : ∃ g g', patched.toGraph .standard = .ok g ∧ (ofGraph .standard g).toGraph .standard = .ok g' ∧
    outputNames g = [["output"], ["lost", "self", "glow"], ["output_res"]] ∧
    outputNames g' = [["output"], ["glow"], ["output_res"]] ∧
    g'.snapshot.links = [⟨0, "output", 1, "source"⟩, ⟨1, "glow", 2, "input_res"⟩] ∧
    ofGraph .standard g' = ofGraph .standard g := by
  have hopens : (patched.toGraph .standard).toOption.isSome := by decide +kernel
  obtain ⟨g, hg⟩ : ∃ g, patched.toGraph .standard = .ok g := by
    cases h : patched.toGraph .standard with
    | ok g => exact ⟨g, rfl⟩
    | error e => rw [h] at hopens; cases hopens
  have hfirst : (patched.toGraph .standard).toOption.map (fun g => (outputNames g, g.snapshot.links)) =
      some ([["output"], ["lost", "self", "glow"], ["output_res"]],
        [⟨0, "output", 1, "source"⟩, ⟨1, "glow", 2, "input_res"⟩]) := by decide +kernel
  have hsecond : ((patched.toGraph .standard).toOption.bind fun g =>
      ((ofGraph .standard g).toGraph .standard).toOption).map outputNames =
        some [["output"], ["glow"], ["output_res"]] := by decide +kernel
  obtain ⟨g', hg', hlinks, hsaved⟩ := ofGraph_toGraph_ofGraph hg
  rw [hg] at hfirst hsecond
  have hsecond : ((ofGraph .standard g).toGraph .standard).toOption.map outputNames = _ := hsecond
  rw [hg'] at hsecond
  obtain ⟨houtputs, hkept⟩ := Prod.mk.inj (Option.some.inj hfirst)
  exact ⟨g, g', hg, hg', houtputs, Option.some.inj hsecond, hlinks.trans hkept, hsaved⟩

end SavedGraph

end RenderGraph
