import RenderGraph.Proofs.Anonymous
import RenderGraph.Proofs.Connections
import RenderGraph.Proofs.Replay
import RenderGraph.Proofs.Wiring
/-!
# Saving and opening a graph

A saved node is what its template does not say, and opening adds the template
again (`toNode_ofNode`). A saved link joins what it joined before, and no two
compete, so all are kept. `toGraph_ofGraph` puts the two together: a graph whose
nodes follow their templates comes back as it was, but for identities.
-/

namespace RenderGraph

/-- A node that keeps to a template: further inputs come after those of the template, and further parameters after its
parameters, whatever the values. -/
structure Node.Follows (t : Template) (n : Node) : Prop where
  /-- A name that is given is not empty. -/
  instanceName : n.instanceName ≠ some ""
  outputs : n.outputs = t.outputs
  inputs : ∃ extra : List (String × SocketKind), n.inputs = t.inputs ++ extra.map (fun e => .input e.1 e.2) ∧
    (extra.map Prod.fst).Nodup ∧ ∀ e ∈ extra, e.1 ∉ t.inputs.map Socket.name
  params : t.params.keys <+: n.params.keys

theorem Node.Follows.addInput {t : Template} {n : Node} (h : n.Follows t) {name : String}
    (hname : name ∉ n.inputs.map Socket.name) (kind : SocketKind) : (n.addInput (.input name kind)).Follows t := by
  obtain ⟨extra, hinputs, hnodup, hnew⟩ := h.inputs
  rw [hinputs, List.map_append, List.mem_append, not_or] at hname
  refine ⟨h.instanceName, h.outputs, ⟨extra ++ [(name, kind)], ?_, ?_, ?_⟩, h.params⟩
  · rw [Node.addInput, hinputs, List.append_assoc, List.map_append]
    rfl
  · rw [List.map_append, List.nodup_append]
    refine ⟨hnodup, List.nodup_singleton _, ?_⟩
    rintro a ha b hb rfl
    obtain ⟨e, he, rfl⟩ := List.mem_map.1 ha
    refine hname.2 (List.mem_map.2 ⟨_, List.mem_map.2 ⟨e, he, rfl⟩, ?_⟩)
    exact List.mem_singleton.1 hb
  · intro e he
    rcases List.mem_append.1 he with he | he
    · exact hnew e he
    · obtain rfl := List.mem_singleton.1 he
      exact hname.1

/-- A node of a listed class that keeps to the template of the class. -/
def NodeCatalog.Describes (catalog : NodeCatalog) (n : Node) : Prop := ∃ t, catalog.find? n.title = some t ∧ n.Follows t

section Describes
variable {catalog : NodeCatalog} {n : Node}

theorem NodeCatalog.describes_create (id : NodeId) (className : String) (h : catalog.create? id className = some n) :
    catalog.Describes n := by
  obtain ⟨t, ht, rfl⟩ := Option.map_eq_some_iff.1 h
  refine ⟨t, ?_, ⟨nofun, rfl, ⟨[], ?_, List.nodup_nil, nofun⟩, List.prefix_rfl⟩⟩
  · rw [← ht]
    exact congrArg catalog.find? (Catalog.name_of_find? ht)
  · exact (List.append_nil _).symm

theorem NodeCatalog.Describes.rename (h : catalog.Describes n) {name : String} (hname : name ≠ "") :
    catalog.Describes { n with instanceName := some name } := by
  obtain ⟨t, ht, hn⟩ := h
  exact ⟨t, ht, ⟨by simpa using hname, hn.outputs, hn.inputs, hn.params⟩⟩

theorem NodeCatalog.Describes.setParam (h : catalog.Describes n) (key : String) (value : Param) :
    catalog.Describes { n with params := n.params.insert key value } := by
  obtain ⟨t, ht, hn⟩ := h
  refine ⟨t, ht, ⟨hn.instanceName, hn.outputs, hn.inputs, hn.params.trans ?_⟩⟩
  rw [Table.keys_insert]
  split
  · exact List.prefix_rfl
  · exact List.prefix_append ..

theorem NodeCatalog.Describes.addInput (h : catalog.Describes n) {name : String} (hname : name ∉ n.inputs.map Socket.name)
    (kind : SocketKind) : catalog.Describes (n.addInput (.input name kind)) := by
  obtain ⟨t, ht, hn⟩ := h
  exact ⟨t, ht, hn.addInput hname kind⟩

end Describes

/-! ## Nodes -/

/-- The template of a node: that of its class, or one of its class and role with nothing else. -/
def NodeCatalog.templateOf (catalog : NodeCatalog) (n : Node) : Template :=
  (catalog.find? n.title).getD ⟨n.title, n.kind, "", "", [], [], .empty⟩

/-- The node with the outputs of its template alone. -/
def NodeCatalog.ungrown (catalog : NodeCatalog) (n : Node) : Node := { n with outputs := (catalog.templateOf n).outputs }

section Template
variable {catalog : NodeCatalog} {n : Node}

theorem NodeCatalog.templateOf_of_find? {t : Template} (h : catalog.find? n.title = some t) : catalog.templateOf n = t := by
  rw [templateOf, h, Option.getD_some]

theorem NodeCatalog.className_templateOf : (catalog.templateOf n).className = n.title := by
  unfold templateOf
  cases h : catalog.find? n.title with
  | none => rfl
  | some t => exact Catalog.name_of_find? h

theorem NodeCatalog.inputs_templateOf :
    (catalog.templateOf n).inputs = ((catalog.find? n.title).map Template.inputs).getD [] := by
  unfold templateOf
  cases catalog.find? n.title <;> rfl

/-- A node that keeps to a listed template has no outputs beyond it. -/
theorem NodeCatalog.Describes.ungrown (h : catalog.Describes n) :
    catalog.ungrown n = n ∧ n.Follows (catalog.templateOf n) := by
  obtain ⟨t, ht, hn⟩ := h
  rw [NodeCatalog.ungrown, templateOf_of_find? ht, ← hn.outputs]
  exact ⟨rfl, hn⟩

end Template

namespace SavedNode

theorem getD_unlessEmpty {α : Type} (items : List α) : (unlessEmpty items).getD [] = items := by
  cases items <;> rfl

/-- Inputs of new names are added in order. -/
theorem foldl_addExtra (extra : List (String × SocketKind)) (n : Node) (hnodup : (extra.map Prod.fst).Nodup)
    (hnew : ∀ e ∈ extra, e.1 ∉ n.inputs.map Socket.name) :
    extra.foldl addExtra n = { n with inputs := n.inputs ++ extra.map fun e => .input e.1 e.2 } := by
  induction extra generalizing n with
  | nil => rw [List.foldl_nil, List.map_nil, List.append_nil]
  | cons e extra ih =>
    obtain ⟨he, hnodup⟩ := List.nodup_cons.1 hnodup
    have hadd : addExtra n e = n.addInput (.input e.1 e.2) := by
      rw [addExtra, if_pos]
      rw [Node.input?, Option.isNone_iff_eq_none, List.find?_eq_none]
      intro s hs hname
      exact hnew e List.mem_cons_self (List.mem_map.2 ⟨s, hs, of_decide_eq_true hname⟩)
    rw [List.foldl_cons, hadd, ih _ hnodup]
    · simp [Node.addInput, Socket.input]
    · intro e' he' hmem
      rw [Node.addInput, List.map_append, List.mem_append] at hmem
      rcases hmem with hmem | hmem
      · exact hnew e' (List.mem_cons_of_mem _ he') hmem
      · exact he (List.mem_map.2 ⟨e', he', List.mem_singleton.1 hmem⟩)

/-- The inputs that are saved are those that the template does not have. -/
theorem filter_inputs {inputs : List Socket} {extra : List (String × SocketKind)}
    (hnew : ∀ e ∈ extra, e.1 ∉ inputs.map Socket.name) :
    ((inputs ++ extra.map fun e => Socket.input e.1 e.2).filter fun s => !(inputs.map Socket.name).contains s.name).map
      (fun s => (s.name, s.kind)) = extra := by
  rw [List.filter_append, List.filter_eq_nil_iff.2, List.filter_eq_self.2, List.nil_append, List.map_map]
  · exact List.map_id extra
  · intro s hs
    obtain ⟨e, he, rfl⟩ := List.mem_map.1 hs
    simpa [Socket.input] using hnew e he
  · intro s hs
    simpa using ⟨s, hs, rfl⟩

theorem blank_ofNode (catalog : NodeCatalog) (n : Node) (id : NodeId) :
    (ofNode catalog n).blank catalog id = .ofTemplate id (catalog.templateOf n) := by
  unfold blank NodeCatalog.templateOf
  cases h : catalog.find? n.title with
  | none => simp only [ofNode, h]; rfl
  | some t => rw [show catalog.find? (ofNode catalog n).className = some t from h]; rfl

/-- The role is saved, or is that of the template. -/
theorem kind_ofNode (catalog : NodeCatalog) (n : Node) : (ofNode catalog n).kind.getD (catalog.templateOf n).kind = n.kind := by
  unfold NodeCatalog.templateOf
  cases h : catalog.find? n.title with
  | none => simp [ofNode, h]
  | some t =>
    simp only [ofNode, h, Option.map_some, Option.some.injEq, Option.getD_some]
    split
    · rename_i hkind; exact hkind
    · rfl

theorem entries_ofNode (catalog : NodeCatalog) (n : Node) :
    ((ofNode catalog n).params.map Table.entries).getD [] = n.params.entries := by
  simp only [ofNode]
  split
  · rename_i h; exact (List.isEmpty_iff.1 h).symm
  · rfl

/-- A node that was saved is loaded as it was, but for outputs that its template does not have. -/
theorem toNode_ofNode {catalog : NodeCatalog} {n : Node} (h : (catalog.ungrown n).Follows (catalog.templateOf n))
    (id : NodeId) : (ofNode catalog n).toNode catalog id = { catalog.ungrown n with id := id } := by
  obtain ⟨hname, -, ⟨extra, hinputs, hnodup, hnew⟩, hparams⟩ := h
  change n.inputs = _ at hinputs
  have hmerged : (catalog.templateOf n).params.insertAll n.params.entries = n.params := Table.insertAll_entries hparams
  have hgiven : n.instanceName.filter (· ≠ "") = n.instanceName := by
    cases hi : n.instanceName with
    | none => rfl
    | some name => exact Option.filter_some_pos (by simpa [NodeCatalog.ungrown, hi] using hname)
  have hextra : (ofNode catalog n).extraInputs.getD [] = extra := by
    simp only [ofNode, getD_unlessEmpty, ← NodeCatalog.inputs_templateOf, hinputs]
    exact filter_inputs hnew
  have hfull (m : Node) (hm : m.inputs = (catalog.templateOf n).inputs) :
      extra.foldl addExtra m = { m with inputs := n.inputs } := by
    rw [foldl_addExtra extra m hnodup (hm ▸ hnew), hm, ← hinputs]
  simp only [toNode, blank_ofNode, hextra, entries_ofNode]
  rw [hfull _ rfl]
  simp only [Node.ofTemplate, Node.bare, kind_ofNode, hmerged, NodeCatalog.className_templateOf]
  simp only [ofNode, hgiven, Option.getD_some, NodeCatalog.ungrown]

end SavedNode

/-! ## Links -/

namespace Graph

/-- The nodes with their positions as identities. -/
def renumbered (nodes : List Node) : List Node := nodes.zipIdx.map fun e => { e.1 with id := ⟨e.2⟩ }

theorem getElem?_renumbered (nodes : List Node) (i : Nat) :
    (renumbered nodes)[i]? = (nodes[i]?).map fun n => { n with id := ⟨i⟩ } := by
  rw [renumbered, List.getElem?_map, List.getElem?_zipIdx, Option.map_map, Nat.zero_add]
  rfl

open SavedGraph

/-- The sockets that a link of a sound graph joins. -/
theorem Sound.joined {g : Graph} (h : Sound g) {c : Connection} (hc : c ∈ g.connections.values) {l : Link}
    (hl : g.link? c = some l) : ∃ m s t, start? (renumbered g.nodes.values) l = some s ∧
      target? (renumbered g.nodes.values) l = some t ∧ l.fromNode ≠ l.toNode ∧ s.canConnect t = true ∧
      g.node? c.toNode = some m ∧ m.input? c.toSocket = some t := by
  obtain ⟨⟨s, t⟩, he⟩ := h.admits c hc
  obtain ⟨n, m, hn, hm, hs, ht, hne, hst⟩ := endpoints_eq_ok_iff.1 he
  obtain ⟨hi, hj, hout, hin⟩ := link?_eq_some_iff.1 hl
  have hni := Table.getElem?_values_of_position? hi hn
  have hmj := Table.getElem?_values_of_position? hj hm
  refine ⟨m, s, t, ?_, ?_, fun hsame => hne ?_, hst, hm, ht⟩
  · rw [start?, getElem?_renumbered, hni, ← hout]
    exact hs
  · rw [target?, getElem?_renumbered, hmj, ← hin]
    exact ht
  · have hfrom := (g.nodes.position?_eq_some_iff _ _).1 hi
    rw [hsame, (g.nodes.position?_eq_some_iff _ _).1 hj] at hfrom
    exact (Option.some.inj hfrom).symm

theorem Sound.fits {g : Graph} (h : Sound g) {l : Link} (hl : l ∈ g.links) : fits (renumbered g.nodes.values) l = true := by
  obtain ⟨c, hc, hl⟩ := List.mem_filterMap.1 hl
  obtain ⟨m, s, t, hs, ht, hne, hst, -⟩ := h.joined hc hl
  exact fits_eq_true_iff.2 ⟨hne, s, t, hs, ht, hst⟩

/-- No link of a sound graph takes the input of another one. -/
theorem Sound.not_displaced {g : Graph} (h : Sound g) :
    g.links.Pairwise fun l l' => displaces (renumbered g.nodes.values) l' l = false := by
  rw [links, List.pairwise_filterMap]
  refine h.nodup_connections.imp_of_mem fun {c c'} hc hc' hne l hl l' hl' => ?_
  rw [← Bool.not_eq_true]
  intro hd
  simp only [displaces, Bool.and_eq_true, decide_eq_true_eq, Option.any_eq_true] at hd
  obtain ⟨⟨-, hnode, hsocket⟩, t, ht, hsingle⟩ := hd
  obtain ⟨m, _, t', -, ht', -, -, hm, hin⟩ := h.joined hc' hl'
  rw [ht', Option.some.injEq] at ht
  rw [← ht] at hsingle
  obtain ⟨-, hj, -, hs⟩ := link?_eq_some_iff.1 hl
  obtain ⟨-, hj', -, hs'⟩ := link?_eq_some_iff.1 hl'
  have hsame : c'.toNode = c.toNode := by
    have hto := (g.nodes.position?_eq_some_iff _ _).1 hj'
    rw [hnode, (g.nodes.position?_eq_some_iff _ _).1 hj] at hto
    exact (Option.some.inj hto).symm
  exact hne (h.single c' hc' c hc hsame (by rw [hs, hs', hsocket]) m t' hm hin hsingle).symm

/-- The links of a sound graph, connected again one after another, are all kept. -/
theorem Sound.kept_links {g : Graph} (h : Sound g) :
    (kept (renumbered g.nodes.values) g.links.zipIdx).map Prod.fst = g.links :=
  kept_links_eq_self (fun _ => h.fits) h.not_displaced

end Graph

/-! ## The whole graph -/

namespace SavedGraph

open RenderGraph.Graph

/-- Nodes of listed classes do not grow. -/
theorem foldl_grow {catalog : NodeCatalog} {nodes : List Node} (h : ∀ n ∈ nodes, (catalog.find? n.title).isSome)
    (links : List Link) : links.foldl (grow catalog) nodes = nodes := by
  have hmodify {f : Node → Node} (hf : ∀ n ∈ nodes, f n = n) (i : Nat) : nodes.modify i f = nodes := by
    simpa using map_modify_of_eq (f := id) (i := i) fun n hn => hf n (List.mem_of_getElem? hn)
  have hlisted : ∀ n ∈ nodes, (catalog.find? n.title).isNone = false := fun n hn => by
    rw [← Option.not_isSome, h n hn]
    rfl
  induction links with
  | nil => rfl
  | cons l links ih =>
    have hgrow : grow catalog nodes l = nodes := by
      rw [grow, hmodify fun n hn => by rw [growOutput, hlisted n hn]; rfl,
        hmodify fun n hn => by rw [growInput, hlisted n hn]; rfl]
    rw [List.foldl_cons, hgrow, ih]

theorem loadNodes_ofGraph {catalog : NodeCatalog} {g : Graph} (h : ∀ n ∈ g.nodes.values, catalog.Describes n) :
    (ofGraph catalog g).loadNodes catalog = renumbered g.nodes.values := by
  have hnodes : ((ofGraph catalog g).nodes.zipIdx.map fun e => e.1.toNode catalog ⟨e.2⟩) = renumbered g.nodes.values := by
    rw [ofGraph, List.zipIdx_map, List.map_map, renumbered]
    refine List.map_congr_left fun e he => ?_
    obtain ⟨hsame, hfollows⟩ := (h e.1 (List.fst_mem_of_mem_zipIdx he)).ungrown
    exact (SavedNode.toNode_ofNode (hsame.symm ▸ hfollows) ⟨e.2⟩).trans (by rw [hsame])
  refine (congrArg (List.foldl (grow catalog) · g.links) hnodes).trans (foldl_grow (fun n hn => ?_) g.links)
  obtain ⟨e, he, rfl⟩ := List.mem_map.1 hn
  obtain ⟨t, ht, -⟩ := h e.1 (List.fst_mem_of_mem_zipIdx he)
  exact Option.isSome_iff_exists.2 ⟨t, ht⟩

theorem anonymous_renumbered (nodes : List Node) : (renumbered nodes).map Node.anonymous = nodes.map Node.anonymous := by
  rw [renumbered, List.map_map]
  conv_rhs => rw [← List.zipIdx_map_fst 0 nodes, List.map_map]
  rfl

/-- A graph that was made by edits, of whatever nodes, can be saved and opened again once the nodes that are in it
follow their templates. It is then as before but for the identities, and any compile gives the same output. -/
theorem toGraph_ofGraph {catalog : NodeCatalog} {p : Node → Prop} {g : Graph} (hg : g.Made p)
    (hnodes : ∀ n ∈ g.nodes.values, catalog.Describes n) :
    ∃ g', (ofGraph catalog g).toGraph catalog = .ok g' ∧ g'.snapshot.anonymous = g.snapshot.anonymous ∧
      ∀ c : Compiler, c.compileGraph g' = c.compileGraph g := by
  have hsound := hg.sound
  have hvalid : invalidLink? (ofGraph catalog g).nodes.length (ofGraph catalog g).links.zipIdx = none := by
    have hlength : (ofGraph catalog g).nodes.length = (renumbered g.nodes.values).length := by simp [ofGraph, renumbered]
    rw [hlength]
    exact invalidLink?_eq_none fun _ => hsound.fits
  obtain ⟨g', hg', hsnapshot⟩ := snapshot_toGraph catalog (ofGraph catalog g) hvalid
  rw [loadNodes_ofGraph hnodes, show (ofGraph catalog g).links = g.links from rfl, hsound.kept_links] at hsnapshot
  have hanonymous : g'.snapshot.anonymous = g.snapshot.anonymous := by
    rw [hsnapshot, Snapshot.anonymous, anonymous_renumbered]
    rfl
  refine ⟨g', hg', hanonymous, fun c => ?_⟩
  rw [Compiler.compileGraph, Compiler.compileGraph, ← c.compile_anonymous, hanonymous, c.compile_anonymous]

/-- A color pass with a name, an input and a parameter of its own. -/
def maskedColor : Node :=
  let color := (standardNode 1 "ColorPass").addInput (.input "mask" .texture)
  { color with instanceName := some "main", params := color.params.insert "quality" (.ofInt 2) }

/-- A render target that feeds the added input and is what the color pass is redirected into, in a frame. -/
def masked : Graph :=
  (draw "masked" [standardNode 0 "FBO", maskedColor]
    [(⟨0⟩, "output", ⟨1⟩, "mask"), (⟨0⟩, "output", ⟨1⟩, "output_res_target")]).addFrame
    ⟨"Frame", "main", .origin, ⟨Binary.ofNat 640, Binary.ofNat 480⟩⟩

/-- The graph comes back with both links. -/
theorem masked_saved : ∃ g', (ofGraph .standard masked).toGraph .standard = .ok g' ∧
    g'.snapshot.anonymous = masked.snapshot.anonymous ∧
    g'.links = [⟨0, "output", 1, "mask"⟩, ⟨0, "output", 1, "output_res_target"⟩] := by
  have htarget : NodeCatalog.standard.Describes (standardNode 0 "FBO") :=
    NodeCatalog.describes_create ⟨0⟩ "FBO" (by decide +kernel)
  have hcolor : NodeCatalog.standard.Describes (standardNode 1 "ColorPass") :=
    NodeCatalog.describes_create ⟨1⟩ "ColorPass" (by decide +kernel)
  have hmade : masked.Made NodeCatalog.standard.Describes := by
    refine .addFrame _ (made_draw _ (fun n hn => ?_) (by decide +kernel) _)
    rcases List.mem_pair.1 hn with rfl | rfl
    · exact htarget
    · exact ((hcolor.addInput (by decide +kernel) .texture).setParam "quality" (.ofInt 2)).rename (by decide)
  have hnodes : ∀ n ∈ masked.nodes.values, NodeCatalog.standard.Describes n := fun n hn => by
    obtain ⟨id, hid⟩ := (masked.nodes.mem_values_iff n).1 hn
    exact hmade.node id n hid
  obtain ⟨g', hg', hsnapshot, -⟩ := toGraph_ofGraph hmade hnodes
  refine ⟨g', hg', hsnapshot, ?_⟩
  have hlinks : g'.links = masked.links := congrArg Snapshot.links hsnapshot
  rw [hlinks]
  decide +kernel

end SavedGraph

end RenderGraph
