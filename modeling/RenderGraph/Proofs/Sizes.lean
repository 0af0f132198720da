import RenderGraph.Proofs.Opening
import RenderGraph.Proofs.Usages
import RenderGraph.Proofs.WholeNumbers
/-!
# Sizes of opened nodes

A node that was saved without a size gets the default one for the sockets it has
before links are looked at: those of its template and the inputs that were saved
with it. Links then give nodes of unlisted classes further sockets, and the size
stays as it is. So it is the default one for the sockets that the node has in the
end just if links add no row to it (`exists_toGraph_size`).
-/

namespace RenderGraph

open Compile (addNew)

/-! ## The default height -/

namespace Node

/-- From here on whole numbers are not all numbers of the format. -/
theorem limit_single : 2 * Precision.single.hiddenBit = 2 ^ 24 := by decide

variable {inputs outputs inputs' outputs' : Nat}

theorem height_defaultSize (h : max inputs outputs < 2 ^ 19) :
    (defaultSize inputs outputs).height = Binary.ofNat (24 + max inputs outputs * 22 + 8) := by
  have hlimit := limit_single
  change Binary.ofNat 24 + Binary.ofNat (max inputs outputs) * Binary.ofNat 22 + Binary.ofNat 8 = _
  rw [Binary.ofNat_mul_ofNat (by omega) (by omega), Binary.ofNat_add_ofNat (by omega) (by omega),
    Binary.ofNat_add_ofNat (by omega) (by omega)]

example : defaultSize 3 1 = ⟨Binary.ofNat 180, Binary.ofNat 98⟩ := by decide +kernel

/-- Unless there are very many sockets, a default size tells how many rows it is for. -/
theorem defaultSize_eq_iff (h : max inputs outputs < 2 ^ 19) (h' : max inputs' outputs' < 2 ^ 19) :
    defaultSize inputs outputs = defaultSize inputs' outputs' ↔ max inputs outputs = max inputs' outputs' := by
  have hlimit := limit_single
  constructor
  · intro hsize
    have hheight := congrArg Extent.height hsize
    rw [height_defaultSize h, height_defaultSize h', Binary.ofNat_inj (by omega) (by omega)] at hheight
    omega
  · intro hrows
    rw [defaultSize, defaultSize, hrows]

end Node

/-! ## Sockets before and after links are looked at -/

namespace SavedNode

variable (catalog : NodeCatalog)

/-- The names of the inputs that a saved node has without links: those of its template, then those that were saved. -/
def ownInputs (s : SavedNode) : List String :=
  ((s.extraInputs.getD []).map Prod.fst).foldl addNew
    ((((catalog.find? s.className).map Template.inputs).getD []).map Socket.name)

/-- The names of the outputs that a saved node has without links: those of its template. -/
def ownOutputs (s : SavedNode) : List String :=
  (((catalog.find? s.className).map Template.outputs).getD []).map Socket.name

/-- The size that a saved node has without links, as far as none was saved. -/
def ownSize (s : SavedNode) : Extent :=
  let size := Node.defaultSize (s.ownInputs catalog).length (s.ownOutputs catalog).length
  ⟨s.width.getD size.width, s.height.getD size.height⟩

theorem names_addExtra (n : Node) (e : String × SocketKind) :
    (addExtra n e).inputs.map Socket.name = addNew (n.inputs.map Socket.name) e.1 := by
  simp only [addExtra, addNew, Option.isNone_iff_eq_none, Node.input?_eq_none_iff, List.contains_iff_mem]
  by_cases h : e.1 ∈ n.inputs.map Socket.name
  · rw [if_neg (not_not.2 h), if_pos h]
  · rw [if_pos h, if_neg h, Node.addInput, List.map_append]
    rfl

theorem names_foldl_addExtra (extra : List (String × SocketKind)) : ∀ n,
    (extra.foldl addExtra n).inputs.map Socket.name = (extra.map Prod.fst).foldl addNew (n.inputs.map Socket.name) := by
  induction extra with
  | nil => intro n; rfl
  | cons e extra ih => intro n; rw [List.foldl_cons, ih, names_addExtra]; rfl

theorem inputs_blank (id : NodeId) (s : SavedNode) :
    (s.blank catalog id).inputs = ((catalog.find? s.className).map Template.inputs).getD [] := by
  unfold blank
  cases catalog.find? s.className <;> rfl

theorem outputs_blank (id : NodeId) (s : SavedNode) :
    (s.blank catalog id).outputs = ((catalog.find? s.className).map Template.outputs).getD [] := by
  unfold blank
  cases catalog.find? s.className <;> rfl

theorem inputs_toNode (id : NodeId) (s : SavedNode) : (s.toNode catalog id).inputs.map Socket.name = s.ownInputs catalog := by
  refine (names_foldl_addExtra _ _).trans ?_
  rw [ownInputs, ← inputs_blank catalog id s]

theorem outputs_toNode (id : NodeId) (s : SavedNode) : (s.toNode catalog id).outputs.map Socket.name = s.ownOutputs catalog := by
  refine (SavedGraph.apply_foldl_addExtra (f := fun n => n.outputs.map Socket.name) (fun _ _ => rfl) _ _).trans ?_
  rw [ownOutputs, ← outputs_blank catalog id s]

theorem size_toNode (id : NodeId) (s : SavedNode) : (s.toNode catalog id).size = s.ownSize catalog := by
  have hinputs := congrArg List.length (inputs_toNode catalog id s)
  have houtputs := congrArg List.length (outputs_toNode catalog id s)
  rw [List.length_map] at hinputs houtputs
  rw [ownSize, ← hinputs, ← houtputs]
  rfl

end SavedNode

namespace SavedGraph

/-- The inputs of the node at a position that links name. -/
def linkedInputs (s : SavedGraph) (i : Nat) : List String := (s.links.filter fun l => l.toNode = i).map Link.toSocket

/-- The outputs of the node at a position that links name. -/
def linkedOutputs (s : SavedGraph) (i : Nat) : List String := (s.links.filter fun l => l.fromNode = i).map Link.fromSocket

section Growing
variable {catalog : NodeCatalog} {n : Node}

theorem names_growInput (hn : catalog.find? n.title = none) (socket : String) :
    (growInput catalog socket n).inputs.map Socket.name = addNew (n.inputs.map Socket.name) socket ∧
      (growInput catalog socket n).outputs = n.outputs := by
  have hsockets : growInput catalog socket n = SavedNode.addExtra n (socket, .any) := by
    rw [growInput, hn]
    rfl
  rw [hsockets]
  exact ⟨SavedNode.names_addExtra n _, apply_foldl_addExtra (f := Node.outputs) (fun _ _ => rfl) [(socket, .any)] n⟩

theorem names_growOutput (hn : catalog.find? n.title = none) (socket : String) :
    (growOutput catalog socket n).outputs.map Socket.name = addNew (n.outputs.map Socket.name) socket ∧
      (growOutput catalog socket n).inputs = n.inputs := by
  have habsent : n.output? socket = none ↔ socket ∉ n.outputs.map Socket.name := by simp [Node.output?]
  simp only [growOutput, hn, Option.isNone_none, Bool.true_and, addNew, Option.isNone_iff_eq_none, habsent,
    List.contains_iff_mem]
  by_cases h : socket ∈ n.outputs.map Socket.name
  · rw [if_neg (not_not.2 h), if_pos h]
    exact ⟨rfl, rfl⟩
  · rw [if_pos h, if_neg h, Node.addOutput, List.map_append]
    exact ⟨rfl, rfl⟩

/-- What one link adds to the sockets of a node of an unlisted class. -/
theorem names_growAt (hn : catalog.find? n.title = none) (i : Nat) (l : Link) :
    (growAt catalog i n l).inputs.map Socket.name =
        (if l.toNode = i then addNew (n.inputs.map Socket.name) l.toSocket else n.inputs.map Socket.name) ∧
      (growAt catalog i n l).outputs.map Socket.name =
        (if l.fromNode = i then addNew (n.outputs.map Socket.name) l.fromSocket else n.outputs.map Socket.name) := by
  obtain ⟨houtputs, hinputs⟩ := names_growOutput hn l.fromSocket
  have hn' : catalog.find? (growOutput catalog l.fromSocket n).title = none := by
    rw [(Grown.growOutput n _).title_eq, hn]
  obtain ⟨hboth, hboth'⟩ := names_growInput hn' l.toSocket
  obtain ⟨hend, hend'⟩ := names_growInput hn l.toSocket
  unfold growAt
  by_cases hto : l.toNode = i <;> by_cases hfrom : l.fromNode = i <;> simp [*]

theorem names_foldl_growAt (i : Nat) (links : List Link) : ∀ {n : Node}, catalog.find? n.title = none →
    (links.foldl (growAt catalog i) n).inputs.map Socket.name =
        ((links.filter fun l => l.toNode = i).map Link.toSocket).foldl addNew (n.inputs.map Socket.name) ∧
      (links.foldl (growAt catalog i) n).outputs.map Socket.name =
        ((links.filter fun l => l.fromNode = i).map Link.fromSocket).foldl addNew (n.outputs.map Socket.name) := by
  induction links with
  | nil => intro n _; exact ⟨rfl, rfl⟩
  | cons l links ih =>
    intro n hn
    have hn' : catalog.find? (growAt catalog i n l).title = none := by rw [(Grown.growAt i n l).title_eq, hn]
    obtain ⟨hinputs, houtputs⟩ := ih hn'
    obtain ⟨hinput, houtput⟩ := names_growAt hn i l
    rw [List.foldl_cons, hinputs, houtputs, hinput, houtput, List.filter_cons, List.filter_cons]
    constructor
    · by_cases hto : l.toNode = i <;> simp [hto]
    · by_cases hfrom : l.fromNode = i <;> simp [hfrom]

end Growing

/-! ## Opened nodes -/

/-- The node that a saved one becomes. -/
theorem getElem?_values {catalog : NodeCatalog} {s : SavedGraph} {g : Graph} (h : s.toGraph catalog = .ok g) {i : Nat}
    {saved : SavedNode} (hsaved : s.nodes[i]? = some saved) :
    g.nodes.values[i]? = some (s.links.foldl (growAt catalog i) (saved.toNode catalog ⟨i⟩)) := by
  obtain ⟨g', hg', hnumbered, -⟩ := exists_toGraph catalog s (invalidLink?_of_toGraph h)
  obtain rfl : g = g' := Except.ok.inj (h.symm.trans hg')
  rw [hnumbered.values, getElem?_loadNodes, hsaved, Option.map_some]

/-- The sockets of the node that a saved one becomes. -/
theorem names_opened (catalog : NodeCatalog) (s : SavedGraph) (i : Nat) (saved : SavedNode) :
    (s.links.foldl (growAt catalog i) (saved.toNode catalog ⟨i⟩)).inputs.map Socket.name =
        (if (catalog.find? saved.className).isSome then saved.ownInputs catalog
          else (s.linkedInputs i).foldl addNew (saved.ownInputs catalog)) ∧
      (s.links.foldl (growAt catalog i) (saved.toNode catalog ⟨i⟩)).outputs.map Socket.name =
        (if (catalog.find? saved.className).isSome then saved.ownOutputs catalog
          else (s.linkedOutputs i).foldl addNew (saved.ownOutputs catalog)) := by
  have htitle := SavedNode.title_toNode catalog ⟨i⟩ saved
  rw [← SavedNode.inputs_toNode catalog ⟨i⟩, ← SavedNode.outputs_toNode catalog ⟨i⟩]
  by_cases hlisted : (catalog.find? saved.className).isSome
  · rw [if_pos hlisted, if_pos hlisted, (Grown.foldl_growAt i s.links _).listed (htitle ▸ hlisted)]
    exact ⟨rfl, rfl⟩
  · rw [if_neg hlisted, if_neg hlisted]
    exact names_foldl_growAt i s.links (by rwa [htitle, ← Option.not_isSome_iff_eq_none])

/-- Each saved node becomes one of the graph that is opened. A node of a listed class has the sockets of its template and
the inputs that were saved with it; another one also those that links name. Its size is the saved one, or the default for
the sockets it has without those of links. So a node that was saved without a size has the default for its sockets if
its class is listed, and otherwise just if links add no row to it. -/
theorem exists_toGraph_size {catalog : NodeCatalog} {s : SavedGraph} {g : Graph} (h : s.toGraph catalog = .ok g) {i : Nat}
    {saved : SavedNode} (hsaved : s.nodes[i]? = some saved) : ∃ n, g.nodes.values[i]? = some n ∧
      n.size = saved.ownSize catalog ∧
      n.inputs.map Socket.name = (if (catalog.find? saved.className).isSome then saved.ownInputs catalog
        else (s.linkedInputs i).foldl addNew (saved.ownInputs catalog)) ∧
      n.outputs.map Socket.name = (if (catalog.find? saved.className).isSome then saved.ownOutputs catalog
        else (s.linkedOutputs i).foldl addNew (saved.ownOutputs catalog)) ∧
      (saved.width = none → saved.height = none →
        ((catalog.find? saved.className).isSome → n.size = Node.defaultSize n.inputs.length n.outputs.length) ∧
        (max n.inputs.length n.outputs.length < 2 ^ 19 →
          (n.size = Node.defaultSize n.inputs.length n.outputs.length ↔
            max n.inputs.length n.outputs.length =
              max (saved.ownInputs catalog).length (saved.ownOutputs catalog).length))) := by
  have hgrown : Grown catalog (saved.toNode catalog ⟨i⟩) _ := Grown.foldl_growAt i s.links _
  obtain ⟨hinputs, houtputs⟩ := names_opened catalog s i saved
  refine ⟨_, getElem?_values h hsaved, ?_⟩
  generalize s.links.foldl (growAt catalog i) (saved.toNode catalog ⟨i⟩) = n at *
  have hsize : n.size = saved.ownSize catalog := (congrArg Node.size hgrown.same).trans (SavedNode.size_toNode catalog ⟨i⟩ saved)
  refine ⟨hsize, hinputs, houtputs, fun hwidth hheight => ?_⟩
  have hown : saved.ownSize catalog =
      Node.defaultSize (saved.ownInputs catalog).length (saved.ownOutputs catalog).length := by
    rw [SavedNode.ownSize, hwidth, hheight]
    rfl
  rw [hsize, hown]
  constructor
  · intro hlisted
    rw [if_pos hlisted] at hinputs houtputs
    rw [← hinputs, ← houtputs, List.length_map, List.length_map]
  · intro hfew
    -- Links only add sockets, so the size was for few sockets too.
    have hfewer := hgrown.inputs.length_le
    have hfewer' := hgrown.outputs.length_le
    have hlength := congrArg List.length (SavedNode.inputs_toNode catalog ⟨i⟩ saved)
    have hlength' := congrArg List.length (SavedNode.outputs_toNode catalog ⟨i⟩ saved)
    rw [List.length_map] at hlength hlength'
    rw [Node.defaultSize_eq_iff (by omega) hfew, eq_comm]

/-- A node of an unlisted class with the inputs that were saved with it. -/
def customNode (x : Nat) (extra : Option (List (String × SocketKind))) : SavedNode :=
  ⟨"CustomPass", Binary.ofNat x, Binary.ofNat 0, none, none, none, none, none, extra⟩

/-- A depth pass that feeds the same input of two nodes of an unlisted class. The input was saved with the second one. -/
def lowered : SavedGraph where
  name := ""
  nodes := [⟨"DepthPass", Binary.ofNat 0, Binary.ofNat 0, none, none, none, none, none, none⟩, customNode 200 none,
    customNode 400 (some [("depth", .any)])]
  links := [⟨0, "depth_res", 1, "depth"⟩, ⟨0, "depth_res", 2, "depth"⟩]
  frames := []

/-- The sockets of each node of a graph, counted, with its size. -/
def sizes (g : Graph) : List (Nat × Nat × Extent) := g.nodes.values.map fun n => (n.inputs.length, n.outputs.length, n.size)

/-- The two nodes have the same input, and only the one that it was saved with has a size for it. -/
theorem lowered_sizes : ∃ g n m, lowered.toGraph .standard = .ok g ∧ g.nodes.values[1]? = some n ∧
    g.nodes.values[2]? = some m ∧ n.inputs.map Socket.name = ["depth"] ∧ m.inputs.map Socket.name = ["depth"] ∧
    n.size = Node.defaultSize 0 0 ∧ n.size ≠ Node.defaultSize n.inputs.length n.outputs.length ∧
    m.size = Node.defaultSize m.inputs.length m.outputs.length := by
  have hopens : (lowered.toGraph .standard).toOption.isSome := by decide +kernel
  cases hg : lowered.toGraph .standard with
  | error e => rw [hg] at hopens; cases hopens
  | ok g =>
    obtain ⟨n, hn, hsize, hinputs, houtputs, hdefault⟩ := exists_toGraph_size hg
      (show lowered.nodes[1]? = some (customNode 200 none) from rfl)
    obtain ⟨m, hm, -, hinputs', houtputs', hdefault'⟩ := exists_toGraph_size hg
      (show lowered.nodes[2]? = some (customNode 400 (some [("depth", .any)])) from rfl)
    replace hinputs : n.inputs.map Socket.name = ["depth"] := hinputs.trans (by decide +kernel)
    replace houtputs : n.outputs.map Socket.name = [] := houtputs.trans (by decide +kernel)
    replace hinputs' : m.inputs.map Socket.name = ["depth"] := hinputs'.trans (by decide +kernel)
    replace houtputs' : m.outputs.map Socket.name = [] := houtputs'.trans (by decide +kernel)
    have hcounts : n.inputs.length = 1 ∧ n.outputs.length = 0 ∧ m.inputs.length = 1 ∧ m.outputs.length = 0 := by
      simp only [← List.length_map (f := Socket.name), hinputs, houtputs, hinputs', houtputs', List.length_cons, List.length_nil,
        and_self]
    obtain ⟨hi, ho, hi', ho'⟩ := hcounts
    have hdefault := (hdefault rfl rfl).2 (by omega)
    have hdefault' := (hdefault' rfl rfl).2 (by omega)
    refine ⟨g, n, m, rfl, hn, hm, hinputs, hinputs', hsize.trans (by decide +kernel), fun h => ?_, hdefault'.2 ?_⟩
    · have hrows := hdefault.1 h
      rw [hi, ho] at hrows
      exact absurd hrows (by decide +kernel)
    · rw [hi', ho']
      decide +kernel

/-- A node without a saved size that does not have the default one for its sockets. -/
theorem lowered_not_default : ∃ g n, lowered.toGraph .standard = .ok g ∧
    (lowered.nodes[1]?).map (fun saved => (saved.width, saved.height)) = some (none, none) ∧
    g.nodes.values[1]? = some n ∧ n.size ≠ Node.defaultSize n.inputs.length n.outputs.length := by
  have hsizes : (lowered.toGraph .standard).toOption.map sizes =
      some [(1, 1, Node.defaultSize 1 1), (1, 0, Node.defaultSize 0 0), (1, 0, Node.defaultSize 1 0)] := by decide +kernel
  cases hg : lowered.toGraph .standard with
  | error e => rw [hg] at hsizes; cases hsizes
  | ok g =>
    rw [hg] at hsizes
    have hsecond := congrArg (·[1]?) (Option.some.inj hsizes)
    simp only [sizes, List.getElem?_map, List.getElem?_cons_succ, List.getElem?_cons_zero] at hsecond
    obtain ⟨n, hn, hsize⟩ := Option.map_eq_some_iff.1 hsecond
    simp only [Prod.mk.injEq] at hsize
    refine ⟨g, n, rfl, rfl, hn, ?_⟩
    rw [hsize.1, hsize.2.1, hsize.2.2]
    decide +kernel

end SavedGraph

end RenderGraph
