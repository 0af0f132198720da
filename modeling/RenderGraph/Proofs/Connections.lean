import RenderGraph.Proofs.Edits
import RenderGraph.Proofs.Ordering
/-!
# Connections and the order of passes

What the order of names means for graphs that are made by connecting standard
nodes. A connection into an input that is read orders the passes at its ends; one
into a `_target` input does so where the pass also reads what it redirects into.

`compileGraph_order` says this, and when there is an order at all: names may run
in a circle where connections do not, but not if each name is read downstream of
all that write it. `compileGraph_not_by_connections` has a graph of either kind
in which connections alone would promise more.
-/

namespace RenderGraph

open Relation Compile

/-- A node with the class, the role and the sockets of a standard template. -/
def Node.IsStandard (n : Node) : Prop :=
  ∃ t ∈ NodeCatalog.standard.entries, n.title = t.className ∧ n.kind = t.kind ∧ n.inputs = t.inputs ∧ n.outputs = t.outputs

instance (n : Node) : Decidable n.IsStandard :=
  inferInstanceAs (Decidable (∃ t ∈ NodeCatalog.standard.entries,
    n.title = t.className ∧ n.kind = t.kind ∧ n.inputs = t.inputs ∧ n.outputs = t.outputs))

theorem Node.IsStandard.single {n : Node} (h : n.IsStandard) : ∀ t ∈ n.inputs, t.multiplicity = .single := by
  obtain ⟨t, ht, -, -, hin, -⟩ := h
  have hall : ∀ t ∈ NodeCatalog.standard.entries, ∀ s ∈ t.inputs, s.multiplicity = .single := by decide +kernel
  rw [hin]
  exact hall t ht

namespace Graph

/-- In a graph of standard nodes a link feeds the input it ends at. -/
theorem Made.source? {g : Graph} (hg : g.Made Node.IsStandard) {l : Link} (hl : l ∈ g.links) {n m : Node}
    (hn : g.nodes.values[l.fromNode]? = some n) (hm : g.nodes.values[l.toNode]? = some m)
    (ho : (n.output? l.fromSocket).isSome) (ht : (m.input? l.toSocket).isSome) :
    Naming.source? g.snapshot.nodes g.snapshot.links l.toNode l.toSocket = some (Naming.origin l) := by
  refine Naming.source?_of_unique hl ?_ ?_ fun l' hl' hnode hsocket => ?_
  · rw [Naming.endsAtInput, show g.snapshot.nodes = g.nodes.values from rfl, hm]
    exact ht
  · rw [Naming.startsAtOutput, show g.snapshot.nodes = g.nodes.values from rfl, hn]
    exact ho
  · refine (hg.sound.link_unique hl hl' hnode.symm hsocket.symm fun n' t hn' ht' => ?_).symm
    rw [hm] at hn'
    cases hn'
    exact (hg.node _ _ (hg.sound.nodeIndex? hm).2).single t (Naming.input?_eq_some ht').1

/-- A connection joins two nodes, and lets the one supply the other if its input is read. -/
theorem Made.connection {g : Graph} (hg : g.Made Node.IsStandard) {conn : Connection} (hconn : conn ∈ g.connections.values) :
    ∃ n m t i j, g.node? conn.fromNode = some n ∧ g.node? conn.toNode = some m ∧ m.input? conn.toSocket = some t ∧
      g.nodeIndex? conn.fromNode = some i ∧ g.nodeIndex? conn.toNode = some j ∧
      g.snapshot.nodes[i]? = some n ∧ g.snapshot.nodes[j]? = some m ∧
      (n.kind.isPass = true → m.kind.isPass = true → t.isTarget = false → Supplies g.snapshot i j) := by
  obtain ⟨⟨o, t⟩, he⟩ := hg.sound.admits conn hconn
  obtain ⟨n, m, hn, hm, ho, ht, hne, -⟩ := endpoints_eq_ok_iff.1 he
  obtain ⟨l, hl, hlink⟩ := hg.sound.exists_link hconn
  obtain ⟨hfrom, hto, hout, hin⟩ := link?_eq_some_iff.1 hlink
  have hi := Table.getElem?_values_of_position? hfrom hn
  have hj := Table.getElem?_values_of_position? hto hm
  refine ⟨n, m, t, _, _, hn, hm, ht, hfrom, hto, hi, hj, fun hnk hmk hread => ?_⟩
  rw [hout] at ho
  rw [hin] at ht
  refine supplies_of_source (hg.source? hl hi hj (by rw [ho]; rfl) (by rw [ht]; rfl)) (fun hsame => hne ?_) hi hnk ho hj hmk
    ht hread
  -- The two nodes stand at two positions.
  rw [Graph.nodeIndex?, Table.position?_eq_some_iff] at hfrom hto
  rw [hsame, hto] at hfrom
  exact (Option.some.inj hfrom).symm

/-- In a graph of standard nodes that all have a pass, the order is reported on just if names run in a circle. They
do not where connections have no cycle and no output shares its name, or at least each name is read downstream of all
that write it. Without a report, a connection orders the passes at its ends if its input is read, or if its target
reads what its source writes by another input. -/
theorem compileGraph_order (catalog : PassCatalog) (settings : Settings) (g : Graph) (hg : g.Made Node.IsStandard)
    (hbuilt : ∀ e ∈ g.snapshot.passNodes, (nodePass? ⟨catalog, Schedule.topological, settings⟩ g.snapshot e).isSome) :
    let c : Compiler := ⟨catalog, Schedule.topological, settings⟩
    (InOrder (c.compileGraph g) ↔ ∀ i, ¬ TransGen (Supplies g.snapshot) i i) ∧
    ((∀ i, ¬ TransGen (Linked g.links) i i) →
      (Unshared g.snapshot ∨ ∀ i j, Supplies g.snapshot i j → TransGen (Linked g.links) i j) →
      InOrder (c.compileGraph g)) ∧
    (InOrder (c.compileGraph g) → ∀ conn ∈ g.connections.values, ∃ n m t i j,
      g.node? conn.fromNode = some n ∧ g.node? conn.toNode = some m ∧ m.input? conn.toSocket = some t ∧
      g.nodeIndex? conn.fromNode = some i ∧ g.nodeIndex? conn.toNode = some j ∧
      (n.kind.isPass = true → m.kind.isPass = true → t.isTarget = false ∨ Supplies g.snapshot i j →
        Precedes c g.snapshot i j)) := by
  intro c
  have horder : InOrder (c.compileGraph g) ↔ ∀ i, ¬ TransGen (Supplies g.snapshot) i i := inOrder_iff rfl hbuilt
  refine ⟨horder, fun hacyclic hnames => horder.2 fun i hi => ?_, ?_⟩
  · have hdown : ∀ i j, Supplies g.snapshot i j → TransGen (Linked g.links) i j := by
      rcases hnames with hunshared | hdown
      · exact fun i j hs => .single (hunshared.linked hs)
      · exact hdown
    exact hacyclic i (TransGen.closed hdown i i hi)
  · intro h conn hconn
    obtain ⟨n, m, t, i, j, hn, hm, ht, hi, hj, hni, hmj, hsupplies⟩ := hg.connection hconn
    refine ⟨n, m, t, i, j, hn, hm, ht, hi, hj, fun hnk hmk hread => ?_⟩
    have hs : Supplies g.snapshot i j := hread.elim (hsupplies hnk hmk) id
    have hn' : (n, i) ∈ g.snapshot.passNodes := (mem_passNodes_iff _).2 ⟨hni, hnk⟩
    have hm' : (m, j) ∈ g.snapshot.passNodes := (mem_passNodes_iff _).2 ⟨hmj, hmk⟩
    exact precedes_of_supplies rfl h (mem_built_iff.2 ⟨hn', hbuilt _ hn'⟩) (mem_built_iff.2 ⟨hm', hbuilt _ hm'⟩) hs

/-! ## Three graphs -/

/-- A new node of a standard class. -/
def standardNode (id : Nat) (className : String) : Node :=
  (NodeCatalog.standard.create? ⟨id⟩ className).getD (.bare ⟨id⟩ className .pass)

/-- A render target, a color pass that is redirected into it, an effect and the screen. -/
def redirectedColor : Graph :=
  draw "color" [standardNode 0 "FBO", standardNode 1 "ColorPass", standardNode 2 "BloomPass", standardNode 3 "PresentToScreenPass"]
    [(⟨0⟩, "output", ⟨1⟩, "output_res_target"), (⟨1⟩, "output_res", ⟨2⟩, "input_res"),
      (⟨2⟩, "output_res", ⟨3⟩, "input_res")]

/-- A color pass and two effects, each redirected into what it works on. -/
def effectsInPlace : Graph :=
  draw "effects" [standardNode 0 "ColorPass", standardNode 1 "BloomPass", standardNode 2 "BloomPass"]
    [(⟨0⟩, "output_res", ⟨1⟩, "input_res"), (⟨0⟩, "output_res", ⟨1⟩, "output_res_target"),
      (⟨1⟩, "output_res", ⟨2⟩, "input_res"), (⟨1⟩, "output_res", ⟨2⟩, "output_res_target")]

/-- A color pass, and after it a depth pass that it is redirected into. -/
def targetOnly : Graph :=
  draw "target" [standardNode 0 "ColorPass", standardNode 1 "DepthPass"]
    [(⟨1⟩, "depth_res", ⟨0⟩, "output_res_target")]

/-- The color pass comes before the effect that reads the render target, and nothing is reported. -/
theorem redirectedColor_order :
    redirectedColor.Made Node.IsStandard ∧
    (∀ e ∈ redirectedColor.snapshot.passNodes, (nodePass? .standard redirectedColor.snapshot e).isSome) ∧
    InOrder (Compiler.standard.compileGraph redirectedColor) ∧ Precedes .standard redirectedColor.snapshot 1 2 := by
  have hmade : redirectedColor.Made Node.IsStandard := made_draw _ (by decide +kernel) (by decide +kernel) _
  have hbuilt : ∀ e ∈ redirectedColor.snapshot.passNodes, (nodePass? .standard redirectedColor.snapshot e).isSome := by
    decide +kernel
  have h := compileGraph_order .standard .standard redirectedColor hmade hbuilt
  have hin : InOrder (Compiler.standard.compileGraph redirectedColor) := by decide +kernel
  refine ⟨hmade, hbuilt, hin, ?_⟩
  have hconn : (⟨⟨1⟩, ⟨1⟩, "output_res", ⟨2⟩, "input_res"⟩ : Connection) ∈ redirectedColor.connections.values := by
    decide +kernel
  obtain ⟨n, m, t, i, j, hn, hm, ht, hi, hj, hprecedes⟩ := h.2.2 hin _ hconn
  have hn' : redirectedColor.node? ⟨1⟩ = some (standardNode 1 "ColorPass") := by decide +kernel
  have hm' : redirectedColor.node? ⟨2⟩ = some (standardNode 2 "BloomPass") := by decide +kernel
  have hi' : redirectedColor.nodeIndex? ⟨1⟩ = some 1 := by decide +kernel
  have hj' : redirectedColor.nodeIndex? ⟨2⟩ = some 2 := by decide +kernel
  obtain rfl : standardNode 1 "ColorPass" = n := Option.some.inj (hn'.symm.trans hn)
  obtain rfl : standardNode 2 "BloomPass" = m := Option.some.inj (hm'.symm.trans hm)
  obtain rfl : 1 = i := Option.some.inj (hi'.symm.trans hi)
  obtain rfl : 2 = j := Option.some.inj (hj'.symm.trans hj)
  have ht' : (standardNode 2 "BloomPass").input? "input_res" = some (.input "input_res" .fbo) := by decide +kernel
  obtain rfl : .input "input_res" .fbo = t := Option.some.inj (ht'.symm.trans ht)
  exact hprecedes (by decide +kernel) (by decide +kernel) (.inl (by decide +kernel))

/-- Where nothing is redirected and no node has a name, no output shares its name. -/
example :
    Unshared (draw "plain"
      [standardNode 0 "ColorPass", standardNode 1 "TonemapPass", standardNode 2 "PresentToScreenPass"]
      [(⟨0⟩, "output_res", ⟨1⟩, "input_res"), (⟨1⟩, "output_res", ⟨2⟩, "input_res")]).snapshot := by
  decide +kernel

/-- Connections without a cycle do not always make an order, and one into a `_target` input does not always make the
pass at its start come first. -/
theorem compileGraph_not_by_connections :
    (effectsInPlace.Made Node.IsStandard ∧ (∀ i, ¬ TransGen (Linked effectsInPlace.links) i i) ∧
      (∀ e ∈ effectsInPlace.snapshot.passNodes, (nodePass? .standard effectsInPlace.snapshot e).isSome) ∧
      ¬ InOrder (Compiler.standard.compileGraph effectsInPlace)) ∧
    (targetOnly.Made Node.IsStandard ∧ (∀ i, ¬ TransGen (Linked targetOnly.links) i i) ∧
      (∀ e ∈ targetOnly.snapshot.passNodes, (nodePass? .standard targetOnly.snapshot e).isSome) ∧
      InOrder (Compiler.standard.compileGraph targetOnly) ∧
      targetOnly.links = [⟨1, "depth_res", 0, "output_res_target"⟩] ∧
      (∃ n, targetOnly.nodes.values[0]? = some n ∧ (n.output? "output_res").isSome ∧
        (n.input? "output_res_target").bind Socket.target? = some "output_res") ∧
      (nodesInOrder .standard targetOnly.snapshot).map Prod.snd = [0, 1] ∧ ¬ Precedes .standard targetOnly.snapshot 1 0) := by
  have hnodes : (nodesInOrder .standard targetOnly.snapshot).map Prod.snd = [0, 1] := by decide +kernel
  refine ⟨⟨?_, ?_, ?_, ?_⟩, ?_, ?_, ?_, ?_, ?_, ?_, ?_, ?_⟩
  · exact made_draw _ (by decide +kernel) (by decide +kernel) _
  · exact acyclic_of_rank id (by decide +kernel)
  · decide +kernel
  · decide +kernel
  · exact made_draw _ (by decide +kernel) (by decide +kernel) _
  · exact acyclic_of_rank (fun i => 1 - i) (by decide +kernel)
  · decide +kernel
  · decide +kernel
  · decide +kernel
  · exact ⟨standardNode 0 "ColorPass", by decide +kernel⟩
  · exact hnodes
  · rintro ⟨x, y, hxy, ⟨n, p, hx, -, -⟩, m, q, hy, -, -⟩
    have hx' : [0, 1][x]? = some 1 := by rw [← hnodes, List.getElem?_map, hx]; rfl
    have hy' : [0, 1][y]? = some 0 := by rw [← hnodes, List.getElem?_map, hy]; rfl
    rcases x with _ | x
    · simp at hx'
    · rcases y with _ | _ | y
      · omega
      · simp at hy'
      · simp at hy'

end Graph

end RenderGraph
