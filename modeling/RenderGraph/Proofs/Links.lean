import RenderGraph.Proofs.Connections
/-!
# A link orders two passes and gives them one name

Links of a snapshot are not checked, so many may end at one input and some start
nowhere. The last one that starts at an output decides (`Decides`).

`compile_follows_links`: where nothing is reported on the order and the input is
read, the pass at the start of that link stands before the pass at its end, and
the two bind the name of one resource to its two sockets. Nothing is asked of the
graph: outputs may be redirected or share their names, and other nodes may have
no pass.
-/

namespace RenderGraph.Compile

open Naming

/-- The links behind this one that end at the same input all start nowhere. -/
def Decides (s : Snapshot) (l : Link) : Prop :=
  ∃ before after, s.links = before ++ l :: after ∧
    ∀ l' ∈ after, l'.toNode = l.toNode → l'.toSocket = l.toSocket → startsAtOutput s.nodes l' = false

theorem Decides.source? {s : Snapshot} {l : Link} (h : Decides s l) (hin : endsAtInput s.nodes l = true)
    (hout : startsAtOutput s.nodes l = true) :
    Naming.source? s.nodes s.links l.toNode l.toSocket = some (origin l) := by
  obtain ⟨before, after, hlinks, hafter⟩ := h
  rw [hlinks]
  exact source?_of_last hin hout hafter

variable {c : Compiler} {s : Snapshot}

/-- The node that has the pass at a place of the pipeline stands in the snapshot. -/
theorem PassAt.eq {x i : Nat} {n : Node} {p : Pass} (h : PassAt c s x i) (hn : (n, i) ∈ s.passNodes)
    (hp : nodePass? c s (n, i) = some p) :
    (nodesInOrder c s)[x]? = some (n, i) ∧ (c.compile s).pipeline.passes[x]? = some p := by
  obtain ⟨n', p', hx, hp', hpx⟩ := h
  have hmem : (n', i) ∈ s.passNodes :=
    (mem_built_iff.1 ((perm_nodesInOrder c s).mem_iff.1 (List.mem_of_getElem? hx))).1
  have hnode := ((mem_passNodes_iff s).1 hn).1
  rw [((mem_passNodes_iff s).1 hmem).1] at hnode
  cases hnode
  rw [hp] at hp'
  cases hp'
  exact ⟨hx, hpx⟩

/-- Both ends of the link that decides an input bind the name of one resource. -/
theorem bound_of_source {l : Link} {n m : Node} {o t : Socket} {p q : Pass}
    (hsource : source? s.nodes s.links l.toNode l.toSocket = some (origin l)) (ho : n.output? l.fromSocket = some o)
    (ht : t ∈ m.inputs) (htname : t.name = l.toSocket) (hread : t.isTarget = false)
    (hp : nodePass? c s (n, l.fromNode) = some p) (hq : nodePass? c s (m, l.toNode) = some q) :
    ∃ name, p.outputs.get? l.fromSocket = some name ∧ q.inputs.get? l.toSocket = some name := by
  obtain ⟨name, hin, hout⟩ := input?_resolve hsource
  obtain ⟨homem, honame⟩ := output?_eq_some ho
  rw [← htname] at hin ⊢
  rw [← honame]
  refine ⟨name, get?_outputs (pass?_eq_some_iff.1 hp) homem ?_, get?_inputs (pass?_eq_some_iff.1 hq) ht hread hin⟩
  rw [honame]
  exact hout

/-- Where nothing is reported on the order, a link that decides an input that is read, between two nodes that have a
pass, has the pass at its start before the pass at its end, and they bind one resource to its two sockets. -/
theorem compile_follows_links (hc : c.scheduler = Schedule.topological) (hin : InOrder (c.compile s)) {l : Link}
    (hlast : Decides s l) (hne : l.fromNode ≠ l.toNode) {n m : Node} {p q : Pass}
    (hn : (n, l.fromNode) ∈ s.passNodes) (hp : nodePass? c s (n, l.fromNode) = some p)
    (hm : (m, l.toNode) ∈ s.passNodes) (hq : nodePass? c s (m, l.toNode) = some q)
    (ho : (n.output? l.fromSocket).isSome) {t : Socket} (ht : t ∈ m.inputs) (htname : t.name = l.toSocket)
    (hread : t.isTarget = false) :
    (∃ x y : Nat, x < y ∧
      (nodesInOrder c s)[x]? = some (n, l.fromNode) ∧ (c.compile s).pipeline.passes[x]? = some p ∧
      (nodesInOrder c s)[y]? = some (m, l.toNode) ∧ (c.compile s).pipeline.passes[y]? = some q) ∧
    ∃ name, p.outputs.get? l.fromSocket = some name ∧ q.inputs.get? l.toSocket = some name := by
  obtain ⟨o, ho⟩ := Option.isSome_iff_exists.1 ho
  have hsource : source? s.nodes s.links l.toNode l.toSocket = some (origin l) := by
    refine hlast.source? ?_ ?_
    · simp only [endsAtInput, ((mem_passNodes_iff s).1 hm).1, Option.bind_some, Node.input?, List.find?_isSome]
      exact ⟨t, ht, by simpa using htname⟩
    · simp only [startsAtOutput, ((mem_passNodes_iff s).1 hn).1, Option.bind_some, ho, Option.isSome_some]
  obtain ⟨name, hpn, hqn⟩ := bound_of_source hsource ho ht htname hread hp hq
  refine ⟨?_, name, hpn, hqn⟩
  -- The one pass writes that name and the other reads it, which is all that the order goes by.
  have hsupplies : Supplies s l.fromNode l.toNode :=
    ⟨hne, name, (writes_iff hn hp name).2 ((Table.mem_values_iff _ _).2 ⟨_, hpn⟩),
      (reads_iff hm hq name).2 ((Table.mem_values_iff _ _).2 ⟨_, hqn⟩)⟩
  obtain ⟨x, y, hxy, hx, hy⟩ := precedes_of_supplies hc hin (mem_built_iff.2 ⟨hn, by rw [hp]; rfl⟩)
    (mem_built_iff.2 ⟨hm, by rw [hq]; rfl⟩) hsupplies
  obtain ⟨hxn, hxp⟩ := hx.eq hn hp
  obtain ⟨hym, hyq⟩ := hy.eq hm hq
  exact ⟨x, y, hxy, hxn, hxp, hym, hyq⟩

/-- An effect, the color pass that feeds it, the render target that the color pass is redirected into, and a node of a
class that there is not. Of four links to the effect, the third decides. -/
def contested : Snapshot where
  name := "contested"
  nodes := [Graph.standardNode 0 "BloomPass", Graph.standardNode 1 "ColorPass", Graph.standardNode 2 "FBO",
    (Node.bare ⟨3⟩ "MirrorPass" .pass).addOutput (.output "output_res" .fbo)]
  links := [⟨3, "output_res", 0, "input_res"⟩, ⟨2, "output", 1, "output_res_target"⟩, ⟨2, "output", 0, "input_res"⟩,
    ⟨1, "output_res", 0, "input_res"⟩, ⟨1, "no_such_output", 0, "input_res"⟩, ⟨7, "output_res", 0, "input_res"⟩]
  frames := []

/-- The color pass moves in front of the effect, and both work on the render target. -/
theorem contested_order :
    InOrder (Compiler.standard.compile contested) ∧ Decides contested ⟨1, "output_res", 0, "input_res"⟩ ∧
      ∃ p q, nodePass? .standard contested (Graph.standardNode 1 "ColorPass", 1) = some p ∧
        nodePass? .standard contested (Graph.standardNode 0 "BloomPass", 0) = some q ∧
        (∃ x y : Nat, x < y ∧ (Compiler.standard.compile contested).pipeline.passes[x]? = some p ∧
          (Compiler.standard.compile contested).pipeline.passes[y]? = some q) ∧
        p.outputs.get? "output_res" = some "fbo_2" ∧ q.inputs.get? "input_res" = some "fbo_2" := by
  have hin : InOrder (Compiler.standard.compile contested) := by decide +kernel
  have hcolor : (nodePass? .standard contested (Graph.standardNode 1 "ColorPass", 1)).isSome := by decide +kernel
  have hbloom : (nodePass? .standard contested (Graph.standardNode 0 "BloomPass", 0)).isSome := by decide +kernel
  obtain ⟨p, hp⟩ := Option.isSome_iff_exists.1 hcolor
  obtain ⟨q, hq⟩ := Option.isSome_iff_exists.1 hbloom
  have hlast : Decides contested ⟨1, "output_res", 0, "input_res"⟩ :=
    ⟨contested.links.take 3, contested.links.drop 4, rfl, by decide +kernel⟩
  obtain ⟨⟨x, y, hxy, -, hx, -, hy⟩, name, hpn, hqn⟩ := compile_follows_links rfl hin hlast (by decide) (by decide +kernel) hp
    (by decide +kernel) hq (by decide +kernel) (t := .input "input_res" .fbo) (by decide +kernel) rfl (by decide +kernel)
  have hname : (nodePass? .standard contested (Graph.standardNode 1 "ColorPass", 1)).bind
      (fun p => p.outputs.get? "output_res") = some "fbo_2" := by decide +kernel
  rw [hp, Option.bind_some, hpn] at hname
  cases hname
  exact ⟨hin, hlast, p, q, hp, hq, ⟨x, y, hxy, hx, hy⟩, hpn, hqn⟩

end RenderGraph.Compile
