import RenderGraph.Proofs.Names
/-!
# Names are given to sockets that exist

Links may start and end anywhere, several may end at one input, and outputs are
renamed between the two times that names are carried along. `Known` is what all
steps keep: names stand at sockets that exist, and each of them, like each name
that replaced another one, came with a kind.

`resolve_names_sockets`: in the end just the sockets that exist have a name, an
input has that of the output behind the last link into it that joins two sockets
(`LastInto`), and an input without such a link has its placeholder.
-/

namespace RenderGraph.Naming

/-- The sockets of a node on one side. -/
def side (n : Node) : Direction → List Socket
  | .input => n.inputs
  | .output => n.outputs

/-- Whether a node has the socket. -/
def HasSocket (nodes : List Node) (k : SocketKey) : Prop :=
  ∃ n, nodes[k.node]? = some n ∧ ∃ s ∈ side n k.direction, s.name = k.socket

/-- The input that a link ends at. -/
def ending (l : Link) : SocketKey := ⟨l.toNode, .input, l.toSocket⟩

/-- A link from an output that exists to an input that exists. -/
def Joins (nodes : List Node) (l : Link) : Prop := HasSocket nodes (origin l) ∧ HasSocket nodes (ending l)

/-- The last link into an input that joins two sockets. -/
def LastInto (nodes : List Node) (links : List Link) (l : Link) : Prop :=
  Joins nodes l ∧ ∃ before after, links = before ++ l :: after ∧ ∀ l' ∈ after, Joins nodes l' → ending l' ≠ ending l

variable {nodes : List Node}

theorem hasSocket_input {n : Node} {i : Nat} {s : Socket} (hn : nodes[i]? = some n) (hs : s ∈ n.inputs) :
    HasSocket nodes ⟨i, .input, s.name⟩ := ⟨n, hn, s, hs, rfl⟩

theorem hasSocket_output {n : Node} {i : Nat} {s : Socket} (hn : nodes[i]? = some n) (hs : s ∈ n.outputs) :
    HasSocket nodes ⟨i, .output, s.name⟩ := ⟨n, hn, s, hs, rfl⟩

theorem hasSocket_output_iff {k : SocketKey} (hk : k.direction = .output) :
    HasSocket nodes k ↔ (firstName? nodes k).isSome := by
  rw [Option.isSome_iff_exists]
  simp only [firstName?_eq_some_iff]
  constructor
  · rintro ⟨n, hn, s, hs, hname⟩
    rw [hk] at hs
    obtain ⟨o, ho⟩ := Option.isSome_iff_exists.1 ((isSome_output?_iff n k.socket).2 ⟨s, hs, hname⟩)
    exact ⟨_, n, o, hk, hn, ho, rfl⟩
  · rintro ⟨_, n, o, -, hn, ho, -⟩
    obtain ⟨hmem, hname⟩ := output?_eq_some ho
    exact ⟨n, hn, o, by rwa [hk], hname⟩

theorem startsAtOutput_iff (l : Link) : startsAtOutput nodes l = true ↔ HasSocket nodes (origin l) := by
  rw [← isSome_firstName?_origin, hasSocket_output_iff rfl]

theorem endsAtInput_iff (l : Link) : endsAtInput nodes l = true ↔ HasSocket nodes (ending l) := by
  unfold endsAtInput HasSocket ending
  cases hn : nodes[l.toNode]? with
  | none => simp
  | some n => simp [Node.input?, side]

theorem exists_last {links : List Link} {p : Link → Prop} {l : Link} (hl : l ∈ links) (hp : p l) :
    ∃ before l' after, links = before ++ l' :: after ∧ p l' ∧ ∀ l'' ∈ after, ¬ p l'' := by
  induction links generalizing l with
  | nil => cases hl
  | cons first links ih =>
    by_cases hrest : ∃ l' ∈ links, p l'
    · obtain ⟨l', hl', hp'⟩ := hrest
      obtain ⟨before, last, after, rfl, hlast, hafter⟩ := ih hl' hp'
      exact ⟨first :: before, last, after, rfl, hlast, hafter⟩
    · rcases List.mem_cons.1 hl with rfl | hl
      · exact ⟨[], l, links, rfl, hp, fun l' hl' hp' => hrest ⟨l', hl', hp'⟩⟩
      · exact absurd ⟨l, hl, hp⟩ hrest

/-- An input that some link joins to an output has a last such link. -/
theorem exists_lastInto {links : List Link} {l : Link} (hl : l ∈ links) (hj : Joins nodes l) :
    ∃ l', LastInto nodes links l' ∧ ending l' = ending l := by
  obtain ⟨before, l', after, hlinks, ⟨hj', hending⟩, hafter⟩ :=
    exists_last (p := fun l' => Joins nodes l' ∧ ending l' = ending l) hl ⟨hj, rfl⟩
  exact ⟨l', ⟨hj', before, after, hlinks, fun l'' hl'' hj'' he => hafter l'' hl'' ⟨hj'', he.trans hending⟩⟩, hending⟩

/-- The last link that joins an input to an output is what feeds the input. -/
theorem LastInto.source? {links : List Link} {l : Link} (h : LastInto nodes links l) :
    Naming.source? nodes links l.toNode l.toSocket = some (origin l) := by
  obtain ⟨⟨hstart, hend⟩, before, after, rfl, hafter⟩ := h
  refine source?_of_last ((endsAtInput_iff l).2 hend) ((startsAtOutput_iff l).2 hstart) fun l' hl' hnode hsocket => ?_
  have he : ending l' = ending l := by simp only [ending, hnode, hsocket]
  rw [← Bool.not_eq_true, startsAtOutput_iff]
  exact fun hstart' => hafter l' hl' ⟨hstart', he ▸ hend⟩ he

theorem source?_eq_none {links : List Link} {i : Nat} {socket : String}
    (h : ∀ l ∈ links, Joins nodes l → ending l ≠ ⟨i, .input, socket⟩) : Naming.source? nodes links i socket = none := by
  rw [Naming.source?, Option.map_eq_none_iff, List.getLast?_eq_none_iff, List.filter_eq_nil_iff]
  intro l hl hp
  simp only [Bool.and_eq_true, decide_eq_true_eq] at hp
  obtain ⟨⟨⟨rfl, rfl⟩, hin⟩, hout⟩ := hp
  exact h l hl ⟨(startsAtOutput_iff l).1 hout, (endsAtInput_iff l).1 hin⟩ rfl

/-! ## What every step keeps -/

/-- Names stand at sockets that exist, and come with a kind, as do names that replace others. -/
structure Known (nodes : List Node) (r : Naming) : Prop where
  socket : ∀ k name, r.names.get? k = some name → HasSocket nodes k
  named : ∀ k name, r.names.get? k = some name → (r.kind? name).isSome
  replaced : ∀ a b, r.redirect? a = some b → (r.kind? b).isSome

theorem isSome_kind?_assign (r : Naming) (key : SocketKey) (name : String) (kind : SocketKind) (a : String) :
    ((r.assign key name kind).kind? a).isSome ↔ (r.kind? a).isSome ∨ a = name := by
  unfold assign kind?
  rw [Table.get?_insertNew, Option.isSome_or]
  by_cases h : a = name <;> simp [h]

theorem kind?_takeOver (r : Naming) (k : SocketKey) (name a : String) : (r.takeOver k name).kind? a = r.kind? a := by
  unfold takeOver supersede kind?
  cases r.names.get? k with
  | none => rfl
  | some old => dsimp only; split <;> rfl

/-- After an output took over a name, a replacement is that name in its current form, or was one before. -/
theorem replaced_takeOver {r : Naming} {k : SocketKey} {name a b : String} (h : (r.takeOver k name).redirect? a = some b) :
    b = r.current name ∨ ∃ c, r.redirect? c = some b := by
  unfold takeOver at h
  cases hold : r.names.get? k with
  | none => rw [hold] at h; exact .inr ⟨a, h⟩
  | some old =>
    rw [hold] at h
    replace h : (r.supersede old (r.current name)).redirect? a = some b := h
    by_cases hrefused : old = r.current name ∨ (r.redirect? old).isSome
    · rw [supersede_of_refused hrefused] at h
      exact .inr ⟨a, h⟩
    · rw [not_or, Option.not_isSome_iff_eq_none] at hrefused
      rw [redirect?_supersede hrefused.1 hrefused.2] at h
      split at h
      · exact .inl (Option.some.inj h).symm
      · obtain ⟨c, hc, hcb⟩ := Option.map_eq_some_iff.1 h
        split at hcb
        · exact .inl hcb.symm
        · exact .inr ⟨a, hcb ▸ hc⟩

namespace Known

variable {r : Naming}

theorem empty : Known nodes .empty := ⟨nofun, nofun, nofun⟩

theorem assign (h : Known nodes r) {key : SocketKey} (hkey : HasSocket nodes key) (name : String) (kind : SocketKind) :
    Known nodes (r.assign key name kind) := by
  have hget : ∀ k, (r.assign key name kind).names.get? k = if k = key then some name else r.names.get? k := fun k =>
    Table.get?_insert ..
  refine ⟨?_, ?_, ?_⟩
  · intro k a hk
    rw [hget] at hk
    split at hk
    · subst_vars; exact hkey
    · exact h.socket k a hk
  · intro k a hk
    rw [hget] at hk
    rw [isSome_kind?_assign]
    split at hk
    · cases hk; exact .inr rfl
    · exact .inl (h.named k a hk)
  · intro a b hab
    rw [isSome_kind?_assign]
    exact .inl (h.replaced a b hab)

theorem seed (nodes : List Node) : Known nodes (seed nodes) := by
  refine List.foldlRecOn _ _ empty fun r h e he => ?_
  obtain ⟨n, i, s⟩ := e
  obtain ⟨hn, hs⟩ := mem_socketsOf.1 he
  exact h.assign (hasSocket_output hn hs) _ _

theorem carryLink (h : Known nodes r) (l : Link) : Known nodes (carryLink nodes r l) := by
  unfold Naming.carryLink
  split
  · rename_i hend
    split
    · rename_i name hname
      -- The name moves from one socket to another, and has its kind already.
      have hget : ∀ k, (r.names.insert ⟨l.toNode, .input, l.toSocket⟩ name).get? k =
          if k = ending l then some name else r.names.get? k := fun k => Table.get?_insert ..
      refine ⟨?_, ?_, h.replaced⟩
      · intro k a hk
        rw [hget] at hk
        split at hk
        · subst_vars; exact (endsAtInput_iff l).1 hend
        · exact h.socket k a hk
      · intro k a hk
        rw [hget] at hk
        split at hk
        · cases hk; exact h.named _ _ hname
        · exact h.named k a hk
    · exact h
  · exact h

theorem carry (h : Known nodes r) (links : List Link) : Known nodes (carry nodes links r) :=
  List.foldlRecOn _ _ h fun _ h l _ => h.carryLink l

theorem current (h : Known nodes r) {name : String} (hname : (r.kind? name).isSome) :
    (r.kind? (r.current name)).isSome := by
  unfold Naming.current
  cases hr : r.redirect? name with
  | none => exact hname
  | some b => exact h.replaced name b hr

theorem takeOver (h : Known nodes r) {k : SocketKey} (hk : HasSocket nodes k) {name : String}
    (hname : (r.kind? name).isSome) : Known nodes (r.takeOver k name) := by
  refine ⟨?_, ?_, ?_⟩
  · intro k' a hk'
    rw [get?_takeOver] at hk'
    split at hk'
    · subst_vars; exact hk
    · exact h.socket k' a hk'
  · intro k' a hk'
    rw [get?_takeOver] at hk'
    rw [kind?_takeOver]
    split at hk'
    · cases hk'; exact h.current hname
    · exact h.named k' a hk'
  · intro a b hab
    rw [kind?_takeOver]
    rcases replaced_takeOver hab with rfl | ⟨c, hc⟩
    · exact h.current hname
    · exact h.replaced c b hc

theorem redirect (h : Known nodes r) {n : Node} {i : Nat} {s : Socket} (he : (n, i, s) ∈ socketsOf Node.inputs nodes) :
    Known nodes (r.redirect n i s) := by
  rcases r.redirect_cases n i s with heq | ⟨output, name, -, ho, hi, heq⟩
  · rwa [heq]
  · rw [heq]
    obtain ⟨o, hmem, rfl⟩ := (isSome_output?_iff n output).1 ho
    exact h.takeOver (hasSocket_output (mem_socketsOf.1 he).1 hmem) (h.named _ _ hi)

theorem sweep (h : Known nodes r) : Known nodes r.sweep := by
  have hget : ∀ k, r.sweep.names.get? k = (r.names.get? k).map r.current := fun k => Table.get?_mapValues ..
  refine ⟨?_, ?_, h.replaced⟩
  · intro k a hk
    rw [hget] at hk
    obtain ⟨old, hold, -⟩ := Option.map_eq_some_iff.1 hk
    exact h.socket k old hold
  · intro k a hk
    rw [hget] at hk
    obtain ⟨old, hold, rfl⟩ := Option.map_eq_some_iff.1 hk
    exact h.current (h.named k old hold)

theorem redirectAll (h : Known nodes r) : Known nodes (redirectAll nodes r) :=
  sweep (List.foldlRecOn _ _ h fun _ h _ he => h.redirect he)

theorem fill (h : Known nodes r) : Known nodes (fill nodes r) := by
  refine List.foldlRecOn _ _ h fun r h e he => ?_
  obtain ⟨n, i, s⟩ := e
  obtain ⟨hn, hs⟩ := mem_socketsOf.1 he
  change Known nodes (r.fillInput n i s)
  unfold Naming.fillInput
  split
  · exact h
  -- Placeholders are no part of what is kept, so recording one changes nothing.
  · exact assign (r := { r with placeholders := placeholderName n i s :: r.placeholders })
      ⟨h.socket, h.named, h.replaced⟩ (hasSocket_input hn hs) _ _

end Known

theorem known_resolve (nodes : List Node) (links : List Link) : Known nodes (resolve nodes links) :=
  ((((Known.seed nodes).carry links).redirectAll).carry links).fill

/-! ## The names at the end -/

theorem exists_name {links : List Link} {k : SocketKey} (hk : HasSocket nodes k) :
    ((resolve nodes links).names.get? k).isSome := by
  cases hd : k.direction with
  | output => exact (namesOutputs_resolve nodes links k hd).trans ((hasSocket_output_iff hd).1 hk)
  | input =>
    obtain ⟨n, hn, s, hs, hname⟩ := hk
    rw [hd] at hs
    have hkey : k = ⟨k.node, .input, s.name⟩ := by rw [hname, ← hd]
    rw [hkey]
    cases hsource : source? nodes links k.node s.name with
    | none =>
      have := (input?_resolve_of_no_source (mem_socketsOf.2 ⟨hn, hs⟩) hsource).1
      exact Option.isSome_of_mem this
    | some o =>
      obtain ⟨name, hin, -⟩ := input?_resolve hsource
      exact Option.isSome_of_mem hin

/-- Whatever the nodes and links are, just the sockets that exist have a name, and each name has a kind. An input that
a link joins to an output has the name of the output behind the last such link; any other input has a placeholder made
of the title and the position of its node and of its own name, which is known for one. -/
theorem resolve_names_sockets (nodes : List Node) (links : List Link) :
    let r := resolve nodes links
    (∀ k, (r.names.get? k).isSome ↔ HasSocket nodes k) ∧
    (∀ k name, r.names.get? k = some name → (r.kind? name).isSome) ∧
    (∀ l ∈ links, Joins nodes l → ∃ l', LastInto nodes links l' ∧ ending l' = ending l) ∧
    (∀ l, LastInto nodes links l →
      ∃ name, r.names.get? (ending l) = some name ∧ r.names.get? (origin l) = some name) ∧
    (∀ i n s, nodes[i]? = some n → s ∈ n.inputs → (∀ l ∈ links, Joins nodes l → ending l ≠ ⟨i, .input, s.name⟩) →
      r.input? i s.name = some ("empty_" ++ n.title ++ "_" ++ toString i ++ "_" ++ s.name) ∧
        r.isPlaceholder ("empty_" ++ n.title ++ "_" ++ toString i ++ "_" ++ s.name) = true) := by
  intro r
  have hknown : Known nodes r := known_resolve nodes links
  refine ⟨fun k => ⟨fun h => ?_, exists_name⟩, hknown.named, fun l => exists_lastInto, fun l hl => ?_, ?_⟩
  · obtain ⟨name, hname⟩ := Option.isSome_iff_exists.1 h
    exact hknown.socket k name hname
  · exact input?_resolve hl.source?
  · intro i n s hn hs hlinks
    exact input?_resolve_of_no_source (mem_socketsOf.2 ⟨hn, hs⟩) (source?_eq_none hlinks)

/-- Two color passes and an effect with two inputs. -/
def twoToBloom : List Node :=
  let color := (Node.bare ⟨0⟩ "ColorPass" .pass).addOutput (.output "res" .fbo)
  [color, color, ((Node.bare ⟨1⟩ "BloomPass" .effect).addInput (.input "res" .fbo)).addInput (.input "mask" .fbo)]

/-- A link from each color pass into the first input, one from a missing node and one into a missing input. -/
def strayLinks : List Link := [⟨0, "res", 2, "res"⟩, ⟨1, "res", 2, "res"⟩, ⟨7, "res", 2, "res"⟩, ⟨0, "res", 2, "depth"⟩]

/-- Of the links into the first input, the last that starts somewhere decides. Nothing is linked to the second one, and
a missing one gets no name. -/
theorem strayLinks_named :
    let r := resolve twoToBloom strayLinks
    r.input? 2 "res" = some "ColorPass_1_res" ∧ r.input? 2 "mask" = some "empty_BloomPass_2_mask" ∧
      r.isPlaceholder "empty_BloomPass_2_mask" = true ∧ r.input? 2 "depth" = none := by
  intro r
  obtain ⟨hsockets, -, -, hlinked, hunlinked⟩ := resolve_names_sockets twoToBloom strayLinks
  have hlast : LastInto twoToBloom strayLinks ⟨1, "res", 2, "res"⟩ := by
    have hjoins : Joins twoToBloom ⟨1, "res", 2, "res"⟩ :=
      ⟨(startsAtOutput_iff _).1 (by decide +kernel), (endsAtInput_iff _).1 (by decide +kernel)⟩
    have hlater : ∀ l ∈ strayLinks.drop 2, startsAtOutput twoToBloom l = true → ending l ≠ ⟨2, .input, "res"⟩ := by decide +kernel
    exact ⟨hjoins, strayLinks.take 1, strayLinks.drop 2, rfl, fun l hl hj => hlater l hl ((startsAtOutput_iff l).2 hj.1)⟩
  obtain ⟨name, hin, hout⟩ := hlinked _ hlast
  have hname : r.names.get? ⟨1, .output, "res"⟩ = some "ColorPass_1_res" := by decide +kernel
  obtain rfl : name = "ColorPass_1_res" := Option.some.inj (hout.symm.trans hname)
  have hfree : ∀ l ∈ strayLinks, ending l ≠ ⟨2, .input, "mask"⟩ := by decide
  obtain ⟨hmask, hplaceholder⟩ := hunlinked 2 _ (.input "mask" .fbo) rfl (by decide) fun l hl _ => hfree l hl
  refine ⟨hin, hmask, hplaceholder, Option.not_isSome_iff_eq_none.1 fun h => ?_⟩
  have hdepth : HasSocket twoToBloom ⟨2, .input, "depth"⟩ := (hsockets _).1 h
  exact absurd ((endsAtInput_iff ⟨0, "res", 2, "depth"⟩).2 hdepth) (by decide +kernel)

end RenderGraph.Naming
