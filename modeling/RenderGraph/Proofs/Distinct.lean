import RenderGraph.Pass.Standard
import RenderGraph.Proofs.Redirects
import RenderGraph.Proofs.Sockets
/-!
# Generated names never clash

A name that nobody gave is joined with underscores from a title, a node position and the name of
a socket, and the last of these may hold underscores and digits of its own. It is read from the
left: a title and a position hold no underscore, so the first ones part them off (`join_inj`).

`resolve_distinct`: where all names are generated and no link feeds a `_target` input, no two
outputs have one name, no two unlinked inputs have one placeholder, and no placeholder is the
name of an output.
-/

namespace RenderGraph.Naming

variable {nodes : List Node} {links : List Link}

/-! ## Reading a generated name -/

theorem append_cons_inj {α : Type} {c : α} {a b x y : List α} (ha : c ∉ a) (hb : c ∉ b) (h : a ++ c :: x = b ++ c :: y) :
    a = b ∧ x = y := by
  induction a generalizing b with
  | nil =>
    cases b with
    | nil => exact ⟨rfl, (List.cons.inj h).2⟩
    | cons e b => exact absurd (List.mem_cons.2 (.inl (List.cons.inj h).1)) hb
  | cons d a ih =>
    cases b with
    | nil => exact absurd (List.mem_cons.2 (.inl (List.cons.inj h).1.symm)) ha
    | cons e b =>
      obtain ⟨rfl, hrest⟩ := List.cons.inj h
      obtain ⟨rfl, hxy⟩ := ih (fun hc => ha (List.mem_cons_of_mem _ hc)) (fun hc => hb (List.mem_cons_of_mem _ hc)) hrest
      exact ⟨rfl, hxy⟩

/-- A text without underscores. -/
def Word (a : String) : Prop := '_' ∉ a.toList

instance (a : String) : Decidable (Word a) := inferInstanceAs (Decidable ('_' ∉ a.toList))

/-- A word can be told from what is joined to it. -/
theorem join_inj {a b x y : String} (ha : Word a) (hb : Word b) (h : a ++ "_" ++ x = b ++ "_" ++ y) : a = b ∧ x = y := by
  rw [← String.toList_inj] at h
  simp only [String.toList_append, List.append_assoc] at h
  obtain ⟨hab, hxy⟩ := append_cons_inj ha hb h
  exact ⟨String.toList_inj.1 hab, String.toList_inj.1 hxy⟩

theorem not_word_join (a x : String) : ¬ Word (a ++ "_" ++ x) := fun h => h (by simp)

theorem word_position (i : Nat) : Word (toString i) := by
  intro h
  have hmem : '_' ∈ Nat.toDigits 10 i := Nat.toList_repr ▸ h
  have hdigit := Nat.isDigit_of_mem_toDigits (by decide) (by decide) hmem
  exact absurd hdigit (by decide)

theorem position_inj {i j : Nat} (h : toString i = toString j) : i = j := by
  have hdigits : Nat.toDigits 10 i = Nat.toDigits 10 j := by
    simpa only [Nat.toString_eq_repr, Nat.toList_repr] using congrArg String.toList h
  calc
    i = Nat.ofDigitChars 10 (Nat.toDigits 10 i) 0 := Nat.ofDigitChars_ten_toDigits.symm
    _ = Nat.ofDigitChars 10 (Nat.toDigits 10 j) 0 := by rw [hdigits]
    _ = j := Nat.ofDigitChars_ten_toDigits

/-! ## Nodes that nobody named -/

/-- A node without a name of its own, whose title is one word and not the one that placeholders start with, and whose
sockets have different names on each side. -/
structure Generic (n : Node) : Prop where
  unnamed : n.givenName? = none
  word : Word n.title
  ne_empty : n.title ≠ "empty"
  inputs : (n.inputs.map Socket.name).Nodup
  outputs : (n.outputs.map Socket.name).Nodup

instance (n : Node) : Decidable (Generic n) :=
  decidable_of_iff (n.givenName? = none ∧ Word n.title ∧ n.title ≠ "empty" ∧ (n.inputs.map Socket.name).Nodup ∧
    (n.outputs.map Socket.name).Nodup) ⟨fun ⟨h₁, h₂, h₃, h₄, h₅⟩ => ⟨h₁, h₂, h₃, h₄, h₅⟩, fun ⟨h₁, h₂, h₃, h₄, h₅⟩ => ⟨h₁, h₂, h₃, h₄, h₅⟩⟩

/-- The three forms of generated names, each parted at its first underscore. -/
theorem seedName_of_declaresTarget {n : Node} (h : Generic n) (hd : n.declaresTarget = true) (i : Nat) (s : Socket) :
    seedName n i s = "fbo" ++ "_" ++ toString i := by
  rw [seedName, if_pos hd, h.unnamed]
  rfl

theorem seedName_of_title {n : Node} (h : Generic n) (hd : n.declaresTarget = false) (i : Nat) (s : Socket) :
    seedName n i s = n.title ++ "_" ++ (toString i ++ "_" ++ s.name) := by
  rw [seedName, if_neg (by simp [hd]), h.unnamed]
  simp only [Option.getD_none, String.append_assoc]

theorem placeholderName_eq (n : Node) (i : Nat) (s : Socket) :
    placeholderName n i s = "empty" ++ "_" ++ (n.title ++ "_" ++ (toString i ++ "_" ++ s.name)) := by
  simp only [placeholderName, String.append_assoc]
  rfl

theorem outputs_of_declaresTarget {n : Node} (h : n.declaresTarget = true) : ∃ s, n.outputs = [s] := by
  unfold Node.declaresTarget at h
  split at h
  · exact ⟨_, ‹_›⟩
  · simp at h

/-- The name of an output tells which one it is. -/
theorem seedName_inj {n m : Node} (hn : Generic n) (hm : Generic m) {i j : Nat} {s t : Socket}
    (hs : (n, i, s) ∈ socketsOf Node.outputs nodes) (ht : (m, j, t) ∈ socketsOf Node.outputs nodes)
    (h : seedName n i s = seedName m j t) : i = j ∧ s.name = t.name := by
  replace ⟨hi, hs⟩ := mem_socketsOf.1 hs
  replace ⟨hj, ht⟩ := mem_socketsOf.1 ht
  have hfbo : Word "fbo" := by decide
  cases hdn : n.declaresTarget <;> cases hdm : m.declaresTarget
  · rw [seedName_of_title hn hdn, seedName_of_title hm hdm] at h
    obtain ⟨hposition, hname⟩ := join_inj (word_position i) (word_position j) (join_inj hn.word hm.word h).2
    exact ⟨position_inj hposition, hname⟩
  · rw [seedName_of_title hn hdn, seedName_of_declaresTarget hm hdm] at h
    have hword : Word (toString i ++ "_" ++ s.name) := (join_inj hn.word hfbo h).2 ▸ word_position j
    exact absurd hword (not_word_join _ _)
  · rw [seedName_of_declaresTarget hn hdn, seedName_of_title hm hdm] at h
    have hword : Word (toString j ++ "_" ++ t.name) := (join_inj hfbo hm.word h).2 ▸ word_position i
    exact absurd hword (not_word_join _ _)
  · rw [seedName_of_declaresTarget hn hdn, seedName_of_declaresTarget hm hdm] at h
    obtain rfl := position_inj (join_inj hfbo hfbo h).2
    -- There is one output on the node, so the two are that one.
    obtain rfl : n = m := Option.some.inj (hi.symm.trans hj)
    obtain ⟨o, ho⟩ := outputs_of_declaresTarget hdn
    rw [ho, List.mem_singleton] at hs ht
    exact ⟨rfl, by rw [hs, ht]⟩

/-- A placeholder tells which input it is for. -/
theorem placeholderName_inj {n m : Node} (hn : Generic n) (hm : Generic m) {i j : Nat} {s t : Socket}
    (h : placeholderName n i s = placeholderName m j t) : i = j ∧ s.name = t.name := by
  have hempty : Word "empty" := by decide
  rw [placeholderName_eq, placeholderName_eq] at h
  have htitle := (join_inj hempty hempty h).2
  obtain ⟨hposition, hname⟩ := join_inj (word_position i) (word_position j) (join_inj hn.word hm.word htitle).2
  exact ⟨position_inj hposition, hname⟩

theorem placeholderName_ne_seedName {m : Node} (hm : Generic m) (n : Node) (i j : Nat) (s t : Socket) :
    placeholderName n i s ≠ seedName m j t := by
  intro h
  have hempty : Word "empty" := by decide
  rw [placeholderName_eq] at h
  cases hd : m.declaresTarget with
  | true =>
    rw [seedName_of_declaresTarget hm hd] at h
    exact absurd (join_inj hempty (by decide) h).1 (by decide)
  | false =>
    rw [seedName_of_title hm hd] at h
    exact hm.ne_empty (join_inj hempty hm.word h).1.symm

/-! ## Names at the end -/

/-- No link from an existing output ends at the `_target` input of an existing output. -/
def FeedsNoTarget (nodes : List Node) (links : List Link) : Prop :=
  ∀ l ∈ links, Joins nodes l → ∀ n, nodes[l.toNode]? = some n → ∀ s ∈ n.inputs, s.name = l.toSocket →
    ∀ output, s.target? = some output → n.output? output = none

theorem joins_of_source? {i : Nat} {socket : String} {k : SocketKey} (h : source? nodes links i socket = some k) :
    ∃ l ∈ links, Joins nodes l ∧ origin l = k ∧ ending l = ⟨i, .input, socket⟩ := by
  obtain ⟨l, hl, horigin⟩ := Option.map_eq_some_iff.1 h
  obtain ⟨hmem, hp⟩ := List.mem_filter.1 (List.mem_of_getLast? hl)
  simp only [Bool.and_eq_true, decide_eq_true_eq] at hp
  obtain ⟨⟨⟨rfl, rfl⟩, hin⟩, hout⟩ := hp
  exact ⟨l, hmem, ⟨(startsAtOutput_iff l).1 hout, (endsAtInput_iff l).1 hin⟩, horigin, rfl⟩

theorem FeedsNoTarget.redirected? (h : FeedsNoTarget nodes links) (k : SocketKey) : redirected? nodes links k = none := by
  by_contra hne
  obtain ⟨⟨n, i, s⟩, he, hk⟩ := exists_handled (Option.isSome_iff_ne_none.2 hne)
  obtain ⟨hk, hsome⟩ := Option.filter_eq_some_iff.1 hk
  obtain ⟨output, ht, rfl⟩ := Option.map_eq_some_iff.1 hk
  rw [redirected?_of_target? links he ht] at hsome
  split at hsome
  · rename_i ho
    obtain ⟨k', hk'⟩ := Option.isSome_iff_exists.1 hsome
    obtain ⟨l, hl, hj, -, hend⟩ := joins_of_source? hk'
    obtain ⟨rfl, -, hname⟩ := SocketKey.mk.injEq .. ▸ hend
    obtain ⟨hn, hs⟩ := mem_socketsOf.1 he
    rw [h l hl hj n hn s hs hname.symm output ht] at ho
    cases ho
  · cases hsome

/-- Where nothing is redirected, an output keeps the name it starts with. -/
theorem FeedsNoTarget.output? (h : FeedsNoTarget nodes links) {n : Node} {i : Nat} {s : Socket}
    (he : (n, i, s) ∈ socketsOf Node.outputs nodes) : (resolve nodes links).output? i s.name = some (seedName n i s) := by
  have hown : OwnNames nodes links := fun k _ _ _ hk => by rw [h.redirected?] at hk; cases hk
  have hkey : (⟨i, .output, s.name⟩ : SocketKey) ∈ outputKeys nodes := List.mem_map.2 ⟨(n, i, s), he, rfl⟩
  obtain ⟨hn, hs⟩ := mem_socketsOf.1 he
  obtain ⟨t, ht⟩ := Option.isSome_iff_exists.1 ((isSome_output?_iff n s.name).2 ⟨s, hs, rfl⟩)
  rw [Naming.output?, get?_resolve_of_end hown hkey (h.redirected? _), firstName?_eq_some_iff.2 ⟨n, t, rfl, hn, ht, rfl⟩,
    seedName_congr n i (output?_eq_some ht).2]

/-- Where sockets have different names on a node, a socket is told by node position and name. -/
theorem pairwise_socketsOf {side : Node → List Socket} (h : ∀ n ∈ nodes, ((side n).map Socket.name).Nodup) :
    (socketsOf side nodes).Pairwise fun e e' => ¬ (e.2.1 = e'.2.1 ∧ e.2.2.name = e'.2.2.name) := by
  unfold socketsOf
  refine List.pairwise_flatMap.2 ⟨fun e he => ?_, ?_⟩
  · have hn := h e.1 (List.mem_of_getElem? (List.mem_zipIdx_iff_getElem?.1 he))
    exact List.pairwise_map.2 ((List.pairwise_map.1 hn).imp fun hne heq => hne heq.2)
  · have hpositions : (nodes.zipIdx.map Prod.snd).Nodup := by
      rw [List.zipIdx_map_snd]
      exact List.nodup_range'
    refine (List.pairwise_map.1 hpositions).imp fun hne e he e' he' heq => hne ?_
    obtain ⟨_, -, rfl⟩ := List.mem_map.1 he
    obtain ⟨_, -, rfl⟩ := List.mem_map.1 he'
    exact heq.1

/-- The inputs that no link feeds. -/
def unlinked (nodes : List Node) (links : List Link) : List (Node × Nat × Socket) :=
  (socketsOf Node.inputs nodes).filter fun e => source? nodes links e.2.1 e.2.2.name = none

theorem input?_of_mem_unlinked {e : Node × Nat × Socket} (he : e ∈ unlinked nodes links) :
    (resolve nodes links).input? e.2.1 e.2.2.name = some (placeholderName e.1 e.2.1 e.2.2) ∧
      (resolve nodes links).isPlaceholder (placeholderName e.1 e.2.1 e.2.2) = true :=
  input?_resolve_of_no_source (List.mem_filter.1 he).1 (of_decide_eq_true (List.mem_filter.1 he).2)

/-- Names that tell sockets apart come in a list without repetition. -/
theorem nodup_names {es : List (Node × Nat × Socket)} {name : Node × Nat × Socket → String}
    (hes : es.Pairwise fun e e' => ¬ (e.2.1 = e'.2.1 ∧ e.2.2.name = e'.2.2.name))
    (hname : ∀ e ∈ es, ∀ e' ∈ es, name e = name e' → e.2.1 = e'.2.1 ∧ e.2.2.name = e'.2.2.name) : (es.map name).Nodup :=
  List.pairwise_map.2 (hes.imp_of_mem fun he he' hne heq => hne (hname _ he _ he' heq))

section Generic
variable (hgeneric : ∀ n ∈ nodes, Generic n)
include hgeneric

theorem generic_of_mem_socketsOf {side : Node → List Socket} {e : Node × Nat × Socket} (he : e ∈ socketsOf side nodes) :
    Generic e.1 := hgeneric _ (List.mem_of_getElem? (mem_socketsOf.1 he).1)

theorem nodup_seedNames : ((socketsOf Node.outputs nodes).map fun e => seedName e.1 e.2.1 e.2.2).Nodup := by
  refine nodup_names (pairwise_socketsOf fun n hn => (hgeneric n hn).outputs) fun e he e' he' heq => ?_
  exact seedName_inj (generic_of_mem_socketsOf hgeneric he) (generic_of_mem_socketsOf hgeneric he') he he' heq

theorem nodup_placeholderNames (links : List Link) :
    ((unlinked nodes links).map fun e => placeholderName e.1 e.2.1 e.2.2).Nodup := by
  refine nodup_names ((pairwise_socketsOf fun n hn => (hgeneric n hn).inputs).filter _) fun e he e' he' heq => ?_
  have hn := generic_of_mem_socketsOf hgeneric (List.mem_filter.1 he).1
  have hn' := generic_of_mem_socketsOf hgeneric (List.mem_filter.1 he').1
  exact placeholderName_inj hn hn' heq

/-- A placeholder is a name of inputs alone. -/
theorem direction_of_isPlaceholder (hfeeds : FeedsNoTarget nodes links) {k : SocketKey} {name : String}
    (hk : (resolve nodes links).names.get? k = some name) (hp : (resolve nodes links).isPlaceholder name = true) :
    k.direction = .input := by
  obtain ⟨j, direction, socket⟩ := k
  cases direction with
  | input => rfl
  | output =>
    obtain ⟨n, i, s, -, rfl⟩ := exists_of_isPlaceholder hp
    obtain ⟨m, hm, t, ht, rfl⟩ := (known_resolve nodes links).socket _ _ hk
    have he : (m, j, t) ∈ socketsOf Node.outputs nodes := mem_socketsOf.2 ⟨hm, ht⟩
    have hseed : some (placeholderName n i s) = some (seedName m j t) := hk.symm.trans (hfeeds.output? he)
    exact absurd (Option.some.inj hseed) (placeholderName_ne_seedName (generic_of_mem_socketsOf hgeneric he) n i j s t)

end Generic

/-- New nodes of the standard classes are generic. -/
theorem generic_ofTemplate {t : Template} (ht : t ∈ NodeCatalog.standard.entries) (id : NodeId) :
    Generic (.ofTemplate id t) := by
  have hstandard : ∀ t ∈ NodeCatalog.standard.entries, Word t.className ∧ t.className ≠ "empty" ∧
      (t.inputs.map Socket.name).Nodup ∧ (t.outputs.map Socket.name).Nodup := by decide +kernel
  obtain ⟨hword, hempty, hinputs, houtputs⟩ := hstandard t ht
  exact ⟨rfl, hword, hempty, hinputs, houtputs⟩

/-- Where nobody named a node and titles are single words, and where no link feeds a `_target` input of an existing output:
each output has a name, and no two have one; each input that no link feeds has a placeholder, and no two have one; and no
placeholder is the name of an output. New nodes of the standard classes are such. -/
theorem resolve_distinct (nodes : List Node) (links : List Link) (hgeneric : ∀ n ∈ nodes, Generic n)
    (hfeeds : FeedsNoTarget nodes links) :
    let r := resolve nodes links
    (∃ names : List String, (socketsOf Node.outputs nodes).map (fun e => r.output? e.2.1 e.2.2.name) = names.map some ∧
      names.Nodup) ∧
    (∃ names : List String, (unlinked nodes links).map (fun e => r.input? e.2.1 e.2.2.name) = names.map some ∧
      names.Nodup ∧ ∀ name ∈ names, r.isPlaceholder name = true) ∧
    (∀ k name, r.names.get? k = some name → r.isPlaceholder name = true → k.direction = .input) ∧
    ∀ t ∈ NodeCatalog.standard.entries, ∀ id, Generic (.ofTemplate id t) := by
  intro r
  refine ⟨⟨_, ?_, nodup_seedNames hgeneric⟩, ⟨_, ?_, nodup_placeholderNames hgeneric links, ?_⟩,
    fun _ _ => direction_of_isPlaceholder hgeneric hfeeds, fun _ => generic_ofTemplate⟩
  · rw [List.map_map]
    exact List.map_congr_left fun e he => hfeeds.output? he
  · rw [List.map_map]
    exact List.map_congr_left fun e he => (input?_of_mem_unlinked he).1
  · intro name hname
    obtain ⟨e, he, rfl⟩ := List.mem_map.1 hname
    exact (input?_of_mem_unlinked he).2

/-- A render target, and two nodes whose sockets are named like ends of each other's names. -/
def lookalikes : List Node :=
  [(Node.bare ⟨0⟩ "FBO" .resource).addOutput (.output "output" .fbo),
    ((((Node.bare ⟨1⟩ "fbo" .pass).addOutput (.output "0" .fbo)).addOutput (.output "0_0" .fbo)).addInput
      (.input "0" .fbo)).addInput (.input "0_target" .fbo),
    (((Node.bare ⟨2⟩ "fbo" .pass).addOutput (.output "0" .fbo)).addInput (.input "1_0" .fbo)).addInput (.input "fed" .fbo)]

theorem lookalikes_distinct :
    (∀ n ∈ lookalikes, Generic n) ∧ FeedsNoTarget lookalikes [⟨0, "output", 2, "fed"⟩] ∧
    let r := resolve lookalikes [⟨0, "output", 2, "fed"⟩]
    (socketsOf Node.outputs lookalikes).map (fun e => r.output? e.2.1 e.2.2.name) =
      ["fbo_0", "fbo_1_0", "fbo_1_0_0", "fbo_2_0"].map some ∧
    ∀ k name, r.names.get? k = some name → r.isPlaceholder name = true → k.direction = .input := by
  have hgeneric : ∀ n ∈ lookalikes, Generic n := by decide +kernel
  have hfeeds : FeedsNoTarget lookalikes [⟨0, "output", 2, "fed"⟩] := by
    intro l hl _ n hn s hs hname output ht
    obtain rfl := List.mem_singleton.1 hl
    have hnone : ∀ s ∈ n.inputs, s.name = "fed" → s.target? = none := by cases hn; decide +kernel
    rw [hnone s hs hname] at ht
    cases ht
  exact ⟨hgeneric, hfeeds, by decide +kernel, (resolve_distinct _ _ hgeneric hfeeds).2.2.1⟩

/-- An underscore in a title may stand for one in front of a position. -/
example :
    let named (title socket : String) := (Node.bare ⟨0⟩ title .pass).addOutput (.output socket .fbo)
    let r := resolve [named "Sky" "res", named "Sky" "2_res", named "Sky_1" "res"] []
    r.output? 1 "2_res" = some "Sky_1_2_res" ∧ r.output? 2 "res" = some "Sky_1_2_res" := by
  decide +kernel

end RenderGraph.Naming
