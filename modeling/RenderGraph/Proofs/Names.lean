import Mathlib.Data.List.Induction
import RenderGraph.Naming
/-!
# How names reach sockets

An output starts with one name, which its node and its own name decide
(`firstName?`), and an input gets its name from one output, that of the last
link into it that starts and ends at existing sockets (`source?`).

For each step of naming there is what it writes (`get?_seed`, `get?_carry_input`,
`redirect_cases`, `input?_fill_of_none`) and what it leaves alone. Together they
say how an input ends: with the name of its source (`input?_resolve`), or with its
placeholder if it has none (`input?_resolve_of_no_source`).
-/

namespace RenderGraph.Naming

/-- The name that an output starts with, if there is such an output. -/
def firstName? (nodes : List Node) (k : SocketKey) : Option String :=
  if k.direction = .output then (nodes[k.node]?).bind fun n => (n.output? k.socket).map (seedName n k.node) else none

/-- Whether a link starts at an existing output. -/
def startsAtOutput (nodes : List Node) (l : Link) : Bool :=
  ((nodes[l.fromNode]?).bind fun n => n.output? l.fromSocket).isSome

/-- The output that a link starts at. -/
def origin (l : Link) : SocketKey := ⟨l.fromNode, .output, l.fromSocket⟩

/-- The outputs of all nodes. -/
def outputKeys (nodes : List Node) : List SocketKey :=
  (socketsOf Node.outputs nodes).map fun e => ⟨e.2.1, .output, e.2.2.name⟩

/-- The output that feeds an input: the start of the last link into it whose ends both exist. -/
def source? (nodes : List Node) (links : List Link) (i : Nat) (socket : String) : Option SocketKey :=
  (links.filter fun l => l.toNode = i && l.toSocket = socket && endsAtInput nodes l && startsAtOutput nodes l).getLast?.map
    origin

/-! ## Seeds -/

theorem firstName?_eq_some_iff {nodes : List Node} {k : SocketKey} {name : String} :
    firstName? nodes k = some name ↔ ∃ n s,
      k.direction = .output ∧ nodes[k.node]? = some n ∧ n.output? k.socket = some s ∧ seedName n k.node s = name := by
  unfold firstName?
  split
  · rename_i hd
    simp only [Option.bind_eq_some_iff, Option.map_eq_some_iff]
    constructor
    · rintro ⟨n, hn, s, hs, h⟩; exact ⟨n, s, hd, hn, hs, h⟩
    · rintro ⟨n, s, -, hn, hs, h⟩; exact ⟨n, hn, s, hs, h⟩
  · rename_i hd
    simp [hd]

theorem mem_socketsOf {side : Node → List Socket} {nodes : List Node} {n : Node} {i : Nat} {s : Socket} :
    (n, i, s) ∈ socketsOf side nodes ↔ nodes[i]? = some n ∧ s ∈ side n := by
  simp only [socketsOf, List.mem_flatMap, List.mem_map, Prod.exists, Prod.mk.injEq, List.mem_zipIdx_iff_getElem?]
  constructor
  · rintro ⟨_, _, h, t, ht, rfl, rfl, rfl⟩; exact ⟨h, ht⟩
  · rintro ⟨h, hs⟩; exact ⟨n, i, h, s, hs, rfl, rfl, rfl⟩

theorem names_foldl_assign {ε : Type} (key : ε → SocketKey) (val : ε → String) (kind : ε → SocketKind) (es : List ε) :
    ∀ r : Naming, (es.foldl (fun r e => r.assign (key e) (val e) (kind e)) r).names =
      es.foldl (fun t e => t.insert (key e) (val e)) r.names := by
  induction es with
  | nil => intro r; rfl
  | cons e es ih => intro r; exact ih _

theorem seedName_congr (n : Node) (i : Nat) {s t : Socket} (h : s.name = t.name) : seedName n i s = seedName n i t := by
  simp only [seedName, h]

/-- An output of a node, found by its name, is among its outputs. -/
theorem output?_eq_some {n : Node} {name : String} {s : Socket} (h : n.output? name = some s) :
    s ∈ n.outputs ∧ s.name = name :=
  ⟨List.mem_of_find?_eq_some h, by simpa using List.find?_some h⟩

theorem input?_eq_some {n : Node} {name : String} {s : Socket} (h : n.input? name = some s) :
    s ∈ n.inputs ∧ s.name = name :=
  ⟨List.mem_of_find?_eq_some h, by simpa using List.find?_some h⟩

theorem isSome_output?_iff (n : Node) (name : String) : (n.output? name).isSome ↔ ∃ s ∈ n.outputs, s.name = name := by
  simp [Node.output?]

theorem isSome_firstName?_iff (nodes : List Node) (k : SocketKey) :
    (firstName? nodes k).isSome ↔ k ∈ outputKeys nodes := by
  simp only [Option.isSome_iff_exists, firstName?_eq_some_iff, outputKeys, List.mem_map, Prod.exists, mem_socketsOf]
  constructor
  · rintro ⟨_, n, s, hd, hn, hs, -⟩
    obtain ⟨hmem, hname⟩ := output?_eq_some hs
    exact ⟨n, k.node, s, ⟨hn, hmem⟩, by rw [hname, ← hd]⟩
  · rintro ⟨n, i, t, ⟨hn, ht⟩, rfl⟩
    obtain ⟨s, hs⟩ := Option.isSome_iff_exists.1 ((isSome_output?_iff n t.name).2 ⟨t, ht, rfl⟩)
    exact ⟨_, n, s, rfl, hn, hs, rfl⟩

theorem mem_outputKeys_of_firstName? {nodes : List Node} {k : SocketKey} {name : String}
    (h : firstName? nodes k = some name) : k ∈ outputKeys nodes :=
  (isSome_firstName?_iff nodes k).1 (by rw [h]; rfl)

/-- Seeding names each output, and nothing else. -/
theorem get?_seed (nodes : List Node) (k : SocketKey) : (seed nodes).names.get? k = firstName? nodes k := by
  unfold seed
  rw [names_foldl_assign (fun e : Node × Nat × Socket => ⟨e.2.1, .output, e.2.2.name⟩) (fun e => seedName e.1 e.2.1 e.2.2)]
  cases hf : firstName? nodes k with
  | some name =>
    have hk := mem_outputKeys_of_firstName? hf
    obtain ⟨n, s, -, hn, hs, rfl⟩ := firstName?_eq_some_iff.1 hf
    have hv : ∀ e ∈ socketsOf Node.outputs nodes, (⟨e.2.1, .output, e.2.2.name⟩ : SocketKey) = k →
        seedName e.1 e.2.1 e.2.2 = seedName n k.node s := by
      rintro ⟨n', i, t⟩ he rfl
      obtain ⟨hn', -⟩ := mem_socketsOf.1 he
      rw [hn] at hn'
      cases hn'
      exact seedName_congr n i (output?_eq_some hs).2.symm
    exact (Table.get?_foldl_insert _ _ _ k _ hv _).trans (if_pos hk)
  | none =>
    have hk : k ∉ outputKeys nodes := by rw [← isSome_firstName?_iff, hf]; simp
    exact (Table.get?_foldl_insert _ _ _ k "" (fun e he h => absurd (List.mem_map.2 ⟨e, he, h⟩) hk) _).trans (if_neg hk)

theorem redirects_foldl_assign {ε : Type} (key : ε → SocketKey) (val : ε → String) (kind : ε → SocketKind) (es : List ε) :
    ∀ r : Naming, (es.foldl (fun r e => r.assign (key e) (val e) (kind e)) r).redirects = r.redirects := by
  induction es with
  | nil => intro r; rfl
  | cons e es ih => intro r; exact ih _

theorem redirects_seed (nodes : List Node) : (seed nodes).redirects = .empty :=
  redirects_foldl_assign (fun e : Node × Nat × Socket => ⟨e.2.1, .output, e.2.2.name⟩) _ _ _ empty

theorem placeholders_seed (nodes : List Node) : (seed nodes).placeholders = [] :=
  List.foldlRecOn (motive := fun r : Naming => r.placeholders = []) _ _ rfl fun _ h _ _ => h

theorem isSome_firstName?_origin (nodes : List Node) (l : Link) :
    (firstName? nodes (origin l)).isSome = startsAtOutput nodes l := by
  simp only [firstName?, origin, startsAtOutput, if_true]
  cases nodes[l.fromNode]? <;> simp

/-! ## Links -/

theorem names_carryLink (nodes : List Node) (r : Naming) (l : Link) :
    (carryLink nodes r l).names =
      if endsAtInput nodes l then
        match r.names.get? (origin l) with
        | some name => r.names.insert ⟨l.toNode, .input, l.toSocket⟩ name
        | none => r.names
      else r.names := by
  unfold carryLink output? origin
  by_cases he : endsAtInput nodes l = true
  · rw [if_pos he, if_pos he]
    cases r.names.get? ⟨l.fromNode, .output, l.fromSocket⟩ <;> rfl
  · rw [if_neg he, if_neg he]

theorem get?_carryLink_output (nodes : List Node) (r : Naming) (l : Link) {k : SocketKey} (hk : k.direction = .output) :
    (carryLink nodes r l).names.get? k = r.names.get? k := by
  rw [names_carryLink]
  split
  · split
    · rw [Table.get?_insert, if_neg (by rintro rfl; cases hk)]
    · rfl
  · rfl

/-- Carrying names leaves outputs alone. -/
theorem get?_carry_output (nodes : List Node) (links : List Link) {k : SocketKey} (hk : k.direction = .output) :
    ∀ r : Naming, (carry nodes links r).names.get? k = r.names.get? k := by
  induction links with
  | nil => intro r; rfl
  | cons l links ih => intro r; exact (ih _).trans (get?_carryLink_output nodes r l hk)

theorem redirects_carry (nodes : List Node) (links : List Link) :
    ∀ r : Naming, (carry nodes links r).redirects = r.redirects := by
  induction links with
  | nil => intro r; rfl
  | cons l links ih =>
    intro r
    refine (ih _).trans ?_
    unfold carryLink
    split
    · split <;> rfl
    · rfl

/-- Carrying names is about no kind and no placeholder. -/
theorem kinds_placeholders_carry (nodes : List Node) (links : List Link) : ∀ r : Naming,
    (carry nodes links r).kinds = r.kinds ∧ (carry nodes links r).placeholders = r.placeholders := by
  induction links with
  | nil => intro r; exact ⟨rfl, rfl⟩
  | cons l links ih =>
    intro r
    have hlink : (carryLink nodes r l).kinds = r.kinds ∧ (carryLink nodes r l).placeholders = r.placeholders := by
      unfold carryLink
      split
      · split <;> exact ⟨rfl, rfl⟩
      · exact ⟨rfl, rfl⟩
    exact ⟨(ih _).1.trans hlink.1, (ih _).2.trans hlink.2⟩

theorem carry_concat (nodes : List Node) (links : List Link) (l : Link) (r : Naming) :
    carry nodes (links ++ [l]) r = carryLink nodes (carry nodes links r) l := by
  simp [carry]

theorem source?_concat (nodes : List Node) (links : List Link) (l : Link) (i : Nat) (socket : String) :
    source? nodes (links ++ [l]) i socket =
      if l.toNode = i ∧ l.toSocket = socket ∧ endsAtInput nodes l = true ∧ startsAtOutput nodes l = true then
        some (origin l)
      else source? nodes links i socket := by
  unfold source?
  rw [List.filter_append]
  by_cases h : l.toNode = i ∧ l.toSocket = socket ∧ endsAtInput nodes l = true ∧ startsAtOutput nodes l = true
  · rw [if_pos h, List.filter_cons_of_pos (by simpa [and_assoc] using h)]
    simp
  · rw [if_neg h, List.filter_cons_of_neg (by simpa [and_assoc] using h)]
    simp

/-- A link between existing sockets lets one of the links into its input feed it. -/
theorem exists_source {nodes : List Node} {links : List Link} {l : Link} (hl : l ∈ links)
    (hin : endsAtInput nodes l = true) (hout : startsAtOutput nodes l = true) :
    ∃ l' ∈ links, l'.toNode = l.toNode ∧ l'.toSocket = l.toSocket ∧
      source? nodes links l.toNode l.toSocket = some (origin l') := by
  have hmem : l ∈ links.filter fun l' =>
      l'.toNode = l.toNode && l'.toSocket = l.toSocket && endsAtInput nodes l' && startsAtOutput nodes l' :=
    List.mem_filter.2 ⟨hl, by simp [hin, hout]⟩
  obtain ⟨l', hl'⟩ : ∃ l', List.getLast? _ = some l' := ⟨_, List.getLast?_eq_some_getLast (List.ne_nil_of_mem hmem)⟩
  obtain ⟨hmem', hp⟩ := List.mem_filter.1 (List.mem_of_getLast? hl')
  simp only [Bool.and_eq_true, decide_eq_true_eq] at hp
  exact ⟨l', hmem', hp.1.1.1, hp.1.1.2, by rw [source?, hl', Option.map_some]⟩

/-- A link that is the only one into its input feeds it. -/
theorem source?_of_unique {nodes : List Node} {links : List Link} {l : Link} (hl : l ∈ links)
    (hin : endsAtInput nodes l = true) (hout : startsAtOutput nodes l = true)
    (huniq : ∀ l' ∈ links, l'.toNode = l.toNode → l'.toSocket = l.toSocket → l' = l) :
    source? nodes links l.toNode l.toSocket = some (origin l) := by
  obtain ⟨l', hl', hnode, hsocket, hsource⟩ := exists_source hl hin hout
  rw [hsource, huniq l' hl' hnode hsocket]

/-- Links behind the one that feeds an input do not count if they start nowhere. -/
theorem source?_of_last {nodes : List Node} {before after : List Link} {l : Link} (hin : endsAtInput nodes l = true)
    (hout : startsAtOutput nodes l = true)
    (hafter : ∀ l' ∈ after, l'.toNode = l.toNode → l'.toSocket = l.toSocket → startsAtOutput nodes l' = false) :
    source? nodes (before ++ l :: after) l.toNode l.toSocket = some (origin l) := by
  induction after using List.reverseRecOn with
  | nil => rw [source?_concat, if_pos ⟨rfl, rfl, hin, hout⟩]
  | append_singleton after l' ih =>
    rw [← List.cons_append, ← List.append_assoc, source?_concat, if_neg, ih fun l'' hl'' => hafter l'' (by simp [hl''])]
    rintro ⟨hnode, hsocket, -, hstarts⟩
    rw [hafter l' (by simp) hnode hsocket] at hstarts
    cases hstarts

/-- Names in which just the outputs that exist have one. -/
def NamesOutputs (nodes : List Node) (r : Naming) : Prop :=
  ∀ k : SocketKey, k.direction = .output → (r.names.get? k).isSome = (firstName? nodes k).isSome

/-- An input has the name of its source, or keeps what it had. -/
theorem get?_carry_input {nodes : List Node} {r : Naming} (h : NamesOutputs nodes r) (links : List Link) (i : Nat)
    (socket : String) :
    (carry nodes links r).names.get? ⟨i, .input, socket⟩ =
      match source? nodes links i socket with
      | some k => r.names.get? k
      | none => r.names.get? ⟨i, .input, socket⟩ := by
  induction links using List.reverseRecOn with
  | nil => rfl
  | append_singleton links l ih =>
    rw [carry_concat, names_carryLink, source?_concat, get?_carry_output nodes links rfl]
    have hs := h (origin l) rfl
    rw [isSome_firstName?_origin] at hs
    by_cases he : endsAtInput nodes l = true
    · rw [if_pos he]
      cases hg : r.names.get? (origin l) with
      | none =>
        rw [hg, Option.isSome_none] at hs
        simp only [← hs, Bool.false_eq_true, and_false, if_false]
        exact ih
      | some name =>
        rw [hg, Option.isSome_some] at hs
        rw [Table.get?_insert]
        by_cases hk : l.toNode = i ∧ l.toSocket = socket
        · obtain ⟨rfl, rfl⟩ := hk
          simp [he, ← hs, hg]
        · rw [if_neg (by rintro h; cases h; exact hk ⟨rfl, rfl⟩), if_neg (by tauto)]
          exact ih
    · rw [if_neg he, if_neg (by tauto)]
      exact ih

theorem isSome_firstName?_of_source? {nodes : List Node} {links : List Link} {i : Nat} {socket : String} {k : SocketKey}
    (h : source? nodes links i socket = some k) : (firstName? nodes k).isSome := by
  obtain ⟨l, hl, rfl⟩ := Option.map_eq_some_iff.1 h
  have := (List.mem_filter.1 (List.mem_of_getLast? hl)).2
  rw [isSome_firstName?_origin]
  simp_all

theorem target?_eq_some {s : Socket} {output : String} (h : s.target? = some output) :
    s.name = output ++ Socket.targetEnding := by
  unfold Socket.target? at h
  split at h
  · exact Text.beforeEnding?_eq_some_iff.1 (Option.filter_eq_some_iff.1 h).1
  · cases h

/-! ## Redirects -/

/-- An output takes over a name, in its current form. -/
def takeOver (r : Naming) (k : SocketKey) (name : String) : Naming :=
  let recorded := match r.names.get? k with
    | some old => r.supersede old (r.current name)
    | none => r
  { recorded with names := recorded.names.insert k (r.current name) }

theorem redirect_of_target? (r : Naming) {n : Node} {i : Nat} {s : Socket} {output name : String}
    (ht : s.target? = some output) (ho : (n.output? output).isSome) (hi : r.input? i s.name = some name) :
    r.redirect n i s = r.takeOver ⟨i, .output, output⟩ name := by
  have ho : (n.output? output).isNone = false := by simpa [Option.isNone_eq_false_iff] using ho
  cases hold : r.names.get? ⟨i, .output, output⟩ <;>
    simp only [redirect, ht, ho, hi, takeOver, output?, hold, Bool.false_eq_true, if_false]

/-- A redirect changes nothing, or lets an existing output take over the name of its `_target` input; and it does the same
in all namings with that name at the input. -/
theorem redirect_alike {r r' : Naming} (n : Node) {i : Nat} {s : Socket} (h : r'.input? i s.name = r.input? i s.name) :
    (r.redirect n i s = r ∧ r'.redirect n i s = r') ∨ ∃ output name, s.target? = some output ∧ (n.output? output).isSome ∧
      r.input? i s.name = some name ∧ r.redirect n i s = r.takeOver ⟨i, .output, output⟩ name ∧
      r'.redirect n i s = r'.takeOver ⟨i, .output, output⟩ name := by
  cases ht : s.target? with
  | none => left; simp only [redirect, ht, and_self]
  | some output =>
    cases ho : n.output? output with
    | none => left; simp only [redirect, ht, ho, Option.isNone_none, if_true, and_self]
    | some _ =>
      cases hi : r.input? i s.name with
      | none => left; simp only [redirect, ht, ho, h, hi, Option.isNone_some, Bool.false_eq_true, if_false, and_self]
      | some name =>
        right
        have ho : (n.output? output).isSome := by rw [ho]; rfl
        exact ⟨output, name, rfl, ho, rfl, r.redirect_of_target? ht ho hi, r'.redirect_of_target? ht ho (h.trans hi)⟩

theorem redirect_cases (r : Naming) (n : Node) (i : Nat) (s : Socket) :
    r.redirect n i s = r ∨ ∃ output name, s.target? = some output ∧ (n.output? output).isSome ∧
      r.input? i s.name = some name ∧ r.redirect n i s = r.takeOver ⟨i, .output, output⟩ name := by
  have hsame : r.input? i s.name = r.input? i s.name := rfl
  rcases redirect_alike n hsame with ⟨heq, -⟩ | ⟨output, name, ht, ho, hi, heq, -⟩
  · exact .inl heq
  · exact .inr ⟨output, name, ht, ho, hi, heq⟩

theorem get?_takeOver (r : Naming) (k k' : SocketKey) (name : String) :
    (r.takeOver k name).names.get? k' = if k' = k then some (r.current name) else r.names.get? k' := by
  unfold takeOver
  simp only [Table.get?_insert]
  split
  · rfl
  · cases r.names.get? k with
    | none => rfl
    | some old => simp only [supersede]; split <;> rfl

theorem placeholders_takeOver (r : Naming) (k : SocketKey) (name : String) :
    (r.takeOver k name).placeholders = r.placeholders := by
  unfold takeOver supersede
  cases r.names.get? k with
  | none => rfl
  | some old => dsimp only; split <;> rfl

theorem placeholders_redirectAll (nodes : List Node) (r : Naming) : (redirectAll nodes r).placeholders = r.placeholders := by
  unfold redirectAll
  refine List.foldlRecOn (motive := fun r' : Naming => r'.sweep.placeholders = r.placeholders) _ _ rfl fun r' h e _ => ?_
  obtain ⟨n, i, s⟩ := e
  change (r'.redirect n i s).placeholders = r.placeholders
  rcases r'.redirect_cases n i s with heq | ⟨output, name, -, -, -, heq⟩
  · rw [heq]
    exact h
  · rw [heq, placeholders_takeOver]
    exact h

/-- A name that was superseded before, or that takes itself over, is not superseded. -/
theorem supersede_of_refused {r : Naming} {old target : String} (h : old = target ∨ (r.redirect? old).isSome) :
    r.supersede old target = r := by
  unfold supersede
  exact if_pos h

theorem redirect?_supersede {r : Naming} {old target : String} (hne : old ≠ target) (hnew : r.redirect? old = none)
    (a : String) :
    (r.supersede old target).redirect? a =
      if a = old then some target else (r.redirect? a).map fun name => if name = old then target else name := by
  have hc : ¬(old = target ∨ r.redirects.contains old) := by
    rintro (h | h)
    · exact hne h
    · rw [Table.contains, show r.redirects.get? old = none from hnew] at h
      cases h
  simp only [supersede, if_neg hc, redirect?, Table.get?_insert, Table.get?_mapValues]

/-- Names that stood for the superseded one now stand for what replaced it. -/
theorem current_supersede {r : Naming} {old target : String} (hne : old ≠ target) (hnew : r.redirect? old = none)
    (a : String) : (r.supersede old target).current a = if r.current a = old then target else r.current a := by
  unfold current
  rw [redirect?_supersede hne hnew]
  by_cases ha : a = old
  · subst ha
    simp [hnew]
  · cases r.redirect? a with
    | none => simp [ha]
    | some name => simp only [if_neg ha, Option.map_some, Option.getD_some]

/-! ## Placeholders -/

theorem names_fillInput (r : Naming) (n : Node) (i : Nat) (s : Socket) :
    (r.fillInput n i s).names =
      if r.names.contains ⟨i, .input, s.name⟩ then r.names
      else r.names.insert ⟨i, .input, s.name⟩ (placeholderName n i s) := by
  unfold fillInput
  split <;> rfl

/-- Placeholders are no names of outputs. -/
theorem get?_fill_output (nodes : List Node) (r : Naming) {k : SocketKey} (hk : k.direction = .output) :
    (fill nodes r).names.get? k = r.names.get? k := by
  unfold fill
  induction socketsOf Node.inputs nodes generalizing r with
  | nil => rfl
  | cons e es ih =>
    rw [List.foldl_cons, ih, names_fillInput]
    split
    · rfl
    · rw [Table.get?_insert, if_neg (by rintro rfl; cases hk)]

theorem get?_fillInput_of_some {r : Naming} {n : Node} {i : Nat} {s : Socket} {k : SocketKey} {name : String}
    (h : r.names.get? k = some name) : (r.fillInput n i s).names.get? k = some name := by
  rw [names_fillInput]
  split
  · exact h
  · rename_i hc
    rw [Table.get?_insert, if_neg]
    · exact h
    · rintro rfl
      simp [Table.contains, h] at hc

theorem placeholders_fillInput {r : Naming} {n : Node} {i : Nat} {s : Socket} {name : String} (h : name ∈ r.placeholders) :
    name ∈ (r.fillInput n i s).placeholders := by
  unfold fillInput
  split
  · exact h
  · exact List.mem_cons_of_mem _ h

/-- A name that is given already stays. -/
theorem get?_foldl_fillInput (es : List (Node × Nat × Socket)) {k : SocketKey} {name : String} :
    ∀ r : Naming, r.names.get? k = some name →
      (es.foldl (fun r e => r.fillInput e.1 e.2.1 e.2.2) r).names.get? k = some name := by
  induction es with
  | nil => intro r h; exact h
  | cons e es ih => intro r h; exact ih _ (get?_fillInput_of_some h)

theorem placeholders_foldl_fillInput (es : List (Node × Nat × Socket)) {name : String} :
    ∀ r : Naming, name ∈ r.placeholders →
      name ∈ (es.foldl (fun r e => r.fillInput e.1 e.2.1 e.2.2) r).placeholders := by
  induction es with
  | nil => intro r h; exact h
  | cons e es ih => intro r h; exact ih _ (placeholders_fillInput h)

theorem get?_fill_of_some {nodes : List Node} {r : Naming} {k : SocketKey} {name : String}
    (h : r.names.get? k = some name) : (fill nodes r).names.get? k = some name :=
  get?_foldl_fillInput _ r h

theorem placeholderName_congr (n : Node) (i : Nat) {s t : Socket} (h : s.name = t.name) :
    placeholderName n i s = placeholderName n i t := by
  simp only [placeholderName, h]

/-- An input without a name gets its placeholder. -/
theorem input?_fill_of_none {nodes : List Node} {r : Naming} {n : Node} {i : Nat} {s : Socket}
    (he : (n, i, s) ∈ socketsOf Node.inputs nodes) (hnone : r.input? i s.name = none) :
    (fill nodes r).input? i s.name = some (placeholderName n i s) ∧
      (fill nodes r).isPlaceholder (placeholderName n i s) = true := by
  have hfold : ∀ es : List (Node × Nat × Socket), (∀ e ∈ es, e ∈ socketsOf Node.inputs nodes) → (n, i, s) ∈ es →
      ∀ r : Naming, r.input? i s.name = none →
        (es.foldl (fun r e => r.fillInput e.1 e.2.1 e.2.2) r).input? i s.name = some (placeholderName n i s) ∧
          placeholderName n i s ∈ (es.foldl (fun r e => r.fillInput e.1 e.2.1 e.2.2) r).placeholders := by
    intro es
    induction es with
    | nil => intro _ he; cases he
    | cons e es ih =>
      intro hes he r hr
      obtain ⟨n', i', t⟩ := e
      have hc : r.names.contains ⟨i, .input, s.name⟩ = false := by rw [Table.contains, show Table.get? _ _ = none from hr]; rfl
      by_cases hkey : i' = i ∧ t.name = s.name
      -- The first of these inputs gets its placeholder here, and keeps it.
      · obtain ⟨rfl, hname⟩ := hkey
        obtain rfl : n' = n := by
          have hn' := (mem_socketsOf.1 (hes _ List.mem_cons_self)).1
          rw [(mem_socketsOf.1 (hes _ he)).1] at hn'
          exact (Option.some.inj hn').symm
        rw [← placeholderName_congr n' i' hname]
        refine ⟨get?_foldl_fillInput es _ ?_, placeholders_foldl_fillInput es _ ?_⟩
        · rw [names_fillInput, hname, hc, if_neg Bool.false_ne_true, Table.get?_insert_self]
        · simp only [fillInput, hname, hc, Bool.false_eq_true, if_false, assign]
          exact List.mem_cons_self
      · refine ih (fun e he => hes e (List.mem_cons_of_mem _ he)) ((List.mem_cons.1 he).resolve_left ?_) _ ?_
        · rintro ⟨⟩
          exact hkey ⟨rfl, rfl⟩
        · rw [input?, names_fillInput]
          split
          · exact hr
          · rw [Table.get?_insert, if_neg fun h => hkey ?_]
            · exact hr
            · rw [SocketKey.mk.injEq] at h
              exact ⟨h.1.symm, h.2.2.symm⟩
  obtain ⟨hname, hp⟩ := hfold _ (fun e he => he) he r hnone
  exact ⟨hname, List.contains_iff_mem.2 hp⟩

theorem mem_placeholders_fillInput {r : Naming} {n : Node} {i : Nat} {s : Socket} {name : String}
    (h : name ∈ (r.fillInput n i s).placeholders) : name ∈ r.placeholders ∨ name = placeholderName n i s := by
  unfold fillInput at h
  split at h
  · exact .inl h
  · exact (List.mem_cons.1 h).symm

theorem mem_placeholders_fill {nodes : List Node} {r : Naming} {name : String} (h : name ∈ (fill nodes r).placeholders) :
    name ∈ r.placeholders ∨ ∃ n i s, (n, i, s) ∈ socketsOf Node.inputs nodes ∧ name = placeholderName n i s := by
  revert h
  unfold fill
  refine List.foldlRecOn (motive := fun r' : Naming => name ∈ r'.placeholders → _) _ _ .inl fun r' ih e he h => ?_
  obtain ⟨n, i, s⟩ := e
  rcases mem_placeholders_fillInput h with h | h
  · exact ih h
  · exact .inr ⟨n, i, s, he, h⟩

/-- Each placeholder is that of an input. -/
theorem exists_of_isPlaceholder {nodes : List Node} {links : List Link} {name : String}
    (h : (resolve nodes links).isPlaceholder name = true) :
    ∃ n i s, (n, i, s) ∈ socketsOf Node.inputs nodes ∧ name = placeholderName n i s := by
  rcases mem_placeholders_fill (List.contains_iff_mem.1 h) with h | h
  · rw [(kinds_placeholders_carry nodes links _).2, placeholders_redirectAll, (kinds_placeholders_carry nodes links _).2,
      placeholders_seed] at h
    cases h
  · exact h

/-! ## Outputs keep a name, and inputs get it -/

theorem NamesOutputs.redirect {nodes : List Node} {r : Naming} (h : NamesOutputs nodes r) {n : Node} {i : Nat} {s : Socket}
    (he : (n, i, s) ∈ socketsOf Node.inputs nodes) : NamesOutputs nodes (r.redirect n i s) := by
  rcases r.redirect_cases n i s with heq | ⟨output, name, -, ho, -, heq⟩
  · rwa [heq]
  · intro k hk
    rw [heq, get?_takeOver]
    split
    · rename_i hkey
      obtain ⟨o, ho⟩ := Option.isSome_iff_exists.1 ho
      rw [hkey, firstName?_eq_some_iff.2 ⟨n, o, rfl, (mem_socketsOf.1 he).1, ho, rfl⟩]
      rfl
    · exact h k hk

theorem NamesOutputs.redirectAll {nodes : List Node} {r : Naming} (h : NamesOutputs nodes r) :
    NamesOutputs nodes (redirectAll nodes r) := by
  have hfold : ∀ es : List (Node × Nat × Socket), (∀ e ∈ es, e ∈ socketsOf Node.inputs nodes) → ∀ r, NamesOutputs nodes r →
      NamesOutputs nodes (es.foldl (fun r e => r.redirect e.1 e.2.1 e.2.2) r) := by
    intro es
    induction es with
    | nil => intro _ r h; exact h
    | cons e es ih => intro hes r h; exact ih (fun e he => hes e (by simp [he])) _ (h.redirect (hes e (by simp)))
  intro k hk
  rw [← hfold _ (fun e he => he) r h k hk]
  exact (congrArg Option.isSome (Table.get?_mapValues ..)).trans Option.isSome_map

theorem namesOutputs_seed (nodes : List Node) : NamesOutputs nodes (seed nodes) := fun k _ => by rw [get?_seed]

theorem NamesOutputs.carry {nodes : List Node} {r : Naming} (h : NamesOutputs nodes r) (links : List Link) :
    NamesOutputs nodes (carry nodes links r) := fun k hk => by
  rw [get?_carry_output nodes links hk, h k hk]

/-- At the end just the outputs that exist have a name. -/
theorem namesOutputs_resolve (nodes : List Node) (links : List Link) : NamesOutputs nodes (resolve nodes links) :=
  fun k hk => by
  rw [resolve, get?_fill_output _ _ hk]
  exact (((namesOutputs_seed nodes).carry links).redirectAll.carry links) k hk

/-- An input ends with the name that its source ends with. -/
theorem input?_resolve {nodes : List Node} {links : List Link} {i : Nat} {socket : String} {k : SocketKey}
    (h : source? nodes links i socket = some k) :
    ∃ name, (resolve nodes links).input? i socket = some name ∧ (resolve nodes links).names.get? k = some name := by
  have hk : k.direction = .output := by
    obtain ⟨l, -, rfl⟩ := Option.map_eq_some_iff.1 h
    rfl
  have hnamed := ((namesOutputs_seed nodes).carry links).redirectAll
  obtain ⟨name, hname⟩ := Option.isSome_iff_exists.1 ((hnamed k hk).trans (isSome_firstName?_of_source? h))
  refine ⟨name, get?_fill_of_some ?_, ?_⟩
  · rw [get?_carry_input hnamed, h]
    exact hname
  · rw [resolve, get?_fill_output _ _ hk, get?_carry_output _ _ hk, hname]

theorem input?_redirect (r : Naming) (n : Node) (i : Nat) (s : Socket) (j : Nat) (socket : String) :
    (r.redirect n i s).input? j socket = r.input? j socket := by
  rcases r.redirect_cases n i s with h | ⟨output, name, -, -, -, h⟩
  · rw [h]
  · rw [h, input?, get?_takeOver, if_neg (by rintro ⟨⟩)]
    rfl

theorem input?_redirectAll_of_none {nodes : List Node} {r : Naming} {j : Nat} {socket : String}
    (h : r.input? j socket = none) : (redirectAll nodes r).input? j socket = none := by
  have hfold : ∀ (es : List (Node × Nat × Socket)) (r : Naming),
      (es.foldl (fun r e => r.redirect e.1 e.2.1 e.2.2) r).input? j socket = r.input? j socket := by
    intro es
    induction es with
    | nil => intro r; rfl
    | cons e es ih => intro r; exact (ih _).trans (input?_redirect r _ _ _ j socket)
  have hnone := (hfold (socketsOf Node.inputs nodes) r).trans h
  exact (Table.get?_mapValues ..).trans (by rw [show Table.get? _ _ = none from hnone]; rfl)

/-- An input that no output feeds ends with its placeholder. -/
theorem input?_resolve_of_no_source {nodes : List Node} {links : List Link} {n : Node} {i : Nat} {s : Socket}
    (he : (n, i, s) ∈ socketsOf Node.inputs nodes) (h : source? nodes links i s.name = none) :
    (resolve nodes links).input? i s.name = some (placeholderName n i s) ∧
      (resolve nodes links).isPlaceholder (placeholderName n i s) = true := by
  have hseed := namesOutputs_seed nodes
  refine input?_fill_of_none he ?_
  have hnone : (carry nodes links (seed nodes)).input? i s.name = none := by
    rw [input?, get?_carry_input hseed, h, get?_seed]
    rfl
  rw [input?, get?_carry_input (hseed.carry links).redirectAll, h]
  exact input?_redirectAll_of_none hnone

theorem isPlaceholder_of_no_source {nodes : List Node} {links : List Link} {n : Node} {i : Nat} {s : Socket}
    (he : (n, i, s) ∈ socketsOf Node.inputs nodes) (h : source? nodes links i s.name = none) :
    ∃ name, (resolve nodes links).input? i s.name = some name ∧ (resolve nodes links).isPlaceholder name = true :=
  ⟨_, input?_resolve_of_no_source he h⟩

end RenderGraph.Naming
