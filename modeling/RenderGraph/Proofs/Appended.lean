import RenderGraph.Proofs.Sockets
/-!
# Names beside a node that no link touches

A node comes last in a list and no link starts or ends at it. Its outputs are named and its kinds
recorded all the same, in the tables that all nodes share, so the names with it and without it are
compared step by step. Until placeholders are given (`Beside`) its inputs have no name; so
it redirects nothing, and what its outputs brought in are kinds that stand behind those of the
other nodes.

`keeps_resolve`: the other sockets have the names that they have without the node, and a name of
theirs has its kind and is a placeholder as before, unless the node makes up that very name for
one of its inputs.
-/

namespace RenderGraph.Naming

variable {nodes : List Node} {u : Node} {links : List Link} {k : Nat} {r r' : Naming}

/-- No link starts or ends at the node of a position. -/
def Untouched (links : List Link) (k : Nat) : Prop := ∀ l ∈ links, l.fromNode ≠ k ∧ l.toNode ≠ k

instance (links : List Link) (k : Nat) : Decidable (Untouched links k) :=
  inferInstanceAs (Decidable (∀ l ∈ links, l.fromNode ≠ k ∧ l.toNode ≠ k))

/-! ## A list with one more node -/

theorem getElem?_concat_of_ne (u : Node) {i : Nat} (hi : i ≠ nodes.length) : (nodes ++ [u])[i]? = nodes[i]? := by
  rcases Nat.lt_or_gt_of_ne hi with hlt | hgt
  · exact List.getElem?_append_left hlt
  · rw [List.getElem?_eq_none (by simpa [Nat.succ_le_iff] using hgt), List.getElem?_eq_none (Nat.le_of_lt hgt)]

theorem socketsOf_concat (side : Node → List Socket) (nodes : List Node) (u : Node) :
    socketsOf side (nodes ++ [u]) = socketsOf side nodes ++ (side u).map fun s => (u, nodes.length, s) := by
  simp [socketsOf, List.zipIdx_append]

theorem ne_length_of_mem_socketsOf {side : Node → List Socket} {e : Node × Nat × Socket} (he : e ∈ socketsOf side nodes) :
    e.2.1 ≠ nodes.length := by
  obtain ⟨hn, -⟩ := mem_socketsOf.1 he
  exact Nat.ne_of_lt (List.getElem?_eq_some_iff.1 hn).1

theorem endsAtInput_concat (u : Node) {l : Link} (hl : l.toNode ≠ nodes.length) :
    endsAtInput (nodes ++ [u]) l = endsAtInput nodes l := by
  rw [endsAtInput, endsAtInput, getElem?_concat_of_ne u hl]

theorem firstName?_concat (u : Node) {key : SocketKey} (hkey : key.node ≠ nodes.length) :
    firstName? (nodes ++ [u]) key = firstName? nodes key := by
  rw [firstName?, firstName?, getElem?_concat_of_ne u hkey]

/-! ## Until placeholders are given -/

/-- The names without and with a node at a position, before it has placeholders. -/
structure Beside (k : Nat) (r r' : Naming) : Prop where
  names : ∀ key, key.node ≠ k → r'.names.get? key = r.names.get? key
  inputs : ∀ socket, r'.input? k socket = none
  kinds : ∀ name kind, name ∉ r.placeholders → r.kind? name = some kind → r'.kind? name = some kind
  redirects : r'.redirects = r.redirects
  placeholders : r'.placeholders = r.placeholders

theorem kind?_assign {name : String} {kind : SocketKind} (h : r.kind? name = some kind) (key : SocketKey) (name' : String)
    (kind' : SocketKind) : (r.assign key name' kind').kind? name = some kind := by
  unfold assign kind?
  rw [Table.get?_insertNew, show r.kinds.get? name = some kind from h]
  rfl

namespace Beside

theorem current (h : Beside k r r') : r'.current = r.current := by
  funext name
  rw [Naming.current, Naming.redirect?, h.redirects]; rfl

theorem insert (h : Beside k r r') {key : SocketKey} (hkey : key.node ≠ k) (name : String) :
    Beside k { r with names := r.names.insert key name } { r' with names := r'.names.insert key name } := by
  refine ⟨fun key' hkey' => ?_, fun socket => ?_, h.kinds, h.redirects, h.placeholders⟩
  · rw [Table.get?_insert, Table.get?_insert, h.names key' hkey']
  · rw [input?, Table.get?_insert, if_neg (by rintro rfl; exact hkey rfl)]
    exact h.inputs socket

/-- What is done for each socket of the other nodes may be done with the node or without it. -/
theorem foldl (step : Naming → Node × Nat × Socket → Naming) (side : Node → List Socket)
    (hstep : ∀ {r r' e}, e.2.1 ≠ nodes.length → Beside nodes.length r r' → Beside nodes.length (step r e) (step r' e))
    (h : Beside nodes.length r r') :
    Beside nodes.length ((socketsOf side nodes).foldl step r) ((socketsOf side nodes).foldl step r') := by
  have hall : ∀ es : List (Node × Nat × Socket), (∀ e ∈ es, e.2.1 ≠ nodes.length) → ∀ r r', Beside nodes.length r r' →
      Beside nodes.length (es.foldl step r) (es.foldl step r') := by
    intro es
    induction es with
    | nil => intro _ r r' h; exact h
    | cons e es ih =>
      intro hes r r' h
      exact ih (fun e he => hes e (List.mem_cons_of_mem _ he)) _ _ (hstep (hes e List.mem_cons_self) h)
  exact hall _ (fun _ => ne_length_of_mem_socketsOf) r r' h

/-- The node comes last, so it can only add to the kinds that the others brought in. -/
theorem seed (nodes : List Node) (u : Node) : Beside nodes.length (seed nodes) (seed (nodes ++ [u])) := by
  have hkinds : ∀ name kind, (Naming.seed nodes).kind? name = some kind → (Naming.seed (nodes ++ [u])).kind? name = some kind := by
    intro name kind h
    rw [Naming.seed, socketsOf_concat, List.foldl_append]
    exact List.foldlRecOn (motive := fun r : Naming => r.kind? name = some kind) _ _ h fun r hr e _ => kind?_assign hr _ _ _
  refine ⟨fun key hkey => ?_, fun socket => ?_, fun name kind _ => hkinds name kind, ?_, ?_⟩
  · rw [get?_seed, get?_seed, firstName?_concat u hkey]
  · rw [input?, get?_seed]
    rfl
  · rw [redirects_seed, redirects_seed]
  · rw [placeholders_seed, placeholders_seed]

theorem carryLink (h : Beside nodes.length r r') {l : Link} (hl : l.fromNode ≠ nodes.length ∧ l.toNode ≠ nodes.length) :
    Beside nodes.length (carryLink nodes r l) (carryLink (nodes ++ [u]) r' l) := by
  have hstart : r'.output? l.fromNode l.fromSocket = r.output? l.fromNode l.fromSocket := h.names _ hl.1
  unfold Naming.carryLink
  rw [endsAtInput_concat u hl.2, hstart]
  split
  · split
    · exact h.insert hl.2 _
    · exact h
  · exact h

theorem carry (h : Beside nodes.length r r') (hlinks : Untouched links nodes.length) :
    Beside nodes.length (carry nodes links r) (carry (nodes ++ [u]) links r') := by
  induction links generalizing r r' with
  | nil => exact h
  | cons l links ih =>
    exact ih (h.carryLink (hlinks l List.mem_cons_self)) fun l' hl' => hlinks l' (List.mem_cons_of_mem _ hl')

theorem supersede (h : Beside k r r') (old target : String) : Beside k (r.supersede old target) (r'.supersede old target) := by
  unfold Naming.supersede
  rw [h.redirects]
  split
  · exact h
  · exact ⟨h.names, h.inputs, h.kinds, rfl, h.placeholders⟩

theorem takeOver (h : Beside k r r') {key : SocketKey} (hkey : key.node ≠ k) (name : String) :
    Beside k (r.takeOver key name) (r'.takeOver key name) := by
  unfold Naming.takeOver
  rw [h.current, h.names key hkey]
  cases r.names.get? key with
  | none => exact h.insert hkey _
  | some old => exact (h.supersede old _).insert hkey _

theorem redirect (h : Beside k r r') (n : Node) {i : Nat} (hi : i ≠ k) (s : Socket) :
    Beside k (r.redirect n i s) (r'.redirect n i s) := by
  rcases redirect_alike n (h.names ⟨i, .input, s.name⟩ hi) with ⟨heq, heq'⟩ | ⟨output, name, -, -, -, heq, heq'⟩
  · rwa [heq, heq']
  · rw [heq, heq']
    exact h.takeOver hi name

/-- Without names at its inputs, the node redirects nothing. -/
theorem foldl_redirect_self (h : Beside k r r') (n : Node) (ss : List Socket) :
    ss.foldl (fun r s => r.redirect n k s) r' = r' := by
  induction ss with
  | nil => rfl
  | cons s ss ih =>
    rcases r'.redirect_cases n k s with heq | ⟨output, name, -, -, hin, -⟩
    · rw [List.foldl_cons, heq, ih]
    · rw [h.inputs] at hin
      cases hin

theorem sweep (h : Beside k r r') : Beside k r.sweep r'.sweep := by
  have hget (r : Naming) (key : SocketKey) : r.sweep.names.get? key = (r.names.get? key).map r.current := Table.get?_mapValues ..
  refine ⟨fun key hkey => ?_, fun socket => ?_, h.kinds, h.redirects, h.placeholders⟩
  · rw [hget, hget, h.current, h.names key hkey]
  · rw [input?, hget, show r'.names.get? _ = _ from h.inputs socket]
    rfl

theorem redirectAll (h : Beside nodes.length r r') :
    Beside nodes.length (redirectAll nodes r) (redirectAll (nodes ++ [u]) r') := by
  have hothers := h.foldl (fun r e => r.redirect e.1 e.2.1 e.2.2) Node.inputs fun hi h => h.redirect _ hi _
  have hself := hothers.foldl_redirect_self u u.inputs
  unfold Naming.redirectAll
  rw [socketsOf_concat, List.foldl_append, List.foldl_map]
  exact (hself ▸ hothers).sweep

theorem fillInput (h : Beside k r r') (n : Node) {i : Nat} (hi : i ≠ k) (s : Socket) :
    Beside k (r.fillInput n i s) (r'.fillInput n i s) := by
  unfold Naming.fillInput
  rw [Table.contains, Table.contains, h.names _ hi]
  split
  · exact h
  · have hinsert := h.insert (show (⟨i, .input, s.name⟩ : SocketKey).node ≠ k from hi) (placeholderName n i s)
    refine ⟨hinsert.names, hinsert.inputs, fun name kind hname hkind => ?_, h.redirects, congrArg (placeholderName n i s :: ·) h.placeholders⟩
    -- The kind that is recorded here is that of a placeholder.
    obtain ⟨hne, hname⟩ := not_or.1 (mt List.mem_cons.2 hname)
    unfold assign kind? at hkind ⊢
    rw [Table.get?_insertNew, if_neg hne, Option.or_none] at hkind ⊢
    exact h.kinds name kind hname hkind

end Beside

/-! ## In the end -/

/-- The names without and with a node at a position, in the end. -/
structure Keeps (k : Nat) (r r' : Naming) : Prop where
  names : ∀ key, key.node ≠ k → r'.names.get? key = r.names.get? key
  kinds : ∀ key name, r.names.get? key = some name → r.isPlaceholder name = false → r'.kind? name = r.kind? name
  redirects : r'.redirects = r.redirects
  placeholders : ∀ key name, r.names.get? key = some name → r'.isPlaceholder name = r.isPlaceholder name

namespace Keeps

theorem of_beside (h : Beside k r r') (hknown : Known nodes r) : Keeps k r r' := by
  refine ⟨h.names, fun key name hname hp => ?_, h.redirects, fun key name _ => ?_⟩
  · obtain ⟨kind, hkind⟩ := Option.isSome_iff_exists.1 (hknown.named key name hname)
    rw [hkind]
    exact h.kinds name kind (by simpa [isPlaceholder] using hp) hkind
  · rw [isPlaceholder, h.placeholders]
    rfl

/-- A placeholder of the node stands in the way of no name that is not that placeholder. -/
theorem fillInput (h : Keeps k r r') (hknown : Known nodes r) (n : Node) (s : Socket)
    (hfresh : ∀ key, r.names.get? key ≠ some (placeholderName n k s)) : Keeps k r (r'.fillInput n k s) := by
  unfold Naming.fillInput
  split
  · exact h
  · refine ⟨fun key hkey => ?_, fun key name hname hp => ?_, h.redirects, fun key name hname => ?_⟩
    · rw [assign, Table.get?_insert, if_neg (by rintro rfl; exact hkey rfl)]
      exact h.names key hkey
    · obtain ⟨kind, hkind⟩ := Option.isSome_iff_exists.1 (hknown.named key name hname)
      have hkind' : ({ r' with placeholders := placeholderName n k s :: r'.placeholders } : Naming).kind? name = some kind :=
        (h.kinds key name hname hp).trans hkind
      rw [hkind]
      exact kind?_assign hkind' _ _ _
    · have hne : name ≠ placeholderName n k s := fun heq => hfresh key (heq ▸ hname)
      rw [← h.placeholders key name hname]
      simp [isPlaceholder, assign, hne]

theorem foldl_fillInput (hknown : Known nodes r) (n : Node) (ss : List Socket)
    (hfresh : ∀ s ∈ ss, ∀ key, r.names.get? key ≠ some (placeholderName n k s)) :
    ∀ r' : Naming, Keeps k r r' → Keeps k r (ss.foldl (fun r' s => r'.fillInput n k s) r') := by
  induction ss with
  | nil => intro r' h; exact h
  | cons s ss ih =>
    intro r' h
    exact ih (fun s hs => hfresh s (List.mem_cons_of_mem _ hs)) _ (h.fillInput hknown n s (hfresh s List.mem_cons_self))

end Keeps

/-- The names of the other nodes do not change where a node is put last that no link touches, if none of its placeholders is
a name of theirs. -/
theorem keeps_resolve (hlinks : Untouched links nodes.length)
    (hfresh : ∀ s ∈ u.inputs, ∀ key, (resolve nodes links).names.get? key ≠ some (placeholderName u nodes.length s)) :
    Keeps nodes.length (resolve nodes links) (resolve (nodes ++ [u]) links) := by
  have hcarried : Beside nodes.length (carry nodes links (seed nodes)) (carry (nodes ++ [u]) links (seed (nodes ++ [u]))) :=
    (Beside.seed nodes u).carry hlinks
  have hagain : Beside nodes.length (carry nodes links (redirectAll nodes (carry nodes links (seed nodes))))
      (carry (nodes ++ [u]) links (redirectAll (nodes ++ [u]) (carry (nodes ++ [u]) links (seed (nodes ++ [u]))))) :=
    hcarried.redirectAll.carry hlinks
  have hfilled := hagain.foldl (fun r e => r.fillInput e.1 e.2.1 e.2.2) Node.inputs fun hi h => h.fillInput _ hi _
  have hknown := known_resolve nodes links
  have hlast := Keeps.foldl_fillInput hknown u u.inputs hfresh _ (.of_beside hfilled hknown)
  rw [resolve, resolve, fill, fill, socketsOf_concat, List.foldl_append, List.foldl_map]
  exact hlast

end RenderGraph.Naming
