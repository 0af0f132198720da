import RenderGraph.Proofs.Paths
import RenderGraph.Proofs.Superseded
/-!
# Redirects are followed to their end

`redirected? nodes links k` is the output that the graph draws `k` into, if it
draws one. The names record this while they are found, in whatever order the
nodes stand, and `Followed` is what the record satisfies after each `_target`
input: a replacement is never replaced itself, each name stands for that of an
output its own output leads to, and an output that is done stands for the same
name as the one it is drawn into.

`resolve_follows_redirects`: where no redirected output starts with the name of
another output, an output ends with the first name of the output its redirects
end at; outputs that run into a cycle all end with the first name of one output
on the cycle; and two outputs end with one name just where one of these is why.
-/

namespace RenderGraph.Naming

open Relation

/-- The output that an output is redirected to: the one that feeds its `_target` input, if the two exist. -/
def redirected? (nodes : List Node) (links : List Link) (k : SocketKey) : Option SocketKey :=
  if k.direction = .output then
    (nodes[k.node]?).bind fun n =>
      if (n.output? k.socket).isSome && n.inputs.any (fun s => s.target? = some k.socket) then
        source? nodes links k.node (k.socket ++ Socket.targetEnding)
      else none
  else none

/-- One redirect after another. -/
abbrev LeadsTo (nodes : List Node) (links : List Link) : SocketKey → SocketKey → Prop :=
  ReflTransGen (Paths.StepsTo (redirected? nodes links))

/-- Being on a cycle of redirects. -/
abbrev OnCycle (nodes : List Node) (links : List Link) (k : SocketKey) : Prop :=
  TransGen (Paths.StepsTo (redirected? nodes links)) k k

/-- No redirected output starts with the name of another output. -/
def OwnNames (nodes : List Node) (links : List Link) : Prop :=
  ∀ k ∈ outputKeys nodes, ∀ k' ∈ outputKeys nodes,
    (redirected? nodes links k).isSome → firstName? nodes k = firstName? nodes k' → k = k'

instance (nodes : List Node) (links : List Link) : Decidable (OwnNames nodes links) :=
  inferInstanceAs (Decidable (∀ k ∈ outputKeys nodes, ∀ k' ∈ outputKeys nodes,
    (redirected? nodes links k).isSome → firstName? nodes k = firstName? nodes k' → k = k'))

theorem OwnNames.eq {nodes : List Node} {links : List Link} (h : OwnNames nodes links) {k k' : SocketKey} {name : String}
    (hk : (redirected? nodes links k).isSome) (hname : firstName? nodes k = some name)
    (hname' : firstName? nodes k' = some name) : k = k' :=
  h k (mem_outputKeys_of_firstName? hname) k' (mem_outputKeys_of_firstName? hname') hk (hname.trans hname'.symm)

/-! ## What a redirect joins -/

theorem redirected?_eq_some {nodes : List Node} {links : List Link} {k k' : SocketKey}
    (h : redirected? nodes links k = some k') : k ∈ outputKeys nodes ∧ k' ∈ outputKeys nodes := by
  unfold redirected? at h
  split at h
  · rename_i hd
    obtain ⟨n, hn, h⟩ := Option.bind_eq_some_iff.1 h
    split at h
    · rename_i hX
      obtain ⟨s, hs⟩ := Option.isSome_iff_exists.1 (Bool.and_eq_true_iff.1 hX).1
      refine ⟨(isSome_firstName?_iff nodes k).1 ?_, (isSome_firstName?_iff nodes k').1 (isSome_firstName?_of_source? h)⟩
      rw [firstName?_eq_some_iff.2 ⟨n, s, hd, hn, hs, rfl⟩]
      rfl
    · cases h
  · cases h

/-- The output that a `_target` input redirects. -/
def handled? (nodes : List Node) (links : List Link) (e : Node × Nat × Socket) : Option SocketKey :=
  (e.2.2.target?.map fun output => ⟨e.2.1, .output, output⟩).filter fun k => (redirected? nodes links k).isSome

/-- A `_target` input redirects its output to what feeds it. -/
theorem redirected?_of_target? {nodes : List Node} (links : List Link) {n : Node} {i : Nat} {s : Socket} {output : String}
    (he : (n, i, s) ∈ socketsOf Node.inputs nodes) (ht : s.target? = some output) :
    redirected? nodes links ⟨i, .output, output⟩ =
      if (n.output? output).isSome then source? nodes links i s.name else none := by
  obtain ⟨hn, hs⟩ := mem_socketsOf.1 he
  have hany : n.inputs.any (fun s => s.target? = some output) = true := List.any_eq_true.2 ⟨s, hs, by simpa using ht⟩
  simp only [redirected?, if_true, hn, Option.bind_some, hany, Bool.and_true, target?_eq_some ht]

/-- Each redirect is that of a `_target` input. -/
theorem exists_handled {nodes : List Node} {links : List Link} {k : SocketKey} (h : (redirected? nodes links k).isSome) :
    ∃ e ∈ socketsOf Node.inputs nodes, handled? nodes links e = some k := by
  obtain ⟨k', hk'⟩ := Option.isSome_iff_exists.1 h
  have hk := hk'
  unfold redirected? at hk
  split at hk
  · rename_i hd
    obtain ⟨n, hn, hk⟩ := Option.bind_eq_some_iff.1 hk
    split at hk
    · rename_i hX
      obtain ⟨s, hs, ht⟩ := List.any_eq_true.1 (Bool.and_eq_true_iff.1 hX).2
      have hkey : (⟨k.node, .output, k.socket⟩ : SocketKey) = k := by rw [← hd]
      refine ⟨(n, k.node, s), mem_socketsOf.2 ⟨hn, hs⟩, ?_⟩
      simp only [handled?, of_decide_eq_true ht, Option.map_some, hkey, Option.filter_some, h, if_true]
    · cases hk
  · cases hk

/-! ## One redirect -/

theorem redirect_of_handled_none {nodes : List Node} {links : List Link} {r : Naming}
    (hin : ∀ i socket, r.input? i socket = (source? nodes links i socket).bind (firstName? nodes))
    {e : Node × Nat × Socket} (he : e ∈ socketsOf Node.inputs nodes) (hh : handled? nodes links e = none) :
    r.redirect e.1 e.2.1 e.2.2 = r := by
  obtain ⟨n, i, s⟩ := e
  rcases r.redirect_cases n i s with h | ⟨output, name, ht, ho, hi, -⟩
  · exact h
  · have hnone : redirected? nodes links ⟨i, .output, output⟩ = none := by simpa [handled?, ht] using hh
    rw [redirected?_of_target? links he ht, if_pos ho] at hnone
    rw [hin, hnone] at hi
    cases hi

theorem redirect_of_handled {nodes : List Node} {links : List Link} {r : Naming}
    (hin : ∀ i socket, r.input? i socket = (source? nodes links i socket).bind (firstName? nodes))
    {e : Node × Nat × Socket} {k : SocketKey} (he : e ∈ socketsOf Node.inputs nodes) (hh : handled? nodes links e = some k) :
    ∃ k' name, redirected? nodes links k = some k' ∧ firstName? nodes k' = some name ∧
      r.redirect e.1 e.2.1 e.2.2 = r.takeOver k name := by
  obtain ⟨n, i, s⟩ := e
  obtain ⟨hk, hsome⟩ := Option.filter_eq_some_iff.1 hh
  obtain ⟨output, ht, rfl⟩ := Option.map_eq_some_iff.1 hk
  obtain ⟨k', hk'⟩ := Option.isSome_iff_exists.1 hsome
  have hred := redirected?_of_target? links he ht
  rw [hk'] at hred
  split at hred
  · rename_i ho
    obtain ⟨name, hname⟩ := Option.isSome_iff_exists.1 (isSome_firstName?_of_source? hred.symm)
    exact ⟨k', name, hk', hname, r.redirect_of_target? ht ho (by rw [hin, ← hred, Option.bind_some, hname])⟩
  · cases hred

/-! ## What holds after each redirect -/

/-- The record of redirects after those of the outputs in `done`. -/
structure Followed (nodes : List Node) (links : List Link) (done : List SocketKey) (r : Naming) : Prop where
  /-- What replaces a name is not replaced. -/
  flat : ∀ a b, r.redirect? a = some b → r.redirect? b = none
  /-- Just the first names of outputs that are done are superseded. -/
  superseded : ∀ a, (r.redirect? a).isSome → ∃ k ∈ done, firstName? nodes k = some a
  /-- The first name of an output stands for that of an output it leads to. -/
  leads : ∀ k a, firstName? nodes k = some a →
    ∃ k', LeadsTo nodes links k k' ∧ firstName? nodes k' = some (r.current a)
  /-- An output that is done stands for the same name as the one it is redirected to. -/
  joined : ∀ k ∈ done, ∀ k', redirected? nodes links k = some k' →
    (firstName? nodes k).map r.current = (firstName? nodes k').map r.current
  /-- An output that is done has a name that stands for what its first name stands for. -/
  renamed : ∀ k ∈ done, (r.names.get? k).map r.current = (firstName? nodes k).map r.current
  /-- Any other output has its first name. -/
  kept : ∀ k ∉ done, k.direction = .output → r.names.get? k = firstName? nodes k
  /-- Inputs have the names of the outputs that feed them. -/
  inputs : ∀ i socket, r.input? i socket = (source? nodes links i socket).bind (firstName? nodes)
  /-- Just redirected outputs are done. -/
  redirected : ∀ k ∈ done, (redirected? nodes links k).isSome

namespace Followed

variable {nodes : List Node} {links : List Link} {done : List SocketKey} {r : Naming}

/-- What stands for a name stands for itself. -/
theorem redirect?_current (h : Followed nodes links done r) (a : String) : r.redirect? (r.current a) = none :=
  Flat.redirect?_current h.flat a

theorem current_of_not_redirected {a : String} (ha : r.redirect? a = none) : r.current a = a := by
  rw [current, ha, Option.getD_none]

theorem redirect?_of_not_done (h : Followed nodes links done r) (hown : OwnNames nodes links) {k : SocketKey} {a : String}
    (hk : firstName? nodes k = some a) (hd : k ∉ done) : r.redirect? a = none := by
  by_contra hne
  obtain ⟨k', hk', ha⟩ := h.superseded a (Option.isSome_iff_ne_none.2 hne)
  obtain rfl := hown.eq (h.redirected k' hk') ha hk
  exact hd hk'

/-- A redirect changes the record in one of two ways: it finds its output joined to the new name already, or it
supersedes the first name of its output. -/
theorem redirect?_takeOver (h : Followed nodes links done r) (hown : OwnNames nodes links) {k k' : SocketKey}
    {a name : String} (hk : redirected? nodes links k = some k') (ha : firstName? nodes k = some a)
    (hn : firstName? nodes k' = some name) :
    (r.takeOver k name).redirect? = r.redirect? ∧ r.current a = r.current name ∨
      a ≠ r.current name ∧ r.redirect? a = none ∧
        (r.takeOver k name).redirect? = (r.supersede a (r.current name)).redirect? := by
  by_cases hd : k ∈ done
  · left
    have hj := h.joined k hd k' hk
    have hr := h.renamed k hd
    rw [ha, hn, Option.map_some, Option.map_some, Option.some_inj] at hj
    rw [ha, Option.map_some] at hr
    obtain ⟨old, hold, ho⟩ := Option.map_eq_some_iff.1 hr
    have hrefused : old = r.current name ∨ (r.redirect? old).isSome := by
      cases hro : r.redirect? old with
      | some _ => exact .inr rfl
      | none => exact .inl (by rw [← hj, ← ho, current_of_not_redirected hro])
    refine ⟨?_, hj⟩
    simp only [takeOver, hold, supersede_of_refused hrefused]
    rfl
  · have hold : r.names.get? k = some a := by
      obtain ⟨_, _, hdir, -⟩ := firstName?_eq_some_iff.1 ha
      rw [h.kept k hd hdir, ha]
    have hnew := h.redirect?_of_not_done hown ha hd
    by_cases hat : a = r.current name
    · left
      refine ⟨?_, by rw [← hat, current_of_not_redirected hnew]⟩
      simp only [takeOver, hold, supersede_of_refused (.inl hat)]
      rfl
    · right
      refine ⟨hat, hnew, ?_⟩
      simp only [takeOver, hold]
      rfl

/-- Names still stand for those of outputs that their outputs lead to, where that of `k` is replaced by what stands
for the name of the output that `k` is redirected to. -/
theorem leads_of_replaced (h : Followed nodes links done r) (hown : OwnNames nodes links) {k k' : SocketKey}
    {a name : String} (hk : redirected? nodes links k = some k') (ha : firstName? nodes k = some a)
    (hn : firstName? nodes k' = some name) {g : String → String} (hg : ∀ y, g y = y ∨ y = a ∧ g y = r.current name)
    (k₁ : SocketKey) (a₁ : String) (ha₁ : firstName? nodes k₁ = some a₁) :
    ∃ k₂, LeadsTo nodes links k₁ k₂ ∧ firstName? nodes k₂ = some (g (r.current a₁)) := by
  obtain ⟨k₂, hto, hk₂⟩ := h.leads k₁ a₁ ha₁
  rcases hg (r.current a₁) with hsame | ⟨heq, hnew⟩
  · exact ⟨k₂, hto, by rw [hsame, hk₂]⟩
  -- The name stood for that of `k`, so the way goes on from `k` to `k'` and to where that leads.
  · rw [heq] at hk₂
    obtain rfl := hown.eq (by rw [hk]; rfl) ha hk₂
    obtain ⟨k₃, hto', hk₃⟩ := h.leads k' name hn
    exact ⟨k₃, hto.trans (.head hk hto'), by rw [hnew, hk₃]⟩

/-- What is asked of names after a redirect, from how it changes what stands for a name. -/
theorem of_current (h : Followed nodes links done r) (hown : OwnNames nodes links) {k k' : SocketKey} {a name : String}
    (hk : redirected? nodes links k = some k') (ha : firstName? nodes k = some a) (hn : firstName? nodes k' = some name)
    (g : String → String) (hg : ∀ x, (r.takeOver k name).current x = g (r.current x))
    (hga : g (r.current a) = r.current name) (hgt : ∀ y, g y = y ∨ y = a ∧ g y = r.current name)
    (hflat : ∀ x y, (r.takeOver k name).redirect? x = some y → (r.takeOver k name).redirect? y = none)
    (hsup : ∀ x, ((r.takeOver k name).redirect? x).isSome → (r.redirect? x).isSome ∨ x = a) :
    Followed nodes links (k :: done) (r.takeOver k name) := by
  have hcur : (r.takeOver k name).current = g ∘ r.current := funext hg
  have htarget : g (r.current name) = r.current name := by rcases hgt (r.current name) with h | h; exacts [h, h.2]
  obtain ⟨_, _, hdir, -⟩ := firstName?_eq_some_iff.1 ha
  refine ⟨hflat, ?_, ?_, ?_, ?_, ?_, ?_, ?_⟩
  · intro x hx
    rcases hsup x hx with hx | rfl
    · obtain ⟨k₁, hk₁, hx⟩ := h.superseded x hx
      exact ⟨k₁, List.mem_cons_of_mem _ hk₁, hx⟩
    · exact ⟨k, List.mem_cons_self, ha⟩
  · intro k₁ a₁ ha₁
    rw [hg]
    exact h.leads_of_replaced hown hk ha hn hgt k₁ a₁ ha₁
  · intro k₁ hk₁ k₂ hk₂
    rw [hcur, ← Option.map_map, ← Option.map_map]
    rcases List.mem_cons.1 hk₁ with rfl | hk₁
    · rw [hk] at hk₂
      cases hk₂
      rw [ha, hn, Option.map_some, Option.map_some, Option.map_some, Option.map_some, hga, htarget]
    · rw [h.joined k₁ hk₁ k₂ hk₂]
  · intro k₁ hk₁
    rw [hcur, ← Option.map_map, ← Option.map_map, get?_takeOver]
    split
    · rename_i he
      have : r.current (r.current name) = r.current name := current_of_not_redirected (h.redirect?_current name)
      rw [he, ha, Option.map_some, Option.map_some, Option.map_some, Option.map_some, this, htarget, hga]
    · rename_i hne
      rw [h.renamed k₁ ((List.mem_cons.1 hk₁).resolve_left hne)]
  · intro k₁ hk₁ hdir₁
    rw [List.mem_cons, not_or] at hk₁
    rw [get?_takeOver, if_neg hk₁.1, h.kept k₁ hk₁.2 hdir₁]
  · intro i socket
    rw [input?, get?_takeOver, if_neg (by rintro rfl; cases hdir)]
    exact h.inputs i socket
  · intro k₁ hk₁
    rcases List.mem_cons.1 hk₁ with rfl | hk₁
    · rw [hk]; rfl
    · exact h.redirected k₁ hk₁

theorem takeOver (h : Followed nodes links done r) (hown : OwnNames nodes links) {k k' : SocketKey} {name : String}
    (hk : redirected? nodes links k = some k') (hn : firstName? nodes k' = some name) :
    Followed nodes links (k :: done) (r.takeOver k name) := by
  obtain ⟨a, ha⟩ := Option.isSome_iff_exists.1 ((isSome_firstName?_iff nodes k).2 (redirected?_eq_some hk).1)
  rcases h.redirect?_takeOver hown hk ha hn with ⟨hsame, hj⟩ | ⟨hne, hnew, hr⟩
  · refine h.of_current hown hk ha hn id (fun x => ?_) hj (fun y => .inl rfl) ?_ ?_
    · simp only [current, hsame, id]
    · rw [hsame]; exact h.flat
    · rw [hsame]; exact fun x hx => .inl hx
  · refine h.of_current hown hk ha hn (fun y => if y = a then r.current name else y) (fun x => ?_) ?_ (fun y => ?_) ?_ ?_
    · rw [← current_supersede hne hnew]
      simp only [current, hr]
    · rw [current_of_not_redirected hnew, if_pos rfl]
    · by_cases hy : y = a
      · exact .inr ⟨hy, if_pos hy⟩
      · exact .inl (if_neg hy)
    · rw [hr]
      exact Flat.supersede h.flat a (h.redirect?_current name)
    · intro x hx
      rw [hr, redirect?_supersede hne hnew] at hx
      split at hx
      · rename_i hxa; exact .inr hxa
      · rw [Option.isSome_map] at hx; exact .inl hx

theorem foldl (hown : OwnNames nodes links) (h : Followed nodes links [] r) (es : List (Node × Nat × Socket))
    (hes : ∀ e ∈ es, e ∈ socketsOf Node.inputs nodes) :
    Followed nodes links (es.reverse.filterMap (handled? nodes links))
      (es.foldl (fun r e => r.redirect e.1 e.2.1 e.2.2) r) := by
  induction es using List.reverseRecOn with
  | nil => exact h
  | append_singleton es e ih =>
    have ih := ih fun e he => hes e (List.mem_append_left _ he)
    have he := hes e (by simp)
    rw [List.foldl_append, List.foldl_cons, List.foldl_nil, List.reverse_concat, List.filterMap_cons]
    cases hh : handled? nodes links e with
    | none =>
      rw [redirect_of_handled_none ih.inputs he hh]
      exact ih
    | some k =>
      obtain ⟨k', name, hk, hn, heq⟩ := redirect_of_handled ih.inputs he hh
      rw [heq]
      exact ih.takeOver hown hk hn

end Followed

/-! ## The names at the end -/

theorem followed_start (nodes : List Node) (links : List Link) : Followed nodes links [] (carry nodes links (seed nodes)) := by
  have hnone : ∀ a, (carry nodes links (seed nodes)).redirect? a = none := by
    intro a
    rw [redirect?, redirects_carry, redirects_seed, Table.get?_empty]
  have hcur : ∀ a, (carry nodes links (seed nodes)).current a = a := fun a => Followed.current_of_not_redirected (hnone a)
  refine ⟨?_, ?_, ?_, ?_, ?_, ?_, ?_, ?_⟩
  · intro a b _; exact hnone b
  · intro a ha; rw [hnone] at ha; cases ha
  · intro k a hk; exact ⟨k, .refl, by rw [hcur, hk]⟩
  · intro k hk; cases hk
  · intro k hk; cases hk
  · intro k _ hdir; rw [get?_carry_output nodes links hdir, get?_seed]
  · intro i socket
    rw [input?, get?_carry_input fun k _ => by rw [get?_seed]]
    cases source? nodes links i socket with
    | none => rw [get?_seed]; rfl
    | some k => exact get?_seed nodes k
  · intro k hk; cases hk

/-- The names when all redirects are applied, before the last sweep. -/
def followed (nodes : List Node) (links : List Link) : Naming :=
  (socketsOf Node.inputs nodes).foldl (fun r (n, i, s) => r.redirect n i s) (carry nodes links (seed nodes))

theorem followed_spec {nodes : List Node} {links : List Link} (hown : OwnNames nodes links) :
    ∃ done, Followed nodes links done (followed nodes links) ∧ ∀ k, (redirected? nodes links k).isSome → k ∈ done := by
  refine ⟨_, (followed_start nodes links).foldl hown _ fun e he => he, fun k hk => ?_⟩
  obtain ⟨e, he, hh⟩ := exists_handled hk
  exact List.mem_filterMap.2 ⟨e, List.mem_reverse.2 he, hh⟩

theorem names_redirectAll (nodes : List Node) (links : List Link) (k : SocketKey) :
    (redirectAll nodes (carry nodes links (seed nodes))).names.get? k =
      ((followed nodes links).names.get? k).map (followed nodes links).current :=
  Table.get?_mapValues ..

/-- An output ends with what its first name stands for when all redirects are applied. -/
theorem get?_resolve_output {nodes : List Node} {links : List Link} (hown : OwnNames nodes links) {k : SocketKey}
    (hk : k ∈ outputKeys nodes) :
    (resolve nodes links).names.get? k = (firstName? nodes k).map (followed nodes links).current := by
  obtain ⟨done, h, -⟩ := followed_spec hown
  obtain ⟨a, ha⟩ := Option.isSome_iff_exists.1 ((isSome_firstName?_iff nodes k).2 hk)
  obtain ⟨_, _, hdir, -⟩ := firstName?_eq_some_iff.1 ha
  rw [resolve, get?_fill_output _ _ hdir, get?_carry_output _ _ hdir, names_redirectAll]
  by_cases hd : k ∈ done
  · exact h.renamed k hd
  · rw [h.kept k hd hdir]

section Ends

variable {nodes : List Node} {links : List Link} {done : List SocketKey}

theorem Followed.current_of_leadsTo {r : Naming} (h : Followed nodes links done r)
    (hdone : ∀ k, (redirected? nodes links k).isSome → k ∈ done) {k k' : SocketKey} (hto : LeadsTo nodes links k k') :
    (firstName? nodes k).map r.current = (firstName? nodes k').map r.current := by
  induction hto with
  | refl => rfl
  | @tail k₁ k₂ _ hstep ih =>
    have hstep : redirected? nodes links k₁ = some k₂ := hstep
    exact ih.trans (h.joined k₁ (hdone k₁ (by rw [hstep]; rfl)) k₂ hstep)

theorem mem_outputKeys_of_leadsTo {k k' : SocketKey} (hk : k ∈ outputKeys nodes) (hto : LeadsTo nodes links k k') :
    k' ∈ outputKeys nodes := by
  induction hto with
  | refl => exact hk
  | tail _ hstep _ => exact (redirected?_eq_some hstep).2

/-- An output ends with the name of any output it leads to. -/
theorem get?_resolve_of_leadsTo (hown : OwnNames nodes links) {k k' : SocketKey} (hk : k ∈ outputKeys nodes)
    (hto : LeadsTo nodes links k k') : (resolve nodes links).names.get? k = (resolve nodes links).names.get? k' := by
  obtain ⟨done, h, hdone⟩ := followed_spec hown
  rw [get?_resolve_output hown hk, get?_resolve_output hown (mem_outputKeys_of_leadsTo hk hto)]
  exact h.current_of_leadsTo hdone hto

/-- An output that is not redirected keeps its name. -/
theorem get?_resolve_of_end (hown : OwnNames nodes links) {k : SocketKey} (hk : k ∈ outputKeys nodes)
    (hend : redirected? nodes links k = none) : (resolve nodes links).names.get? k = firstName? nodes k := by
  obtain ⟨done, h, -⟩ := followed_spec hown
  obtain ⟨a, ha⟩ := Option.isSome_iff_exists.1 ((isSome_firstName?_iff nodes k).2 hk)
  have hd : k ∉ done := fun hd => by have := h.redirected k hd; rw [hend] at this; cases this
  rw [get?_resolve_output hown hk, ha, Option.map_some,
    Followed.current_of_not_redirected (h.redirect?_of_not_done hown ha hd)]

/-- An output on a cycle ends with the first name of an output on the cycle. -/
theorem get?_resolve_of_cycle (hown : OwnNames nodes links) {c : SocketKey} (hc : OnCycle nodes links c) :
    ∃ d, LeadsTo nodes links c d ∧ OnCycle nodes links d ∧ (resolve nodes links).names.get? c = firstName? nodes d := by
  obtain ⟨done, h, -⟩ := followed_spec hown
  obtain ⟨x, hcx, -⟩ := TransGen.head'_iff.1 hc
  have hck : c ∈ outputKeys nodes := (redirected?_eq_some hcx).1
  obtain ⟨a, ha⟩ := Option.isSome_iff_exists.1 ((isSome_firstName?_iff nodes c).2 hck)
  obtain ⟨d, hcd, hd⟩ := h.leads c a ha
  have hdc := Paths.back_on_cycle hc hcd
  refine ⟨d, hcd, ?_, by rw [get?_resolve_output hown hck, ha, Option.map_some, hd]⟩
  exact (TransGen.trans_right hdc hc).trans_left hcd

/-- Following redirects ends, or runs into a cycle. -/
theorem leadsTo_end_or_cycle (links : List Link) {k : SocketKey} (hk : k ∈ outputKeys nodes) :
    (∃ e, LeadsTo nodes links k e ∧ redirected? nodes links e = none) ∨
      ∃ c, LeadsTo nodes links k c ∧ OnCycle nodes links c :=
  Paths.end_or_cycle (outputKeys nodes) (fun _ _ _ h => (redirected?_eq_some h).2) hk

/-- Two outputs are drawn into one: their redirects end at outputs of one first name, or run into one cycle. -/
def SameEnd (nodes : List Node) (links : List Link) (k k' : SocketKey) : Prop :=
  (∃ e e', LeadsTo nodes links k e ∧ redirected? nodes links e = none ∧ LeadsTo nodes links k' e' ∧
    redirected? nodes links e' = none ∧ firstName? nodes e = firstName? nodes e') ∨
  ∃ c, OnCycle nodes links c ∧ LeadsTo nodes links k c ∧ LeadsTo nodes links k' c

theorem mem_outputKeys_of_redirected? {k : SocketKey} (h : (redirected? nodes links k).isSome) : k ∈ outputKeys nodes := by
  obtain ⟨k', hk'⟩ := Option.isSome_iff_exists.1 h
  exact (redirected?_eq_some hk').1

theorem redirected?_of_onCycle {c : SocketKey} (hc : OnCycle nodes links c) : (redirected? nodes links c).isSome := by
  obtain ⟨x, hcx, -⟩ := TransGen.head'_iff.1 hc
  exact Option.isSome_iff_exists.2 ⟨x, hcx⟩

theorem mem_outputKeys_of_leadsTo_cycle {k c : SocketKey} (hto : LeadsTo nodes links k c) (hc : OnCycle nodes links c) :
    k ∈ outputKeys nodes := by
  rcases ReflTransGen.cases_head hto with rfl | ⟨x, hkx, -⟩
  · exact mem_outputKeys_of_redirected? (redirected?_of_onCycle hc)
  · exact (redirected?_eq_some hkx).1

/-- Outputs of one name at the end lead to one end. -/
theorem sameEnd_of_get?_eq (hown : OwnNames nodes links) {k k' : SocketKey} (hk : k ∈ outputKeys nodes)
    (hk' : k' ∈ outputKeys nodes) (h : (resolve nodes links).names.get? k = (resolve nodes links).names.get? k') :
    SameEnd nodes links k k' := by
  -- A redirected output whose first name is that of another output is that output.
  have hsame : ∀ {d d'}, LeadsTo nodes links k d → LeadsTo nodes links k' d' → firstName? nodes d = firstName? nodes d' →
      (redirected? nodes links d).isSome ∨ (redirected? nodes links d').isSome → d = d' := by
    intro d d' hd hd' hfirst hred
    have hmem := mem_outputKeys_of_leadsTo hk hd
    have hmem' := mem_outputKeys_of_leadsTo hk' hd'
    rcases hred with hred | hred
    · exact hown d hmem d' hmem' hred hfirst
    · exact (hown d' hmem' d hmem hred hfirst.symm).symm
  rcases leadsTo_end_or_cycle links hk with ⟨e, hke, he⟩ | ⟨c, hkc, hc⟩ <;>
    rcases leadsTo_end_or_cycle links hk' with ⟨e', hke', he'⟩ | ⟨c', hkc', hc'⟩
  · left
    refine ⟨e, e', hke, he, hke', he', ?_⟩
    rw [← get?_resolve_of_end hown (mem_outputKeys_of_leadsTo hk hke) he,
      ← get?_resolve_of_end hown (mem_outputKeys_of_leadsTo hk' hke') he',
      ← get?_resolve_of_leadsTo hown hk hke, ← get?_resolve_of_leadsTo hown hk' hke', h]
  · obtain ⟨d, hcd, hd, hname⟩ := get?_resolve_of_cycle hown hc'
    rw [get?_resolve_of_leadsTo hown hk hke, get?_resolve_of_leadsTo hown hk' hkc', hname,
      get?_resolve_of_end hown (mem_outputKeys_of_leadsTo hk hke) he] at h
    obtain rfl := hsame hke (hkc'.trans hcd) h (.inr (redirected?_of_onCycle hd))
    exact absurd he (Option.isSome_iff_ne_none.1 (redirected?_of_onCycle hd))
  · obtain ⟨d, hcd, hd, hname⟩ := get?_resolve_of_cycle hown hc
    rw [get?_resolve_of_leadsTo hown hk hkc, get?_resolve_of_leadsTo hown hk' hke', hname,
      get?_resolve_of_end hown (mem_outputKeys_of_leadsTo hk' hke') he'] at h
    obtain rfl := hsame (hkc.trans hcd) hke' h (.inl (redirected?_of_onCycle hd))
    exact absurd he' (Option.isSome_iff_ne_none.1 (redirected?_of_onCycle hd))
  · right
    obtain ⟨d, hcd, hd, hname⟩ := get?_resolve_of_cycle hown hc
    obtain ⟨d', hcd', hd', hname'⟩ := get?_resolve_of_cycle hown hc'
    rw [get?_resolve_of_leadsTo hown hk hkc, get?_resolve_of_leadsTo hown hk' hkc', hname, hname'] at h
    obtain rfl := hsame (hkc.trans hcd) (hkc'.trans hcd') h (.inl (redirected?_of_onCycle hd))
    exact ⟨d, hd, hkc.trans hcd, hkc'.trans hcd'⟩

/-- Redirects give each output the first name of where they lead, and join two outputs just where the graph does. -/
theorem resolve_follows_redirects (nodes : List Node) (links : List Link) (hown : OwnNames nodes links) :
    (∀ k ∈ outputKeys nodes, ∀ e, LeadsTo nodes links k e → redirected? nodes links e = none →
      ∃ name, firstName? nodes e = some name ∧ (resolve nodes links).names.get? k = some name) ∧
    (∀ c, OnCycle nodes links c → ∃ d name, LeadsTo nodes links c d ∧ OnCycle nodes links d ∧
      firstName? nodes d = some name ∧ ∀ k, LeadsTo nodes links k c → (resolve nodes links).names.get? k = some name) ∧
    (∀ k ∈ outputKeys nodes, ∀ k' ∈ outputKeys nodes,
      ((resolve nodes links).names.get? k = (resolve nodes links).names.get? k' ↔ SameEnd nodes links k k')) := by
  refine ⟨?_, ?_, ?_⟩
  · intro k hk e hto hend
    have he := mem_outputKeys_of_leadsTo hk hto
    obtain ⟨name, hname⟩ := Option.isSome_iff_exists.1 ((isSome_firstName?_iff nodes e).2 he)
    exact ⟨name, hname, by rw [get?_resolve_of_leadsTo hown hk hto, get?_resolve_of_end hown he hend, hname]⟩
  · intro c hc
    obtain ⟨d, hcd, hd, hfinal⟩ := get?_resolve_of_cycle hown hc
    have hdk := mem_outputKeys_of_redirected? (redirected?_of_onCycle hd)
    obtain ⟨name, hname⟩ := Option.isSome_iff_exists.1 ((isSome_firstName?_iff nodes d).2 hdk)
    refine ⟨d, name, hcd, hd, hname, fun k hkc => ?_⟩
    rw [get?_resolve_of_leadsTo hown (mem_outputKeys_of_leadsTo_cycle hkc hc) hkc, hfinal, hname]
  · intro k hk k' hk'
    refine ⟨sameEnd_of_get?_eq hown hk hk', ?_⟩
    rintro (⟨e, e', hke, he, hke', he', hfirst⟩ | ⟨c, -, hkc, hkc'⟩)
    · rw [get?_resolve_of_leadsTo hown hk hke, get?_resolve_of_leadsTo hown hk' hke',
        get?_resolve_of_end hown (mem_outputKeys_of_leadsTo hk hke) he,
        get?_resolve_of_end hown (mem_outputKeys_of_leadsTo hk' hke') he', hfirst]
    · rw [get?_resolve_of_leadsTo hown hk hkc, get?_resolve_of_leadsTo hown hk' hkc']

end Ends

/-- Passes whose output can be redirected. -/
def redirectable (count : Nat) : List Node :=
  (List.range count).map fun i =>
    ((Node.bare ⟨i⟩ "ColorPass" .pass).addInput (.input "output_res_target" .fbo)).addOutput (.output "output_res" .fbo)

/-- A chain of two redirects, drawn end first, and a cycle of two. -/
theorem resolve_chain_and_cycle :
    let nodes := redirectable 5
    let links : List Link := [⟨1, "output_res", 0, "output_res_target"⟩, ⟨2, "output_res", 1, "output_res_target"⟩,
      ⟨3, "output_res", 4, "output_res_target"⟩, ⟨4, "output_res", 3, "output_res_target"⟩]
    OwnNames nodes links ∧
      (resolve nodes links).names.get? ⟨0, .output, "output_res"⟩ = some "ColorPass_2_output_res" ∧
      (resolve nodes links).names.get? ⟨3, .output, "output_res"⟩ =
        (resolve nodes links).names.get? ⟨4, .output, "output_res"⟩ := by
  intro nodes links
  have hown : OwnNames nodes links := by decide +kernel
  have h := resolve_follows_redirects nodes links hown
  refine ⟨hown, ?_, ?_⟩
  · have h01 : redirected? nodes links ⟨0, .output, "output_res"⟩ = some ⟨1, .output, "output_res"⟩ := by decide +kernel
    have h12 : redirected? nodes links ⟨1, .output, "output_res"⟩ = some ⟨2, .output, "output_res"⟩ := by decide +kernel
    obtain ⟨name, hname, hfinal⟩ := h.1 _ (redirected?_eq_some h01).1 _ (.head h01 (.single h12)) (by decide +kernel)
    have : firstName? nodes ⟨2, .output, "output_res"⟩ = some "ColorPass_2_output_res" := by decide +kernel
    rw [hfinal, ← hname, this]
  · have h34 : redirected? nodes links ⟨3, .output, "output_res"⟩ = some ⟨4, .output, "output_res"⟩ := by decide +kernel
    have h43 : redirected? nodes links ⟨4, .output, "output_res"⟩ = some ⟨3, .output, "output_res"⟩ := by decide +kernel
    refine (h.2.2 _ (redirected?_eq_some h34).1 _ (redirected?_eq_some h43).1).2 (.inr ⟨_, .head h34 (.single h43), .refl, ?_⟩)
    exact .single h43

end RenderGraph.Naming
