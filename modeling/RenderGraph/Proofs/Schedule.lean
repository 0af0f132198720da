import RenderGraph.Proofs.Positions
import RenderGraph.Schedule
/-!
# The order of passes is the least there is

`Progress` is followed step by step: it orders greedily, keeps for each pass the
number of writers that are still to come, and has just the free passes ready
(`Tracks`, kept by `step`). After as many steps as there are passes nothing is
ready any more, so what is left waits on a cycle.

`isOk_topological_iff`: there is an order just if no pass feeds itself through
others. `topological_least`: the order is then a permutation of the positions
that puts writers before readers, and the least of these.
-/

namespace RenderGraph.Schedule

open Relation Positions

/-- The pass at one position writes a name that the pass at another one reads. -/
def Feeds (passes : List Pass) (i j : Nat) : Prop :=
  i ≠ j ∧ ∃ p q name, passes[i]? = some p ∧ passes[j]? = some q ∧ name ∈ p.writes ∧ name ∈ q.reads

theorem Feeds.lt {passes : List Pass} {i j : Nat} (h : Feeds passes i j) : i < passes.length ∧ j < passes.length := by
  obtain ⟨-, p, q, -, hp, hq, -⟩ := h
  exact ⟨(List.getElem?_eq_some_iff.1 hp).1, (List.getElem?_eq_some_iff.1 hq).1⟩

/-! ## Readers -/

/-- The second position is listed among the readers of the first. -/
def Edge (readers : List (List Nat)) (i j : Nat) : Prop := j ∈ (readers[i]?).getD []

instance (readers : List (List Nat)) (i j : Nat) : Decidable (Edge readers i j) :=
  inferInstanceAs (Decidable (j ∈ (readers[i]?).getD []))

theorem Edge.lt_length {readers : List (List Nat)} {i j : Nat} (h : Edge readers i j) : i < readers.length := by
  by_contra hi
  rw [Edge, List.getElem?_eq_none (by omega)] at h
  simp at h

/-- Readers are positions, and none is listed twice. -/
def Proper (readers : List (List Nat)) : Prop :=
  ∀ js ∈ readers, js.Nodup ∧ ∀ j ∈ js, j < readers.length

theorem Proper.nodup {readers : List (List Nat)} (h : Proper readers) (i : Nat) : ((readers[i]?).getD []).Nodup := by
  cases hi : readers[i]? with
  | none => exact List.nodup_nil
  | some js => exact (h js (List.mem_of_getElem? hi)).1

theorem Proper.edge_lt {readers : List (List Nat)} (h : Proper readers) {i j : Nat} (he : Edge readers i j) :
    j < readers.length := by
  unfold Edge at he
  cases hi : readers[i]? with
  | none => simp [hi] at he
  | some js => exact (h js (List.mem_of_getElem? hi)).2 j (by simpa [hi] using he)

theorem length_readers (passes : List Pass) : (readers passes).length = passes.length := by
  simp [readers]

theorem feeds_iff (p q : Pass) : p.feeds q = true ↔ ∃ name, name ∈ p.writes ∧ name ∈ q.reads := by
  simp [Pass.feeds]

theorem edge_readers (passes : List Pass) (i j : Nat) : Edge (readers passes) i j ↔ Feeds passes i j := by
  unfold Edge Feeds readers
  rw [List.getElem?_map, List.getElem?_zipIdx]
  cases hi : passes[i]? with
  | none => simp
  | some p =>
    simp only [Option.map_some, Option.getD_some, List.mem_map, List.mem_filter, List.mem_zipIdx_iff_getElem?,
      Prod.exists, Nat.zero_add, Bool.and_eq_true, decide_eq_true_eq, feeds_iff]
    constructor
    · rintro ⟨q, k, ⟨hq, hne, name, hw, hr⟩, rfl⟩
      exact ⟨hne, p, q, name, rfl, hq, hw, hr⟩
    · rintro ⟨hne, _, q, name, hp, hq, hw, hr⟩
      cases hp
      exact ⟨q, j, ⟨hq, hne, name, hw, hr⟩, rfl⟩

theorem proper_readers (passes : List Pass) : Proper (readers passes) := by
  intro js hjs
  obtain ⟨⟨p, i⟩, -, rfl⟩ := List.mem_map.1 hjs
  refine ⟨((List.filter_sublist.map Prod.snd).nodup (by rw [List.zipIdx_map_snd]; exact List.nodup_range')), ?_⟩
  intro j hj
  obtain ⟨⟨q, k⟩, hq, rfl⟩ := List.mem_map.1 hj
  have := (List.mem_zipIdx (List.mem_filter.1 hq).1).2.1
  simpa [length_readers] using this

/-! ## What a step does -/

/-- How many passes before `i` are not taken. -/
def pending (readers : List (List Nat)) (taken : List Nat) (i : Nat) : Nat :=
  (List.range readers.length).countP fun p => Edge readers p i ∧ p ∉ taken

section Pending
variable {readers : List (List Nat)} {taken : List Nat}

theorem pending_eq_zero_iff (i : Nat) : pending readers taken i = 0 ↔ ∀ p, Edge readers p i → p ∈ taken := by
  simp only [pending, List.countP_eq_zero, List.mem_range, decide_eq_true_eq, not_and, not_not]
  exact ⟨fun h p hp => h p hp.lt_length hp, fun h p _ hp => h p hp⟩

theorem free_iff {i : Nat} (hi : i < readers.length) :
    Free (Edge readers) readers.length taken i ↔ i ∉ taken ∧ pending readers taken i = 0 := by
  simp [Free, hi, pending_eq_zero_iff]

/-- Taking a pass leaves its readers with one pass less before them. -/
theorem pending_concat {k : Nat} (hk : k < readers.length) (ht : k ∉ taken) (i : Nat) :
    pending readers taken i = pending readers (taken ++ [k]) i + if Edge readers k i then 1 else 0 := by
  have hperm := List.perm_cons_erase (List.mem_range.2 hk)
  have hrest : ∀ p ∈ (List.range readers.length).erase k,
      (decide (Edge readers p i ∧ p ∉ taken) = true ↔ decide (Edge readers p i ∧ p ∉ taken ++ [k]) = true) := by
    intro p hp
    have := ((List.nodup_range).mem_erase_iff.1 hp).1
    simp [this]
  -- Only the count for `k` itself changes, so it is taken out of the sum first.
  unfold pending
  rw [hperm.countP_eq, hperm.countP_eq, List.countP_cons, List.countP_cons, List.countP_congr hrest]
  simp [ht]

end Pending

namespace Progress

/-- How many passes a pass waits for. -/
def left (s : Progress) (i : Nat) : Nat := (s.waiting[i]?).getD 0

theorem mem_insertSorted (i k : Nat) (l : List Nat) : k ∈ insertSorted i l ↔ k = i ∨ k ∈ l := by
  induction l with
  | nil => simp [insertSorted]
  | cons j rest ih =>
    rw [insertSorted]
    split
    · simp
    · rw [List.mem_cons, ih, List.mem_cons]
      tauto

theorem pairwise_insertSorted {i : Nat} {l : List Nat} (h : l.Pairwise (· < ·)) (hi : i ∉ l) :
    (insertSorted i l).Pairwise (· < ·) := by
  induction l with
  | nil => simp [insertSorted]
  | cons j rest ih =>
    obtain ⟨hj, hr⟩ := List.pairwise_cons.1 h
    simp only [List.mem_cons, not_or] at hi
    rw [insertSorted]
    split
    · rename_i hij
      refine List.pairwise_cons.2 ⟨fun k hk => ?_, h⟩
      rcases List.mem_cons.1 hk with rfl | hk
      · exact hij
      · exact Nat.lt_trans hij (hj k hk)
    · refine List.pairwise_cons.2 ⟨fun k hk => ?_, ih hr hi.2⟩
      rcases (mem_insertSorted i k rest).1 hk with rfl | hk
      · omega
      · exact hj k hk

theorem left_release (s : Progress) {i : Nat} (hi : i < s.waiting.length) (k : Nat) :
    (s.release i).left k = if k = i then s.left i - 1 else s.left k := by
  simp only [release, left, List.getElem?_set]
  by_cases h : i = k
  · subst h; simp [hi]
  · simp [h, Ne.symm h]

theorem mem_ready_release (s : Progress) (i k : Nat) :
    k ∈ (s.release i).ready ↔ k ∈ s.ready ∨ (k = i ∧ s.left i - 1 = 0) := by
  simp only [release, left]
  split <;> rename_i h0
  · rw [mem_insertSorted, h0]; tauto
  · simp [h0]

theorem pairwise_ready_release {s : Progress} {i : Nat} (h : s.ready.Pairwise (· < ·)) (hi : i ∉ s.ready) :
    (s.release i).ready.Pairwise (· < ·) := by
  simp only [release]
  split
  · exact pairwise_insertSorted h hi
  · exact h

/-- Releasing several passes, none of them ready. -/
theorem foldl_release (js : List Nat) :
    ∀ s : Progress, js.Nodup → (∀ j ∈ js, j < s.waiting.length ∧ j ∉ s.ready) → s.ready.Pairwise (· < ·) →
      let t := js.foldl release s
      t.order = s.order ∧ t.waiting.length = s.waiting.length ∧
      (∀ k, t.left k = if k ∈ js then s.left k - 1 else s.left k) ∧
      t.ready.Pairwise (· < ·) ∧ ∀ k, k ∈ t.ready ↔ k ∈ s.ready ∨ (k ∈ js ∧ s.left k - 1 = 0) := by
  induction js with
  | nil => intro s _ _ hs; simpa using hs
  | cons j js ih =>
    intro s hnd hjs hs
    obtain ⟨hj, hnd⟩ := List.nodup_cons.1 hnd
    obtain ⟨hlt, hready⟩ := hjs j (by simp)
    -- Positions do not repeat, so the first release leaves alone what the others are about.
    have hleft : ∀ k ∈ js, (s.release j).left k = s.left k := fun k hk => by
      rw [left_release s hlt, if_neg (by rintro rfl; exact hj hk)]
    have hrest : ∀ k ∈ js, k < (s.release j).waiting.length ∧ k ∉ (s.release j).ready := by
      intro k hk
      refine ⟨by simpa [release] using (hjs k (by simp [hk])).1, fun h => ?_⟩
      rcases (mem_ready_release s j k).1 h with h | ⟨rfl, -⟩
      · exact (hjs k (by simp [hk])).2 h
      · exact hj hk
    obtain ⟨h1, h2, h3, h4, h5⟩ := ih (s.release j) hnd hrest (pairwise_ready_release hs hready)
    refine ⟨h1, by simpa [release] using h2, fun k => ?_, h4, fun k => ?_⟩
    · rw [List.foldl_cons, h3]
      by_cases hk : k ∈ js
      · simp [hk, hleft k hk]
      · rw [if_neg hk, left_release s hlt]
        by_cases hkj : k = j <;> simp [hkj, hk]
    · rw [List.foldl_cons, h5, mem_ready_release]
      by_cases hk : k ∈ js
      · rw [hleft k hk]
        have : k ≠ j := by rintro rfl; exact hj hk
        simp [hk, this]
      · by_cases hkj : k = j
        · subst hkj; simp [hk]
        · simp [hk, hkj]

end Progress

/-! ## Runs -/

/-- What holds of the state after every step. -/
structure Tracks (readers : List (List Nat)) (s : Progress) : Prop where
  greedy : Greedy (Edge readers) readers.length s.order
  size : s.waiting.length = readers.length
  left : ∀ i < readers.length, s.left i = pending readers s.order i
  sorted : s.ready.Pairwise (· < ·)
  ready : ∀ i, i ∈ s.ready ↔ Free (Edge readers) readers.length s.order i

section Runs
variable {readers : List (List Nat)}

theorem countP_contains (i : Nat) : readers.countP (fun js => js.contains i) = pending readers [] i := by
  have h : readers = (List.range readers.length).map fun p => (readers[p]?).getD [] :=
    List.ext_getElem (by simp) fun p hp _ => by simp [hp]
  conv_lhs => rw [h, List.countP_map]
  refine List.countP_congr fun p _ => ?_
  simp [Edge]

theorem waiting_start {i : Nat} (hi : i < readers.length) :
    (Progress.start readers).waiting[i]? = some (pending readers [] i) := by
  simp only [Progress.start, List.getElem?_map, List.getElem?_range hi, Option.map_some, countP_contains]

theorem tracks_start : Tracks readers (.start readers) where
  greedy := .nil
  size := by simp [Progress.start]
  left i hi := by rw [Progress.left, waiting_start hi]; rfl
  sorted := (List.pairwise_lt_range).filter _
  ready i := by
    have hm : i ∈ (Progress.start readers).ready ↔
        i < readers.length ∧ (Progress.start readers).waiting[i]? = some 0 := by
      simp [Progress.start, List.mem_filter]
    change _ ↔ Free (Edge readers) readers.length [] i
    rw [hm]
    by_cases hi : i < readers.length
    · simp [waiting_start hi, free_iff hi, hi]
    · simp [Free, hi]

/-- The passes that a step releases do wait, for the one that is ordered. -/
theorem Tracks.left_pos {s : Progress} (h : Tracks readers s) (hp : Proper readers) {i j : Nat} (hi : i ∈ s.ready)
    (he : Edge readers i j) : 0 < s.left j := by
  obtain ⟨hlt, ht, -⟩ := (h.ready i).1 hi
  rw [h.left j (hp.edge_lt he), pending_concat hlt ht j, if_pos he]
  omega

/-- None of the passes that a step releases is ready yet. -/
theorem Tracks.released {s : Progress} (h : Tracks readers s) (hp : Proper readers) {i j : Nat} {rest : List Nat}
    (hr : s.ready = i :: rest) (he : Edge readers i j) : j < s.waiting.length ∧ j ∉ rest := by
  refine ⟨h.size ▸ hp.edge_lt he, fun hjr => ?_⟩
  have hpos := h.left_pos hp (by simp [hr]) he
  have hfree := (free_iff (hp.edge_lt he)).1 ((h.ready j).1 (by simp [hr, hjr]))
  rw [h.left j (hp.edge_lt he), hfree.2] at hpos
  exact Nat.lt_irrefl _ hpos

/-- What is free once the first ready pass is ordered: the others that were ready, and the readers that waited for
nothing else. -/
theorem Tracks.free_concat {s : Progress} (h : Tracks readers s) (hp : Proper readers) {i : Nat} {rest : List Nat}
    (hr : s.ready = i :: rest) (k : Nat) :
    Free (Edge readers) readers.length (s.order ++ [i]) k ↔ k ∈ rest ∨ (Edge readers i k ∧ s.left k - 1 = 0) := by
  have hi : i ∈ s.ready := by simp [hr]
  obtain ⟨hlt, ht, hbefore⟩ := (h.ready i).1 hi
  obtain ⟨hfirst, -⟩ := List.pairwise_cons.1 (hr ▸ h.sorted)
  by_cases hk : k < readers.length
  · have hold := h.ready k
    rw [free_iff hk, hr, List.mem_cons] at hold
    have hki : k ∈ rest ↔ k ∉ s.order ++ [i] ∧ pending readers s.order k = 0 := by
      have hne : k ∈ rest → k ≠ i := fun hk => Nat.ne_of_gt (hfirst k hk)
      simp only [List.mem_append, List.mem_singleton, not_or]
      tauto
    -- A reader of `i` was not taken before: all that it waits for would stand in front of it, `i` too.
    have hnew : Edge readers i k → k ∉ s.order ++ [i] := by
      intro he hm
      rcases List.mem_append.1 hm with hm | hm
      · exact absurd ((h.greedy.idxOf_lt he hm).1) ht
      · rw [List.mem_singleton] at hm
        subst hm
        exact ht (hbefore k he)
    rw [free_iff hk, hki, h.left k hk, pending_concat hlt ht k]
    by_cases he : Edge readers i k
    · simp [he, hnew he]
    · simp [he]
  · have hk' : k ∉ rest := fun h' => hk ((h.ready k).1 (by simp [hr, h'])).1
    have he : ¬ Edge readers i k := fun he => hk (hp.edge_lt he)
    simp [Free, hk, hk', he]

theorem Tracks.step {s : Progress} (h : Tracks readers s) (hp : Proper readers) : Tracks readers (s.step readers) := by
  unfold Progress.step
  split
  · exact h
  · rename_i i rest hr
    obtain ⟨hlt, ht, -⟩ := (h.ready i).1 (by simp [hr])
    obtain ⟨hfirst, hrest⟩ := List.pairwise_cons.1 (hr ▸ h.sorted)
    obtain ⟨horder, hsize, hleft, hsorted, hready⟩ := Progress.foldl_release _
      { s with ready := rest, order := s.order ++ [i] } (hp.nodup i) (fun _ he => h.released hp hr he) hrest
    refine ⟨?_, hsize.trans h.size, fun k hk => ?_, hsorted, fun k => ?_⟩
    · rw [horder]
      refine .snoc h.greedy ((h.ready i).1 (by simp [hr])) fun j hj => ?_
      rcases List.mem_cons.1 (hr ▸ (h.ready j).2 hj) with rfl | hj
      · exact Nat.le_refl _
      · exact Nat.le_of_lt (hfirst j hj)
    · have hpend : s.left k = pending readers (s.order ++ [i]) k + if Edge readers i k then 1 else 0 := by
        rw [← pending_concat hlt ht k, h.left k hk]
      rw [horder, hleft k]
      change (if Edge readers i k then s.left k - 1 else s.left k) = _
      rw [hpend]
      split <;> simp
    · rw [horder, hready k]
      exact (h.free_concat hp hr k).symm

theorem Tracks.run {s : Progress} (h : Tracks readers s) (hp : Proper readers) (steps : Nat) :
    Tracks readers (.run readers steps s) := by
  induction steps generalizing s with
  | zero => exact h
  | succ steps ih => exact ih (h.step hp)

/-- A step that finds a pass ready orders one more. -/
theorem length_order_step {s : Progress} (hr : s.ready ≠ []) :
    (s.step readers).order.length = s.order.length + 1 := by
  unfold Progress.step
  split
  · contradiction
  · rename_i i rest _
    have horder : ∀ (js : List Nat) (t : Progress), (js.foldl Progress.release t).order = t.order := by
      intro js
      induction js with
      | nil => intro t; rfl
      | cons j js ih => intro t; rw [List.foldl_cons, ih]; rfl
    rw [horder]
    simp

theorem step_of_ready_nil {s : Progress} (hr : s.ready = []) : s.step readers = s := by
  simp [Progress.step, hr]

theorem run_of_ready_nil {s : Progress} (hr : s.ready = []) (steps : Nat) : Progress.run readers steps s = s := by
  induction steps with
  | zero => rfl
  | succ steps ih => rw [Progress.run, step_of_ready_nil hr, ih]

/-- After as many steps as there are passes, nothing is ready. -/
theorem ready_run {s : Progress} (h : Tracks readers s) (hp : Proper readers) (steps : Nat)
    (hs : readers.length ≤ s.order.length + steps) : (Progress.run readers steps s).ready = [] := by
  induction steps generalizing s with
  | zero =>
    refine List.eq_nil_iff_forall_not_mem.2 fun i hi => ?_
    obtain ⟨hlt, ht, -⟩ := (h.ready i).1 hi
    have := (h.greedy.perm_range (Nat.le_antisymm h.greedy.length_le hs)).mem_iff.2 (List.mem_range.2 hlt)
    exact ht this
  | succ steps ih =>
    rw [Progress.run]
    by_cases hr : s.ready = []
    · rw [step_of_ready_nil hr, run_of_ready_nil hr]; exact hr
    · exact ih (h.step hp) (by rw [length_order_step hr]; omega)

end Runs

/-! ## The order -/

section Topological
variable (passes : List Pass)

theorem edge_readers_eq : Edge (readers passes) = Feeds passes := by
  funext i j
  exact propext (edge_readers passes i j)

theorem greedy_progress : Greedy (Feeds passes) passes.length (progress passes).order := by
  have h := (tracks_start.run (proper_readers passes) passes.length).greedy
  rw [length_readers, edge_readers_eq] at h
  exact h

theorem not_free_progress (i : Nat) : ¬ Free (Feeds passes) passes.length (progress passes).order i := by
  have h := tracks_start.run (proper_readers passes) passes.length
  have hr := ready_run tracks_start (proper_readers passes) passes.length (by rw [length_readers]; omega)
  rw [← length_readers, ← edge_readers_eq]
  intro hf
  have := (h.ready i).2 hf
  rw [hr] at this
  cases this

theorem length_progress_iff :
    (progress passes).order.length = passes.length ↔ ∀ i, ¬ TransGen (Feeds passes) i i :=
  (greedy_progress passes).length_eq_iff (not_free_progress passes) fun _ _ h => h.lt

theorem topological_eq_ok {s : Schedule} (h : topological passes = .ok s) :
    (progress passes).order.length = passes.length ∧ s.order = (progress passes).order := by
  unfold topological at h
  dsimp only at h
  split at h
  · cases h
  · cases h
    exact ⟨Nat.le_antisymm (greedy_progress passes).length_le (by omega), rfl⟩

theorem isOrder_topological {s : Schedule} (h : topological passes = .ok s) :
    IsOrder (Feeds passes) passes.length s.order := by
  obtain ⟨hlen, hs⟩ := topological_eq_ok passes h
  rw [hs]
  exact (greedy_progress passes).isOrder hlen fun _ _ h => h.lt.2

theorem isOk_topological_iff :
    (∃ s, topological passes = .ok s) ↔ ∀ i, ¬ TransGen (Feeds passes) i i := by
  rw [← length_progress_iff]
  constructor
  · rintro ⟨s, h⟩
    exact (topological_eq_ok passes h).1
  · intro h
    unfold topological
    dsimp only
    rw [if_neg (by omega)]
    exact ⟨_, rfl⟩

/-- Passes can be ordered just if none feeds itself through others, and the
order is then the least of all that put writers before readers, so passes in
order stay as they are. -/
theorem topological_least :
    ((∃ s, topological passes = .ok s) ↔ ∀ i, ¬ TransGen (Feeds passes) i i) ∧
    ∀ s, topological passes = .ok s →
      IsOrder (Feeds passes) passes.length s.order ∧
      (∀ order, IsOrder (Feeds passes) passes.length order →
        List.Lex (· < ·) s.order order ∨ s.order = order) ∧
      (IsOrder (Feeds passes) passes.length (List.range passes.length) → s.order = List.range passes.length) := by
  refine ⟨isOk_topological_iff passes, fun s h => ⟨isOrder_topological passes h, ?_⟩⟩
  obtain ⟨hlen, hs⟩ := topological_eq_ok passes h
  have hg := greedy_progress passes
  rw [hs]
  refine ⟨fun order => hg.lex_or_eq hlen, fun hr => ?_⟩
  rcases hg.lex_or_eq hlen hr with h1 | h1
  · rcases Greedy.range_lex_or_eq (hg.perm_range hlen) with h2 | h2
    · exact absurd h2 (Std.Asymm.asymm _ _ h1)
    · exact h2.symm
  · exact h1

end Topological

end RenderGraph.Schedule
