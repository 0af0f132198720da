import Mathlib.Data.List.Sort
import RenderGraph.Proofs.Schedule
/-!
# How readers are collected and counted

Who waits for whom can be found out name by name: list the writers of each name, and
for each name that a pass reads put it into the set of each of them. A name may be
written and read several times, so one edge is found several times (`edges`); a set
takes it once. Then each pass waits for as many passes as there are sets it is in.

`collected_eq_readers`: the sets are `readers`. `counted_eq_waiting`: the counts are
those that `Progress.start` has.
-/

namespace RenderGraph.Schedule

section Collected
variable (passes : List Pass)

/-- The names that passes write with the positions of these, as often as they are written. -/
def writings : List (String × Nat) := passes.zipIdx.flatMap fun (p, i) => p.writes.map fun name => (name, i)

/-- The positions of the passes that write each name, as often as they write it. -/
def writers : Table String (List Nat) :=
  (writings passes).foldl (fun t e => t.alter e.1 fun is => is.getD [] ++ [e.2]) .empty

/-- A writer and a reader for each name that is read, as often as it is written and read. -/
def edges : List (Nat × Nat) :=
  passes.zipIdx.flatMap fun (p, j) => p.reads.flatMap fun name =>
    ((((writers passes).get? name).getD []).filter (· ≠ j)).map fun i => (i, j)

/-- Puts the reader of an edge into the set of the writer, where it stands once. -/
def addEdge (sets : List (List Nat)) (e : Nat × Nat) : List (List Nat) :=
  sets.modify e.1 fun js => if e.2 ∈ js then js else insertSorted e.2 js

/-- For each pass the set of its readers. -/
def collected : List (List Nat) := (edges passes).foldl addEdge (List.replicate passes.length [])

end Collected

/-- In how many sets each position is, counted member by member. -/
def counted (sets : List (List Nat)) : List Nat :=
  sets.flatten.foldl (fun counts j => counts.modify j (· + 1)) (List.replicate sets.length 0)

/-! ## Edges -/

theorem getD_get?_foldl_writers (es : List (String × Nat)) (name : String) : ∀ t : Table String (List Nat),
    ((es.foldl (fun t e => t.alter e.1 fun is => is.getD [] ++ [e.2]) t).get? name).getD [] =
      (t.get? name).getD [] ++ (es.filter (·.1 = name)).map Prod.snd := by
  induction es with
  | nil => intro t; exact (List.append_nil _).symm
  | cons e es ih =>
    intro t
    rw [List.foldl_cons, ih, Table.alter, Table.get?_insert]
    by_cases h : e.1 = name
    · rw [if_pos h.symm, Option.getD_some, List.filter_cons_of_pos (by simpa using h), List.map_cons, List.append_assoc, h]
      rfl
    · rw [if_neg (Ne.symm h), List.filter_cons_of_neg (by simpa using h)]

section Edges
variable (passes : List Pass)

theorem mem_writers (name : String) (i : Nat) :
    i ∈ ((writers passes).get? name).getD [] ↔ ∃ p, passes[i]? = some p ∧ name ∈ p.writes := by
  rw [writers, getD_get?_foldl_writers, Table.get?_empty]
  simp only [Option.getD_none, List.nil_append, writings, List.mem_map, List.mem_filter, List.mem_flatMap,
    List.mem_zipIdx_iff_getElem?, Prod.exists, decide_eq_true_eq, Prod.mk.injEq]
  constructor
  · rintro ⟨_, _, ⟨⟨p, k, hp, name, hname, rfl, rfl⟩, rfl⟩, rfl⟩
    exact ⟨p, hp, hname⟩
  · rintro ⟨p, hp, hname⟩
    exact ⟨name, i, ⟨⟨p, i, hp, name, hname, rfl, rfl⟩, rfl⟩, rfl⟩

/-- However often an edge is found, it joins a pass to another one that it feeds. -/
theorem mem_edges (i j : Nat) : (i, j) ∈ edges passes ↔ Feeds passes i j := by
  simp only [edges, List.mem_flatMap, List.mem_map, List.mem_filter, mem_writers, List.mem_zipIdx_iff_getElem?, Prod.exists,
    decide_eq_true_eq, Prod.mk.injEq]
  constructor
  · rintro ⟨q, k, hq, name, hr, _, ⟨⟨p, hp, hw⟩, hne⟩, rfl, rfl⟩
    exact ⟨hne, p, q, name, hp, hq, hw, hr⟩
  · rintro ⟨hne, p, q, name, hp, hq, hw, hr⟩
    exact ⟨q, j, hq, name, hr, i, ⟨⟨p, hp, hw⟩, hne⟩, rfl, rfl⟩

end Edges

/-! ## Sets of readers -/

/-- Positions stand in each set in order, and once. -/
def Ascending (sets : List (List Nat)) : Prop := ∀ js ∈ sets, js.Pairwise (· < ·)

/-- Such sets are the same if they join the same positions. -/
theorem Ascending.eq_of_edge_iff {sets sets' : List (List Nat)} (h : Ascending sets) (h' : Ascending sets')
    (hlength : sets.length = sets'.length) (hedge : ∀ i j, Edge sets i j ↔ Edge sets' i j) : sets = sets' := by
  refine List.ext_getElem hlength fun i hi hi' => ?_
  refine (h _ (List.getElem_mem hi)).eq_of_mem_iff (h' _ (List.getElem_mem hi')) fun j => ?_
  have hij := hedge i j
  rwa [Edge, Edge, List.getElem?_eq_getElem hi, List.getElem?_eq_getElem hi', Option.getD_some, Option.getD_some] at hij

theorem edge_addEdge (sets : List (List Nat)) (e : Nat × Nat) (i j : Nat) :
    Edge (addEdge sets e) i j ↔ Edge sets i j ∨ (i < sets.length ∧ (i, j) = e) := by
  obtain ⟨writer, reader⟩ := e
  rw [Edge, Edge, addEdge, List.getElem?_modify]
  cases hi : sets[i]? with
  | none =>
    have : ¬ i < sets.length := Nat.not_lt.2 (List.getElem?_eq_none_iff.1 hi)
    simp [this]
  | some js =>
    have hlt : i < sets.length := (List.getElem?_eq_some_iff.1 hi).1
    simp only [Option.map_eq_map, Option.map_some, Option.getD_some, Prod.mk.injEq, hlt, true_and]
    by_cases hw : writer = i
    · subst hw
      by_cases hr : reader ∈ js
      · simp only [if_true, hr, true_and]
        exact ⟨.inl, fun h => h.elim id fun h => h ▸ hr⟩
      · rw [if_pos rfl, if_neg hr, Progress.mem_insertSorted, or_comm, eq_self, true_and]
    · simp only [if_neg hw, Ne.symm hw, false_and, or_false]

theorem length_foldl_addEdge (es : List (Nat × Nat)) : ∀ sets, (es.foldl addEdge sets).length = sets.length := by
  induction es with
  | nil => intro sets; rfl
  | cons e es ih => intro sets; rw [List.foldl_cons, ih, addEdge, List.length_modify]

theorem edge_foldl_addEdge (es : List (Nat × Nat)) (i j : Nat) :
    ∀ sets, Edge (es.foldl addEdge sets) i j ↔ Edge sets i j ∨ (i < sets.length ∧ (i, j) ∈ es) := by
  induction es with
  | nil => intro sets; simp
  | cons e es ih =>
    intro sets
    rw [List.foldl_cons, ih, edge_addEdge, addEdge, List.length_modify, List.mem_cons, or_assoc, ← and_or_left]

theorem Ascending.addEdge {sets : List (List Nat)} (h : Ascending sets) (e : Nat × Nat) : Ascending (addEdge sets e) := by
  intro js hjs
  obtain ⟨i, hi⟩ := List.mem_iff_getElem?.1 hjs
  rw [Schedule.addEdge, List.getElem?_modify] at hi
  obtain ⟨old, hold, rfl⟩ := Option.map_eq_some_iff.1 hi
  have hasc := h old (List.mem_of_getElem? hold)
  split
  · split
    · exact hasc
    · rename_i hnew
      exact Progress.pairwise_insertSorted hasc hnew
  · exact hasc

theorem Ascending.foldl_addEdge (es : List (Nat × Nat)) : ∀ {sets}, Ascending sets → Ascending (es.foldl Schedule.addEdge sets) := by
  induction es with
  | nil => intro _ h; exact h
  | cons e es ih => intro _ h; exact ih (h.addEdge e)

theorem ascending_readers (passes : List Pass) : Ascending (readers passes) := by
  intro js hjs
  obtain ⟨⟨p, i⟩, -, rfl⟩ := List.mem_map.1 hjs
  refine List.Pairwise.sublist (List.filter_sublist.map Prod.snd) ?_
  rw [List.zipIdx_map_snd]
  exact List.pairwise_lt_range'

/-- The sets collected name by name are the readers. -/
theorem collected_eq_readers (passes : List Pass) : collected passes = readers passes := by
  have hempty : ∀ js ∈ List.replicate passes.length ([] : List Nat), js = [] := fun _ => List.eq_of_mem_replicate
  have hlength : (collected passes).length = (readers passes).length := by
    rw [collected, length_foldl_addEdge, List.length_replicate, length_readers]
  have hascending : Ascending (collected passes) :=
    Ascending.foldl_addEdge _ fun js hjs => by rw [hempty js hjs]; exact List.Pairwise.nil
  refine hascending.eq_of_edge_iff (ascending_readers passes) hlength fun i j => ?_
  have hnone : ¬ Edge (List.replicate passes.length []) i j := by
    intro h
    cases hi : (List.replicate passes.length ([] : List Nat))[i]? with
    | none => simp [Edge, hi] at h
    | some js => simp [Edge, hi, hempty js (List.mem_of_getElem? hi)] at h
  rw [collected, edge_foldl_addEdge, List.length_replicate, mem_edges, edge_readers]
  exact ⟨fun h => (h.resolve_left hnone).2, fun h => .inr ⟨h.lt.1, h⟩⟩

/-! ## Counts -/

theorem getElem?_foldl_count (js : List Nat) (j : Nat) :
    ∀ counts : List Nat, (js.foldl (fun counts j => counts.modify j (· + 1)) counts)[j]? = counts[j]?.map (· + js.count j) := by
  induction js with
  | nil => intro counts; simp
  | cons k js ih =>
    intro counts
    rw [List.foldl_cons, ih, List.getElem?_modify, List.count_cons]
    cases counts[j]? with
    | none => rfl
    | some count =>
      by_cases hk : k = j
      · simp [hk, Nat.add_assoc, Nat.add_comm 1]
      · simp [hk]

/-- A position is as often a member as there are sets with it. -/
theorem count_flatten_of_nodup {sets : List (List Nat)} (h : ∀ js ∈ sets, js.Nodup) (j : Nat) :
    sets.flatten.count j = sets.countP fun js => js.contains j := by
  induction sets with
  | nil => rfl
  | cons js sets ih =>
    obtain ⟨hjs, hsets⟩ := List.forall_mem_cons.1 h
    rw [List.flatten_cons, List.count_append, ih hsets, List.countP_cons, hjs.count, Nat.add_comm]
    simp only [List.contains_iff_mem]

/-- Counted over the sets of readers, each pass waits for as many passes as at the start. -/
theorem counted_eq_waiting {sets : List (List Nat)} (h : Proper sets) : counted sets = (Progress.start sets).waiting := by
  refine List.ext_getElem? fun j => ?_
  rw [counted, getElem?_foldl_count, count_flatten_of_nodup fun js hjs => (h js hjs).1, Progress.start, List.getElem?_map,
    List.getElem?_replicate]
  by_cases hj : j < sets.length
  · rw [if_pos hj, List.getElem?_range hj, Option.map_some, Option.map_some, Nat.zero_add]
  · rw [if_neg hj, List.getElem?_eq_none (by simpa using hj)]
    rfl

end RenderGraph.Schedule
