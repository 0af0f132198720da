import RenderGraph.Proofs.Schedule
/-!
# Passes that wait for one another

When no pass is ready any more, a pass that is ordered waits for nothing, and any
other one waits for a pass that is not ordered either (`mem_order_iff`). Going
back from there runs into a cycle, so the passes that are left over are those on a
cycle and those that come after one (`left_pos_iff`).

`topological_eq_error_iff`: there is no order just if some pass is blocked in this
way, and the error names all of these, each once and in the order of the list.
-/

namespace RenderGraph.Schedule

open Relation Positions

/-- The pass at a position lies on a cycle of passes that feed one another, or comes after one. -/
def Blocked (passes : List Pass) (i : Nat) : Prop :=
  ∃ c, TransGen (Feeds passes) c c ∧ ReflTransGen (Feeds passes) c i

section Stuck
variable (passes : List Pass)

theorem tracks_progress : Tracks (readers passes) (progress passes) :=
  tracks_start.run (proper_readers passes) passes.length

/-- In the end a pass is ordered just if it waits for no other. -/
theorem mem_order_iff {i : Nat} (hi : i < passes.length) : i ∈ (progress passes).order ↔ (progress passes).left i = 0 := by
  rw [(tracks_progress passes).left i (by rwa [length_readers]), pending_eq_zero_iff, edge_readers_eq]
  refine ⟨fun hm p hp => ((greedy_progress passes).idxOf_lt hp hm).1, fun hbefore => ?_⟩
  by_contra hm
  exact not_free_progress passes i ⟨hi, hm, hbefore⟩

/-- In the end a pass still waits just if it is blocked. -/
theorem left_pos_iff {i : Nat} (hi : i < passes.length) : 0 < (progress passes).left i ↔ Blocked passes i := by
  rw [Nat.pos_iff_ne_zero, ne_eq, ← mem_order_iff passes hi]
  exact (greedy_progress passes).left_over_iff (not_free_progress passes) (fun _ _ h => h.lt.1) hi

theorem waiting_progress : (progress passes).waiting = (List.range passes.length).map (progress passes).left := by
  have hsize : (progress passes).waiting.length = passes.length :=
    (tracks_progress passes).size.trans (length_readers passes)
  refine List.ext_getElem (by rw [hsize, List.length_map, List.length_range]) fun i hi _ => ?_
  rw [List.getElem_map, List.getElem_range, Progress.left, List.getElem?_eq_getElem hi, Option.getD_some]

open Classical in
/-- The passes that are left over are the blocked ones, in the order of the list. -/
theorem stuck_progress :
    stuck passes (progress passes) = (passes.zipIdx.filter fun e => Blocked passes e.2).map Prod.fst := by
  have hzip : passes.zip (progress passes).waiting = passes.zipIdx.map fun e => (e.1, (progress passes).left e.2) := by
    rw [waiting_progress, List.zipIdx_eq_zip_range', ← List.range_eq_range', List.zip_map_right]
    rfl
  rw [stuck, hzip, List.filterMap_map, ← List.filterMap_eq_map, ← List.filterMap_eq_filter, List.filterMap_filterMap]
  refine List.filterMap_congr fun e he => ?_
  have hi : e.2 < passes.length := (List.mem_zipIdx he).2.1.trans_eq (Nat.zero_add _)
  simp only [Function.comp_apply, left_pos_iff passes hi, Option.guard]
  by_cases hblocked : Blocked passes e.2 <;> simp [hblocked]

theorem length_order_lt_iff : (progress passes).order.length < passes.length ↔ ∃ i < passes.length, Blocked passes i := by
  rw [Nat.lt_iff_le_and_ne, ne_eq, length_progress_iff]
  constructor
  · rintro ⟨-, hcycle⟩
    obtain ⟨c, hc⟩ := not_forall_not.1 hcycle
    obtain ⟨j, hcj, -⟩ := TransGen.head'_iff.1 hc
    exact ⟨c, hcj.lt.1, c, hc, .refl⟩
  · rintro ⟨-, -, c, hc, -⟩
    exact ⟨(greedy_progress passes).length_le, fun hno => hno c hc⟩

open Classical in
/-- Passes cannot be ordered just if some of them lie on a cycle of passes that feed one another, or come after one.
The error names exactly these, each once and in the order of the list. -/
theorem topological_eq_error_iff (e : ScheduleError) :
    let names := (passes.zipIdx.filter fun x => Blocked passes x.2).map fun x => x.1.name
    topological passes = .error e ↔ names ≠ [] ∧ e = .cycle names := by
  intro names
  have hstuck : (stuck passes (progress passes)).map Pass.name = names := by
    rw [stuck_progress, List.map_map]
    rfl
  have hnames : names ≠ [] ↔ (progress passes).order.length < passes.length := by
    rw [length_order_lt_iff, ne_eq, List.map_eq_nil_iff, List.filter_eq_nil_iff]
    simp only [List.mem_zipIdx_iff_getElem?, decide_eq_true_eq, Prod.forall, not_forall, not_not]
    constructor
    · rintro ⟨p, i, hp, hblocked⟩
      exact ⟨i, (List.getElem?_eq_some_iff.1 hp).1, hblocked⟩
    · rintro ⟨i, hi, hblocked⟩
      exact ⟨passes[i], i, List.getElem?_eq_getElem hi, hblocked⟩
  rw [hnames, ← hstuck, topological]
  split <;> rename_i hlt <;> simp [hlt, eq_comm]

end Stuck

end RenderGraph.Schedule
