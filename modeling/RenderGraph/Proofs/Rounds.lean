import RenderGraph.Proofs.Edges
/-!
# Rounds of the order

In a round the first pass that is ready is taken, and each of its readers waits for one
pass less; those that wait for none any more become ready. `actions` lists all this as
it happens, from a state where no pass is ready yet (`blank`). Done one after another
the actions lead to the state after the rounds, and each is allowed where it comes
(`Leads`): `Tracks` holds between rounds, so the readers of a ready pass do wait for it.

`actions_safe`: no count goes below zero, no pass becomes ready or is taken twice, and
there are at most as many rounds as passes.
-/

namespace RenderGraph.Schedule

namespace Progress

theorem count_insertSorted (i k : Nat) (l : List Nat) : (insertSorted i l).count k = l.count k + if i = k then 1 else 0 := by
  induction l with
  | nil => simp [insertSorted, List.count_cons]
  | cons j l ih =>
    rw [insertSorted]
    split
    · simp [List.count_cons]
    · rw [List.count_cons, ih, List.count_cons, Nat.add_right_comm]

theorem insertSorted_of_lt {i : Nat} {l : List Nat} (h : ∀ j ∈ l, j < i) : insertSorted i l = l ++ [i] := by
  induction l with
  | nil => rfl
  | cons j l ih =>
    obtain ⟨hj, hl⟩ := List.forall_mem_cons.1 h
    rw [insertSorted, if_neg (Nat.not_lt.2 (Nat.le_of_lt hj)), ih hl, List.cons_append]

/-- What happens to a pass. -/
inductive Action where
  /-- It becomes ready. -/
  | enter (i : Nat)
  /-- It comes next in the order. -/
  | take (i : Nat)
  /-- It waits for one pass less. -/
  | lower (i : Nat)
deriving DecidableEq

/-- The state after an action. -/
def act (s : Progress) : Action → Progress
  | .enter i => { s with ready := insertSorted i s.ready }
  | .take i => { s with ready := s.ready.erase i, order := s.order ++ [i] }
  | .lower i => { s with waiting := s.waiting.set i (s.left i - 1) }

/-- The pass that is taken is the first one that is ready, and a count that goes down is not zero. -/
def Allows (s : Progress) : Action → Prop
  | .enter _ => True
  | .take i => s.ready.head? = some i
  | .lower i => 1 ≤ s.left i

/-- Actions, each allowed where it comes, lead from one state to another. -/
inductive Leads : Progress → List Action → Progress → Prop
  | nil {s : Progress} : Leads s [] s
  | cons {s t : Progress} {a : Action} {actions : List Action} :
      s.Allows a → Leads (s.act a) actions t → Leads s (a :: actions) t

namespace Leads
variable {s t u : Progress} {actions : List Action}

theorem append (h : Leads s actions t) {actions' : List Action} (h' : Leads t actions' u) : Leads s (actions ++ actions') u := by
  induction h with
  | nil => exact h'
  | cons ha _ ih => exact .cons ha (ih h')

theorem foldl_act (h : Leads s actions t) : actions.foldl act s = t := by
  induction h with
  | nil => rfl
  | cons _ _ ih => exact ih

theorem allows {before later : List Action} {a : Action} (h : Leads s (before ++ a :: later) t) :
    (before.foldl act s).Allows a := by
  induction before generalizing s with
  | nil =>
    cases h with
    | cons ha _ => exact ha
  | cons b before ih =>
    cases h with
    | cons _ h => exact ih h

/-- A pass is in the order once for each time that it is taken. -/
theorem count_take (h : Leads s actions t) (k : Nat) : t.order.count k = s.order.count k + actions.count (.take k) := by
  induction h with
  | nil => simp
  | @cons s t a actions _ _ ih =>
    rw [ih]
    cases a with
    | enter i => simp [act]
    | take i =>
      simp only [act, List.count_append, List.count_cons, List.count_nil, beq_iff_eq, Action.take.injEq]
      omega
    | lower i => simp [act]

/-- A pass is ready or in the order once for each time that it becomes ready. -/
theorem count_enter (h : Leads s actions t) (k : Nat) :
    t.order.count k + t.ready.count k = s.order.count k + s.ready.count k + actions.count (.enter k) := by
  induction h with
  | nil => simp
  | @cons s t a actions ha _ ih =>
    rw [ih]
    cases a with
    | enter i =>
      simp only [act, count_insertSorted, List.count_cons, beq_iff_eq, Action.enter.injEq]
      omega
    | take i =>
      -- What is taken was ready, so it only changes its place.
      obtain ⟨rest, hr⟩ := List.head?_eq_some_iff.1 ha
      simp only [act, hr, List.erase_cons_head, List.count_append, List.count_cons, List.count_nil, beq_iff_eq, reduceCtorEq,
        if_false]
      omega
    | lower i => simp [act]

end Leads

/-! ## What the rounds do -/

/-- What happens when a pass waits for one pass less. -/
def releaseActions (s : Progress) (i : Nat) : List Action := .lower i :: if s.left i - 1 = 0 then [.enter i] else []

/-- What happens when passes wait for one pass less, one after another. -/
def releaseAllActions (s : Progress) : List Nat → List Action
  | [] => []
  | i :: is => s.releaseActions i ++ (s.release i).releaseAllActions is

/-- What happens in a round. -/
def stepActions (readers : List (List Nat)) (s : Progress) : List Action :=
  match s.ready with
  | [] => []
  | i :: rest => .take i :: releaseAllActions { s with ready := rest, order := s.order ++ [i] } ((readers[i]?).getD [])

/-- What happens in a number of rounds. -/
def runActions (readers : List (List Nat)) : Nat → Progress → List Action
  | 0, _ => []
  | n + 1, s => s.stepActions readers ++ runActions readers n (s.step readers)

/-- Passes wait as counted over the sets of readers, and none is ready yet. -/
def blank (readers : List (List Nat)) : Progress := ⟨counted readers, [], []⟩

theorem lt_length_of_left_pos {s : Progress} {i : Nat} (h : 1 ≤ s.left i) : i < s.waiting.length := by
  by_contra hi
  rw [left, List.getElem?_eq_none (Nat.not_lt.1 hi)] at h
  exact absurd h (by decide)

theorem leads_release {s : Progress} {i : Nat} (h : 1 ≤ s.left i) : Leads s (s.releaseActions i) (s.release i) := by
  rw [releaseActions]
  by_cases h0 : s.left i - 1 = 0
  · have hrelease : s.release i = (s.act (.lower i)).act (.enter i) := by
      rw [left] at h0
      simp only [release, act, left, h0, if_true]
    rw [if_pos h0, hrelease]
    exact .cons h (.cons trivial .nil)
  · have hrelease : s.release i = s.act (.lower i) := by
      rw [left] at h0
      simp only [release, act, left, h0, if_false]
    rw [if_neg h0, hrelease]
    exact .cons h .nil

theorem leads_releaseAll (js : List Nat) :
    ∀ s : Progress, js.Nodup → (∀ j ∈ js, 1 ≤ s.left j) → Leads s (s.releaseAllActions js) (js.foldl release s) := by
  induction js with
  | nil => intro s _ _; exact .nil
  | cons j js ih =>
    intro s hnodup hleft
    obtain ⟨hj, hnodup⟩ := List.nodup_cons.1 hnodup
    have hpos := hleft j (by simp)
    -- No other reader is `j`, so their counts are still what they were.
    refine (leads_release hpos).append (ih _ hnodup fun k hk => ?_)
    rw [left_release s (lt_length_of_left_pos hpos), if_neg (by rintro rfl; exact hj hk)]
    exact hleft k (by simp [hk])

theorem leads_enter (l : List Nat) :
    ∀ s : Progress, (s.ready ++ l).Pairwise (· < ·) → Leads s (l.map .enter) { s with ready := s.ready ++ l } := by
  induction l with
  | nil =>
    intro s _
    rw [List.append_nil]
    exact .nil
  | cons i l ih =>
    intro s h
    have hlast : ∀ j ∈ s.ready, j < i := fun j hj => (List.pairwise_append.1 h).2.2 j hj i (by simp)
    have henter : s.act (.enter i) = { s with ready := s.ready ++ [i] } := by rw [act, insertSorted_of_lt hlast]
    rw [List.append_cons] at h ⊢
    refine .cons trivial ?_
    rw [henter]
    exact ih _ h

end Progress

open Progress

section Runs
variable {readers : List (List Nat)} {s : Progress}

theorem leads_start (hp : Proper readers) : Leads (blank readers) ((start readers).ready.map .enter) (start readers) := by
  have h := leads_enter (start readers).ready (blank readers) tracks_start.sorted
  rwa [blank, counted_eq_waiting hp] at h ⊢

theorem Tracks.leads_step (h : Tracks readers s) (hp : Proper readers) : Leads s (s.stepActions readers) (s.step readers) := by
  cases hr : s.ready with
  | nil =>
    rw [stepActions, hr, step_of_ready_nil hr]
    exact .nil
  | cons i rest =>
    let taken : Progress := { s with ready := rest, order := s.order ++ [i] }
    have htake : s.act (.take i) = taken := by rw [act, hr, List.erase_cons_head]
    have hwait : ∀ j ∈ (readers[i]?).getD [], 1 ≤ taken.left j := fun j hj => h.left_pos hp (by simp [hr]) hj
    rw [stepActions, Progress.step, hr]
    refine .cons (by rw [Allows, hr, List.head?_cons]) ?_
    rw [htake]
    exact leads_releaseAll _ taken (hp.nodup i) hwait

theorem Tracks.leads_run (h : Tracks readers s) (hp : Proper readers) (n : Nat) :
    Leads s (runActions readers n s) (.run readers n s) := by
  induction n generalizing s with
  | zero => exact .nil
  | succ n ih => exact (h.leads_step hp).append (ih (h.step hp))

/-- A pass that is in the order is not ready any more. -/
theorem Tracks.count_le_one (h : Tracks readers s) (k : Nat) : s.order.count k + s.ready.count k ≤ 1 := by
  have horder := List.nodup_iff_count_le_one.1 h.greedy.nodup k
  have hready := List.nodup_iff_count_le_one.1 (h.sorted.imp Nat.ne_of_lt) k
  by_cases hk : k ∈ s.ready
  · have hnew : k ∉ s.order := ((h.ready k).1 hk).2.1
    rw [List.count_eq_zero.2 hnew]
    omega
  · rw [List.count_eq_zero.2 hk]
    omega

theorem run_add (m n : Nat) (s : Progress) : Progress.run readers (m + n) s = .run readers n (.run readers m s) := by
  induction m generalizing s with
  | zero => rw [Nat.zero_add]; rfl
  | succ m ih => rw [Nat.succ_add]; exact ih _

/-- Once nothing is ready, it stays so. -/
theorem run_of_le {m n : Nat} (hr : (Progress.run readers m s).ready = []) (h : m ≤ n) :
    Progress.run readers n s = .run readers m s := by
  obtain ⟨k, rfl⟩ := Nat.exists_eq_add_of_le h
  rw [run_add, run_of_ready_nil hr]

end Runs

section Rounds
variable (passes : List Pass)

/-- The state after a number of rounds. -/
def after (n : Nat) : Progress := .run (readers passes) n (.start (readers passes))

/-- What happens from the beginning to the end of a number of rounds. -/
def actions (n : Nat) : List Action :=
  (start (readers passes)).ready.map .enter ++ runActions (readers passes) n (.start (readers passes))

theorem leads_actions (n : Nat) : Leads (blank (readers passes)) (actions passes n) (after passes n) :=
  (leads_start (proper_readers passes)).append (tracks_start.leads_run (proper_readers passes) n)

/-- There is a round as long as a pass is ready, and at most as many rounds as passes. -/
theorem exists_rounds :
    ∃ rounds ≤ passes.length, after passes rounds = progress passes ∧ ∀ n, (after passes n).ready = [] ↔ rounds ≤ n := by
  have hend : (after passes passes.length).ready = [] :=
    ready_run tracks_start (proper_readers passes) passes.length (by rw [length_readers]; omega)
  have hstops : ∃ n, (after passes n).ready = [] := ⟨_, hend⟩
  have hle : Nat.find hstops ≤ passes.length := Nat.find_min' hstops hend
  refine ⟨Nat.find hstops, hle, (run_of_le (Nat.find_spec hstops) hle).symm, fun n => ⟨Nat.find_min' hstops, fun hn => ?_⟩⟩
  rw [after, run_of_le (Nat.find_spec hstops) hn]
  exact Nat.find_spec hstops

/-- The rounds go over the readers collected name by name. However many there are, their actions lead from the counts over
these to the state after the rounds; each count is at least one before it is lowered; and each pass becomes ready once at
most and is taken once at most. After some number of rounds no pass is ready any more, and one is before each of them; there
are at most as many as passes. -/
theorem actions_safe :
    collected passes = readers passes ∧
    (∀ n, (actions passes n).foldl act (blank (collected passes)) = after passes n) ∧
    (∀ n before i later, actions passes n = before ++ .lower i :: later →
      1 ≤ (before.foldl act (blank (collected passes))).left i) ∧
    (∀ n i, (actions passes n).count (.enter i) ≤ 1 ∧ (actions passes n).count (.take i) ≤ 1) ∧
    ∃ rounds ≤ passes.length, after passes rounds = progress passes ∧ ∀ n, (after passes n).ready = [] ↔ rounds ≤ n := by
  rw [collected_eq_readers]
  have hleads : ∀ n, Leads (blank (readers passes)) (actions passes n) (after passes n) := leads_actions passes
  refine ⟨rfl, fun n => (hleads n).foldl_act, fun n before i later h => ?_, fun n i => ?_, exists_rounds passes⟩
  · exact (h ▸ hleads n).allows
  · -- What became ready is ready or taken by now, and in the end each pass is one of these once at most.
    have hone : (after passes n).order.count i + (after passes n).ready.count i ≤ 1 :=
      (tracks_start.run (proper_readers passes) n).count_le_one i
    have henter := (hleads n).count_enter i
    have htake := (hleads n).count_take i
    constructor <;> omega

end Rounds

/-- A pass that reads a name through two sockets, and after it the one that writes it through two. -/
def doubled : List Pass :=
  [{ className := "BloomPass", name := "bloom", viewport := "", config := .depth
     inputs := .ofList [("input_res", "color"), ("mask", "color")], outputs := .ofList [("output_res", "glow")]
     inplace := [], attributes := .empty },
   { className := "ColorPass", name := "color", viewport := "", config := .depth
     inputs := .empty, outputs := .ofList [("output_res", "color"), ("copy", "color")]
     inplace := [], attributes := .empty }]

/-- The edge is found four times, and the reader waits for one pass. -/
theorem doubled_actions :
    edges doubled = [(1, 0), (1, 0), (1, 0), (1, 0)] ∧ (blank (collected doubled)).waiting = [1, 0] ∧
    actions doubled 2 = [.enter 1, .take 1, .lower 0, .enter 0, .take 0] ∧
    1 ≤ ([.enter 1, .take 1].foldl act (blank (collected doubled))).left 0 := by
  have hactions : actions doubled 2 = [.enter 1, .take 1, .lower 0, .enter 0, .take 0] := by decide +kernel
  obtain ⟨-, -, hlowered, -⟩ := actions_safe doubled
  exact ⟨by decide +kernel, by decide +kernel, hactions, hlowered 2 [.enter 1, .take 1] 0 [.enter 0, .take 0] hactions⟩

end RenderGraph.Schedule
