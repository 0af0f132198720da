import Mathlib.Data.List.Lex
import Mathlib.Data.List.Nodup
import Mathlib.Data.List.Perm.Subperm
import RenderGraph.Proofs.Paths
/-!
# Orders of positions

A relation says which of the positions below `n` comes before which. `IsOrder`
is an order that respects it; `Greedy` is a list that takes, again and again,
the least position for which everything before it is taken.

`Greedy.lex_or_eq`: a greedy list that takes all positions is the least order there is.
`Greedy.left_over_iff`: what a greedy list can never take lies on a cycle or
comes after one, so it takes all positions just if there is no cycle.
-/

namespace RenderGraph.Positions

open Relation

variable {before : Nat → Nat → Prop} {n : Nat}

/-- All positions once, each after the positions that come before it. -/
def IsOrder (before : Nat → Nat → Prop) (n : Nat) (order : List Nat) : Prop :=
  order.Perm (List.range n) ∧ ∀ i j, before i j → order.idxOf i < order.idxOf j

/-- A position not taken yet, with everything before it taken. -/
def Free (before : Nat → Nat → Prop) (n : Nat) (taken : List Nat) (i : Nat) : Prop :=
  i < n ∧ i ∉ taken ∧ ∀ p, before p i → p ∈ taken

/-- The least free position is taken next. -/
inductive Greedy (before : Nat → Nat → Prop) (n : Nat) : List Nat → Prop
  | nil : Greedy before n []
  | snoc {taken : List Nat} {i : Nat} : Greedy before n taken → Free before n taken i →
      (∀ j, Free before n taken j → i ≤ j) → Greedy before n (taken ++ [i])

namespace Greedy
variable {taken : List Nat}

theorem nodup (h : Greedy before n taken) : taken.Nodup := by
  induction h with
  | nil => exact List.nodup_nil
  | snoc _ hf _ ih => exact List.nodup_append.2 ⟨ih, List.nodup_singleton _, by rintro a ha b hb rfl; simp_all [Free]⟩

theorem lt (h : Greedy before n taken) : ∀ i ∈ taken, i < n := by
  induction h with
  | nil => simp
  | snoc _ hf _ ih =>
    intro i hi
    rcases List.mem_append.1 hi with hi | hi
    · exact ih i hi
    · rw [List.mem_singleton.1 hi]; exact hf.1

theorem length_le (h : Greedy before n taken) : taken.length ≤ n := by
  have := (List.subperm_of_subset h.nodup fun i hi => List.mem_range.2 (h.lt i hi)).length_le
  simpa using this

/-- What is taken is taken after everything before it. -/
theorem idxOf_lt (h : Greedy before n taken) {p i : Nat} (hb : before p i) (hi : i ∈ taken) :
    p ∈ taken ∧ taken.idxOf p < taken.idxOf i := by
  induction h with
  | nil => simp at hi
  | @snoc taken k _ hf _ ih =>
    by_cases hit : i ∈ taken
    · obtain ⟨hp, hlt⟩ := ih hit
      exact ⟨by simp [hp], by rwa [List.idxOf_append_of_mem hp, List.idxOf_append_of_mem hit]⟩
    · obtain rfl : i = k := by simpa [hit] using hi
      have hp := hf.2.2 p hb
      refine ⟨by simp [hp], ?_⟩
      rw [List.idxOf_append_of_mem hp, List.idxOf_append_of_notMem hit]
      have := List.idxOf_lt_length_iff.2 hp
      omega

theorem idxOf_lt_of_transGen (h : Greedy before n taken) {p i : Nat} (hb : TransGen before p i) (hi : i ∈ taken) :
    p ∈ taken ∧ taken.idxOf p < taken.idxOf i := by
  induction hb using TransGen.head_induction_on with
  | single hb => exact h.idxOf_lt hb hi
  | head hb _ ih =>
    obtain ⟨hm, hlt⟩ := h.idxOf_lt hb ih.1
    exact ⟨hm, Nat.lt_trans hlt ih.2⟩

/-- Nothing on a cycle or after one is ever taken. -/
theorem not_mem_of_cycle (h : Greedy before n taken) {c i : Nat} (hc : TransGen before c c)
    (hci : ReflTransGen before c i) : i ∉ taken := by
  intro hi
  have hm : c ∈ taken := by
    rcases reflTransGen_iff_eq_or_transGen.1 hci with rfl | hci
    · exact hi
    · exact (h.idxOf_lt_of_transGen hci hi).1
  exact Nat.lt_irrefl _ (h.idxOf_lt_of_transGen hc hm).2

/-- A greedy list starts every order, or comes before it. -/
theorem prefix_or_lex (h : Greedy before n taken) {order : List Nat} (ho : IsOrder before n order) :
    taken <+: order ∨ ∀ rest, List.Lex (· < ·) (taken ++ rest) order := by
  induction h with
  | nil => exact .inl (List.nil_prefix)
  | @snoc taken i hg hf hleast ih =>
    rcases ih with ⟨t, rfl⟩ | hlt
    · cases t with
      | nil =>
        have := ho.1.mem_iff.2 (List.mem_range.2 hf.1)
        rw [List.append_nil] at this
        exact absurd this hf.2.1
      | cons j t =>
        have hnd : (taken ++ j :: t).Nodup := ho.1.nodup_iff.2 List.nodup_range
        have hj : j ∉ taken := fun hj => (List.nodup_append.1 hnd).2.2 j hj j (by simp) rfl
        -- The order puts everything before `j` where the greedy list has it.
        have hfree : Free before n taken j := by
          refine ⟨List.mem_range.1 (ho.1.mem_iff.1 (by simp)), hj, fun p hb => ?_⟩
          have hlt := ho.2 p j hb
          rw [List.idxOf_append_of_notMem hj, List.idxOf_cons_self, Nat.add_zero] at hlt
          by_contra hp
          rw [List.idxOf_append_of_notMem hp] at hlt
          omega
        rcases Nat.lt_or_eq_of_le (hleast j hfree) with hij | rfl
        · refine .inr fun rest => ?_
          rw [List.append_assoc]
          exact List.Lex.append_left _ (.rel hij) taken
        · exact .inl ⟨t, by simp⟩
    · exact .inr fun rest => by rw [List.append_assoc]; exact hlt _

theorem perm_range (h : Greedy before n taken) (hlen : taken.length = n) : taken.Perm (List.range n) :=
  (List.subperm_of_subset h.nodup fun i hi => List.mem_range.2 (h.lt i hi)).perm_of_length_le (by simp [hlen])

/-- Taking all positions greedily gives the least order. -/
theorem lex_or_eq (h : Greedy before n taken) (hlen : taken.length = n) {order : List Nat}
    (ho : IsOrder before n order) : List.Lex (· < ·) taken order ∨ taken = order := by
  rcases h.prefix_or_lex ho with hp | hlt
  · exact .inr (hp.eq_of_length (by rw [hlen, ho.1.length_eq, List.length_range]))
  · exact .inl (by simpa using hlt [])

theorem isOrder (h : Greedy before n taken) (hlen : taken.length = n) (hb : ∀ i j, before i j → j < n) :
    IsOrder before n taken := by
  have hp := h.perm_range hlen
  exact ⟨hp, fun i j hij => (h.idxOf_lt hij (hp.mem_iff.2 (List.mem_range.2 (hb i j hij)))).2⟩

theorem range_of_not_before {m : Nat} (hm : m ≤ n) : Greedy (fun _ _ => False) n (List.range m) := by
  induction m with
  | zero => exact .nil
  | succ m ih =>
    rw [List.range_succ]
    refine .snoc (ih (by omega)) ⟨by omega, by simp, nofun⟩ fun j hj => ?_
    have := hj.2.1
    rw [List.mem_range] at this
    omega

/-- Positions as they stand are the least of all their arrangements. -/
theorem range_lex_or_eq {order : List Nat} (ho : order.Perm (List.range n)) :
    List.Lex (· < ·) (List.range n) order ∨ List.range n = order :=
  (range_of_not_before (Nat.le_refl n)).lex_or_eq (by simp) ⟨ho, nofun⟩

/-- Once nothing is free, what is left over lies on a cycle or comes after one. -/
theorem left_over_iff (h : Greedy before n taken) (hstop : ∀ i, ¬ Free before n taken i)
    (hb : ∀ i j, before i j → i < n) {i : Nat} (hi : i < n) :
    i ∉ taken ↔ ∃ c, TransGen before c c ∧ ReflTransGen before c i := by
  classical
  refine ⟨fun hit => ?_, fun ⟨c, hc, hci⟩ => h.not_mem_of_cycle hc hci⟩
  let left := (List.range n).filter fun j => j ∉ taken ∧ ReflTransGen before j i
  have hback : ∀ j ∈ left, ∃ p ∈ left, before p j := by
    intro j hj
    obtain ⟨hj, hjt, hji⟩ : j < n ∧ j ∉ taken ∧ ReflTransGen before j i := by simpa [left] using hj
    by_contra hno
    refine hstop j ⟨hj, hjt, fun p hp => ?_⟩
    by_contra hpt
    exact hno ⟨p, by simpa [left] using ⟨hb p j hp, hpt, .head hp hji⟩, hp⟩
  obtain ⟨c, hc, hcc⟩ := Paths.exists_cycle left
    (List.ne_nil_of_mem (a := i) (by simpa [left] using ⟨hi, hit, .refl⟩)) hback
  obtain ⟨-, -, hci⟩ : c < n ∧ c ∉ taken ∧ ReflTransGen before c i := by simpa [left] using hc
  exact ⟨c, hcc, hci⟩

/-- A greedy list that cannot go on takes all positions just if there is no cycle. -/
theorem length_eq_iff (h : Greedy before n taken) (hstop : ∀ i, ¬ Free before n taken i)
    (hb : ∀ i j, before i j → i < n ∧ j < n) : taken.length = n ↔ ∀ c, ¬ TransGen before c c := by
  constructor
  · intro hlen c hc
    obtain ⟨j, hcj, -⟩ := TransGen.head'_iff.1 hc
    have ho := h.isOrder hlen fun i j hij => (hb i j hij).2
    exact h.not_mem_of_cycle hc .refl (ho.1.mem_iff.2 (List.mem_range.2 (hb c j hcj).1))
  · intro hac
    have hall : ∀ i < n, i ∈ taken := fun i hi => by
      by_contra hit
      obtain ⟨c, hc, -⟩ := (h.left_over_iff hstop (fun i j hij => (hb i j hij).1) hi).1 hit
      exact hac c hc
    have := (List.subperm_of_subset List.nodup_range fun i hi => hall i (List.mem_range.1 hi)).length_le
    rw [List.length_range] at this
    exact Nat.le_antisymm h.length_le this

end Greedy

end RenderGraph.Positions
