import Mathlib.Data.List.Basic
import Mathlib.Logic.Relation
/-!
# Paths through finitely many things

Where each of finitely many things comes after another one of them, going back
from thing to thing runs into a cycle (`exists_cycle`). Orders of passes and
chains of redirects both use it: a run that is stuck has a cycle behind it, and
a chain without an end runs into one (`end_or_cycle`).
-/

namespace RenderGraph.Paths

open Relation

variable {α : Type} {r : α → α → Prop}

/-- Going back within a list never leaves it, so it runs into a cycle. -/
theorem exists_cycle (l : List α) (hne : l ≠ []) (h : ∀ x ∈ l, ∃ y ∈ l, r y x) : ∃ x ∈ l, TransGen r x x := by
  classical
  induction hk : l.length using Nat.strongRecOn generalizing l with
  | ind k ih =>
    obtain ⟨x, hx⟩ := List.exists_mem_of_ne_nil l hne
    by_cases hc : TransGen r x x
    · exact ⟨x, hx, hc⟩
    -- What comes before `x` is a smaller list of the same kind: it lacks `x`.
    · have hback : ∀ y ∈ l.filter fun y => TransGen r y x, ∃ z ∈ l.filter fun y => TransGen r y x, r z y := by
        intro y hy
        obtain ⟨hy, hyx⟩ := List.mem_filter.1 hy
        obtain ⟨z, hz, hzy⟩ := h y hy
        exact ⟨z, List.mem_filter.2 ⟨hz, by simpa using .head hzy (by simpa using hyx)⟩, hzy⟩
      obtain ⟨y, hy, hyx⟩ := h x hx
      have hmem : y ∈ l.filter fun y => TransGen r y x := List.mem_filter.2 ⟨hy, by simpa using .single hyx⟩
      have hlt : (l.filter fun y => TransGen r y x).length < k := by
        rw [← hk]
        refine List.length_filter_lt_length_iff_exists.2 ⟨x, hx, ?_⟩
        simpa using hc
      obtain ⟨c, hc, hcc⟩ := ih _ hlt _ (List.ne_nil_of_mem hmem) hback rfl
      exact ⟨c, (List.mem_filter.1 hc).1, hcc⟩

/-- Where each step comes to a higher rank, nothing comes after itself. -/
theorem irrefl_of_rank (rank : α → Nat) (h : ∀ x y, r x y → rank x < rank y) (x : α) : ¬ TransGen r x x := by
  have hlt : ∀ {x y}, TransGen r x y → rank x < rank y := by
    intro x y hxy
    induction hxy with
    | single hxy => exact h _ _ hxy
    | tail _ hyz ih => exact Nat.lt_trans ih (h _ _ hyz)
  exact fun hx => Nat.lt_irrefl _ (hlt hx)

/-! ## Following a partial function -/

/-- One step of a partial function. -/
def StepsTo (f : α → Option α) (x y : α) : Prop := f x = some y

/-- Following a partial function within a list comes to an end or runs into a cycle. -/
theorem end_or_cycle {f : α → Option α} (l : List α) (hl : ∀ x ∈ l, ∀ y, f x = some y → y ∈ l) {x : α} (hx : x ∈ l) :
    (∃ e, ReflTransGen (StepsTo f) x e ∧ f e = none) ∨ ∃ c, ReflTransGen (StepsTo f) x c ∧ TransGen (StepsTo f) c c := by
  classical
  rw [or_iff_not_imp_left]
  intro hno
  -- Without an end, each place on the way has a next one on the way.
  have hnext : ∀ y ∈ l.filter fun y => ReflTransGen (StepsTo f) x y,
      ∃ z ∈ l.filter fun y => ReflTransGen (StepsTo f) x y, Function.swap (StepsTo f) z y := by
    intro y hy
    obtain ⟨hy, hxy⟩ := List.mem_filter.1 hy
    have hxy : ReflTransGen (StepsTo f) x y := by simpa using hxy
    cases hz : f y with
    | none => exact absurd ⟨y, hxy, hz⟩ hno
    | some z => exact ⟨z, List.mem_filter.2 ⟨hl y hy z hz, by simpa using hxy.tail hz⟩, hz⟩
  have hmem : x ∈ l.filter fun y => ReflTransGen (StepsTo f) x y := List.mem_filter.2 ⟨hx, by simpa using .refl⟩
  obtain ⟨c, hc, hcc⟩ := exists_cycle _ (List.ne_nil_of_mem hmem) hnext
  exact ⟨c, by simpa using (List.mem_filter.1 hc).2, transGen_swap.1 hcc⟩

/-- What follows on a cycle is on the cycle. -/
theorem back_on_cycle {f : α → Option α} {c d : α} (hc : TransGen (StepsTo f) c c) (h : ReflTransGen (StepsTo f) c d) :
    ReflTransGen (StepsTo f) d c := by
  induction h with
  | refl => exact .refl
  | @tail e d _ hed ih =>
    have hec : TransGen (StepsTo f) e c := by
      rcases reflTransGen_iff_eq_or_transGen.1 ih with rfl | h
      · exact hc
      · exact h
    obtain ⟨x, hex, hxc⟩ := TransGen.head'_iff.1 hec
    obtain rfl : x = d := Option.some.inj (hex.symm.trans hed)
    exact hxc

end RenderGraph.Paths
