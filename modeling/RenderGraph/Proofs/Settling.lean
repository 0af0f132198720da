import Mathlib.Data.List.Induction
import RenderGraph.Proofs.Buffers
import RenderGraph.Proofs.ByteOrder
import RenderGraph.Proofs.Paths
/-!
# Where following names settles

Pairs of names may lead anywhere, back to where they came from as well. Following them from a name
settles at a name that no pair leads on from or, on a cycle, at one name of the cycle (`Settles`):
that of the last pair that goes round it, because this is the pair that an alias set refuses.

`settles_assignAll` says so of pairs in any order, one pair at a time. A table is read in the order
of its names, so there a cycle settles at its greatest name (`ofTable_settles`).
-/

namespace RenderGraph.Aliases

open Relation Paths

/-- Following `next` from `x` settles at `r`: it reaches `r` and stops there, or goes round a cycle of which `r` comes
last. -/
def Settles (upTo : String → String → Prop) (next : String → Option String) (x r : String) : Prop :=
  ReflTransGen (StepsTo next) x r ∧
    (next r = none ∨ TransGen (StepsTo next) r r ∧ ∀ d, ReflTransGen (StepsTo next) r d → upTo d r)

/-! ## One place -/

section Settles
variable {upTo : String → String → Prop} {next : String → Option String} {x r r' : String}

theorem rightUnique_stepsTo (next : String → Option String) : Relator.RightUnique (StepsTo next) :=
  fun _ _ _ hb hc => Option.some.inj (hb.symm.trans hc)

theorem eq_of_reaches_of_stop (hstop : next r = none) (h : ReflTransGen (StepsTo next) r r') : r = r' := by
  rcases ReflTransGen.cases_head h with h | ⟨y, hy, -⟩
  · exact h
  · rw [StepsTo, hstop] at hy
    cases hy

/-- Following ends at one place. -/
theorem stop_unique (hr : ReflTransGen (StepsTo next) x r) (hstop : next r = none)
    (hr' : ReflTransGen (StepsTo next) x r') (hstop' : next r' = none) : r = r' := by
  rcases ReflTransGen.total_of_right_unique (rightUnique_stepsTo next) hr hr' with h | h
  · exact eq_of_reaches_of_stop hstop h
  · exact (eq_of_reaches_of_stop hstop' h).symm

/-- A name that is reached from a cycle is on it, so following goes on from there. -/
theorem exists_step_of_cycle (hc : TransGen (StepsTo next) r r) {d : String} (hd : ReflTransGen (StepsTo next) r d) :
    ∃ e, next d = some e := by
  obtain ⟨e, hde, -⟩ := TransGen.head'_iff.1 (TransGen.trans_right (back_on_cycle hc hd) (hc.trans_left hd))
  exact ⟨e, hde⟩

theorem not_stop_of_cycle (hc : TransGen (StepsTo next) r r) {d : String} (hd : ReflTransGen (StepsTo next) r d) :
    next d ≠ none := by
  obtain ⟨e, he⟩ := exists_step_of_cycle hc hd
  rw [he]
  exact Option.some_ne_none e

/-- Following settles at one place, if of two names just one comes last. -/
theorem Settles.unique (hanti : ∀ a b, upTo a b → upTo b a → a = b) (h : Settles upTo next x r)
    (h' : Settles upTo next x r') : r = r' := by
  obtain ⟨hr, hend⟩ := h
  obtain ⟨hr', hend'⟩ := h'
  rcases hend with hstop | ⟨hc, hlast⟩ <;> rcases hend' with hstop' | ⟨hc', hlast'⟩
  · exact stop_unique hr hstop hr' hstop'
  · rcases ReflTransGen.total_of_right_unique (rightUnique_stepsTo next) hr hr' with h | h
    · exact eq_of_reaches_of_stop hstop h
    · exact absurd hstop (not_stop_of_cycle hc' h)
  · rcases ReflTransGen.total_of_right_unique (rightUnique_stepsTo next) hr hr' with h | h
    · exact absurd hstop' (not_stop_of_cycle hc h)
    · exact (eq_of_reaches_of_stop hstop' h).symm
  · rcases ReflTransGen.total_of_right_unique (rightUnique_stepsTo next) hr hr' with h | h
    · exact hanti r r' (hlast' r (back_on_cycle hc h)) (hlast r' h)
    · exact hanti r r' (hlast' r h) (hlast r' (back_on_cycle hc' h))

end Settles

/-! ## One more pair -/

section Extend
variable {upTo : String → String → Prop} {next next' : String → Option String} {k t : String}
  (hnew : next k = none) (hnext : ∀ n, next' n = if n = k then some t else next n)
include hnew hnext

theorem stepsTo_extend {a b : String} (h : StepsTo next a b) : StepsTo next' a b := by
  have hne : a ≠ k := by
    rintro rfl
    rw [StepsTo, hnew] at h
    cases h
  rw [StepsTo, hnext, if_neg hne]
  exact h

theorem reaches_extend {a b : String} (h : ReflTransGen (StepsTo next) a b) : ReflTransGen (StepsTo next') a b :=
  ReflTransGen.mono (fun _ _ => stepsTo_extend hnew hnext) _ _ h

/-- What a cycle reaches does not change, as the new pair starts off the cycle. -/
theorem reaches_of_extend {r d : String} (hc : TransGen (StepsTo next) r r) (h : ReflTransGen (StepsTo next') r d) :
    ReflTransGen (StepsTo next) r d := by
  induction h with
  | refl => exact .refl
  | @tail b d _ hbd ih =>
    have hne : b ≠ k := by
      rintro rfl
      exact not_stop_of_cycle hc ih hnew
    rw [StepsTo, hnext, if_neg hne] at hbd
    exact ih.tail hbd

/-- Following settles where it did, unless that was where the new pair starts. -/
theorem Settles.extend {x r : String} (h : Settles upTo next x r) (hr : r ≠ k) : Settles upTo next' x r := by
  obtain ⟨hreach, hend⟩ := h
  refine ⟨reaches_extend hnew hnext hreach, ?_⟩
  rcases hend with hstop | ⟨hc, hlast⟩
  · left
    rw [hnext, if_neg hr]
    exact hstop
  · right
    refine ⟨TransGen.mono (fun _ _ => stepsTo_extend hnew hnext) _ _ hc, fun d hd => ?_⟩
    exact hlast d (reaches_of_extend hnew hnext hc hd)

/-- From where the new pair starts, following goes on to where its end settles. -/
theorem Settles.through {x r : String} (hx : ReflTransGen (StepsTo next) x k) (ht : Settles upTo next t r) (hr : r ≠ k) :
    Settles upTo next' x r := by
  have hstep : StepsTo next' k t := by rw [StepsTo, hnext, if_pos rfl]
  obtain ⟨hreach, hend⟩ := ht.extend hnew hnext hr
  exact ⟨((reaches_extend hnew hnext hx).tail hstep).trans hreach, hend⟩

/-- A new pair that closes a cycle comes last on it, if it comes after all other pairs. -/
theorem Settles.closed {x : String} (hx : ReflTransGen (StepsTo next) x k) (ht : ReflTransGen (StepsTo next) t k)
    (hlast : ∀ d, next' d ≠ none → upTo d k) : Settles upTo next' x k := by
  have hstep : StepsTo next' k t := by rw [StepsTo, hnext, if_pos rfl]
  have hc : TransGen (StepsTo next') k k := TransGen.head' hstep (reaches_extend hnew hnext ht)
  exact ⟨reaches_extend hnew hnext hx, .inr ⟨hc, fun d hd => hlast d (not_stop_of_cycle hc hd)⟩⟩

end Extend

/-! ## Pairs one after another -/

/-- No name is paired with two names. -/
def Functional (pairs : List (String × String)) : Prop :=
  ∀ e ∈ pairs, ∀ e' ∈ pairs, e.1 = e'.1 → e = e'

instance (pairs : List (String × String)) : Decidable (Functional pairs) :=
  inferInstanceAs (Decidable (∀ e ∈ pairs, ∀ e' ∈ pairs, e.1 = e'.1 → e = e'))

theorem lookup_eq_some_iff {pairs : List (String × String)} (hfun : Functional pairs) (n t : String) :
    pairs.lookup n = some t ↔ (n, t) ∈ pairs := by
  have hmem {t : String} (h : pairs.lookup n = some t) : (n, t) ∈ pairs := by
    obtain ⟨before, after, rfl, -⟩ := List.lookup_eq_some_iff.1 h
    simp
  refine ⟨hmem, fun h => ?_⟩
  cases hlookup : pairs.lookup n with
  | none => exact absurd (List.mem_map_of_mem h) ((Table.lookup_eq_none_iff_not_mem n pairs).1 hlookup)
  | some u => rw [← Prod.mk.inj (hfun _ (hmem hlookup) _ h rfl) |>.2]

theorem Functional.of_concat {pairs : List (String × String)} {e : String × String} (h : Functional (pairs ++ [e])) :
    Functional pairs := fun a ha b hb => h a (List.mem_append_left _ ha) b (List.mem_append_left _ hb)

/-- A pair behind others was there before, or starts at a new name. -/
theorem Functional.mem_or_new {pairs : List (String × String)} {e : String × String} (h : Functional (pairs ++ [e])) :
    e ∈ pairs ∨ e.1 ∉ pairs.map Prod.fst := by
  by_cases hmem : e.1 ∈ pairs.map Prod.fst
  · obtain ⟨e', he', hfst⟩ := List.mem_map.1 hmem
    obtain rfl : e' = e := h e' (List.mem_append_left _ he') e (by simp) hfst
    exact .inl he'
  · exact .inr hmem

theorem lookup_concat (pairs : List (String × String)) (e : String × String) (n : String) :
    (pairs ++ [e]).lookup n = (pairs.lookup n).or (if n = e.1 then some e.2 else none) := by
  rw [List.lookup_append, Table.lookup_cons_eq_ite]
  rfl

theorem lookup_concat_of_mem {pairs : List (String × String)} (hfun : Functional pairs) {e : String × String} (he : e ∈ pairs)
    (n : String) : (pairs ++ [e]).lookup n = pairs.lookup n := by
  rw [lookup_concat]
  split
  · rename_i hn
    rw [hn, (lookup_eq_some_iff hfun e.1 e.2).2 he]
    rfl
  · exact Option.or_none

theorem lookup_concat_of_new {pairs : List (String × String)} {e : String × String} (hnew : e.1 ∉ pairs.map Prod.fst)
    (n : String) : (pairs ++ [e]).lookup n = if n = e.1 then some e.2 else pairs.lookup n := by
  rw [lookup_concat]
  split
  · rename_i hn
    rw [hn, (Table.lookup_eq_none_iff_not_mem _ _).2 hnew]
    rfl
  · exact Option.or_none

theorem mem_of_contains_assignAll (pairs : List (String × String)) {n : String}
    (h : (empty.assignAll pairs).parent.contains n = true) : n ∈ pairs.map Prod.fst := by
  induction pairs using List.reverseRecOn with
  | nil => cases h
  | append_singleton pairs e ih =>
    rw [assignAll_concat, contains_assign (acyclic_assignAll pairs)] at h
    rw [List.map_append, List.mem_append]
    rcases h with h | ⟨-, rfl⟩
    · exact .inl (ih h)
    · exact .inr (by simp)

/-- A name that no pair starts at is its own canonical name. -/
theorem canonical_of_not_mem {pairs : List (String × String)} {n : String} (h : n ∉ pairs.map Prod.fst) :
    (empty.assignAll pairs).canonical n = n := by
  refine canonical_eq_self (acyclic_assignAll pairs) (Option.not_isSome_iff_eq_none.1 fun hn => h ?_)
  exact mem_of_contains_assignAll pairs hn

/-- A pair whose names share their canonical name already changes no canonical name. -/
theorem canonical_assign_of_eq {a : Aliases} (hac : Acyclic a.parent) {n t : String} (h : a.canonical n = a.canonical t)
    (m : String) : (a.assign n t).2.canonical m = a.canonical m := by
  simp only [canonical_assign hac, assign_fst hac]
  split
  · rename_i hm
    obtain ⟨⟨-, -, hne⟩, rfl⟩ := hm
    exact absurd (h.symm.trans (canonical_canonical hac m)) hne
  · rfl

/-- A pair that starts at a new name gives that name the canonical name of its end. -/
theorem canonical_assign_of_new {a : Aliases} (hac : Acyclic a.parent) {n t : String}
    (hnew : ¬ a.parent.contains n = true) (m : String) :
    (a.assign n t).2.canonical m = if a.canonical m = n then a.canonical t else a.canonical m := by
  have hself : a.canonical n = n := canonical_eq_self hac (Option.not_isSome_iff_eq_none.1 hnew)
  simp only [canonical_assign hac, assign_fst hac]
  by_cases hm : a.canonical m = n
  · by_cases ht : a.canonical t = n
    · simp [ht, hm]
    · have hne : n ≠ t := by
        rintro rfl
        exact ht hself
      simp [hm, ht, hne, hnew]
  · simp [hm]

section Pairs
variable {pairs : List (String × String)} (hfun : Functional pairs)
include hfun

/-- The names of a pair have the same canonical name. -/
theorem canonical_of_mem : ∀ e ∈ pairs, (empty.assignAll pairs).canonical e.1 = (empty.assignAll pairs).canonical e.2 := by
  induction pairs using List.reverseRecOn with
  | nil => exact nofun
  | append_singleton pairs e ih =>
    have ih := ih hfun.of_concat
    have hac := acyclic_assignAll pairs
    rw [assignAll_concat]
    intro e' he'
    rcases hfun.mem_or_new with he | hnew
    · have he' : e' ∈ pairs := by
        rcases List.mem_append.1 he' with he' | he'
        · exact he'
        · rwa [List.mem_singleton.1 he']
      rw [canonical_assign_of_eq hac (ih e he), canonical_assign_of_eq hac (ih e he), ih e' he']
    · have hunknown : ¬ (empty.assignAll pairs).parent.contains e.1 = true := fun h => hnew (mem_of_contains_assignAll pairs h)
      rw [canonical_assign_of_new hac hunknown, canonical_assign_of_new hac hunknown]
      rcases List.mem_append.1 he' with he' | he'
      · rw [ih e' he']
      · obtain rfl := List.mem_singleton.1 he'
        rw [if_pos (canonical_of_not_mem hnew)]
        split <;> rfl

/-- Canonical names are where following the pairs settles: at a name without a pair, or on a cycle at the name whose pair
comes last. -/
theorem settles_assignAll {upTo : String → String → Prop} (hrefl : ∀ a, upTo a a)
    (hsorted : pairs.Pairwise fun e e' => upTo e.1 e'.1) (x : String) :
    Settles upTo (fun n => pairs.lookup n) x ((empty.assignAll pairs).canonical x) := by
  induction pairs using List.reverseRecOn generalizing x with
  | nil => exact ⟨.refl, .inl rfl⟩
  | append_singleton pairs e ih =>
    obtain ⟨hsorted, -, hlast⟩ := List.pairwise_append.1 hsorted
    have ih := ih hfun.of_concat hsorted
    have hac := acyclic_assignAll pairs
    rw [assignAll_concat]
    rcases hfun.mem_or_new with he | hnew
    · rw [funext (lookup_concat_of_mem hfun.of_concat he), canonical_assign_of_eq hac (canonical_of_mem hfun.of_concat e he)]
      exact ih x
    have hnone : pairs.lookup e.1 = none := (Table.lookup_eq_none_iff_not_mem _ _).2 hnew
    have hnext := lookup_concat_of_new hnew
    rw [canonical_assign_of_new hac fun h => hnew (mem_of_contains_assignAll pairs h)]
    by_cases hx : (empty.assignAll pairs).canonical x = e.1
    · rw [if_pos hx]
      have hxe : ReflTransGen (StepsTo fun n => pairs.lookup n) x e.1 := hx ▸ (ih x).1
      by_cases ht : (empty.assignAll pairs).canonical e.2 = e.1
      -- The end of the new pair leads back to its start, and on this cycle no pair comes later.
      · rw [ht]
        refine Settles.closed hnone hnext hxe (ht ▸ (ih e.2).1) fun d hd => ?_
        rw [hnext] at hd
        split at hd
        · subst d; exact hrefl e.1
        · obtain ⟨e', he', rfl⟩ := List.mem_map.1 (not_not.1 (mt (Table.lookup_eq_none_iff_not_mem d pairs).2 hd))
          exact hlast e' he' e (by simp)
      · exact Settles.through hnone hnext hxe (ih e.2) ht
    · rw [if_neg hx]
      exact (ih x).extend hnone hnext hx

end Pairs

/-! ## Tables -/

theorem functional_of_nodup {pairs : List (String × String)} (h : (pairs.map Prod.fst).Nodup) : Functional pairs :=
  fun _ he _ he' heq => List.inj_on_of_nodup_map h he he' heq

/-- Following a table, a cycle settles at its greatest name. -/
theorem settles_ofTable (t : Table String String) (x : String) :
    Settles (fun d r => Text.bytes d ≤ Text.bytes r) t.get? x ((ofTable t).canonical x) := by
  have hperm : (sorted t.entries).Perm t.entries := List.mergeSort_perm ..
  have hfun : Functional (sorted t.entries) :=
    functional_of_nodup ((hperm.map Prod.fst).nodup_iff.2 t.keys_nodup)
  have hsorted : (sorted t.entries).Pairwise fun e e' => Text.bytes e.1 ≤ Text.bytes e'.1 := by
    have h : (sorted t.entries).Pairwise fun e e' => decide (e.1 ≤ e'.1) = true :=
      List.pairwise_mergeSort (fun a b c => by simpa using le_trans) (fun a b => by simpa using le_total a.1 b.1) t.entries
    exact h.imp fun h => (Text.bytes_le_iff _ _).2 (by simpa using h)
  have hget : (fun n => (sorted t.entries).lookup n) = t.get? := by
    funext n
    ext m
    rw [lookup_eq_some_iff hfun, hperm.mem_iff, Table.get?_eq_some_iff]
  exact hget ▸ settles_assignAll hfun (fun a => List.le_refl _) hsorted x

/-- The canonical names of a table of names are where following the table settles: at the first name that is no key of it,
or else, on a cycle, at the name whose bytes are greatest. So a set that is written out as a table of canonical names,
after any calls, tells the same buffers when it is read back, and so do the buffers that go with an order of passes. -/
theorem ofTable_settles (t : Table String String) :
    (∀ x r, (ofTable t).canonical x = r ↔ ReflTransGen (StepsTo t.get?) x r ∧
      (t.get? r = none ∨
        TransGen (StepsTo t.get?) r r ∧ ∀ d, ReflTransGen (StepsTo t.get?) r d → Text.bytes d ≤ Text.bytes r)) ∧
    (∀ calls n, (ofTable (run calls).toTable).canonical n = (run calls).canonical n) ∧
    (∀ passes schedule n, Schedule.topological passes = .ok schedule →
      (ofTable schedule.canonical).canonical n =
        (Schedule.aliases (Schedule.arrange passes schedule.order)).canonical n) := by
  have hanti (a b : String) (hab : Text.bytes a ≤ Text.bytes b) (hba : Text.bytes b ≤ Text.bytes a) : a = b :=
    le_antisymm ((Text.bytes_le_iff a b).1 hab) ((Text.bytes_le_iff b a).1 hba)
  refine ⟨fun x r => ⟨?_, fun h => ?_⟩, fun calls n => ?_, fun passes schedule n h => ?_⟩
  · rintro rfl
    exact settles_ofTable t x
  · exact (settles_ofTable t x).unique hanti h
  · exact canonical_ofTable_toTable (acyclic_run calls) n
  · rw [Compile.canonical_topological h]
    exact canonical_ofTable_toTable (acyclic_assignAll _) n

/-- A cycle of two names, a name that leads into it, and one that is paired with itself. -/
example :
    let a := ofTable (.ofList [("sky", "fog"), ("fog", "mist"), ("mist", "fog"), ("rain", "rain")])
    a.canonical "sky" = "mist" ∧ a.canonical "fog" = "mist" ∧ a.canonical "rain" = "rain" := by
  cbv

end RenderGraph.Aliases
