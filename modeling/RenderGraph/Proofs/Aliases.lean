import Mathlib.Data.List.Induction
import Mathlib.Logic.Relation
import Mathlib.Tactic.ByContra
import RenderGraph.Aliases
/-!
# Shortened pointers keep every canonical name

`find` rewrites pointers while it walks along them, and `assign` does so even
when it refuses. Neither shows: pointers only move to names that could be
reached before (`Shortens`), so no cycle appears, every walk ends, and it ends
where it ended (`ends_iff`).

`run_canonical`: after any calls, the set answers as one that never rewrites a
pointer, and each further call changes canonical names only by what `assign`
accepts. Walks are stated as relations (`Ends`, `Rewrites`) beside the bounded
functions, so that a walk that never ended would have no derivation.
-/

namespace RenderGraph.Aliases

open Relation

/-- The pointer of `a` leads to `b`. -/
def Points (parent : Table String String) (a b : String) : Prop := parent.get? a = some b

/-- No name leads back to itself. -/
def Acyclic (parent : Table String String) : Prop := ∀ a, ¬ TransGen (Points parent) a a

/-- Following pointers from a name ends at the last one. -/
inductive Ends (parent : Table String String) : String → String → Prop
  | stop {a : String} : parent.get? a = none → Ends parent a a
  | step {a b r : String} : Points parent a b → Ends parent b r → Ends parent a r

/-- Letting the names from `a` on point at `root`, one after another, ends with
the last table. Each step reads the table that the steps before it left. -/
inductive Rewrites (root : String) : String → Table String String → Table String String → Prop
  | stop {a : String} {parent : Table String String} : parent.get? a = none → Rewrites root a parent parent
  | reached {a : String} {parent : Table String String} : Points parent a root → Rewrites root a parent parent
  | step {a b : String} {parent out : Table String String} : Points parent a b → b ≠ root →
      Rewrites root b (parent.insert a root) out → Rewrites root a parent out

/-! ## Walks -/

section Walks
variable {parent : Table String String}

theorem Points.unique {a b c : String} (hb : Points parent a b) (hc : Points parent a c) : b = c :=
  Option.some.inj (hb.symm.trans hc)

theorem Ends.get?_eq_none {a r : String} (h : Ends parent a r) : parent.get? r = none := by
  induction h with
  | stop h => exact h
  | step _ _ ih => exact ih

theorem Ends.reaches {a r : String} (h : Ends parent a r) : ReflTransGen (Points parent) a r := by
  induction h with
  | stop _ => exact .refl
  | step hp _ ih => exact .head hp ih

theorem Ends.unique {a r r' : String} (h : Ends parent a r) (h' : Ends parent a r') : r = r' := by
  induction h with
  | stop hn =>
    cases h' with
    | stop _ => rfl
    | step hp _ => rw [Points, hn] at hp; cases hp
  | step hp _ ih =>
    cases h' with
    | stop hn => rw [Points, hn] at hp; cases hp
    | step hp' h' => exact ih (hp.unique hp' ▸ h')

/-- A walk can be put in front of another. -/
theorem Ends.of_reaches {a b r : String} (hab : ReflTransGen (Points parent) a b) (h : Ends parent b r) :
    Ends parent a r := by
  induction hab using ReflTransGen.head_induction_on with
  | refl => exact h
  | head hp _ ih => exact .step hp ih

theorem Ends.trans_reaches {a b r : String} (h : Ends parent a r) (hp : Points parent a b) :
    TransGen (Points parent) a r := by
  cases h with
  | stop hn => rw [Points, hn] at hp; cases hp
  | step hp' h => exact TransGen.head' hp' h.reaches

theorem Points.mem_keys {a b : String} (h : Points parent a b) : a ∈ parent.keys := by
  refine (parent.contains_iff a).1 ?_
  rw [Table.contains, h]
  rfl

end Walks

/-! ## Enough steps -/

/-- Names that lists every aliased name that a walk from `a` can meet. -/
def Covers (parent : Table String String) (a : String) (names : List String) : Prop :=
  ∀ b, ReflTransGen (Points parent) a b → b ∈ parent.keys → b ∈ names

theorem covers_keys (parent : Table String String) (a : String) : Covers parent a parent.keys :=
  fun _ _ h => h

/-- Behind the first pointer there is one name less to meet. -/
theorem Covers.next {parent : Table String String} (hac : Acyclic parent) {a b : String} {names : List String}
    (h : Covers parent a names) (hp : Points parent a b) : Covers parent b (names.erase a) := by
  intro c hbc hc
  have hne : c ≠ a := by
    rintro rfl
    exact hac c (TransGen.head' hp hbc)
  exact (List.mem_erase_of_ne hne).2 (h c (.head hp hbc) hc)

theorem Covers.length_erase {parent : Table String String} {a b : String} {names : List String}
    (h : Covers parent a names) (hp : Points parent a b) : (names.erase a).length + 1 = names.length := by
  have hm : a ∈ names := h a .refl hp.mem_keys
  have := List.length_pos_of_mem hm
  rw [List.length_erase_of_mem hm]
  omega

theorem ends_follow {parent : Table String String} (hac : Acyclic parent) (steps : Nat) :
    ∀ (a : String) (names : List String), Covers parent a names → names.length ≤ steps →
      Ends parent a (follow parent steps a) := by
  induction steps with
  | zero =>
    intro a names hc hl
    obtain rfl : names = [] := List.length_eq_zero_iff.1 (by omega)
    refine .stop ((parent.get?_eq_none_iff a).2 fun hm => ?_)
    exact List.not_mem_nil (hc a .refl hm)
  | succ steps ih =>
    intro a names hc hl
    rw [follow]
    split
    · rename_i b hp
      have := hc.length_erase hp
      exact .step hp (ih b _ (hc.next hac hp) (by omega))
    · exact .stop ‹_›

/-- Following as many pointers as there are aliased names reaches the end. -/
theorem ends_canonical {a : Aliases} (hac : Acyclic a.parent) (n : String) : Ends a.parent n (a.canonical n) :=
  ends_follow hac _ n _ (covers_keys a.parent n) (by simp [Table.keys, Table.size, size])

theorem Ends.canonical_eq {a : Aliases} (hac : Acyclic a.parent) {n r : String} (h : Ends a.parent n r) :
    a.canonical n = r :=
  (ends_canonical hac n).unique h

theorem canonical_eq_self {a : Aliases} (hac : Acyclic a.parent) {n : String} (h : a.parent.get? n = none) :
    a.canonical n = n :=
  (Ends.stop h).canonical_eq hac

theorem canonical_canonical {a : Aliases} (hac : Acyclic a.parent) (n : String) :
    a.canonical (a.canonical n) = a.canonical n :=
  canonical_eq_self hac (ends_canonical hac n).get?_eq_none

/-! ## Shortening -/

/-- The same names have pointers, and each pointer leads where pointers led before. -/
structure Shortens (new old : Table String String) : Prop where
  stops : ∀ a, new.get? a = none ↔ old.get? a = none
  reaches : ∀ a b, Points new a b → TransGen (Points old) a b

theorem Shortens.refl (parent : Table String String) : Shortens parent parent :=
  ⟨fun _ => .rfl, fun _ _ => .single⟩

theorem Shortens.transGen {new old : Table String String} (h : Shortens new old) {a b : String}
    (hp : TransGen (Points new) a b) : TransGen (Points old) a b := by
  induction hp with
  | single hp => exact h.reaches _ _ hp
  | tail _ hp ih => exact ih.trans (h.reaches _ _ hp)

theorem Shortens.trans {s t u : Table String String} (h : Shortens s t) (h' : Shortens t u) : Shortens s u :=
  ⟨fun a => (h.stops a).trans (h'.stops a), fun a b hp => h'.transGen (h.reaches a b hp)⟩

theorem Shortens.acyclic {new old : Table String String} (h : Shortens new old) (hac : Acyclic old) : Acyclic new :=
  fun a hp => hac a (h.transGen hp)

theorem Shortens.ends {new old : Table String String} (h : Shortens new old) {a r : String} (he : Ends new a r) :
    Ends old a r := by
  induction he with
  | stop hn => exact .stop ((h.stops _).1 hn)
  | step hp _ ih => exact .of_reaches (h.reaches _ _ hp).to_reflTransGen ih

theorem Shortens.contains {new old : Table String String} (h : Shortens new old) (a : String) :
    new.contains a = old.contains a := by
  have := h.stops a
  unfold Table.contains
  cases hn : new.get? a <;> cases ho : old.get? a <;> simp_all

/-- Shortened pointers end where the old ones did. -/
theorem Shortens.ends_iff {new old : Table String String} (h : Shortens new old) (hac : Acyclic old) (a r : String) :
    Ends new a r ↔ Ends old a r := by
  refine ⟨h.ends, fun he => ?_⟩
  have hn := ends_canonical (a := ⟨new⟩) (h.acyclic hac) a
  exact (h.ends hn).unique he ▸ hn

theorem Shortens.canonical {new old : Aliases} (h : Shortens new.parent old.parent) (hac : Acyclic old.parent)
    (n : String) : new.canonical n = old.canonical n :=
  ((h.ends_iff hac n _).2 (ends_canonical hac n)).canonical_eq (h.acyclic hac)

/-- One step of the loop: the pointer of a name moves to the end of its walk. -/
theorem shortens_insert {parent : Table String String} {a b root : String} (h : Ends parent a root)
    (hp : Points parent a b) : Shortens (parent.insert a root) parent where
  stops c := by
    rw [Table.get?_insert]
    split
    · subst_vars; rw [hp]; simp
    · exact .rfl
  reaches c d hc := by
    rw [Points, Table.get?_insert] at hc
    split at hc
    · subst_vars; cases hc; exact h.trans_reaches hp
    · exact .single hc

theorem Covers.shorten {new old : Table String String} (h : Shortens new old) {a : String} {names : List String}
    (hc : Covers old a names) : Covers new a names := by
  intro b hab hb
  refine hc b (reflTransGen_closed (fun c d hp => (h.reaches c d hp).to_reflTransGen) _ _ hab) ?_
  by_contra hn
  exact (new.get?_eq_none_iff b).1 ((h.stops b).2 ((old.get?_eq_none_iff b).2 hn)) hb

/-- The loop of `find` ends within its bound, and only shortens pointers. -/
theorem rewrites_shorten {root : String} (steps : Nat) :
    ∀ (a : String) (parent : Table String String) (names : List String), Acyclic parent → Ends parent a root →
      Covers parent a names → names.length ≤ steps →
        Rewrites root a parent (shorten root steps a parent) ∧ Shortens (shorten root steps a parent) parent := by
  induction steps with
  | zero =>
    intro a parent names _ _ hc hl
    obtain rfl : names = [] := List.length_eq_zero_iff.1 (by omega)
    refine ⟨.stop ((parent.get?_eq_none_iff a).2 fun hm => ?_), .refl parent⟩
    exact List.not_mem_nil (hc a .refl hm)
  | succ steps ih =>
    intro a parent names hac he hc hl
    rw [shorten]
    split
    · rename_i b hp
      split
      · subst_vars; exact ⟨.reached hp, .refl parent⟩
      · rename_i hb
        have hs := shortens_insert he hp
        have heb : Ends parent b root := by
          cases he with
          | stop hn => rw [hn] at hp; cases hp
          | step hp' he => exact Points.unique hp' hp ▸ he
        -- The walk from `b` goes on in the table that this step left, where it meets no new names.
        have := hc.length_erase hp
        obtain ⟨hr, hs'⟩ := ih b _ _ (hs.acyclic hac) ((hs.ends_iff hac b root).2 heb)
          ((hc.next hac hp).shorten hs) (by omega)
        exact ⟨.step hp hb hr, hs'.trans hs⟩
    · exact ⟨.stop ‹_›, .refl parent⟩

/-! ## A new pointer -/

/-- A walk that ends is on no cycle. -/
theorem Ends.not_transGen {parent : Table String String} {a r : String} (h : Ends parent a r) :
    ¬ TransGen (Points parent) a a := by
  induction h with
  | stop hn =>
    intro hc
    obtain ⟨b, hp, -⟩ := TransGen.head'_iff.1 hc
    rw [Points, hn] at hp
    cases hp
  | @step a b r hp _ ih =>
    intro hc
    obtain ⟨b', hp', hba⟩ := TransGen.head'_iff.1 hc
    obtain rfl := hp.unique hp'
    exact ih (TransGen.tail' hba hp)

theorem acyclic_iff {parent : Table String String} : Acyclic parent ↔ ∀ a, ∃ r, Ends parent a r :=
  ⟨fun hac a => ⟨_, ends_canonical (a := ⟨parent⟩) hac a⟩, fun h a => let ⟨_, he⟩ := h a; he.not_transGen⟩

section Insert
variable {parent : Table String String} {n t r : String}

/-- A name without a pointer is only met where a walk ends, so a pointer given
to it continues the walks that end there. -/
theorem Ends.insert {m e x : String} (hn : parent.get? n = none) (h : Ends parent m e)
    (hx : Ends (parent.insert n t) e x) : Ends (parent.insert n t) m x := by
  induction h with
  | stop _ => exact hx
  | @step a b _ hp _ ih =>
    have hne : a ≠ n := by
      rintro rfl
      rw [Points, hn] at hp
      cases hp
    exact .step (by rw [Points, Table.get?_insert, if_neg hne]; exact hp) (ih hx)

theorem ends_insert (hn : parent.get? n = none) (ht : Ends parent t r) (hr : r ≠ n) {m e : String}
    (h : Ends parent m e) : Ends (parent.insert n t) m (if e = n then r else e) := by
  have stop : ∀ {e}, parent.get? e = none → e ≠ n → Ends (parent.insert n t) e e := fun he hne =>
    .stop (by rw [Table.get?_insert, if_neg hne]; exact he)
  split
  · subst_vars
    exact h.insert hn (.step (parent.get?_insert_self _ t) (ht.insert hn (stop ht.get?_eq_none hr)))
  · exact h.insert hn (stop h.get?_eq_none ‹_›)

theorem acyclic_insert (hac : Acyclic parent) (hn : parent.get? n = none) (ht : Ends parent t r) (hr : r ≠ n) :
    Acyclic (parent.insert n t) :=
  acyclic_iff.2 fun a => let ⟨_, he⟩ := acyclic_iff.1 hac a; ⟨_, ends_insert hn ht hr he⟩

end Insert

theorem canonical_insert {a : Aliases} (hac : Acyclic a.parent) {n t : String} (hn : a.parent.get? n = none)
    (hr : a.canonical t ≠ n) (m : String) :
    canonical ⟨a.parent.insert n t⟩ m = if a.canonical m = n then a.canonical t else a.canonical m :=
  (ends_insert hn (ends_canonical hac t) hr (ends_canonical hac m)).canonical_eq
    (acyclic_insert hac hn (ends_canonical hac t) hr)

/-! ## What a call does -/

section Calls
variable {a : Aliases} (hac : Acyclic a.parent)
include hac

theorem rewrites_find (n : String) :
    Rewrites (a.canonical n) n a.parent (a.find n).2.parent ∧ Shortens (a.find n).2.parent a.parent :=
  rewrites_shorten _ n _ _ hac (ends_canonical hac n) (covers_keys a.parent n) (by simp [Table.keys, Table.size, size])

theorem canonical_find (n m : String) : (a.find n).2.canonical m = a.canonical m :=
  (rewrites_find hac n).2.canonical hac m

/-- `assign` refuses and at most shortens pointers, or it gives a name without a
pointer one to the end of the target's walk. -/
theorem assign_cases (n t : String) :
    ((n = t ∨ a.parent.contains n = true ∨ a.canonical t = n) ∧
      (a.assign n t).1 = false ∧ Shortens (a.assign n t).2.parent a.parent) ∨
    ((n ≠ t ∧ a.parent.contains n = false ∧ a.canonical t ≠ n) ∧ (a.assign n t).1 = true ∧
      ∃ s : Aliases, Shortens s.parent a.parent ∧ (a.assign n t).2 = ⟨s.parent.insert n (a.canonical t)⟩) := by
  have hs := (rewrites_find hac t).2
  unfold assign
  split
  · rename_i h
    exact .inl ⟨h.imp_right .inl, rfl, .refl _⟩
  · rename_i h
    simp only [not_or, Bool.not_eq_true] at h
    rw [show a.find t = (a.canonical t, (a.find t).2) from rfl]
    dsimp only
    by_cases hr : a.canonical t = n
    · rw [if_pos hr]
      exact .inl ⟨.inr (.inr hr), rfl, hs⟩
    · rw [if_neg hr]
      exact .inr ⟨⟨h.1, h.2, hr⟩, rfl, _, hs, rfl⟩

theorem assign_fst (n t : String) :
    (a.assign n t).1 = true ↔ n ≠ t ∧ ¬ a.parent.contains n = true ∧ a.canonical t ≠ n := by
  rcases assign_cases hac n t with ⟨h, hf, -⟩ | ⟨h, ht, -⟩
  · rw [hf]
    refine ⟨nofun, fun h' => ?_⟩
    rcases h with h | h | h
    · exact absurd h h'.1
    · exact absurd h h'.2.1
    · exact absurd h h'.2.2
  · simp [ht, h]

end Calls

section Assign
variable {a : Aliases} (hac : Acyclic a.parent)
include hac

theorem acyclic_assign (n t : String) : Acyclic (a.assign n t).2.parent := by
  rcases assign_cases hac n t with ⟨-, -, hs⟩ | ⟨⟨-, hc, hr⟩, -, s, hs, he⟩
  · exact hs.acyclic hac
  · have hn := (hs.stops n).2 (Option.not_isSome_iff_eq_none.1 (by simpa [Table.contains] using hc))
    rw [he]
    exact acyclic_insert (hs.acyclic hac) hn
      ((hs.ends_iff hac _ _).2 (.stop (ends_canonical hac t).get?_eq_none)) hr

/-- Only an accepted call moves canonical names: those at the new alias go on to
the end of the target. -/
theorem canonical_assign (n t m : String) :
    (a.assign n t).2.canonical m =
      if (a.assign n t).1 = true ∧ a.canonical m = n then a.canonical t else a.canonical m := by
  rcases assign_cases hac n t with ⟨-, hf, hs⟩ | ⟨⟨-, hc, hr⟩, ht, s, hs, he⟩
  · rw [hf, hs.canonical hac]
    simp
  · have hn := (hs.stops n).2 (Option.not_isSome_iff_eq_none.1 (by simpa [Table.contains] using hc))
    have hroot : s.canonical (a.canonical t) = a.canonical t := by
      rw [hs.canonical hac]
      exact canonical_canonical hac t
    rw [ht, he, canonical_insert (hs.acyclic hac) hn (by rwa [hroot]), hroot, hs.canonical hac]
    simp

theorem contains_assign (n t m : String) :
    (a.assign n t).2.parent.contains m = true ↔ a.parent.contains m = true ∨ ((a.assign n t).1 = true ∧ n = m) := by
  rcases assign_cases hac n t with ⟨-, hf, hs⟩ | ⟨-, ht, s, hs, he⟩
  · rw [hf, hs.contains]
    simp
  · rw [ht, he, Table.contains, Table.get?_insert, ← hs.contains, Table.contains]
    by_cases h : m = n
    · simp [h]
    · simp [h, Ne.symm h]

end Assign

/-! ## Runs of calls -/

/-- A call that may change the set. -/
inductive Call where
  | assign (name target : String)
  | find (name : String)

/-- The set after a call. -/
def Call.apply (a : Aliases) : Call → Aliases
  | assign n t => (a.assign n t).2
  | find n => (a.find n).2

/-- The set after calls on an empty one. -/
def run (calls : List Call) : Aliases := calls.foldl Call.apply empty

/-- Some call of a run assigned the name. -/
def Assigned (calls : List Call) (n : String) : Prop :=
  ∃ before t rest, calls = before ++ .assign n t :: rest ∧ ((run before).assign n t).1 = true

/-- `assign` without any shortening: the pointer leads to the target itself. -/
def assignPlain (a : Aliases) (n t : String) : Aliases :=
  if n = t ∨ a.parent.contains n ∨ a.canonical t = n then a else ⟨a.parent.insert n t⟩

/-- The set after a call if no pointer is ever rewritten. -/
def Call.applyPlain (a : Aliases) : Call → Aliases
  | assign n t => a.assignPlain n t
  | find _ => a

/-- The set after calls on an empty one, with no pointer rewritten. -/
def runPlain (calls : List Call) : Aliases := calls.foldl Call.applyPlain empty

theorem run_concat (calls : List Call) (c : Call) : run (calls ++ [c]) = c.apply (run calls) := by
  simp [run]

theorem runPlain_concat (calls : List Call) (c : Call) : runPlain (calls ++ [c]) = c.applyPlain (runPlain calls) := by
  simp [runPlain]

theorem assigned_concat (calls : List Call) (c : Call) (n : String) :
    Assigned (calls ++ [c]) n ↔ Assigned calls n ∨ ∃ t, c = .assign n t ∧ ((run calls).assign n t).1 = true := by
  constructor
  · rintro ⟨before, t, rest, he, ha⟩
    rcases List.eq_nil_or_concat rest with rfl | ⟨rest, d, rfl⟩
    · obtain ⟨rfl, he⟩ := List.append_inj' he rfl
      exact .inr ⟨t, by simpa using he, ha⟩
    · rw [List.concat_eq_append, ← List.cons_append, ← List.append_assoc] at he
      exact .inl ⟨before, t, rest, (List.append_inj' he rfl).1, ha⟩
  · rintro (⟨before, t, rest, rfl, ha⟩ | ⟨t, rfl, ha⟩)
    · exact ⟨before, t, rest ++ [c], by simp, ha⟩
    · exact ⟨calls, t, [], rfl, ha⟩

theorem acyclic_empty : Acyclic empty.parent := acyclic_iff.2 fun _ => ⟨_, .stop rfl⟩

theorem acyclic_apply {a : Aliases} (hac : Acyclic a.parent) (c : Call) : Acyclic (c.apply a).parent := by
  cases c with
  | assign n t => exact acyclic_assign hac n t
  | find n => exact (rewrites_find hac n).2.acyclic hac

theorem acyclic_run (calls : List Call) : Acyclic (run calls).parent := by
  induction calls using List.reverseRecOn with
  | nil => exact acyclic_empty
  | append_singleton calls c ih => rw [run_concat]; exact acyclic_apply ih c

theorem contains_run (calls : List Call) (n : String) : (run calls).parent.contains n = true ↔ Assigned calls n := by
  induction calls using List.reverseRecOn with
  | nil =>
    refine ⟨nofun, ?_⟩
    rintro ⟨before, t, rest, he, -⟩
    simp at he
  | append_singleton calls c ih =>
    rw [run_concat, assigned_concat, ← ih]
    have hac := acyclic_run calls
    cases c with
    | assign m t =>
      rw [Call.apply, contains_assign hac]
      refine or_congr .rfl ⟨?_, ?_⟩
      · rintro ⟨h, rfl⟩; exact ⟨t, rfl, h⟩
      · rintro ⟨_, he, h⟩; cases he; exact ⟨h, rfl⟩
    | find m =>
      rw [Call.apply, (rewrites_find hac m).2.contains]
      simp

/-! ## The set answers as one that rewrites nothing -/

theorem canonical_assignPlain {a : Aliases} (hac : Acyclic a.parent) (n t m : String) :
    (a.assignPlain n t).canonical m =
      if (a.assign n t).1 = true ∧ a.canonical m = n then a.canonical t else a.canonical m := by
  unfold assignPlain
  simp only [assign_fst hac]
  split
  · rename_i h
    rw [if_neg (by tauto)]
  · rename_i h
    simp only [not_or] at h
    rw [canonical_insert hac (by simpa [Table.contains] using h.2.1) h.2.2]
    simp [h]

theorem acyclic_assignPlain {a : Aliases} (hac : Acyclic a.parent) (n t : String) :
    Acyclic (a.assignPlain n t).parent := by
  unfold assignPlain
  split
  · exact hac
  · rename_i h
    simp only [not_or] at h
    exact acyclic_insert hac (by simpa [Table.contains] using h.2.1) (ends_canonical hac t) h.2.2

theorem contains_assignPlain {a : Aliases} (hac : Acyclic a.parent) (n t m : String) :
    (a.assignPlain n t).parent.contains m = true ↔ a.parent.contains m = true ∨ ((a.assign n t).1 = true ∧ n = m) := by
  unfold assignPlain
  rw [assign_fst hac]
  split
  · tauto
  · simp only [Table.contains, Table.get?_insert]
    split <;> simp_all [Table.contains]
    tauto

/-- The two runs keep in step. -/
theorem run_agrees (calls : List Call) :
    Acyclic (runPlain calls).parent ∧ (∀ n, (run calls).canonical n = (runPlain calls).canonical n) ∧
      ∀ n, (run calls).parent.contains n = true ↔ (runPlain calls).parent.contains n = true := by
  induction calls using List.reverseRecOn with
  | nil => exact ⟨acyclic_empty, fun _ => rfl, fun _ => .rfl⟩
  | append_singleton calls c ih =>
    obtain ⟨hacp, hcan, hcon⟩ := ih
    have hac := acyclic_run calls
    rw [run_concat, runPlain_concat]
    cases c with
    | assign n t =>
      -- What `assign` decides by is the same in both sets, so they accept the same calls.
      have hsame : ((run calls).assign n t).1 = true ↔ ((runPlain calls).assign n t).1 = true := by
        rw [assign_fst hac, assign_fst hacp, hcan, hcon]
      refine ⟨acyclic_assignPlain hacp n t, fun m => ?_, fun m => ?_⟩
      · simp only [Call.apply, Call.applyPlain, canonical_assign hac, canonical_assignPlain hacp, hsame, hcan]
      · rw [Call.apply, Call.applyPlain, contains_assign hac, contains_assignPlain hacp, hsame, hcon]
    | find n =>
      refine ⟨hacp, fun m => ?_, fun m => ?_⟩
      · rw [Call.apply, canonical_find hac, hcan]; rfl
      · rw [Call.apply, (rewrites_find hac n).2.contains]; exact hcon m

/-- After any calls on an empty set: no name leads back to itself, every further
walk and rewriting ends, canonical names are those of a set that rewrites
nothing, and of all calls only an accepted `assign` changes them. -/
theorem run_canonical (calls : List Call) :
    let a := run calls
    Acyclic a.parent ∧
    (∀ n, a.canonical n = (runPlain calls).canonical n) ∧
    (∀ n, Ends a.parent n (a.canonical n) ∧ a.canonical (a.canonical n) = a.canonical n) ∧
    (∀ n, (a.find n).1 = a.canonical n ∧ Rewrites (a.canonical n) n a.parent (a.find n).2.parent ∧
      ∀ m, (a.find n).2.canonical m = a.canonical m) ∧
    (∀ n t, ((a.assign n t).1 = true ↔ n ≠ t ∧ ¬ Assigned calls n ∧ a.canonical t ≠ n) ∧
      ∀ m, (a.assign n t).2.canonical m =
        if (a.assign n t).1 = true ∧ a.canonical m = n then a.canonical t else a.canonical m) := by
  intro a
  have hac : Acyclic a.parent := acyclic_run calls
  refine ⟨hac, (run_agrees calls).2.1, fun n => ⟨ends_canonical hac n, ?_⟩,
    fun n => ⟨rfl, (rewrites_find hac n).1, canonical_find hac n⟩, fun n t => ⟨?_, canonical_assign hac n t⟩⟩
  · exact (Ends.stop (ends_canonical hac n).get?_eq_none).canonical_eq hac
  · rw [assign_fst hac, contains_run]

end RenderGraph.Aliases
