import RenderGraph.Compile
/-!
# Uses of a render target are counted together

The uses of all resources go through one table, which has for each render target
the names it is used by and the classes that use it. `get?_usages` says what the
table has in the end, from the uses that are about that render target alone; the
order of first use only shows in which name comes first
(`findSome?_foldl_addNew`).
-/

namespace RenderGraph.Compile

/-! ## Lists without repetition -/

theorem mem_addNew {α : Type} [DecidableEq α] {items : List α} {a b : α} : b ∈ addNew items a ↔ b ∈ items ∨ b = a := by
  unfold addNew
  split
  · rename_i h
    have : a ∈ items := by simpa using h
    constructor
    · exact .inl
    · rintro (hb | rfl) <;> assumption
  · simp

theorem mem_foldl_addNew {α : Type} [DecidableEq α] (new : List α) {a : α} :
    ∀ items, a ∈ new.foldl addNew items ↔ a ∈ items ∨ a ∈ new := by
  induction new with
  | nil => simp
  | cons b new ih =>
    intro items
    rw [List.foldl_cons, ih, mem_addNew, List.mem_cons, or_assoc]

/-- An item that is there already is not the first to have a value. -/
theorem findSome?_foldl_addNew {α β : Type} [DecidableEq α] (f : α → Option β) (new : List α) :
    ∀ items, (new.foldl addNew items).findSome? f = (items ++ new).findSome? f := by
  induction new with
  | nil => simp
  | cons b new ih =>
    intro items
    rw [List.foldl_cons, ih, List.findSome?_append, List.findSome?_append, List.findSome?_cons]
    unfold addNew
    split <;> rename_i hb
    · cases hitems : items.findSome? f with
      | some v => simp
      | none =>
        have : f b = none := List.findSome?_eq_none_iff.1 hitems b (by simpa using hb)
        simp [this]
    · rw [List.findSome?_append]
      cases items.findSome? f <;> cases hf : f b <;> simp [hf]

/-! ## Counting -/

/-- One more use of a render target. -/
def countUse (old : Option Usage) (e : String × String) : Option Usage :=
  let u := old.getD ⟨[], []⟩
  some ⟨addNew u.members e.1, addNew u.users e.2⟩

theorem foldl_countUse (es : List (String × String)) :
    ∀ u : Usage, es.foldl countUse (some u) =
      some ⟨(es.map Prod.fst).foldl addNew u.members, (es.map Prod.snd).foldl addNew u.users⟩ := by
  induction es with
  | nil => intro u; rfl
  | cons e es ih => intro u; exact ih _

section Usages
variable (r : Naming) (o : Ordered) (target : String)

theorem get?_use (t : Table String Usage) (e : String × String) :
    (use r o.aliases t e).get? target =
      if targetName? r o.aliases e.1 = some target then countUse (t.get? target) e else t.get? target := by
  unfold use
  cases h : targetName? r o.aliases e.1 with
  | none => simp
  | some other =>
    simp only [Table.alter, Table.get?_insert, Option.some_inj]
    by_cases ho : target = other
    · subst ho
      simp [countUse]
    · rw [if_neg ho, if_neg (Ne.symm ho)]

/-- The uses of one render target. -/
def usesFor : List (String × String) := (usesOf o.passes).filter fun e => targetName? r o.aliases e.1 = some target

theorem get?_foldl_use (es : List (String × String)) :
    ∀ t : Table String Usage, (es.foldl (use r o.aliases) t).get? target =
      (es.filter fun e => targetName? r o.aliases e.1 = some target).foldl countUse (t.get? target) := by
  induction es with
  | nil => intro t; rfl
  | cons e es ih =>
    intro t
    rw [List.foldl_cons, ih, get?_use, List.filter_cons]
    by_cases he : targetName? r o.aliases e.1 = some target <;> simp [he]

/-- What is known of a render target is what its uses say, and nothing is known of one without uses. -/
theorem get?_usages (u : Usage) : (usages r o).get? target = some u ↔
    usesFor r o target ≠ [] ∧ u = ⟨((usesFor r o target).map Prod.fst).foldl addNew [],
      ((usesFor r o target).map Prod.snd).foldl addNew []⟩ := by
  rw [usages, get?_foldl_use, Table.get?_empty]
  change (usesFor r o target).foldl countUse none = some u ↔ _
  cases usesFor r o target with
  | nil => simp
  | cons e es =>
    rw [List.foldl_cons, countUse, foldl_countUse, Option.some_inj, eq_comm]
    simp

end Usages

theorem mem_usesOf {passes : List Pass} {e : String × String} :
    e ∈ usesOf passes ↔ ∃ p ∈ passes, (e.1 ∈ p.reads ∨ e.1 ∈ p.writes) ∧ e.2 = p.className := by
  simp only [usesOf, List.mem_flatMap, List.mem_map, List.mem_append]
  constructor
  · rintro ⟨p, hp, name, hname, rfl⟩
    exact ⟨p, hp, hname, rfl⟩
  · rintro ⟨p, hp, hname, hclass⟩
    exact ⟨p, hp, e.1, hname, by rw [← hclass]⟩

end RenderGraph.Compile
