/-!
# Ordered tables

A `Table` holds entries with distinct keys, in the order in which the keys were first
inserted. Writing a key that is present changes its value and leaves it in its place, so a
table is decided by what was written and by the order of the first writes.

The view is `entries`. Each operation below states what it does to `get?` and to `keys`;
nothing after this module has to unfold them.
-/

namespace RenderGraph

/-- Entries with distinct keys, in the order of their first insertion. -/
structure Table (κ α : Type) where
  entries : List (κ × α)
  keys_nodup : (entries.map Prod.fst).Nodup
deriving DecidableEq

namespace Table

variable {κ α β : Type}

/-- Two tables with the same entries are the same table. -/
theorem ext_entries {s t : Table κ α} (h : s.entries = t.entries) : s = t := by
  cases s; cases t; simp_all

variable [DecidableEq κ]

def empty : Table κ α := ⟨[], List.nodup_nil⟩

instance : EmptyCollection (Table κ α) := ⟨empty⟩
instance : Inhabited (Table κ α) := ⟨empty⟩

def keys (t : Table κ α) : List κ := t.entries.map Prod.fst

/-- The values in the order of their keys. -/
def values (t : Table κ α) : List α := t.entries.map Prod.snd

def size (t : Table κ α) : Nat := t.entries.length

def isEmpty (t : Table κ α) : Bool := t.entries.isEmpty

def get? (t : Table κ α) (k : κ) : Option α := t.entries.lookup k

def contains (t : Table κ α) (k : κ) : Bool := (t.get? k).isSome

/-- The position of a key in the order. -/
def position? (t : Table κ α) (k : κ) : Option Nat := t.keys.idxOf? k

/-- Gives every entry at `k` the value `v`. -/
def overwrite (k : κ) (v : α) (entries : List (κ × α)) : List (κ × α) :=
  entries.map fun e => if e.1 = k then (e.1, v) else e

theorem map_fst_overwrite (k : κ) (v : α) (entries : List (κ × α)) :
    (overwrite k v entries).map Prod.fst = entries.map Prod.fst := by
  simp only [overwrite, List.map_map]
  apply List.map_congr_left
  intro e _
  by_cases h : e.1 = k <;> simp [h]

/-- Writes a value: a key that is present keeps its place, a new one comes last. -/
def insert (t : Table κ α) (k : κ) (v : α) : Table κ α :=
  if h : k ∈ t.keys then
    ⟨overwrite k v t.entries, by rw [map_fst_overwrite]; exact t.keys_nodup⟩
  else
    ⟨t.entries ++ [(k, v)], by
      rw [List.map_append, List.nodup_append]
      refine ⟨t.keys_nodup, by simp, ?_⟩
      rintro a ha b hb rfl
      simp only [List.map_cons, List.map_nil, List.mem_singleton] at hb
      subst hb
      exact h ha⟩

/-- Keeps the entries that satisfy `p`, in their order. -/
def filter (t : Table κ α) (p : κ → α → Bool) : Table κ α :=
  ⟨t.entries.filter fun e => p e.1 e.2, (List.filter_sublist.map Prod.fst).nodup t.keys_nodup⟩

/-- Removes a key; the rest keeps its order. -/
def erase (t : Table κ α) (k : κ) : Table κ α := t.filter fun k' _ => k' ≠ k

def mapValues (t : Table κ α) (f : α → β) : Table κ β :=
  ⟨t.entries.map fun e => (e.1, f e.2), by
    have : (t.entries.map fun e => (e.1, f e.2)).map Prod.fst = t.entries.map Prod.fst := by simp
    rw [this]; exact t.keys_nodup⟩

/-- Writes pairs one after another: a repeated key keeps its first place and its last value. -/
def insertAll (t : Table κ α) (pairs : List (κ × α)) : Table κ α :=
  pairs.foldl (fun t e => t.insert e.1 e.2) t

/-- The table of a list of pairs. -/
def ofList (pairs : List (κ × α)) : Table κ α := empty.insertAll pairs

/-- Replaces the value at a key by a function of it, `none` standing for a missing value. -/
def alter (t : Table κ α) (k : κ) (f : Option α → α) : Table κ α := t.insert k (f (t.get? k))

/-- Writes a value unless the key already has one. -/
def insertNew (t : Table κ α) (k : κ) (v : α) : Table κ α := if t.contains k then t else t.insert k v

/-! ## What the operations do to look-up and to the order of keys -/

/-- The first entry decides where its key is asked for. -/
theorem lookup_cons_eq_ite (k a : κ) (b : α) (rest : List (κ × α)) :
    List.lookup k ((a, b) :: rest) = if k = a then some b else rest.lookup k := by
  by_cases h : k = a
  · subst h; rw [List.lookup_cons_self, if_pos rfl]
  · have : (k == a) = false := beq_false_of_ne h
    rw [List.lookup_cons, this, if_neg h]

theorem lookup_overwrite (k k' : κ) (v : α) (entries : List (κ × α)) :
    (overwrite k v entries).lookup k' =
      if k' = k then (entries.lookup k).map (fun _ => v) else entries.lookup k' := by
  induction entries with
  | nil => simp [overwrite]
  | cons e rest ih =>
    obtain ⟨a, b⟩ := e
    have tail : List.lookup k' (overwrite k v ((a, b) :: rest)) =
        if k' = a then some (if a = k then v else b) else (overwrite k v rest).lookup k' := by
      by_cases ha : a = k <;> simp [overwrite, ha, lookup_cons_eq_ite]
    rw [tail, ih, lookup_cons_eq_ite, lookup_cons_eq_ite]
    by_cases hk : k' = k
    · subst hk
      by_cases ha : k' = a
      · simp [ha]
      · simp [ha]
    · by_cases ha : k' = a
      · subst ha; simp [hk]
      · simp [ha, hk]

theorem lookup_eq_none_iff_not_mem (k : κ) (entries : List (κ × α)) :
    entries.lookup k = none ↔ k ∉ entries.map Prod.fst := by
  induction entries with
  | nil => simp
  | cons e rest ih =>
    obtain ⟨a, b⟩ := e
    rw [lookup_cons_eq_ite, List.map_cons, List.mem_cons, not_or]
    by_cases h : k = a
    · simp [h]
    · rw [if_neg h, ih]
      exact ⟨fun hm => ⟨h, hm⟩, And.right⟩

@[simp] theorem get?_empty (k : κ) : (empty : Table κ α).get? k = none := rfl

theorem get?_eq_none_iff (t : Table κ α) (k : κ) : t.get? k = none ↔ k ∉ t.keys :=
  lookup_eq_none_iff_not_mem k t.entries

theorem contains_iff (t : Table κ α) (k : κ) : t.contains k = true ↔ k ∈ t.keys := by
  have := t.get?_eq_none_iff k
  unfold contains
  cases h : t.get? k <;> simp_all

theorem get?_insert (t : Table κ α) (k k' : κ) (v : α) :
    (t.insert k v).get? k' = if k' = k then some v else t.get? k' := by
  have hnone := lookup_eq_none_iff_not_mem k t.entries
  unfold insert get?
  split <;> rename_i h
  · simp only [lookup_overwrite]
    cases hl : t.entries.lookup k with
    | none => exact absurd h (hnone.1 hl)
    | some w => rfl
  · have hl : t.entries.lookup k = none := hnone.2 h
    rw [List.lookup_append, lookup_cons_eq_ite]
    by_cases hk : k' = k
    · subst hk; simp [hl]
    · simp [hk]

@[simp] theorem get?_insert_self (t : Table κ α) (k : κ) (v : α) : (t.insert k v).get? k = some v := by
  simp [get?_insert]

/-- The first value of a key stays. -/
theorem get?_insertNew (t : Table κ α) (k k' : κ) (v : α) :
    (t.insertNew k v).get? k' = (t.get? k').or (if k' = k then some v else none) := by
  unfold insertNew contains
  cases hk : t.get? k with
  | none =>
    rw [Option.isSome_none, if_neg Bool.false_ne_true, get?_insert]
    split
    · subst_vars; simp [hk]
    · simp
  | some w =>
    rw [Option.isSome_some, if_pos rfl]
    split
    · subst_vars; simp [hk]
    · simp

theorem get?_foldl_insertNew (pairs : List (κ × α)) (k : κ) :
    ∀ t : Table κ α, (pairs.foldl (fun t e => t.insertNew e.1 e.2) t).get? k = (t.get? k).or (pairs.lookup k) := by
  induction pairs with
  | nil => intro t; exact (Option.or_none ..).symm
  | cons e pairs ih =>
    intro t
    rw [List.foldl_cons, ih, get?_insertNew, Option.or_assoc, lookup_cons_eq_ite]
    split <;> rfl

/-- A new key comes last; a present one leaves the order of keys alone. -/
theorem keys_insert (t : Table κ α) (k : κ) (v : α) :
    (t.insert k v).keys = if k ∈ t.keys then t.keys else t.keys ++ [k] := by
  unfold insert
  split
  · exact map_fst_overwrite k v t.entries
  · simp [keys]

theorem lookup_map_snd (f : α → β) (k : κ) (entries : List (κ × α)) :
    (entries.map fun e => (e.1, f e.2)).lookup k = (entries.lookup k).map f := by
  induction entries with
  | nil => rfl
  | cons e rest ih =>
    obtain ⟨a, b⟩ := e
    rw [List.map_cons, lookup_cons_eq_ite, lookup_cons_eq_ite, ih]
    by_cases h : k = a <;> simp [h]

theorem get?_mapValues (t : Table κ α) (f : α → β) (k : κ) : (t.mapValues f).get? k = (t.get? k).map f :=
  lookup_map_snd f k t.entries

theorem get?_eq_some_iff (t : Table κ α) (k : κ) (v : α) : t.get? k = some v ↔ (k, v) ∈ t.entries := by
  obtain ⟨entries, nodup⟩ := t
  unfold get?
  induction entries with
  | nil => simp
  | cons e rest ih =>
    obtain ⟨a, b⟩ := e
    simp only [List.map_cons, List.nodup_cons] at nodup
    have ih := ih nodup.2
    simp only [lookup_cons_eq_ite, List.mem_cons, Prod.mk.injEq]
    by_cases h : k = a
    · subst h
      have : (k, v) ∉ rest := fun hm => nodup.1 (List.mem_map.2 ⟨_, hm, rfl⟩)
      simp [this, eq_comm]
    · simp [h, ih]

theorem mem_values_iff (t : Table κ α) (v : α) : v ∈ t.values ↔ ∃ k, t.get? k = some v := by
  simp only [values, List.mem_map, Prod.exists, get?_eq_some_iff, exists_eq_right]

/-- What stands under a key after many writes, if all that is written under it is the same. -/
theorem get?_foldl_insert {ε : Type} (key : ε → κ) (val : ε → α) (es : List ε) (k : κ) (v : α)
    (hv : ∀ e ∈ es, key e = k → val e = v) :
    ∀ t : Table κ α, (es.foldl (fun t e => t.insert (key e) (val e)) t).get? k =
      if k ∈ es.map key then some v else t.get? k := by
  induction es with
  | nil => intro t; simp
  | cons e es ih =>
    intro t
    rw [List.foldl_cons, ih fun e he => hv e (List.mem_cons_of_mem _ he), get?_insert]
    by_cases hk : k = key e
    · simp [hk, hv e List.mem_cons_self hk.symm]
    · simp [hk]

/-- Writing what a function makes of values puts that under their keys. -/
theorem get?_foldl_insert_map (f : α → β) (pairs : List (κ × α)) (k : κ) (t : Table κ β) :
    (pairs.foldl (fun t e => t.insert e.1 (f e.2)) t).get? k = (((ofList pairs).get? k).map f).or (t.get? k) := by
  have h : ∀ (u : Table κ α) (t' : Table κ β), t'.get? k = ((u.get? k).map f).or (t.get? k) →
      (pairs.foldl (fun t e => t.insert e.1 (f e.2)) t').get? k = (((u.insertAll pairs).get? k).map f).or (t.get? k) := by
    induction pairs with
    | nil => intro u t' h; exact h
    | cons e pairs ih =>
      intro u t' h
      refine ih (u.insert e.1 e.2) (t'.insert e.1 (f e.2)) ?_
      rw [get?_insert, get?_insert, h]
      split <;> rfl
  exact h empty t rfl

/-- A table of pairs in which a key never has two values. -/
theorem get?_ofList (f : κ → α) {pairs : List (κ × α)} (hf : ∀ e ∈ pairs, e.2 = f e.1) (k : κ) :
    (ofList pairs).get? k = if k ∈ pairs.map Prod.fst then some (f k) else none :=
  get?_foldl_insert Prod.fst Prod.snd pairs k (f k) (fun e he hk => by rw [hf e he, hk]) empty

theorem mem_values_ofList (f : κ → α) {pairs : List (κ × α)} (hf : ∀ e ∈ pairs, e.2 = f e.1) (v : α) :
    v ∈ (ofList pairs).values ↔ ∃ e ∈ pairs, e.2 = v := by
  rw [mem_values_iff]
  constructor
  · rintro ⟨k, hk⟩
    rw [get?_ofList f hf] at hk
    split at hk
    · rename_i hmem
      obtain ⟨e, he, rfl⟩ := List.mem_map.1 hmem
      exact ⟨e, he, (hf e he).trans (Option.some.inj hk)⟩
    · cases hk
  · rintro ⟨e, he, rfl⟩
    exact ⟨e.1, by rw [get?_ofList f hf, if_pos (List.mem_map.2 ⟨e, he, rfl⟩), hf e he]⟩

theorem get?_filter (t : Table κ α) (p : κ → α → Bool) (k : κ) : (t.filter p).get? k = (t.get? k).filter (p k) := by
  ext v
  rw [Option.filter_eq_some_iff, get?_eq_some_iff, get?_eq_some_iff, filter, List.mem_filter]

theorem get?_erase (t : Table κ α) (k k' : κ) : (t.erase k).get? k' = if k' = k then none else t.get? k' := by
  rw [erase, get?_filter]
  by_cases h : k' = k
  · simp [h]
  · cases t.get? k' <;> simp [h]

/-- The position of a key is where it stands. -/
theorem position?_eq_some_iff (t : Table κ α) (k : κ) (i : Nat) : t.position? k = some i ↔ t.keys[i]? = some k := by
  rw [position?, List.idxOf?_eq_some_iff]
  constructor
  · rintro ⟨h, hk, -⟩
    rw [List.getElem?_eq_getElem h, hk]
  · intro h
    obtain ⟨hi, hk⟩ := List.getElem?_eq_some_iff.1 h
    refine ⟨hi, hk, fun j hj he => ?_⟩
    exact List.pairwise_iff_getElem.1 t.keys_nodup j i (Nat.lt_trans hj hi) hi hj (he.trans hk.symm)

/-- A key and its value stand at one position. -/
theorem getElem?_values_of_position? {t : Table κ α} {k : κ} {v : α} {i : Nat} (hi : t.position? k = some i)
    (hv : t.get? k = some v) : t.values[i]? = some v := by
  rw [position?_eq_some_iff, keys, List.getElem?_map] at hi
  obtain ⟨⟨k', w⟩, he, rfl⟩ := Option.map_eq_some_iff.1 hi
  have hw : t.get? k' = some w := (t.get?_eq_some_iff k' w).2 (List.mem_of_getElem? he)
  rw [hv] at hw
  cases hw
  rw [values, List.getElem?_map, he]
  rfl

theorem isSome_position?_iff (t : Table κ α) (k : κ) : (t.position? k).isSome ↔ (t.get? k).isSome := by
  rw [position?, List.isSome_idxOf?, ← contains_iff]
  rfl

/-! ## Whole tables -/

/-- A table is decided by its keys in order and what stands under them. -/
theorem ext_get? {s t : Table κ α} (hkeys : s.keys = t.keys) (hget : ∀ k ∈ t.keys, s.get? k = t.get? k) : s = t := by
  refine ext_entries (List.ext_getElem? fun i => ?_)
  have hi : (s.entries[i]?).map Prod.fst = (t.entries[i]?).map Prod.fst := by
    rw [← List.getElem?_map, ← List.getElem?_map]
    exact congrArg (·[i]?) hkeys
  cases hs : s.entries[i]? <;> cases ht : t.entries[i]? <;> rw [hs, ht] at hi
  case none.some | some.none => cases hi
  case some.some e e' =>
    have hkey : e.1 = e'.1 := Option.some.inj hi
    have hse := (s.get?_eq_some_iff e.1 e.2).2 (List.mem_of_getElem? hs)
    have hte := (t.get?_eq_some_iff e'.1 e'.2).2 (List.mem_of_getElem? ht)
    have hmem : e.1 ∈ t.keys := hkeys ▸ List.mem_map_of_mem (List.mem_of_getElem? hs)
    rw [hget _ hmem, hkey, hte] at hse
    rw [Prod.ext hkey (Option.some.inj hse).symm]

theorem entries_insert_of_not_mem {t : Table κ α} {k : κ} (h : k ∉ t.keys) (v : α) :
    (t.insert k v).entries = t.entries ++ [(k, v)] := by
  rw [insert, dif_neg h]

/-- New keys come last, in order. -/
theorem entries_insertAll {pairs : List (κ × α)} (hnodup : (pairs.map Prod.fst).Nodup) {t : Table κ α}
    (hnew : ∀ e ∈ pairs, e.1 ∉ t.keys) : (t.insertAll pairs).entries = t.entries ++ pairs := by
  induction pairs generalizing t with
  | nil => exact (List.append_nil _).symm
  | cons e pairs ih =>
    obtain ⟨he, hnodup⟩ := List.nodup_cons.1 hnodup
    have hentries := entries_insert_of_not_mem (hnew e List.mem_cons_self) e.2
    refine (ih hnodup fun e' he' => ?_).trans (by rw [hentries, List.append_assoc]; rfl)
    rw [keys, hentries, List.map_append, List.mem_append, not_or]
    refine ⟨hnew e' (List.mem_cons_of_mem _ he'), fun h => he ?_⟩
    rw [← List.mem_singleton.1 h]
    exact List.mem_map_of_mem he'

/-- Pairs of new keys come last, in order. -/
theorem entries_foldl_insertNew {pairs : List (κ × α)} (hnodup : (pairs.map Prod.fst).Nodup) :
    ∀ t : Table κ α, (pairs.foldl (fun t e => t.insertNew e.1 e.2) t).entries =
      t.entries ++ pairs.filter fun e => !t.contains e.1 := by
  induction pairs with
  | nil => intro t; exact (List.append_nil _).symm
  | cons e pairs ih =>
    obtain ⟨he, hnodup⟩ := List.nodup_cons.1 hnodup
    intro t
    rw [List.foldl_cons, ih hnodup, List.filter_cons]
    cases hcontains : t.contains e.1 with
    | true => simp [insertNew, hcontains]
    | false =>
      have hnew : e.1 ∉ t.keys := by rw [← contains_iff, hcontains]; exact Bool.false_ne_true
      have hrest : pairs.filter (fun e' => !(t.insertNew e.1 e.2).contains e'.1) = pairs.filter fun e' => !t.contains e'.1 := by
        refine List.filter_congr fun e' he' => ?_
        have hne : e'.1 ≠ e.1 := fun h => he (h ▸ List.mem_map_of_mem he')
        simp [contains, get?_insertNew, hne]
      rw [hrest]
      simp [insertNew, hcontains, entries_insert_of_not_mem hnew]

theorem keys_insertAll_of_mem {pairs : List (κ × α)} {t : Table κ α} (h : ∀ e ∈ pairs, e.1 ∈ t.keys) :
    (t.insertAll pairs).keys = t.keys := by
  induction pairs generalizing t with
  | nil => rfl
  | cons e pairs ih =>
    have hkeys : (t.insert e.1 e.2).keys = t.keys := by rw [keys_insert, if_pos (h e List.mem_cons_self)]
    refine (ih fun e' he' => ?_).trans hkeys
    rw [hkeys]
    exact h e' (List.mem_cons_of_mem _ he')

/-- Keys that are there stay in front. -/
theorem keys_prefix_insertAll (t : Table κ α) (pairs : List (κ × α)) : t.keys <+: (t.insertAll pairs).keys := by
  induction pairs generalizing t with
  | nil => exact List.prefix_rfl
  | cons e pairs ih =>
    refine List.IsPrefix.trans ?_ (ih (t.insert e.1 e.2))
    rw [keys_insert]
    split
    · exact List.prefix_rfl
    · exact List.prefix_append ..

/-- A table written over another one, with whose keys its own start, leaves itself. -/
theorem insertAll_entries {s t : Table κ α} (h : s.keys <+: t.keys) : s.insertAll t.entries = t := by
  obtain ⟨rest, hrest⟩ := h
  refine ext_get? ?_ fun k hk => ?_
  · -- The first entries are written over what is there, and the rest is new.
    let first := t.entries.take s.keys.length
    let last := t.entries.drop s.keys.length
    have hfirst : first.map Prod.fst = s.keys := by
      rw [List.map_take, show t.entries.map Prod.fst = _ from hrest.symm, List.take_left]
    have hlast : last.map Prod.fst = rest := by
      rw [List.map_drop, show t.entries.map Prod.fst = _ from hrest.symm, List.drop_left]
    have hnodup : (s.keys ++ rest).Nodup := by rw [hrest]; exact t.keys_nodup
    obtain ⟨-, hnodup, hdisjoint⟩ := List.nodup_append.1 hnodup
    have hkeys : (s.insertAll first).keys = s.keys :=
      keys_insertAll_of_mem fun e he => by rw [← hfirst]; exact List.mem_map_of_mem he
    have hsplit : s.insertAll t.entries = (s.insertAll first).insertAll last := by
      simp only [insertAll, ← List.foldl_append, first, last, List.take_append_drop]
    rw [hsplit, keys, entries_insertAll (hlast ▸ hnodup) fun e he hmem => ?_, List.map_append, hlast]
    · exact (congrArg (· ++ rest) hkeys).trans hrest
    · exact hdisjoint _ (hkeys ▸ hmem) _ (hlast ▸ List.mem_map_of_mem he) rfl
  · obtain ⟨⟨k, v⟩, he, rfl⟩ := List.mem_map.1 hk
    refine (get?_foldl_insert Prod.fst Prod.snd t.entries k v (fun e' he' hkey => ?_) s).trans ?_
    · have h' := (t.get?_eq_some_iff e'.1 e'.2).2 he'
      rw [hkey, (t.get?_eq_some_iff k v).2 he] at h'
      exact (Option.some.inj h').symm
    · rw [(t.get?_eq_some_iff k v).2 he]
      exact if_pos hk

/-- What stands in a table after many writes was there before or was written. -/
theorem mem_values_insertAll {pairs : List (κ × α)} {t : Table κ α} {v : α} (h : v ∈ (t.insertAll pairs).values) :
    v ∈ t.values ∨ ∃ e ∈ pairs, e.2 = v := by
  induction pairs generalizing t with
  | nil => exact .inl h
  | cons e pairs ih =>
    rcases ih h with h | ⟨e', he', rfl⟩
    · obtain ⟨k, hk⟩ := ((t.insert e.1 e.2).mem_values_iff v).1 h
      rw [get?_insert] at hk
      split at hk
      · exact .inr ⟨e, List.mem_cons_self, Option.some.inj hk⟩
      · exact .inl ((t.mem_values_iff v).2 ⟨k, hk⟩)
    · exact .inr ⟨e', List.mem_cons_of_mem _ he', rfl⟩

/-- A table is the table of its entries. -/
theorem ofList_entries (t : Table κ α) : ofList t.entries = t := insertAll_entries List.nil_prefix

/-! ## Parts of a table -/

omit [DecidableEq κ] in
theorem filter_filter (t : Table κ α) (p q : κ → α → Bool) :
    (t.filter p).filter q = t.filter fun k v => p k v && q k v := by
  refine ext_entries ?_
  simp only [filter, List.filter_filter, Bool.and_comm]

omit [DecidableEq κ] in
theorem filter_eq_self {t : Table κ α} {p : κ → α → Bool} (h : ∀ e ∈ t.entries, p e.1 e.2 = true) : t.filter p = t :=
  ext_entries (List.filter_eq_self.2 h)

omit [DecidableEq κ] in
theorem filter_eq_empty {t : Table κ α} {p : κ → α → Bool} (h : ∀ e ∈ t.entries, p e.1 e.2 = false) :
    t.filter p = empty :=
  ext_entries (List.filter_eq_nil_iff.2 fun e he => by rw [h e he]; exact Bool.false_ne_true)

/-- What leaves out a key does not see it. -/
theorem filter_erase {t : Table κ α} {k : κ} {p : κ → α → Bool} (h : ∀ v, p k v = false) :
    (t.erase k).filter p = t.filter p := by
  rw [erase, filter_filter]
  refine ext_entries (List.filter_congr fun e _ => ?_)
  dsimp only
  by_cases he : e.1 = k
  · rw [he, h, Bool.and_false]
  · rw [decide_eq_true he, Bool.true_and]

theorem filter_eq_of_erase_eq {s t : Table κ α} {k : κ} {p : κ → α → Bool} (h : s.erase k = t.erase k)
    (hp : ∀ v, p k v = false) : s.filter p = t.filter p := by
  rw [← filter_erase hp, h, filter_erase hp]

theorem erase_filter (t : Table κ α) (k : κ) (p : κ → α → Bool) : (t.filter p).erase k = (t.erase k).filter p := by
  rw [erase, erase, filter_filter, filter_filter]
  simp only [Bool.and_comm]

theorem keys_erase (t : Table κ α) (k : κ) : (t.erase k).keys = t.keys.filter fun k' => k' ≠ k := by
  rw [keys, keys, List.filter_map]
  rfl

/-- Without a key, a table does not show what was written there. -/
theorem erase_insert (t : Table κ α) (k k' : κ) (v : α) :
    (t.insert k v).erase k' = if k = k' then t.erase k' else (t.erase k').insert k v := by
  by_cases h : k = k'
  · subst h
    rw [if_pos rfl]
    refine ext_get? ?_ fun a _ => ?_
    · rw [keys_erase, keys_erase, keys_insert]
      split
      · rfl
      · simp
    · rw [get?_erase, get?_erase, get?_insert]
      split <;> rfl
  · rw [if_neg h]
    refine ext_get? ?_ fun a _ => ?_
    · rw [keys_erase, keys_insert, keys_insert, keys_erase]
      by_cases hk : k ∈ t.keys <;> simp [hk, h]
    · rw [get?_erase, get?_insert, get?_insert, get?_erase]
      by_cases ha : a = k' <;> simp [ha, Ne.symm h]

theorem erase_insertNew (t : Table κ α) (k k' : κ) (v : α) :
    (t.insertNew k v).erase k' = if k = k' then t.erase k' else (t.erase k').insertNew k v := by
  unfold insertNew contains
  rw [get?_erase]
  by_cases h : k = k'
  · rw [if_pos h]
    split
    · rfl
    · rw [erase_insert, if_pos h]
  · rw [if_neg h, if_neg h]
    split
    · rfl
    · rw [erase_insert, if_neg h]

end Table

end RenderGraph
