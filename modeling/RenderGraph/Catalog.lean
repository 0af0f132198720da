/-!
# Catalogs

A `Catalog` lists entries that carry a name of their own, each name once, in the order in
which the names were first registered. Registering an entry under a name that is present
replaces the old entry where it stands.

Because the name is read off the entry, what `find?` returns under a name has that name
(`name_of_find?`).
-/

namespace RenderGraph

/-- Things that carry the name they are registered under. -/
class Named (α : Type) where
  name : α → String

/-- Entries with distinct names, in the order of first registration. -/
structure Catalog (α : Type) [Named α] where
  entries : List α
  names_nodup : (entries.map Named.name).Nodup

namespace Catalog

variable {α β : Type} [Named α] [Named β]

def empty : Catalog α := ⟨[], List.nodup_nil⟩

instance : EmptyCollection (Catalog α) := ⟨empty⟩
instance : Inhabited (Catalog α) := ⟨empty⟩

def names (c : Catalog α) : List String := c.entries.map Named.name

def size (c : Catalog α) : Nat := c.entries.length

def isEmpty (c : Catalog α) : Bool := c.entries.isEmpty

def find? (c : Catalog α) (name : String) : Option α := c.entries.find? fun a => Named.name a = name

/-- Puts `a` in the place of the entry of the same name. -/
def replace (a : α) (entries : List α) : List α :=
  entries.map fun b => if Named.name b = Named.name a then a else b

theorem map_name_replace (a : α) (entries : List α) :
    (replace a entries).map Named.name = entries.map Named.name := by
  simp only [replace, List.map_map]
  apply List.map_congr_left
  intro b _
  by_cases h : Named.name b = Named.name a <;> simp [h]

/-- Registers an entry: a known name keeps its place, a new one comes last. -/
def register (c : Catalog α) (a : α) : Catalog α :=
  if h : Named.name a ∈ c.names then
    ⟨replace a c.entries, by rw [map_name_replace]; exact c.names_nodup⟩
  else
    ⟨c.entries ++ [a], by
      rw [List.map_append, List.nodup_append]
      refine ⟨c.names_nodup, by simp, ?_⟩
      rintro n hn m hm rfl
      simp only [List.map_cons, List.map_nil, List.mem_singleton] at hm
      subst hm
      exact h hn⟩

def registerAll (c : Catalog α) (entries : List α) : Catalog α := entries.foldl register c

/-- The catalog of a list of entries. -/
def ofList (entries : List α) : Catalog α := empty.registerAll entries

@[simp] theorem find?_empty (name : String) : (empty : Catalog α).find? name = none := rfl

/-- What stands under a name has that name. -/
theorem name_of_find? {c : Catalog α} {name : String} {a : α} (h : c.find? name = some a) :
    Named.name a = name := by
  simpa using List.find?_some h

theorem mem_of_find? {c : Catalog α} {name : String} {a : α} (h : c.find? name = some a) :
    a ∈ c.entries :=
  List.mem_of_find?_eq_some h

/-- A new name comes last; a known one leaves the order of names alone. -/
theorem names_register (c : Catalog α) (a : α) :
    (c.register a).names = if Named.name a ∈ c.names then c.names else c.names ++ [Named.name a] := by
  unfold register
  split
  · exact map_name_replace a c.entries
  · simp [names]

theorem mem_register {c : Catalog α} {a b : α} (h : b ∈ (c.register a).entries) : b ∈ c.entries ∨ b = a := by
  unfold register at h
  split at h
  · obtain ⟨old, hold, rfl⟩ := List.mem_map.1 h
    split
    · exact .inr rfl
    · exact .inl hold
  · simpa using h

theorem mem_registerAll (entries : List α) {c : Catalog α} {b : α} (h : b ∈ (c.registerAll entries).entries) :
    b ∈ c.entries ∨ b ∈ entries := by
  induction entries generalizing c with
  | nil => exact .inl h
  | cons a entries ih =>
    rcases ih h with h | h
    · rcases mem_register h with h | rfl
      · exact .inl h
      · exact .inr List.mem_cons_self
    · exact .inr (List.mem_cons_of_mem a h)

/-- A catalog has no other entries than it was made of. -/
theorem mem_ofList {entries : List α} {b : α} (h : b ∈ (ofList entries).entries) : b ∈ entries :=
  (mem_registerAll entries h).resolve_left List.not_mem_nil

end Catalog

end RenderGraph
