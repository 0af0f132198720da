import Mathlib.Data.List.Forall2
import RenderGraph.Json.Params
import RenderGraph.Proofs.Reading
/-!
# Decoding what was encoded

Lists and records are decoded part by part. A parameter is decoded as itself if
the numbers in it read as themselves (`Param.ofJson?_toJson_iff`), and a decoded
parameter is nested as deep as the value that it was decoded from.
-/

namespace RenderGraph

namespace Json

/-! ## Numbers -/

/-- A 32-bit number that is read as itself once it is written. -/
def RereadsSingle (x : Single) : Prop := (ofBinary x).asSingle? = some x

/-- A 64-bit number that is read as itself once it is written. -/
def RereadsDouble (x : Double) : Prop := (ofBinary x).asNumber? = some (.real x)

instance : DecidablePred RereadsSingle := fun x => inferInstanceAs (Decidable ((ofBinary x).asSingle? = some x))
instance : DecidablePred RereadsDouble := fun x => inferInstanceAs (Decidable ((ofBinary x).asNumber? = some (.real x)))

variable {p : Precision}

theorem proper_ofBinary (x : Binary p) : (ofBinary x).Proper := by
  unfold ofBinary
  split
  · exact (proper_number_iff _).2 (Binary.proper_ofBinary x)
  · nofun

theorem depth_ofBinary (x : Binary p) : (ofBinary x).depth = 0 := by
  unfold ofBinary
  split <;> rfl

/-- What is not finite is written as `null`, which is no number. -/
theorem asNumber?_ofBinary (x : Binary p) :
    (ofBinary x).asNumber? = if x.isFinite then (Numeral.ofBinary x).value? else none := by
  unfold ofBinary
  split <;> rfl

/-- What is not finite is read as no number. -/
theorem asSingle?_ofBinary_eq_none {x : Single} (h : x.isFinite = false) : (ofBinary x).asSingle? = none := by
  simp [asSingle?, asNumber?_ofBinary, h]

theorem valued_ofBinary {x : Binary p} (h : (ofBinary x).asNumber?.isSome) : valued (ofBinary x).numerals = true := by
  rw [asNumber?_ofBinary] at h
  unfold ofBinary
  split
  · rename_i hf
    rw [if_pos hf] at h
    simpa [numerals, valued] using h
  · rfl

theorem valued_of_rereadsSingle {x : Single} (h : RereadsSingle x) : valued (ofBinary x).numerals = true := by
  obtain ⟨v, hv, -⟩ := Option.map_eq_some_iff.1 h
  exact valued_ofBinary (by rw [hv]; rfl)

/-- The numeral of a binary number shows no integer. -/
theorem toInt?_ofBinary (x : Binary p) : (Numeral.ofBinary x).toInt? = none := by
  simp only [Numeral.ofBinary]
  split
  · rename_i h
    rw [Numeral.toInt?, if_neg]
    simp only [Bool.and_eq_true, not_and]
    intro hf
    split at hf
    · simp at hf
    · rename_i hne; exact absurd hf hne
  · simp [Numeral.toInt?]

theorem value?_ofBinary (x : Binary p) : (Numeral.ofBinary x).value? = (Numeral.ofBinary x).toDouble?.map .real := by
  rw [Numeral.value?, toInt?_ofBinary]

/-! ## Lists -/

section Lists
variable {α β : Type}

theorem mapM_eq_some_iff {decode : β → Option α} {items : List β} {as : List α} :
    items.mapM decode = some as ↔ List.Forall₂ (fun b a => decode b = some a) items as := by
  induction items generalizing as with
  | nil => simp [eq_comm]
  | cons b items ih =>
    simp only [List.mapM_cons, Option.bind_eq_bind, Option.pure_def, Option.bind_eq_some_iff, Option.some.injEq, ih,
      List.forall₂_cons_left_iff]
    constructor
    · rintro ⟨a, ha, as, has, rfl⟩
      exact ⟨a, as, ha, has, rfl⟩
    · rintro ⟨a, as, ha, has, rfl⟩
      exact ⟨a, ha, as, has, rfl⟩

/-- What a list is decoded as comes from its parts. -/
theorem exists_of_mem_mapM {decode : β → Option α} {items : List β} {as : List α} (h : items.mapM decode = some as) {a : α}
    (ha : a ∈ as) : ∃ b ∈ items, decode b = some a := by
  rw [mapM_eq_some_iff] at h
  induction h with
  | nil => cases ha
  | cons hb _ ih =>
    rcases List.mem_cons.1 ha with rfl | ha
    · exact ⟨_, List.mem_cons_self, hb⟩
    · obtain ⟨b, hmem, hb⟩ := ih ha
      exact ⟨b, List.mem_cons_of_mem _ hmem, hb⟩

/-- Each part of a list that is decoded is. -/
theorem isSome_of_mem_mapM {decode : β → Option α} {items : List β} {as : List α} (h : items.mapM decode = some as) {b : β}
    (hb : b ∈ items) : (decode b).isSome := by
  rw [mapM_eq_some_iff] at h
  induction h with
  | nil => cases hb
  | cons ha _ ih =>
    rcases List.mem_cons.1 hb with rfl | hb
    · rw [ha]; rfl
    · exact ih hb

theorem mapM_map_eq_some_iff {decode : β → Option α} {encode : α → β} {items : List α} :
    (items.map encode).mapM decode = some items ↔ ∀ a ∈ items, decode (encode a) = some a := by
  rw [mapM_eq_some_iff, List.forall₂_map_left_iff, List.forall₂_same]

theorem list?_array_iff {decode : Json → Option α} {encode : α → Json} {items : List α} :
    list? decode (.array (items.map encode)) = some items ↔ ∀ a ∈ items, decode (encode a) = some a :=
  mapM_map_eq_some_iff

end Lists

end Json

/-! ## Parameters -/

namespace Param

/-- Induction on parameters: a list has parameters inside. -/
@[elab_as_elim]
theorem induction {motive : Param → Prop} (bool : ∀ b, motive (bool b)) (int : ∀ n, motive (int n))
    (float : ∀ x, motive (float x)) (text : ∀ s, motive (text s))
    (list : ∀ items, (∀ p ∈ items, motive p) → motive (list items)) : ∀ p, motive p
  | .bool b => bool b
  | .int n => int n
  | .float x => float x
  | .text s => text s
  | .list items => list items fun p _ => induction bool int float text list p
termination_by p => p
decreasing_by
  rename_i hp
  have := List.sizeOf_lt_of_mem hp
  simp only [Param.list.sizeOf_spec]
  omega

mutual

/-- The numbers in a parameter. -/
def floats : Param → List Double
  | float x => [x]
  | list items => itemFloats items
  | _ => []

def itemFloats : List Param → List Double
  | [] => []
  | p :: rest => floats p ++ itemFloats rest

end

theorem itemFloats_eq (items : List Param) : itemFloats items = items.flatMap floats := by
  induction items with
  | nil => rfl
  | cons p rest ih => rw [itemFloats, ih, List.flatMap_cons]

theorem toJsonList_eq (items : List Param) : toJsonList items = items.map toJson := by
  induction items with
  | nil => rfl
  | cons p rest ih => rw [toJsonList, ih, List.map_cons]

theorem ofJsonList?_eq (items : List Json) : ofJsonList? items = items.mapM ofJson? := by
  induction items with
  | nil => rfl
  | cons j rest ih =>
    rw [ofJsonList?, ih, List.mapM_cons]
    cases ofJson? j with
    | none => rfl
    | some p => cases rest.mapM ofJson? <;> rfl

theorem proper_toJson (p : Param) : p.toJson.Proper := by
  induction p using Param.induction with
  | bool | text => nofun
  | int n => exact (Json.proper_number_iff _).2 (Json.Numeral.proper_ofInt _)
  | float x => exact Json.proper_ofBinary x
  | list items ih =>
    rw [toJson, toJsonList_eq, Json.proper_array_iff]
    rintro _ hj
    obtain ⟨p, hp, rfl⟩ := List.mem_map.1 hj
    exact ih p hp

theorem ofJson?_ofInt (n : Int64) : ofJson? (.ofInt n.toInt) = some (int n) := by
  have hmin := n.minValue_le_toInt
  have hmax := n.toInt_le
  have hvalue : (Json.Numeral.ofInt n.toInt).value? = some (.integer n.toInt) :=
    Json.Numeral.value?_ofInt hmin (Int.lt_of_le_of_lt hmax (by decide))
  rw [Json.ofInt, ofJson?, hvalue, Option.map_some, ofNumber, if_pos ⟨hmin, hmax⟩, ofInt, Int64.ofInt_toInt]

/-- A number is read as a number, if it is read. -/
theorem ofJson?_ofBinary (x : Double) : ofJson? (.ofBinary x) = (Json.ofBinary x).asNumber?.map ofNumber := by
  unfold Json.ofBinary
  split <;> rfl

theorem ofJson?_ofBinary_iff (x : Double) : ofJson? (.ofBinary x) = some (float x) ↔ Json.RereadsDouble x := by
  rw [ofJson?_ofBinary, Json.RereadsDouble, Json.asNumber?_ofBinary]
  split
  · rw [Json.value?_ofBinary]
    cases (Json.Numeral.ofBinary x).toDouble? <;> simp [ofNumber]
  · simp

/-- A parameter is read as itself just if the numbers in it are. -/
theorem ofJson?_toJson_iff (p : Param) : ofJson? p.toJson = some p ↔ ∀ x ∈ p.floats, Json.RereadsDouble x := by
  induction p using Param.induction with
  | bool | text => simp [toJson, ofJson?, floats]
  | int n => simpa [toJson, floats] using ofJson?_ofInt n
  | float x => simpa [toJson, floats] using ofJson?_ofBinary_iff x
  | list items ih =>
    have hitems : ofJson? (list items).toJson = some (list items) ↔ ∀ p ∈ items, ofJson? p.toJson = some p := by
      rw [toJson, ofJson?, toJsonList_eq, ofJsonList?_eq, ← Json.mapM_map_eq_some_iff]
      simp
    rw [hitems, floats, itemFloats_eq]
    simp only [List.mem_flatMap, forall_exists_index, and_imp]
    constructor
    · intro h x p hp hx
      exact (ih p hp).1 (h p hp) x hx
    · intro h p hp
      exact (ih p hp).2 fun x hx => h x p hp hx

/-- A parameter whose numbers are read has a text that is read. -/
theorem valued_toJson {p : Param} (h : ∀ x ∈ p.floats, Json.RereadsDouble x) : Json.valued p.toJson.numerals = true := by
  induction p using Param.induction with
  | bool | text => rfl
  | int n =>
    have hn : (Json.Numeral.ofInt n.toInt).value?.isSome := by
      obtain ⟨v, hv, -⟩ := Option.map_eq_some_iff.1 (ofJson?_ofInt n)
      rw [hv]
      rfl
    simpa [toJson, Json.ofInt, Json.numerals, Json.valued] using hn
  | float x => exact Json.valued_ofBinary (by rw [h x (by simp [floats])]; rfl)
  | list items ih =>
    rw [toJson, toJsonList_eq, Json.valued_array, List.all_eq_true]
    intro j hj
    obtain ⟨p, hp, rfl⟩ := List.mem_map.1 hj
    refine ih p hp fun x hx => h x ?_
    rw [floats, itemFloats_eq]
    exact List.mem_flatMap.2 ⟨p, hp, hx⟩

/-- A parameter is nested as deep as the value it was read from. -/
theorem depth_toJson_le {j : Json} {p : Param} (h : ofJson? j = some p) : p.toJson.depth ≤ j.depth := by
  induction j using Json.induction generalizing p with
  | null => cases h
  | bool b => cases h; exact Nat.le_refl _
  | number n =>
    obtain ⟨v, -, rfl⟩ := Option.map_eq_some_iff.1 h
    have hzero : (ofNumber v).toJson.depth = 0 := by
      unfold ofNumber
      split
      · split
        · rfl
        · exact Json.depth_ofBinary _
      · exact Json.depth_ofBinary _
    rw [hzero]
    exact Nat.zero_le _
  | string s => cases h; exact Nat.le_refl _
  | array items ih =>
    rw [ofJson?, ofJsonList?_eq] at h
    obtain ⟨ps, hps, rfl⟩ := Option.map_eq_some_iff.1 h
    rw [toJson, toJsonList_eq]
    refine Json.depth_array_le_iff.2 fun j hj => ?_
    obtain ⟨p, hp, rfl⟩ := List.mem_map.1 hj
    obtain ⟨j, hj, hp⟩ := Json.exists_of_mem_mapM hps hp
    exact Nat.le_trans (ih j hj hp) (Json.depth_le_itemDepth hj)
  | object fields => cases h

end Param

namespace Params

theorem proper_toJson (ps : Params) : (toJson ps).Proper := by
  rw [toJson, Json.proper_object_iff]
  rintro _ hf
  obtain ⟨e, -, rfl⟩ := List.mem_map.1 hf
  exact e.2.proper_toJson

theorem valued_toJson {ps : Params} (h : ∀ p ∈ ps.values, Json.valued p.toJson.numerals = true) :
    Json.valued (toJson ps).numerals = true := by
  rw [toJson, Json.valued_object, List.all_map, List.all_eq_true]
  exact fun e he => h e.2 (List.mem_map_of_mem he)

/-- Decoding the fields of a map keeps the keys. -/
theorem map_fst_of_mapM {fields : List (String × Json)} {pairs : List (String × Param)}
    (h : fields.mapM (fun f => (some f.1).bind fun k => (Param.ofJson? f.2).map fun v => (k, v)) = some pairs) :
    pairs.map Prod.fst = fields.map Prod.fst := by
  rw [Json.mapM_eq_some_iff] at h
  induction h with
  | nil => rfl
  | cons hf _ ih =>
    obtain ⟨v, -, rfl⟩ := Option.map_eq_some_iff.1 hf
    rw [List.map_cons, List.map_cons, ih]

/-- Parameters are read as themselves just if each of them is. -/
theorem ofJson?_toJson_iff (ps : Params) : ofJson? (toJson ps) = some ps ↔
    ∀ v ∈ ps.values, Param.ofJson? v.toJson = some v := by
  have hentry (e : String × Param) : ((some e.1).bind fun k => (Param.ofJson? e.2.toJson).map fun v => (k, v)) = some e ↔
      Param.ofJson? e.2.toJson = some e.2 := by
    cases Param.ofJson? e.2.toJson <;> simp [Prod.ext_iff]
  have hpairs : ofJson? (toJson ps) = some ps ↔
      (ps.entries.map fun e => (e.1, e.2.toJson)).mapM
        (fun f => (some f.1).bind fun k => (Param.ofJson? f.2).map fun v => (k, v)) = some ps.entries := by
    simp only [ofJson?, toJson, Json.entries?, Json.asObject?, Option.bind_some, Option.map_eq_some_iff]
    constructor
    · rintro ⟨pairs, hpairs, rfl⟩
      -- No key is written twice, so the table has just what was read.
      have hkeys : pairs.map Prod.fst = (Table.ofList pairs).entries.map Prod.fst := by
        simpa [Function.comp_def] using map_fst_of_mapM hpairs
      have hentries : (Table.ofList pairs).entries = pairs := by
        refine (Table.entries_insertAll ?_ fun _ _ => List.not_mem_nil).trans (List.nil_append _)
        rw [hkeys]
        exact (Table.ofList pairs).keys_nodup
      rw [hentries] at hpairs ⊢
      exact hpairs
    · exact fun h => ⟨ps.entries, h, Table.ofList_entries ps⟩
  rw [hpairs, Json.mapM_map_eq_some_iff]
  simp only [hentry, Table.values, List.forall_mem_map]

/-- Parameters are nested less deep than the value they were read from. -/
theorem depth_toJson_lt {j : Json} {ps : Params} (h : ofJson? j = some ps) : ∀ v ∈ ps.values, v.toJson.depth < j.depth := by
  obtain ⟨pairs, hpairs, rfl⟩ := Option.map_eq_some_iff.1 h
  obtain ⟨fields, hfields, hpairs⟩ := Option.bind_eq_some_iff.1 hpairs
  intro v hv
  rcases Table.mem_values_insertAll hv with hv | ⟨e, he, rfl⟩
  · cases hv
  · obtain ⟨f, hf, hdecode⟩ := Json.exists_of_mem_mapM hpairs he
    simp only [Option.bind_some, Option.map_eq_some_iff] at hdecode
    obtain ⟨p, hp, rfl⟩ := hdecode
    cases j <;> cases hfields
    exact Nat.lt_succ_of_le (Nat.le_trans (Param.depth_toJson_le hp) (Json.depth_object_le_iff.1 (Nat.le_refl _) f hf))

end Params

theorem SocketKind.ofJson?_name (k : SocketKind) : SocketKind.ofJson? (.string k.name) = some k := SocketKind.ofName?_name k

theorem NodeKind.ofJson?_name (k : NodeKind) : NodeKind.ofJson? (.string k.name) = some k := NodeKind.ofName?_name k

/-! ## Records -/

namespace Json.Record

theorem of?_object {names : List String} {fields : List (String × Json)} (hnames : ∀ f ∈ fields, f.1 ∈ names)
    (hnodup : (fields.map Prod.fst).Nodup) : of? names (.object fields) = some ⟨false, fields⟩ := by
  have hall : fields.filter (fun f => names.contains f.1) = fields := by
    rw [List.filter_eq_self]
    exact fun f hf => List.contains_iff_mem.2 (hnames f hf)
  rw [of?, ofFields?, hall, if_pos hnodup]

theorem nullable?_eq_some_some_iff {α : Type} {decode : Json → Option α} (hnull : decode .null = none) {j : Json} {a : α} :
    nullable? decode j = some (some a) ↔ decode j = some a := by
  cases j <;> simp [nullable?, hnull]

/-- The fields of a record stand inside the value it was decoded from. -/
theorem depth_lookup_lt {names : List String} {j : Json} {r : Record} (h : of? names j = some r) {name : String} {v : Json}
    (hv : r.fields.lookup name = some v) : v.depth < j.depth := by
  have hmem : (name, v) ∈ r.fields := by
    obtain ⟨l₁, l₂, heq, -⟩ := List.lookup_eq_some_iff.1 hv
    rw [heq]
    exact List.mem_append_right _ List.mem_cons_self
  cases j with
  | object fields =>
    simp only [of?, ofFields?] at h
    split at h
    · cases h
      exact Nat.lt_succ_of_le (depth_object_le_iff.1 (Nat.le_refl _) _ (List.mem_filter.1 hmem).1)
    · cases h
  | array items =>
    simp only [of?, ofItems?] at h
    split at h
    · cases h
      exact Nat.lt_succ_of_le (depth_array_le_iff.1 (Nat.le_refl _) _ (List.of_mem_zip hmem).2)
    · cases h
  | _ => cases h

end Json.Record

end RenderGraph
