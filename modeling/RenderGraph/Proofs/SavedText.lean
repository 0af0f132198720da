import RenderGraph.Proofs.Decoding
import RenderGraph.SavedGraph.Json
/-!
# Saved graphs as text

A saved graph is read from its text as itself just if each number in it is (`ofText?_toText_iff`), as
long as its positions and the nesting of its parameters are such that a text can hold them. A place that is not
finite makes the text one that is refused (`ofText?_toText_eq_none`).
-/

namespace RenderGraph

open Json (RereadsSingle RereadsDouble)

/-! ## Fields that may be left out -/

theorem lookup_presentFields {fields : List (String × Option Json)} (h : (fields.map Prod.fst).Nodup) (name : String) :
    (presentFields fields).lookup name = (fields.lookup name).join := by
  induction fields with
  | nil => rfl
  | cons f fields ih =>
    obtain ⟨k, value⟩ := f
    obtain ⟨hk, hrest⟩ := List.nodup_cons.1 h
    -- A field that is left out has no namesake further on.
    have hnone : name = k → fields.lookup name = none := by
      rintro rfl
      exact (Table.lookup_eq_none_iff_not_mem name fields).2 hk
    rw [Table.lookup_cons_eq_ite]
    cases value with
    | none =>
      have hskip : presentFields ((k, none) :: fields) = presentFields fields := rfl
      rw [hskip, ih hrest]
      split
      · rename_i hname; rw [hnone hname]; rfl
      · rfl
    | some v =>
      have hcons : presentFields ((k, some v) :: fields) = (k, v) :: presentFields fields := rfl
      rw [hcons, Table.lookup_cons_eq_ite, ih hrest]
      split <;> rfl

theorem map_fst_presentFields (fields : List (String × Option Json)) :
    ((presentFields fields).map Prod.fst).Sublist (fields.map Prod.fst) := by
  induction fields with
  | nil => exact .slnil
  | cons f fields ih =>
    obtain ⟨k, value⟩ := f
    cases value with
    | none => exact ih.cons k
    | some v => exact ih.cons_cons k

namespace SavedNode

/-- The fields of a saved node, those that are left out as well. -/
def fieldsOf (s : SavedNode) : List (String × Option Json) := [
    ("type", some (.string s.className)),
    ("x", some (.ofBinary s.x)),
    ("y", some (.ofBinary s.y)),
    ("node_type", s.kind.map fun k => .string k.name),
    ("name", s.name.map .string),
    ("params", s.params.map Params.toJson),
    ("width", s.width.map .ofBinary),
    ("height", s.height.map .ofBinary),
    ("dynamic_inputs", s.extraInputs.map fun items => .array (items.map inputToJson))]

/-- The record that a saved node is decoded from. -/
def record (s : SavedNode) : Json.Record := ⟨false, presentFields s.fieldsOf⟩

theorem nodup_fieldsOf (s : SavedNode) : (s.fieldsOf.map Prod.fst).Nodup := by
  have hkeys : s.fieldsOf.map Prod.fst = fieldNames := rfl
  rw [hkeys]
  decide

theorem of?_toJson (s : SavedNode) : Json.Record.of? fieldNames s.toJson = some s.record := by
  have hfields := map_fst_presentFields s.fieldsOf
  refine Json.Record.of?_object (fun f hf => ?_) (hfields.nodup s.nodup_fieldsOf)
  exact hfields.subset (List.mem_map_of_mem hf)

theorem lookup_record (s : SavedNode) (name : String) : s.record.fields.lookup name = (s.fieldsOf.lookup name).join :=
  lookup_presentFields s.nodup_fieldsOf name

theorem required?_x (s : SavedNode) : s.record.required? "x" Json.asSingle? = (Json.ofBinary s.x).asSingle? :=
  congrArg (Option.bind · Json.asSingle?) (s.lookup_record "x")

theorem required?_y (s : SavedNode) : s.record.required? "y" Json.asSingle? = (Json.ofBinary s.y).asSingle? :=
  congrArg (Option.bind · Json.asSingle?) (s.lookup_record "y")

/-- A field that is written if it is there is read as itself just if its value is. -/
theorem field?_eq_some_iff {α : Type} {r : Json.Record} {name : String} {decode : Json → Option α} {encode : α → Json}
    {value : Option α} (hlookup : r.fields.lookup name = value.map encode) (hnull : decode .null = none) :
    field? r name decode = some value ↔ ∀ a ∈ value, decode (encode a) = some a := by
  rw [field?, Json.Record.orElse?, hlookup]
  cases value with
  | none => simp
  | some a => simpa using Json.Record.nullable?_eq_some_some_iff hnull

/-- The 32-bit numbers of a saved node. -/
def singles (s : SavedNode) : List Single := [s.x, s.y] ++ s.width.toList ++ s.height.toList

/-- The 64-bit numbers of a saved node, which are in its parameters. -/
def doubles (s : SavedNode) : List Double := ((s.params.map Table.values).getD []).flatMap Param.floats

theorem pair?_inputToJson (e : String × SocketKind) : Json.pair? Json.asString? SocketKind.ofJson? (inputToJson e) = some e := by
  simp [Json.pair?, inputToJson, Json.asString?, SocketKind.ofJson?_name]

theorem field?_params_iff (s : SavedNode) :
    field? s.record "params" Params.ofJson? = some s.params ↔ ∀ x ∈ s.doubles, RereadsDouble x := by
  rw [field?_eq_some_iff (s.lookup_record "params") rfl]
  simp only [Params.ofJson?_toJson_iff, Param.ofJson?_toJson_iff, doubles]
  cases s.params with
  | none => simp
  | some ps =>
    simp only [Option.mem_def, Option.some.injEq, forall_eq', Option.map_some, Option.getD_some, List.mem_flatMap,
      forall_exists_index, and_imp]
    exact ⟨fun h x p hp hx => h p hp x hx, fun h p hp x hx => h x p hp hx⟩

/-- A saved node is decoded as itself just if each number in it is. -/
theorem ofJson?_toJson_iff (s : SavedNode) : ofJson? s.toJson = some s ↔
    (∀ x ∈ s.singles, RereadsSingle x) ∧ ∀ x ∈ s.doubles, RereadsDouble x := by
  have hwidth : field? s.record "width" Json.asSingle? = some s.width ↔ ∀ x ∈ s.width, RereadsSingle x :=
    field?_eq_some_iff (s.lookup_record "width") rfl
  have hheight : field? s.record "height" Json.asSingle? = some s.height ↔ ∀ x ∈ s.height, RereadsSingle x :=
    field?_eq_some_iff (s.lookup_record "height") rfl
  have hkind : field? s.record "node_type" NodeKind.ofJson? = some s.kind :=
    (field?_eq_some_iff (s.lookup_record "node_type") rfl).2 fun k _ => NodeKind.ofJson?_name k
  have hname : field? s.record "name" Json.asString? = some s.name :=
    (field?_eq_some_iff (s.lookup_record "name") rfl).2 fun _ _ => rfl
  have hextra : field? s.record "dynamic_inputs" (Json.list? (Json.pair? Json.asString? SocketKind.ofJson?)) =
      some s.extraInputs :=
    (field?_eq_some_iff (s.lookup_record "dynamic_inputs") rfl).2 fun items _ =>
      Json.list?_array_iff.2 fun e _ => pair?_inputToJson e
  have hclass : s.record.required? "type" Json.asString? = some s.className :=
    congrArg (Option.bind · Json.asString?) (s.lookup_record "type")
  unfold ofJson?
  rw [of?_toJson]
  simp only [Option.bind_eq_bind, Option.bind_some, hclass, required?_x, required?_y, hkind, hname, hextra, Option.pure_def,
    Option.bind_eq_some_iff, Option.some.injEq]
  have hsingles : (∀ x ∈ s.singles, RereadsSingle x) ↔
      RereadsSingle s.x ∧ RereadsSingle s.y ∧ (∀ x ∈ s.width, RereadsSingle x) ∧ ∀ x ∈ s.height, RereadsSingle x := by
    simp [singles, or_imp, forall_and]
  rw [hsingles]
  constructor
  · rintro ⟨x, hx', y, hy', ps, hps, w, hw, h, hh, hs⟩
    obtain rfl : x = s.x := congrArg SavedNode.x hs
    obtain rfl : y = s.y := congrArg SavedNode.y hs
    obtain rfl : ps = s.params := congrArg SavedNode.params hs
    obtain rfl : w = s.width := congrArg SavedNode.width hs
    obtain rfl : h = s.height := congrArg SavedNode.height hs
    exact ⟨⟨hx', hy', hwidth.1 hw, hheight.1 hh⟩, s.field?_params_iff.1 hps⟩
  · rintro ⟨⟨hx', hy', hw, hh⟩, hps⟩
    exact ⟨s.x, hx', s.y, hy', s.params, s.field?_params_iff.2 hps, s.width, hwidth.2 hw, s.height, hheight.2 hh, rfl⟩

/-- What holds of each value that is written for a node. -/
theorem forall_mem_fields (s : SavedNode) (motive : Json → Prop) (hname : ∀ name, motive (.string name))
    (hnumber : ∀ x ∈ s.singles, motive (.ofBinary x)) (hparams : ∀ ps ∈ s.params, motive (Params.toJson ps))
    (hextra : ∀ items ∈ s.extraInputs, motive (.array (items.map inputToJson))) :
    ∀ f ∈ presentFields s.fieldsOf, motive f.2 := by
  intro f hf
  obtain ⟨⟨name, value⟩, hmem, hvalue⟩ := List.mem_filterMap.1 hf
  obtain ⟨v, rfl, rfl⟩ := Option.map_eq_some_iff.1 hvalue
  simp only [fieldsOf, List.mem_cons, Prod.mk.injEq, List.not_mem_nil, or_false] at hmem
  have hwidth : ∀ x ∈ s.width, x ∈ s.singles := fun x hx => by simp [singles, Option.mem_def.1 hx]
  have hheight : ∀ x ∈ s.height, x ∈ s.singles := fun x hx => by simp [singles, Option.mem_def.1 hx]
  rcases hmem with ⟨-, h⟩ | ⟨-, h⟩ | ⟨-, h⟩ | ⟨-, h⟩ | ⟨-, h⟩ | ⟨-, h⟩ | ⟨-, h⟩ | ⟨-, h⟩ | ⟨-, h⟩
  · cases h; exact hname _
  · cases h; exact hnumber s.x (by simp [singles])
  · cases h; exact hnumber s.y (by simp [singles])
  all_goals obtain ⟨a, ha, rfl⟩ := Option.map_eq_some_iff.1 h.symm
  · exact hname _
  · exact hname _
  · exact hparams a ha
  · exact hnumber a (hwidth a ha)
  · exact hnumber a (hheight a ha)
  · exact hextra a ha

theorem proper_toJson (s : SavedNode) : s.toJson.Proper := by
  refine (Json.proper_object_iff _).2 (s.forall_mem_fields Json.Proper Json.proper_string
    (fun x _ => Json.proper_ofBinary x) (fun ps _ => Params.proper_toJson ps) fun items _ => ?_)
  simp only [Json.proper_array_iff, List.forall_mem_map, inputToJson]
  intro e _ j hj
  rcases List.mem_pair.1 hj with rfl | rfl <;> exact Json.proper_string _

/-- A saved node whose numbers are read has a text that is read. -/
theorem valued_toJson {s : SavedNode} (hsingles : ∀ x ∈ s.singles, RereadsSingle x)
    (hdoubles : ∀ x ∈ s.doubles, RereadsDouble x) : Json.valued s.toJson.numerals = true := by
  refine (Json.valued_object _).trans (List.all_eq_true.2 (s.forall_mem_fields
    (fun j => Json.valued j.numerals = true) (fun _ => rfl) (fun x hx => ?_) (fun ps hps => ?_) fun items _ => ?_))
  · exact Json.valued_of_rereadsSingle (hsingles x hx)
  · refine Params.valued_toJson fun p hp => Param.valued_toJson fun x hx => hdoubles x ?_
    rw [doubles, hps]
    exact List.mem_flatMap.2 ⟨p, hp, hx⟩
  · rw [Json.valued_array, List.all_map, List.all_eq_true]
    exact fun _ _ => rfl

/-- The parameters of a saved node decide how deep it is nested. -/
theorem depth_toJson_le {s : SavedNode} {n : Nat} (h : ∀ ps ∈ s.params, ∀ p ∈ ps.values, p.toJson.depth ≤ n + 1) :
    s.toJson.depth ≤ n + 3 := by
  refine Json.depth_object_le_iff.2 (s.forall_mem_fields (Json.depth · ≤ n + 2) (fun _ => Nat.zero_le _) (fun x _ => ?_)
    (fun ps hps => ?_) fun items _ => ?_)
  · rw [Json.depth_ofBinary]; exact Nat.zero_le _
  · refine Json.depth_object_le_iff.2 fun f hf => ?_
    obtain ⟨e, he, rfl⟩ := List.mem_map.1 hf
    exact h ps hps e.2 (List.mem_map_of_mem he)
  · refine Json.depth_array_le_iff.2 fun j hj => ?_
    obtain ⟨e, -, rfl⟩ := List.mem_map.1 hj
    exact Json.depth_array_le_iff.2 fun j hj => by rcases List.mem_pair.1 hj with rfl | rfl <;> exact Nat.zero_le _

end SavedNode

/-! ## Links and frames -/

/-- The 32-bit numbers of a frame. -/
def Frame.singles (f : Frame) : List Single := [f.position.x, f.position.y, f.size.width, f.size.height]

namespace SavedGraph

/-- A link whose positions a file can hold. -/
def Indexed (l : Link) : Prop := l.fromNode < UInt64.size ∧ l.toNode < UInt64.size

theorem asIndex?_eq_some_iff {j : Json} {n : Nat} : asIndex? j = some n ↔ j.asNumber? = some (.integer n) ∧ n < UInt64.size := by
  unfold asIndex? Json.asNatBelow?
  split
  · rename_i i hi
    rw [hi]
    split
    · simp only [Option.some.injEq, Json.Number.integer.injEq]
      omega
    · simp only [reduceCtorEq, Option.some.injEq, Json.Number.integer.injEq, false_iff]
      omega
  · rename_i hne
    simp only [reduceCtorEq, false_iff, not_and]
    exact fun h => absurd h (hne n)

theorem asIndex?_ofNat {n : Nat} (h : n < UInt64.size) : asIndex? (.ofNat n) = some n :=
  asIndex?_eq_some_iff.2 ⟨Json.Numeral.value?_ofNat h, h⟩

theorem linkOfJson?_linkToJson {l : Link} (h : Indexed l) : linkOfJson? (linkToJson l) = some l := by
  have hrecord : Json.Record.of? ["from_node", "from_socket", "to_node", "to_socket"] (linkToJson l) =
      some ⟨false, [("from_node", .ofNat l.fromNode), ("from_socket", .string l.fromSocket), ("to_node", .ofNat l.toNode),
        ("to_socket", .string l.toSocket)]⟩ :=
    Json.Record.of?_object (by simp) (by simp)
  unfold linkOfJson?
  rw [hrecord]
  simp [Json.Record.required?, Table.lookup_cons_eq_ite, asIndex?_ofNat h.1, asIndex?_ofNat h.2, Json.asString?]

theorem indexed_of_linkOfJson? {j : Json} {l : Link} (h : linkOfJson? j = some l) : Indexed l := by
  simp only [linkOfJson?, Json.Record.required?, Option.bind_eq_bind, Option.pure_def, Option.bind_eq_some_iff,
    Option.some.injEq] at h
  obtain ⟨r, -, n, ⟨j₁, -, hn⟩, s, -, m, ⟨j₂, -, hm⟩, t, -, rfl⟩ := h
  exact ⟨(asIndex?_eq_some_iff.1 hn).2, (asIndex?_eq_some_iff.1 hm).2⟩

theorem proper_linkToJson (l : Link) : (linkToJson l).Proper := by
  simp [linkToJson, Json.ofNat, Json.Numeral.proper_ofNat, Json.Proper, Json.numerals, Json.fieldNumerals]

theorem valued_linkToJson {l : Link} (h : Indexed l) : Json.valued (linkToJson l).numerals = true := by
  simp [linkToJson, Json.ofNat, Json.valued, Json.numerals, Json.fieldNumerals, Json.Numeral.value?_ofNat h.1,
    Json.Numeral.value?_ofNat h.2]

/-- The places and sizes of a frame that its value is decoded as, before they are put together. -/
theorem frameOfJson?_frameToJson (f : Frame) : frameOfJson? (frameToJson f) =
    (Json.ofBinary f.position.x).asSingle?.bind fun x => (Json.ofBinary f.position.y).asSingle?.bind fun y =>
      (Json.ofBinary f.size.width).asSingle?.bind fun width => (Json.ofBinary f.size.height).asSingle?.bind fun height =>
        some ⟨f.title, f.viewport, ⟨x, y⟩, ⟨width, height⟩⟩ := by
  have hrecord : Json.Record.of? ["title", "viewport_name", "x", "y", "width", "height"] (frameToJson f) =
      some ⟨false, [("title", .string f.title), ("viewport_name", .string f.viewport), ("x", .ofBinary f.position.x),
        ("y", .ofBinary f.position.y), ("width", .ofBinary f.size.width), ("height", .ofBinary f.size.height)]⟩ :=
    Json.Record.of?_object (by simp) (by simp)
  unfold frameOfJson?
  rw [hrecord]
  rfl

theorem frameOfJson?_frameToJson_iff (f : Frame) : frameOfJson? (frameToJson f) = some f ↔ ∀ x ∈ f.singles, RereadsSingle x := by
  rw [frameOfJson?_frameToJson]
  obtain ⟨title, viewport, ⟨x, y⟩, ⟨width, height⟩⟩ := f
  simp only [Option.bind_eq_some_iff, Option.some.injEq, Frame.singles, List.forall_mem_cons, List.not_mem_nil, false_imp_iff,
    implies_true, and_true]
  constructor
  · rintro ⟨x', hx, y', hy, w, hw, h, hh, hf⟩
    cases hf
    exact ⟨hx, hy, hw, hh⟩
  · rintro ⟨hx, hy, hw, hh⟩
    exact ⟨x, hx, y, hy, width, hw, height, hh, rfl⟩

theorem proper_frameToJson (f : Frame) : (frameToJson f).Proper := by
  refine (Json.proper_object_iff _).2 ?_
  simp only [List.forall_mem_cons, Json.proper_ofBinary, List.not_mem_nil, false_imp_iff, implies_true, and_true]
  exact ⟨nofun, nofun⟩

theorem valued_frameToJson {f : Frame} (h : ∀ x ∈ f.singles, RereadsSingle x) : Json.valued (frameToJson f).numerals = true := by
  have hsingle : ∀ x ∈ f.singles, Json.valued (Json.ofBinary x).numerals = true := fun x hx =>
    Json.valued_of_rereadsSingle (h x hx)
  simp only [Frame.singles, List.forall_mem_cons] at hsingle
  obtain ⟨hx, hy, hwidth, hheight, -⟩ := hsingle
  rw [frameToJson, Json.valued_object]
  simp only [List.all_cons, hx, hy, hwidth, hheight]
  rfl

/-! ## The whole text -/

/-- Whether each number of a saved graph is read as itself. -/
def Rereads (s : SavedGraph) : Prop :=
  (∀ n ∈ s.nodes, (∀ x ∈ n.singles, RereadsSingle x) ∧ ∀ x ∈ n.doubles, RereadsDouble x) ∧
    ∀ f ∈ s.frames, ∀ x ∈ f.singles, RereadsSingle x

/-- The values of parameters of a saved graph stand in four arrays and objects. -/
def parameterDepth : Nat := Json.depthLimit - 4

/-- A saved graph that its text can hold: positions are below `2 ^ 64`, and parameters are not nested too deep. -/
structure Holdable (s : SavedGraph) : Prop where
  indexed : ∀ l ∈ s.links, Indexed l
  shallow : ∀ n ∈ s.nodes, ∀ ps ∈ n.params, ∀ p ∈ ps.values, p.toJson.depth ≤ parameterDepth

/-- A saved graph is decoded from its value node by node, link by link and frame by frame. -/
theorem ofJson?_toJson (s : SavedGraph) : ofJson? s.toJson =
    (Json.list? SavedNode.ofJson? (.array (s.nodes.map SavedNode.toJson))).bind fun nodes =>
      (Json.list? linkOfJson? (.array (s.links.map linkToJson))).bind fun links =>
        (Json.list? frameOfJson? (.array (s.frames.map frameToJson))).bind fun frames => some ⟨s.name, nodes, links, frames⟩ := by
  have hrecord : Json.Record.of? ["name", "nodes", "connections", "viewport_frames"] s.toJson =
      some ⟨false, [("name", .string s.name), ("nodes", .array (s.nodes.map SavedNode.toJson)),
        ("connections", .array (s.links.map linkToJson)), ("viewport_frames", .array (s.frames.map frameToJson))]⟩ :=
    Json.Record.of?_object (by simp) (by simp)
  unfold ofJson?
  rw [hrecord]
  rfl

/-- A saved graph is decoded as itself just if each number in it is. -/
theorem ofJson?_toJson_iff {s : SavedGraph} (h : ∀ l ∈ s.links, Indexed l) : ofJson? s.toJson = some s ↔ s.Rereads := by
  have hlinks : Json.list? linkOfJson? (.array (s.links.map linkToJson)) = some s.links :=
    Json.list?_array_iff.2 fun l hl => linkOfJson?_linkToJson (h l hl)
  have hrereads : s.Rereads ↔ Json.list? SavedNode.ofJson? (.array (s.nodes.map SavedNode.toJson)) = some s.nodes ∧
      Json.list? frameOfJson? (.array (s.frames.map frameToJson)) = some s.frames := by
    simp only [Json.list?_array_iff, SavedNode.ofJson?_toJson_iff, frameOfJson?_frameToJson_iff, Rereads]
  rw [ofJson?_toJson, hlinks, hrereads]
  simp only [Option.bind_some, Option.bind_eq_some_iff, Option.some.injEq]
  constructor
  · rintro ⟨nodes, hnodes, frames, hframes, hs⟩
    obtain rfl : nodes = s.nodes := congrArg SavedGraph.nodes hs
    obtain rfl : frames = s.frames := congrArg SavedGraph.frames hs
    exact ⟨hnodes, hframes⟩
  · rintro ⟨hnodes, hframes⟩
    exact ⟨s.nodes, hnodes, s.frames, hframes, rfl⟩

theorem proper_toJson (s : SavedGraph) : s.toJson.Proper := by
  refine (Json.proper_object_iff _).2 ?_
  simp only [List.forall_mem_cons, Json.proper_array_iff, List.forall_mem_map, SavedNode.proper_toJson, proper_linkToJson,
    proper_frameToJson, Json.proper_string, List.not_mem_nil, false_imp_iff, implies_true, and_true]

theorem valued_toJson {s : SavedGraph} (h : ∀ l ∈ s.links, Indexed l) (hs : s.Rereads) : Json.valued s.toJson.numerals = true := by
  have hnodes : Json.valued (Json.array (s.nodes.map SavedNode.toJson)).numerals = true := by
    rw [Json.valued_array, List.all_map, List.all_eq_true]
    exact fun n hn => SavedNode.valued_toJson (hs.1 n hn).1 (hs.1 n hn).2
  have hlinks : Json.valued (Json.array (s.links.map linkToJson)).numerals = true := by
    rw [Json.valued_array, List.all_map, List.all_eq_true]
    exact fun l hl => valued_linkToJson (h l hl)
  have hframes : Json.valued (Json.array (s.frames.map frameToJson)).numerals = true := by
    rw [Json.valued_array, List.all_map, List.all_eq_true]
    exact fun f hf => valued_frameToJson (hs.2 f hf)
  rw [toJson, Json.valued_object]
  simp only [List.all_cons, hnodes, hlinks, hframes]
  rfl

theorem depth_linkToJson (l : Link) : (linkToJson l).depth = 1 := rfl

theorem depth_frameToJson (f : Frame) : (frameToJson f).depth = 1 := by
  simp [frameToJson, Json.depth, Json.fieldDepth, Json.depth_ofBinary]

theorem depth_toJson_le {s : SavedGraph} (h : s.Holdable) : s.toJson.depth ≤ Json.depthLimit := by
  have hnodes : ∀ n ∈ s.nodes, n.toJson.depth ≤ Json.depthLimit - 2 := fun n hn => SavedNode.depth_toJson_le (h.shallow n hn)
  refine Json.depth_object_le_iff.2 ?_
  simp only [List.forall_mem_cons]
  refine ⟨Nat.zero_le _, Json.depth_array_le_iff.2 ?_, Json.depth_array_le_iff.2 ?_, Json.depth_array_le_iff.2 ?_, nofun⟩
  · exact List.forall_mem_map.2 hnodes
  · simp [depth_linkToJson]
  · simp [depth_frameToJson]

/-- Nothing but its value is read from the text of a saved graph. -/
theorem ofJson?_of_ofText?_toText {s t : SavedGraph} (h : ofText? s.toText = some t) : ofJson? s.toJson = some t := by
  rw [ofText?, toText, Json.pretty, Json.read?_write ⟨true⟩ s.proper_toJson] at h
  split at h
  · exact h
  · cases h

/-- A saved graph is read from its text as itself just if each number in it is. -/
theorem ofText?_toText_iff {s : SavedGraph} (h : s.Holdable) : ofText? s.toText = some s ↔ s.Rereads := by
  constructor
  · exact fun hread => (ofJson?_toJson_iff h.indexed).1 (ofJson?_of_ofText?_toText hread)
  · intro hs
    rw [ofText?, toText, Json.pretty, Json.read?_write ⟨true⟩ s.proper_toJson,
      if_pos ⟨valued_toJson h.indexed hs, depth_toJson_le h⟩]
    exact (ofJson?_toJson_iff h.indexed).2 hs

/-- What is not finite is written as `null`, so that the text is refused if it is the place of a node or stands in
a frame. -/
theorem ofText?_toText_eq_none {s : SavedGraph} (h : (∃ n ∈ s.nodes, n.x.isFinite = false ∨ n.y.isFinite = false) ∨
    ∃ f ∈ s.frames, ∃ x ∈ f.singles, x.isFinite = false) : ofText? s.toText = none := by
  cases hread : ofText? s.toText with
  | none => rfl
  | some t =>
    have hdecode := ofJson?_of_ofText?_toText hread
    simp only [ofJson?_toJson, Option.bind_eq_some_iff] at hdecode
    obtain ⟨nodes, hnodes, -, -, frames, hframes, -⟩ := hdecode
    rcases h with ⟨n, hn, hplace⟩ | ⟨f, hf, x, hx, hnumber⟩
    · obtain ⟨m, hm⟩ := Option.isSome_iff_exists.1 (Json.isSome_of_mem_mapM hnodes (List.mem_map_of_mem hn))
      simp only [SavedNode.ofJson?, SavedNode.of?_toJson, Option.bind_eq_bind, Option.bind_some, SavedNode.required?_x,
        SavedNode.required?_y, Option.bind_eq_some_iff] at hm
      obtain ⟨-, -, x, hx, y, hy, -⟩ := hm
      rcases hplace with hplace | hplace
      · simp [Json.asSingle?_ofBinary_eq_none hplace] at hx
      · simp [Json.asSingle?_ofBinary_eq_none hplace] at hy
    · obtain ⟨m, hm⟩ := Option.isSome_iff_exists.1 (Json.isSome_of_mem_mapM hframes (List.mem_map_of_mem hf))
      simp only [frameOfJson?_frameToJson, Option.bind_eq_some_iff] at hm
      obtain ⟨x', hx', y', hy', w', hw', h', hh', -⟩ := hm
      simp only [Frame.singles, List.mem_cons, List.not_mem_nil, or_false] at hx
      have hnull := Json.asSingle?_ofBinary_eq_none hnumber
      rcases hx with rfl | rfl | rfl | rfl
      · simp [hnull] at hx'
      · simp [hnull] at hy'
      · simp [hnull] at hw'
      · simp [hnull] at hh'

end SavedGraph

end RenderGraph
