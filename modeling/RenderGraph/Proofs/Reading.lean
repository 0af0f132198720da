import RenderGraph.Proofs.Tokens
/-!
# Reading written values

A value that was written is read as itself, in either layout, unless one of its
numerals stands for no number or it is nested too deep (`read?_write`). Whatever
is read is not nested deeper (`depth_le_of_read?`).
-/

namespace RenderGraph.Json

mutual

/-- The number of arrays and objects inside one another. -/
def depth : Json → Nat
  | array items => itemDepth items + 1
  | object fields => fieldDepth fields + 1
  | _ => 0

def itemDepth : List Json → Nat
  | [] => 0
  | v :: rest => max (depth v) (itemDepth rest)

def fieldDepth : List (String × Json) → Nat
  | [] => 0
  | (_, v) :: rest => max (depth v) (fieldDepth rest)

end

/-! ## Writing and reading -/

/-- A value that is read from its tokens, wherever it stands, if it is not too deep there. -/
def Taken (j : Json) : Prop := ∀ first frames, frames.length ≤ depthLimit →
  j.tokens.foldlM take? ⟨.value first, frames⟩ =
    if frames.length + j.depth ≤ depthLimit then some ⟨.next j, frames⟩ else none

theorem foldlM_append (ts ts' : List Token) (p : Place) :
    (ts ++ ts').foldlM take? p = (ts.foldlM take? p).bind fun p => ts'.foldlM take? p := List.foldlM_append

theorem foldlM_itemTokens {items : List Json} (h : ∀ j ∈ items, Taken j) (v : Json) (seen : List Json) {frames : List Frame}
    (hframes : frames.length + 1 ≤ depthLimit) :
    (itemTokens items ++ [Token.closeArray]).foldlM take? ⟨.next v, .array seen :: frames⟩ =
      if frames.length + 1 + itemDepth items ≤ depthLimit then some ⟨.next (array (seen.reverse ++ v :: items)), frames⟩
      else none := by
  induction items generalizing v seen with
  | nil =>
    rw [if_pos (by simpa [itemDepth] using hframes)]
    simp [itemTokens, take?]
  | cons w rest ih =>
    have hcomma : take? ⟨.next v, .array seen :: frames⟩ .comma = some ⟨.value false, .array (v :: seen) :: frames⟩ := rfl
    have hvalue := h w List.mem_cons_self false (.array (v :: seen) :: frames) hframes
    rw [itemTokens, List.cons_append, List.cons_append, List.foldlM_cons, hcomma, List.append_assoc]
    refine (foldlM_append _ _ _).trans ?_
    rw [hvalue, List.length_cons, itemDepth]
    by_cases hw : frames.length + 1 + w.depth ≤ depthLimit
    · rw [if_pos hw, Option.bind_some, ih (fun j hj => h j (List.mem_cons_of_mem _ hj)), List.reverse_cons, List.append_assoc]
      exact if_congr (by omega) rfl rfl
    · rw [if_neg hw, if_neg (by omega)]
      rfl

theorem foldlM_fieldTokens {fields : List (String × Json)} (h : ∀ f ∈ fields, Taken f.2) (k : String) (v : Json)
    (seen : List (String × Json)) {frames : List Frame} (hframes : frames.length + 1 ≤ depthLimit) :
    (fieldTokens fields ++ [Token.closeObject]).foldlM take? ⟨.next v, .object seen k :: frames⟩ =
      if frames.length + 1 + fieldDepth fields ≤ depthLimit then
        some ⟨.next (object (seen.reverse ++ (k, v) :: fields)), frames⟩
      else none := by
  induction fields generalizing k v seen with
  | nil =>
    rw [if_pos (by simpa [fieldDepth] using hframes)]
    simp [fieldTokens, take?]
  | cons f rest ih =>
    obtain ⟨k', w⟩ := f
    have hkey : [Token.comma, .string k', .colon].foldlM take? ⟨.next v, .object seen k :: frames⟩ =
      some ⟨.value false, .object ((k, v) :: seen) k' :: frames⟩ := rfl
    have hvalue := h (k', w) List.mem_cons_self false (.object ((k, v) :: seen) k' :: frames) hframes
    have hsplit : fieldTokens ((k', w) :: rest) ++ [Token.closeObject] =
        [Token.comma, .string k', .colon] ++ (w.tokens ++ (fieldTokens rest ++ [Token.closeObject])) := by
      simp [fieldTokens]
    rw [hsplit, foldlM_append, hkey, Option.bind_some, foldlM_append, hvalue, List.length_cons, fieldDepth]
    by_cases hw : frames.length + 1 + w.depth ≤ depthLimit
    · rw [if_pos hw, Option.bind_some, ih (fun f hf => h f (List.mem_cons_of_mem _ hf)), List.reverse_cons, List.append_assoc]
      exact if_congr (by omega) rfl rfl
    · rw [if_neg hw, if_neg (by omega)]
      rfl

theorem taken_array {items : List Json} (h : ∀ j ∈ items, Taken j) : Taken (array items) := by
  intro first frames hframes
  have hopen (ts : List Token) : (Token.openArray :: ts).foldlM take? ⟨.value first, frames⟩ =
      if frames.length < depthLimit then ts.foldlM take? ⟨.value true, .array [] :: frames⟩ else none := by
    rw [List.foldlM_cons]
    cases first <;> simp only [take?, beginValue?] <;> split <;> rfl
  cases items with
  | nil =>
    rw [tokens, hopen]
    exact if_congr (by rw [depth, itemDepth]; omega) rfl rfl
  | cons v rest =>
    rw [tokens, List.cons_append, List.cons_append, hopen]
    by_cases hlt : frames.length < depthLimit
    · have hvalue := h v List.mem_cons_self true (.array [] :: frames) hlt
      rw [if_pos hlt, List.append_assoc, foldlM_append, hvalue, List.length_cons, depth, itemDepth]
      by_cases hv : frames.length + 1 + v.depth ≤ depthLimit
      · rw [if_pos hv, Option.bind_some, foldlM_itemTokens (fun j hj => h j (List.mem_cons_of_mem _ hj)) v [] hlt]
        exact if_congr (by omega) rfl rfl
      · rw [if_neg hv, if_neg (by omega)]
        rfl
    · rw [if_neg hlt, if_neg (by simp only [depth]; omega)]

theorem taken_object {fields : List (String × Json)} (h : ∀ f ∈ fields, Taken f.2) : Taken (object fields) := by
  intro first frames hframes
  have hopen (ts : List Token) : (Token.openObject :: ts).foldlM take? ⟨.value first, frames⟩ =
      if frames.length < depthLimit then ts.foldlM take? ⟨.key [] true, frames⟩ else none := by
    rw [List.foldlM_cons]
    cases first <;> simp only [take?, beginValue?] <;> split <;> rfl
  rcases fields with _ | ⟨⟨k, v⟩, rest⟩
  · rw [tokens, hopen]
    exact if_congr (by rw [depth, fieldDepth]; omega) rfl rfl
  · have hkey : [Token.string k, .colon].foldlM take? ⟨.key [] true, frames⟩ = some ⟨.value false, .object [] k :: frames⟩ := rfl
    have hsplit : tokens (object ((k, v) :: rest)) =
        Token.openObject :: ([Token.string k, .colon] ++ (v.tokens ++ (fieldTokens rest ++ [Token.closeObject]))) := by
      simp [tokens]
    rw [hsplit, hopen]
    by_cases hlt : frames.length < depthLimit
    · have hvalue := h (k, v) List.mem_cons_self false (.object [] k :: frames) hlt
      rw [if_pos hlt, foldlM_append, hkey, Option.bind_some, foldlM_append, hvalue, List.length_cons, depth, fieldDepth]
      by_cases hv : frames.length + 1 + v.depth ≤ depthLimit
      · rw [if_pos hv, Option.bind_some, foldlM_fieldTokens (fun f hf => h f (List.mem_cons_of_mem _ hf)) k v [] hlt]
        exact if_congr (by omega) rfl rfl
      · rw [if_neg hv, if_neg (by omega)]
        rfl
    · rw [if_neg hlt, if_neg (by simp only [depth]; omega)]

theorem taken (j : Json) : Taken j := by
  induction j using Json.induction with
  | array items ih => exact taken_array ih
  | object fields ih => exact taken_object ih
  | null | bool | number | string =>
    intro first frames hframes
    rw [if_pos (by simpa [depth] using hframes)]
    cases first <;> rfl

/-- A value is read from its text in either layout if its numerals stand for numbers and it is not nested too deep. -/
theorem read?_write (l : Layout) {j : Json} (h : j.Proper) :
    read? (String.ofList (write l 0 j)) = if valued j.numerals = true ∧ j.depth ≤ depthLimit then some j else none := by
  rw [read?, String.toList_ofList, Token.ofText?_write l h]
  by_cases hv : valued j.numerals = true
  · rw [if_pos hv, Option.bind_some, ofTokens?, taken j false [] (Nat.zero_le _), List.length_nil, Nat.zero_add]
    by_cases hd : j.depth ≤ depthLimit
    · simp only [hd, hv, and_self, if_true]
    · simp only [hd, and_false, if_false]
  · rw [if_neg hv, if_neg fun h => hv h.1]
    rfl

/-! ## What is read is not too deep -/

theorem depth_le_itemDepth {items : List Json} {j : Json} (h : j ∈ items) : j.depth ≤ itemDepth items := by
  induction items with
  | nil => cases h
  | cons v rest ih =>
    rw [itemDepth]
    rcases List.mem_cons.1 h with rfl | h
    · exact Nat.le_max_left ..
    · exact Nat.le_trans (ih h) (Nat.le_max_right ..)

theorem itemDepth_le {items : List Json} {n : Nat} (h : ∀ j ∈ items, j.depth ≤ n) : itemDepth items ≤ n := by
  induction items with
  | nil => exact Nat.zero_le n
  | cons v rest ih =>
    exact Nat.max_le.2 ⟨h v List.mem_cons_self, ih fun j hj => h j (List.mem_cons_of_mem _ hj)⟩

theorem fieldDepth_eq (fields : List (String × Json)) : fieldDepth fields = itemDepth (fields.map Prod.snd) := by
  induction fields with
  | nil => rfl
  | cons f rest ih => rw [fieldDepth, ih, List.map_cons, itemDepth]

theorem depth_array_le_iff {items : List Json} {n : Nat} : (array items).depth ≤ n + 1 ↔ ∀ j ∈ items, j.depth ≤ n := by
  rw [depth, Nat.add_le_add_iff_right]
  exact ⟨fun h j hj => Nat.le_trans (depth_le_itemDepth hj) h, itemDepth_le⟩

theorem depth_object_le_iff {fields : List (String × Json)} {n : Nat} :
    (object fields).depth ≤ n + 1 ↔ ∀ f ∈ fields, f.2.depth ≤ n := by
  rw [depth, Nat.add_le_add_iff_right, fieldDepth_eq]
  constructor
  · exact fun h f hf => Nat.le_trans (depth_le_itemDepth (List.mem_map_of_mem hf)) h
  · refine fun h => itemDepth_le fun j hj => ?_
    obtain ⟨f, hf, rfl⟩ := List.mem_map.1 hj
    exact h f hf

/-- The values before the place of reading in an array or object. -/
def Frame.values : Frame → List Json
  | .array items => items
  | .object fields _ => fields.map Prod.snd

/-- Open arrays and objects whose values are not too deep. -/
def Bounded : List Frame → Prop
  | [] => True
  | f :: frames =>
    (frames.length < depthLimit ∧ ∀ v ∈ f.values, frames.length + 1 + v.depth ≤ depthLimit) ∧ Bounded frames

/-- The arrays and objects that are open, together with the object whose key is read. -/
def Place.opened (p : Place) : List Frame :=
  match p.expecting with
  | .key fields _ => .object fields "" :: p.frames
  | .colon fields k => .object fields k :: p.frames
  | _ => p.frames

/-- A place of reading with no value around that is too deep. -/
structure Place.Bounded (p : Place) : Prop where
  opened : Json.Bounded p.opened
  value : ∀ v, p.expecting = .next v → p.frames.length + v.depth ≤ depthLimit

theorem Bounded.length_le {frames : List Frame} (h : Bounded frames) : frames.length ≤ depthLimit := by
  cases frames with
  | nil => exact Nat.zero_le _
  | cons f frames => exact h.1.1

/-- An array that is closed. -/
theorem Bounded.depth_array {items : List Json} {frames : List Frame} (h : Bounded (.array items :: frames)) :
    frames.length + (array items.reverse).depth ≤ depthLimit := by
  obtain ⟨⟨hlt, hitems⟩, -⟩ := h
  have hdepth : (array items.reverse).depth ≤ depthLimit - (frames.length + 1) + 1 := by
    refine depth_array_le_iff.2 fun j hj => ?_
    have := hitems j (List.mem_reverse.1 hj)
    omega
  omega

/-- An object that is closed. -/
theorem Bounded.depth_object {fields : List (String × Json)} {k : String} {frames : List Frame}
    (h : Bounded (.object fields k :: frames)) : frames.length + (object fields.reverse).depth ≤ depthLimit := by
  obtain ⟨⟨hlt, hfields⟩, -⟩ := h
  have hdepth : (Json.object fields.reverse).depth ≤ depthLimit - (frames.length + 1) + 1 := by
    refine depth_object_le_iff.2 fun f hf => ?_
    have := hfields f.2 (List.mem_map_of_mem (List.mem_reverse.1 hf))
    omega
  omega

theorem bounded_of_beginValue? {frames : List Frame} (h : Bounded frames) {t : Token} {p : Place}
    (hp : beginValue? frames t = some p) : p.Bounded := by
  unfold beginValue? at hp
  split at hp
  · split at hp
    · rename_i hlt; cases hp; exact ⟨⟨⟨hlt, nofun⟩, h⟩, nofun⟩
    · cases hp
  · split at hp
    · rename_i hlt; cases hp; exact ⟨⟨⟨hlt, nofun⟩, h⟩, nofun⟩
    · cases hp
  · obtain ⟨v, hv, rfl⟩ := Option.map_eq_some_iff.1 hp
    refine ⟨h, ?_⟩
    rintro _ ⟨⟩
    have hscalar : v.depth = 0 := by
      unfold scalar? at hv
      split at hv <;> cases hv <;> rfl
    rw [hscalar]
    exact h.length_le

/-- One more value of an open array or object. -/
theorem Bounded.cons {f f' : Frame} {v : Json} {frames : List Frame} (h : Bounded (f :: frames))
    (hv : frames.length + 1 + v.depth ≤ depthLimit) (hf : f'.values = v :: f.values) : Bounded (f' :: frames) := by
  refine ⟨⟨h.1.1, fun w hw => ?_⟩, h.2⟩
  rw [hf] at hw
  rcases List.mem_cons.1 hw with rfl | hw
  · exact hv
  · exact h.1.2 w hw

/-- Reading one token keeps to the limit. -/
theorem bounded_of_take? {p p' : Place} {t : Token} (h : p.Bounded) (hp : take? p t = some p') : p'.Bounded := by
  obtain ⟨expecting, frames⟩ := p
  obtain ⟨hopened, hvalue⟩ := h
  dsimp only [take?] at hp
  split at hp
  case h_1 items rest =>
    cases hp
    exact ⟨hopened.2, by rintro _ ⟨⟩; exact hopened.depth_array⟩
  case h_2 => exact bounded_of_beginValue? hopened hp
  case h_3 fields rest =>
    cases hp
    exact ⟨hopened.2, by rintro _ ⟨⟩; exact hopened.1.1⟩
  case h_4 | h_5 =>
    cases hp
    exact ⟨hopened, nofun⟩
  case h_6 v items rest =>
    cases hp
    exact ⟨hopened.cons (hvalue v rfl) rfl, nofun⟩
  case h_7 v items rest =>
    cases hp
    refine ⟨hopened.2, ?_⟩
    rintro _ ⟨⟩
    have hmore : Bounded (.array (v :: items) :: rest) := hopened.cons (hvalue v rfl) rfl
    exact hmore.depth_array
  case h_8 v fields k rest =>
    cases hp
    exact ⟨hopened.cons (hvalue v rfl) rfl, nofun⟩
  case h_9 v fields k rest =>
    cases hp
    refine ⟨hopened.2, ?_⟩
    rintro _ ⟨⟩
    have hmore : Bounded (.object ((k, v) :: fields) k :: rest) := hopened.cons (hvalue v rfl) rfl
    exact hmore.depth_object
  case h_10 => cases hp

/-- No value that is read is nested deeper than allowed. -/
theorem depth_le_of_read? {text : String} {j : Json} (h : read? text = some j) : j.depth ≤ depthLimit := by
  obtain ⟨ts, -, hts⟩ := Option.bind_eq_some_iff.1 h
  have hrun : ∀ (ts : List Token) (p p' : Place), p.Bounded → ts.foldlM take? p = some p' → p'.Bounded := by
    intro ts
    induction ts with
    | nil => rintro p p' hp ⟨⟩; exact hp
    | cons t ts ih =>
      intro p p' hp h
      obtain ⟨q, hq, h⟩ := Option.bind_eq_some_iff.1 h
      exact ih q p' (bounded_of_take? hp hq) h
  unfold ofTokens? at hts
  split at hts
  · rename_i v hv
    cases hts
    have := (hrun ts ⟨.value false, []⟩ _ ⟨trivial, fun _ h => nomatch h⟩ hv).value j rfl
    simpa using this
  · cases hts

end RenderGraph.Json
