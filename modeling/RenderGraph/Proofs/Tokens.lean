import RenderGraph.Json.Reader
import RenderGraph.Json.Writer
import RenderGraph.Proofs.Numerals
/-!
# Cutting written values into tokens

The text of a value, in either layout, is cut into the tokens of the value if
its numerals stand for numbers, and is refused otherwise (`ofText?_write`).

A word or a numeral ends only with the character behind it, so what is read of
it is told apart from the finished token by nothing that comes next in a written
text (`Same`).
-/

namespace RenderGraph.Json

/-- Induction on values: an array and an object have values inside. -/
@[elab_as_elim]
theorem induction {motive : Json → Prop} (null : motive null) (bool : ∀ b, motive (bool b)) (number : ∀ n, motive (number n))
    (string : ∀ s, motive (string s)) (array : ∀ items, (∀ j ∈ items, motive j) → motive (array items))
    (object : ∀ fields, (∀ f ∈ fields, motive f.2) → motive (object fields)) : ∀ j, motive j
  | .null => null
  | .bool b => bool b
  | .number n => number n
  | .string s => string s
  | .array items => array items fun j _ => induction null bool number string array object j
  | .object fields => object fields fun f _ => induction null bool number string array object f.2
termination_by j => j
decreasing_by
  · rename_i hj
    have := List.sizeOf_lt_of_mem hj
    simp only [Json.array.sizeOf_spec]
    omega
  · rename_i hf
    have := List.sizeOf_lt_of_mem hf
    obtain ⟨k, v⟩ := f
    simp only [Json.object.sizeOf_spec, Prod.mk.sizeOf_spec] at this ⊢
    omega

mutual

/-- The numerals of a value. -/
def numerals : Json → List Numeral
  | number n => [n]
  | array items => itemNumerals items
  | object fields => fieldNumerals fields
  | _ => []

def itemNumerals : List Json → List Numeral
  | [] => []
  | v :: rest => numerals v ++ itemNumerals rest

def fieldNumerals : List (String × Json) → List Numeral
  | [] => []
  | (_, v) :: rest => numerals v ++ fieldNumerals rest

end

mutual

/-- The tokens of a value. -/
def tokens : Json → List Token
  | null => [.null]
  | bool b => [.bool b]
  | number n => [.number n]
  | string s => [.string s]
  | array [] => [.openArray, .closeArray]
  | array (v :: rest) => .openArray :: tokens v ++ itemTokens rest ++ [.closeArray]
  | object [] => [.openObject, .closeObject]
  | object ((k, v) :: rest) => .openObject :: .string k :: .colon :: tokens v ++ fieldTokens rest ++ [.closeObject]

/-- The tokens of the items after the first one. -/
def itemTokens : List Json → List Token
  | [] => []
  | v :: rest => .comma :: tokens v ++ itemTokens rest

/-- The tokens of the fields after the first one. -/
def fieldTokens : List (String × Json) → List Token
  | [] => []
  | (k, v) :: rest => .comma :: .string k :: .colon :: tokens v ++ fieldTokens rest

end

theorem itemNumerals_eq (items : List Json) : itemNumerals items = items.flatMap numerals := by
  induction items with
  | nil => rfl
  | cons v rest ih => rw [itemNumerals, ih, List.flatMap_cons]

theorem fieldNumerals_eq (fields : List (String × Json)) : fieldNumerals fields = fields.flatMap fun f => numerals f.2 := by
  induction fields with
  | nil => rfl
  | cons f rest ih => rw [fieldNumerals, ih, List.flatMap_cons]

/-- A value whose numerals can be read, apart from what they stand for. -/
def Proper (j : Json) : Prop := ∀ n ∈ j.numerals, n.Proper

/-- Whether numerals stand for numbers. -/
def valued (ns : List Numeral) : Bool := ns.all fun n => n.value?.isSome

theorem valued_array (items : List Json) : valued (array items).numerals = items.all fun j => valued j.numerals := by
  rw [numerals, itemNumerals_eq, valued, List.all_flatMap]
  rfl

theorem valued_object (fields : List (String × Json)) :
    valued (object fields).numerals = fields.all fun f => valued f.2.numerals := by
  rw [numerals, fieldNumerals_eq, valued, List.all_flatMap]
  rfl

@[simp] theorem proper_string (s : String) : (string s).Proper := by simp [Proper, numerals]

@[simp] theorem proper_number_iff (n : Numeral) : (number n).Proper ↔ n.Proper := by
  simp [Proper, numerals]

@[simp] theorem proper_array_iff (items : List Json) : (array items).Proper ↔ ∀ j ∈ items, j.Proper := by
  simp only [Proper, numerals, itemNumerals_eq, List.mem_flatMap, forall_exists_index, and_imp]
  exact ⟨fun h j hj n hn => h n j hj hn, fun h n j hj hn => h j hj n hn⟩

@[simp] theorem proper_object_iff (fields : List (String × Json)) : (object fields).Proper ↔ ∀ f ∈ fields, f.2.Proper := by
  simp only [Proper, numerals, fieldNumerals_eq, List.mem_flatMap, forall_exists_index, and_imp]
  exact ⟨fun h f hf n hn => h n f hf hn, fun h n f hf hn => h f hf n hn⟩

namespace Token

/-- The characters that stand behind values. -/
def Break (c : Char) : Prop := c = ',' ∨ c = '\n' ∨ c = ']' ∨ c = '\x7d'

/-- Two places of reading that a character behind a value, or the end of the text, does not tell apart. -/
structure Same (o o' : Option Progress) : Prop where
  next : ∀ c, Break c → o.bind (read? · c) = o'.bind (read? · c)
  finish : o.bind finish? = o'.bind finish?

theorem Same.refl (o : Option Progress) : Same o o := ⟨fun _ _ => rfl, rfl⟩

theorem Same.foldlM {o o' : Option Progress} (h : Same o o') {c : Char} (hc : Break c) (cs : List Char) :
    o.bind (fun p => (c :: cs).foldlM read? p) = o'.bind fun p => (c :: cs).foldlM read? p := by
  have hcons (o : Option Progress) :
      o.bind (fun p => (c :: cs).foldlM read? p) = (o.bind (read? · c)).bind fun p => cs.foldlM read? p := by
    cases o <;> rfl
  rw [hcons, hcons, h.next c hc]

theorem foldlM_append (cs cs' : List Char) (p : Progress) :
    (cs ++ cs').foldlM read? p = (cs.foldlM read? p).bind fun p => cs'.foldlM read? p := List.foldlM_append

/-! ## The parts of a text -/

section Parts
variable (ts : List Token)

theorem foldlM_newLine (l : Layout) (depth : Nat) : (l.newLine depth).foldlM read? ⟨ts, .none⟩ = some ⟨ts, .none⟩ := by
  have hblanks : ∀ n, (List.replicate n ' ').foldlM read? ⟨ts, .none⟩ = some ⟨ts, .none⟩ := by
    intro n
    induction n with
    | zero => rfl
    | succ n ih => exact ih
  unfold Layout.newLine
  split
  · exact hblanks _
  · rfl

theorem foldlM_colon (l : Layout) : l.colon.foldlM read? ⟨ts, .none⟩ = some ⟨.colon :: ts, .none⟩ := by
  unfold Layout.colon
  split <;> rfl

/-- The number of a control character in hexadecimal digits. -/
theorem foldlM_unit (read : List Char) {c : Char} (h : c.toNat < 0x20) :
    ['\\', 'u', '0', '0', Hex.toChar (c.toNat / 16), Hex.toChar (c.toNat % 16)].foldlM read? ⟨ts, .string read⟩ =
      some ⟨ts, .string (c :: read)⟩ := by
  have hhigh := Hex.ofChar?_toChar (c.toNat / 16) (by omega)
  have hlow := Hex.ofChar?_toChar (c.toNat % 16) (by omega)
  have hstart : ['\\', 'u', '0', '0'].foldlM read? ⟨ts, .string read⟩ = some ⟨ts, .unit read .none 2 0⟩ := rfl
  have hcode : 16 * (c.toNat / 16) + c.toNat % 16 = c.toNat := Nat.div_add_mod ..
  have hclose : closeUnit? read .none c.toNat = some (.string (c :: read)) := by
    rw [closeUnit?, if_neg (by omega), if_neg (by omega), Char.ofNat_toNat]
  refine (foldlM_append ['\\', 'u', '0', '0'] [_, _] _).trans ?_
  rw [hstart]
  simp [read?, hhigh, hlow, hcode, hclose]

theorem foldlM_escape (read : List Char) (c : Char) :
    (escape c).foldlM read? ⟨ts, .string read⟩ = some ⟨ts, .string (c :: read)⟩ := by
  unfold escape
  split
  · subst c; rfl
  split
  · subst c; rfl
  split
  · subst c; rfl
  split
  · subst c; rfl
  split
  · subst c; rfl
  split
  · subst c; rfl
  split
  · subst c; rfl
  split
  · rename_i h; exact foldlM_unit ts read h
  · rename_i hquote hbackslash _ _ _ _ _ hcontrol
    simp [read?, hquote, hbackslash, hcontrol]

theorem foldlM_quote (s : String) : (quote s).foldlM read? ⟨ts, .none⟩ = some ⟨.string s :: ts, .none⟩ := by
  have hchars : ∀ (cs read : List Char), (cs.flatMap escape).foldlM read? ⟨ts, .string read⟩ =
      some ⟨ts, .string (cs.reverse ++ read)⟩ := by
    intro cs
    induction cs with
    | nil => intro read; rfl
    | cons c cs ih =>
      intro read
      rw [List.flatMap_cons, foldlM_append, foldlM_escape, Option.bind_some, ih, List.reverse_cons, List.append_assoc]
      rfl
  have hopen : read? ⟨ts, .none⟩ '"' = some ⟨ts, .string []⟩ := rfl
  have hclose (read : List Char) : ['"'].foldlM read? ⟨ts, .string read⟩ = some ⟨.string (String.ofList read.reverse) :: ts, .none⟩ :=
    rfl
  rw [quote, List.cons_append, List.foldlM_cons, hopen]
  refine (foldlM_append _ _ _).trans ?_
  rw [hchars, Option.bind_some, hclose, List.append_nil, List.reverse_reverse, String.ofList_toList]

/-! ## Words and numerals -/

theorem not_isNumeralChar {c : Char} (h : Break c) : isNumeralChar c = false := by
  rcases h with rfl | rfl | rfl | rfl <;> rfl

theorem not_isAlpha {c : Char} (h : Break c) : c.isAlpha = false := by
  rcases h with rfl | rfl | rfl | rfl <;> rfl

/-- A word stands for its token once it has ended. -/
theorem same_word {read : List Char} {t : Token} (h : word? read.reverse = some t) :
    Same (some ⟨ts, .word read⟩) (some ⟨t :: ts, .none⟩) := by
  refine ⟨fun c hc => ?_, ?_⟩
  · simp [read?, not_isAlpha hc, h]
  · simp [finish?, h]

/-- A numeral stands for its token once it has ended, if it stands for a number. -/
theorem same_numeral {n : Numeral} (h : n.Proper) :
    Same (some ⟨ts, .numeral n.text.reverse⟩) (if n.value?.isSome then some ⟨.number n :: ts, .none⟩ else none) := by
  have hnumeral : numeral? n.text = if n.value?.isSome then some (.number n) else none := by
    rw [numeral?, Numeral.ofText?_text h]
    rfl
  refine ⟨fun c hc => ?_, ?_⟩
  · simp only [Option.bind_some, read?, not_isNumeralChar hc, Bool.false_eq_true, if_false, List.reverse_reverse, hnumeral]
    split <;> rfl
  · simp only [Option.bind_some, finish?, List.reverse_reverse, hnumeral]
    split <;> rfl

theorem foldlM_numeralChars {cs : List Char} (h : ∀ c ∈ cs, isNumeralChar c = true) (read : List Char) :
    cs.foldlM read? ⟨ts, .numeral read⟩ = some ⟨ts, .numeral (cs.reverse ++ read)⟩ := by
  induction cs generalizing read with
  | nil => rfl
  | cons c cs ih =>
    have hc : read? ⟨ts, .numeral read⟩ c = some ⟨ts, .numeral (c :: read)⟩ := by
      simp [read?, h c List.mem_cons_self]
    rw [List.foldlM_cons, hc]
    refine (ih (fun c hc => h c (List.mem_cons_of_mem _ hc)) _).trans ?_
    rw [List.reverse_cons, List.append_assoc]
    rfl

theorem isNumeralChar_toChar (d : Digit) : isNumeralChar d.toChar = true := by
  rw [isNumeralChar, Digit.isDigit, Digit.ofChar?_toChar]
  rfl

theorem isNumeralChar_text {ds : List Digit} : ∀ c ∈ Digit.text ds, isNumeralChar c = true := by
  intro c hc
  obtain ⟨d, -, rfl⟩ := List.mem_map.1 hc
  exact isNumeralChar_toChar d

theorem isNumeralChar_of_mem {n : Numeral} : ∀ c ∈ n.text, isNumeralChar c = true := by
  intro c hc
  rw [Numeral.text_eq, Numeral.tail] at hc
  simp only [List.mem_append] at hc
  rcases hc with hc | hc | hc | hc
  · split at hc
    · rw [List.mem_singleton.1 hc]; rfl
    · cases hc
  · exact isNumeralChar_text c hc
  · split at hc
    · cases hc
    · rcases List.mem_cons.1 hc with rfl | hc
      · rfl
      · exact isNumeralChar_text c hc
  · rcases he : n.exponent with _ | ⟨negative, ds⟩ <;> rw [he, Numeral.exponentText] at hc
    · cases hc
    · rcases List.mem_cons.1 hc with rfl | hc
      · rfl
      · rcases List.mem_cons.1 hc with rfl | hc
        · cases negative <;> rfl
        · exact isNumeralChar_text c hc

theorem foldlM_numeral {n : Numeral} (h : n.Proper) : n.text.foldlM read? ⟨ts, .none⟩ = some ⟨ts, .numeral n.text.reverse⟩ := by
  have hne : n.text ≠ [] := by
    rw [Numeral.text_eq]
    have := h.whole.1
    simp [Digit.text, this]
  obtain ⟨c, cs, hcs⟩ := List.exists_cons_of_ne_nil hne
  have hall : ∀ a ∈ c :: cs, isNumeralChar a = true := by
    rw [← hcs]
    exact isNumeralChar_of_mem
  have hc := hall c List.mem_cons_self
  have hblank : isBlank c = false := by
    by_contra hb
    simp only [isBlank, Bool.not_eq_false, Bool.or_eq_true, decide_eq_true_eq] at hb
    rcases hb with ((rfl | rfl) | rfl) | rfl <;> cases hc
  have hquote : c ≠ '"' := by
    rintro rfl
    cases hc
  have hbegin : read? ⟨ts, .none⟩ c = some ⟨ts, .numeral [c]⟩ := by
    simp [read?, begin?, hblank, hquote, hc]
  rw [hcs, List.foldlM_cons, hbegin]
  refine (foldlM_numeralChars ts (fun c hc => hall c (List.mem_cons_of_mem _ hc)) [c]).trans ?_
  rw [List.reverse_cons]

end Parts

/-! ## Values -/

/-- A value whose text gives its tokens, wherever it stands. -/
def Written (l : Layout) (j : Json) : Prop := ∀ depth ts, Same ((write l depth j).foldlM read? ⟨ts, .none⟩)
  (if valued j.numerals then some ⟨j.tokens.reverse ++ ts, .none⟩ else none)

/-- A text that goes on behind a value. -/
def Continues (cs : List Char) : Prop := ∃ c rest, Break c ∧ cs = c :: rest

section Values
variable (l : Layout)

theorem valued_append (ns ns' : List Numeral) : valued (ns ++ ns') = (valued ns && valued ns') := List.all_append

/-- A value, and what stands behind it. -/
theorem Written.foldlM {l : Layout} {j : Json} (h : Written l j) (depth : Nat) {cs : List Char} (hcs : Continues cs) (ts : List Token) :
    (write l depth j ++ cs).foldlM read? ⟨ts, .none⟩ =
      if valued j.numerals then cs.foldlM read? ⟨j.tokens.reverse ++ ts, .none⟩ else none := by
  obtain ⟨c, rest, hc, rfl⟩ := hcs
  rw [foldlM_append, (h depth ts).foldlM hc]
  split <;> rfl

theorem continues_newLine (depth : Nat) {c : Char} (hc : Break c) : Continues (l.newLine depth ++ [c]) := by
  unfold Layout.newLine
  split
  · exact ⟨'\n', _, .inr (.inl rfl), rfl⟩
  · exact ⟨c, [], hc, rfl⟩

theorem continues_items l (depth : Nat) (items : List Json) {cs : List Char} (h : Continues cs) :
    Continues (writeItems l depth items ++ cs) := by
  cases items with
  | nil => exact h
  | cons v rest => exact ⟨',', _, .inl rfl, rfl⟩

theorem continues_fields l (depth : Nat) (fields : List (String × Json)) {cs : List Char} (h : Continues cs) :
    Continues (writeFields l depth fields ++ cs) := by
  cases fields with
  | nil => exact h
  | cons f rest => exact ⟨',', _, .inl rfl, rfl⟩

theorem foldlM_items {items : List Json} (h : ∀ j ∈ items, Written l j) (depth : Nat) {cs : List Char} (hcs : Continues cs)
    (ts : List Token) : (writeItems l depth items ++ cs).foldlM read? ⟨ts, .none⟩ =
      if valued (itemNumerals items) then cs.foldlM read? ⟨(itemTokens items).reverse ++ ts, .none⟩ else none := by
  induction items generalizing ts with
  | nil => rfl
  | cons v rest ih =>
    have hcomma : read? ⟨ts, .none⟩ ',' = some ⟨.comma :: ts, .none⟩ := rfl
    have hvalue := (h v List.mem_cons_self).foldlM depth (continues_items l depth rest hcs) (.comma :: ts)
    simp only [writeItems, List.cons_append, List.append_assoc]
    rw [List.foldlM_cons, hcomma]
    refine (foldlM_append _ _ _).trans ?_
    rw [foldlM_newLine, Option.bind_some, hvalue, ih fun j hj => h j (List.mem_cons_of_mem _ hj), itemNumerals, valued_append]
    cases valued v.numerals <;> simp [itemTokens]

theorem foldlM_fields {fields : List (String × Json)} (h : ∀ f ∈ fields, Written l f.2) (depth : Nat) {cs : List Char}
    (hcs : Continues cs) (ts : List Token) : (writeFields l depth fields ++ cs).foldlM read? ⟨ts, .none⟩ =
      if valued (fieldNumerals fields) then cs.foldlM read? ⟨(fieldTokens fields).reverse ++ ts, .none⟩ else none := by
  induction fields generalizing ts with
  | nil => rfl
  | cons f rest ih =>
    obtain ⟨k, v⟩ := f
    have hcomma : read? ⟨ts, .none⟩ ',' = some ⟨.comma :: ts, .none⟩ := rfl
    have hvalue := (h (k, v) List.mem_cons_self).foldlM depth (continues_fields l depth rest hcs) (.colon :: .string k :: .comma :: ts)
    simp only [writeFields, List.cons_append, List.append_assoc]
    rw [List.foldlM_cons, hcomma]
    refine (foldlM_append _ _ _).trans ?_
    rw [foldlM_newLine, Option.bind_some, foldlM_append, foldlM_quote, Option.bind_some, foldlM_append, foldlM_colon,
      Option.bind_some, hvalue, ih fun f hf => h f (List.mem_cons_of_mem _ hf), fieldNumerals, valued_append]
    cases valued v.numerals <;> simp [fieldTokens]

theorem written_array {items : List Json} (h : ∀ j ∈ items, Written l j) : Written l (array items) := by
  intro depth ts
  cases items with
  | nil => exact .refl _
  | cons v rest =>
    have hopen : read? ⟨ts, .none⟩ '[' = some ⟨.openArray :: ts, .none⟩ := rfl
    have hclose (ts : List Token) : read? ⟨ts, .none⟩ ']' = some ⟨.closeArray :: ts, .none⟩ := rfl
    have hend := continues_newLine l depth (c := ']') (.inr (.inr (.inl rfl)))
    have hvalue := (h v List.mem_cons_self).foldlM (depth + 1) (continues_items l (depth + 1) rest hend) (.openArray :: ts)
    have hrest := foldlM_items l (fun j hj => h j (List.mem_cons_of_mem _ hj)) (depth + 1) hend
    suffices heq : (write l depth (array (v :: rest))).foldlM read? ⟨ts, .none⟩ =
        if valued (numerals (array (v :: rest))) then some ⟨(tokens (array (v :: rest))).reverse ++ ts, .none⟩ else none by
      rw [heq]
      exact .refl _
    simp only [write, List.cons_append, List.append_assoc]
    rw [List.foldlM_cons, hopen]
    refine (foldlM_append _ _ _).trans ?_
    rw [foldlM_newLine, Option.bind_some, hvalue, hrest, foldlM_append, foldlM_newLine, Option.bind_some, List.foldlM_cons,
      hclose, numerals, itemNumerals, valued_append]
    cases valued v.numerals <;> simp [tokens]

theorem written_object {fields : List (String × Json)} (h : ∀ f ∈ fields, Written l f.2) : Written l (object fields) := by
  intro depth ts
  rcases fields with _ | ⟨⟨k, v⟩, rest⟩
  · exact .refl _
  · have hopen : read? ⟨ts, .none⟩ '\x7b' = some ⟨.openObject :: ts, .none⟩ := rfl
    have hclose (ts : List Token) : read? ⟨ts, .none⟩ '\x7d' = some ⟨.closeObject :: ts, .none⟩ := rfl
    have hend := continues_newLine l depth (c := '\x7d') (.inr (.inr (.inr rfl)))
    have hvalue := (h (k, v) List.mem_cons_self).foldlM (depth + 1) (continues_fields l (depth + 1) rest hend)
      (.colon :: .string k :: .openObject :: ts)
    have hrest := foldlM_fields l (fun f hf => h f (List.mem_cons_of_mem _ hf)) (depth + 1) hend
    suffices heq : (write l depth (object ((k, v) :: rest))).foldlM read? ⟨ts, .none⟩ =
        if valued (numerals (object ((k, v) :: rest))) then
          some ⟨(tokens (object ((k, v) :: rest))).reverse ++ ts, .none⟩ else none by
      rw [heq]
      exact .refl _
    simp only [write, List.cons_append, List.append_assoc]
    rw [List.foldlM_cons, hopen]
    refine (foldlM_append _ _ _).trans ?_
    rw [foldlM_newLine, Option.bind_some, foldlM_append, foldlM_quote, Option.bind_some, foldlM_append, foldlM_colon,
      Option.bind_some, hvalue, hrest, foldlM_append, foldlM_newLine, Option.bind_some, List.foldlM_cons, hclose, numerals,
      fieldNumerals, valued_append]
    cases valued v.numerals <;> simp [tokens]

theorem written {j : Json} (h : j.Proper) : Written l j := by
  induction j using Json.induction with
  | null => exact fun depth ts => same_word ts rfl
  | bool b => cases b <;> exact fun depth ts => same_word ts rfl
  | number n =>
    intro depth ts
    have hn : n.Proper := (proper_number_iff n).1 h
    rw [write, foldlM_numeral ts hn]
    simpa [numerals, valued, tokens] using same_numeral ts hn
  | string s =>
    intro depth ts
    rw [write, foldlM_quote]
    exact .refl _
  | array items ih =>
    exact written_array l fun j hj => ih j hj ((proper_array_iff items).1 h j hj)
  | object fields ih =>
    exact written_object l fun f hf => ih f hf ((proper_object_iff fields).1 h f hf)

end Values

/-- The text of a value is cut into the tokens of the value. -/
theorem ofText?_write (l : Layout) {j : Json} (h : j.Proper) :
    ofText? (write l 0 j) = if valued j.numerals then some j.tokens else none := by
  rw [ofText?, (written l h 0 []).finish]
  split
  · simp [finish?]
  · rfl

end Token

end RenderGraph.Json
