import RenderGraph.Settings.Ron
/-!
# Settings survive being written

The text of settings is cut into tokens piece by piece: a quoted text gives its
text back whatever characters are in it (`Token.cut_quoted`), and a name ends
with the mark behind it (`Token.cut_name`). A text that is read as a value
(`Reads`) may stand behind the name of a field (`Adds.field`) or on a line of a
list (`Adds.item`), and the entries of a group are read one after another.

`Settings.ofText_toText`: settings without a fault are read from their own text.
-/

namespace RenderGraph

/-! ## Codes of characters -/

namespace Hex

theorem length_digits_le {k n : Nat} (h : n < Nat.pow 16 (k + 1)) : (digits n).length ≤ k + 1 := by
  induction k generalizing n with
  | zero => rw [digits, if_pos (by simpa using h)]; exact Nat.le_refl 1
  | succ k ih =>
    rw [digits]
    split
    · exact Nat.le_add_left ..
    · have hhigh : n / 16 < Nat.pow 16 (k + 1) := Nat.div_lt_of_lt_mul (Nat.mul_comm .. ▸ h)
      rw [List.length_append, List.length_singleton]
      exact Nat.succ_le_succ (ih hhigh)

theorem digits_ne_nil (n : Nat) : digits n ≠ [] := by
  rw [digits]
  split <;> simp

end Hex

namespace Ron.Token

theorem foldlM_append (cs cs' : List Char) (p : Progress) :
    (cs ++ cs').foldlM read? p = (cs.foldlM read? p).bind fun p => cs'.foldlM read? p := List.foldlM_append

section Codes
variable (ts : List Token) (form : Quotation) (read : List Char)

theorem read?_toChar {d count : Nat} (hd : d < 16) (hcount : count < 6) (value : Nat) :
    read? ⟨ts, .longCode form read count value⟩ (Hex.toChar d) = some ⟨ts, .longCode form read (count + 1) (16 * value + d)⟩ := by
  have hdigit := Hex.ofChar?_toChar d hd
  have hbrace : Hex.toChar d ≠ '\x7d' := by
    intro h
    rw [h] at hdigit
    cases hdigit
  simp [read?, hbrace, hdigit, Nat.not_le.2 hcount]

/-- The digits of a code, of which there are at most six. -/
theorem foldlM_digits (n : Nat) (h : (Hex.digits n).length ≤ 6) :
    (Hex.digits n).foldlM read? ⟨ts, .longCode form read 0 0⟩ = some ⟨ts, .longCode form read (Hex.digits n).length n⟩ := by
  fun_induction Hex.digits n with
  | case1 n hn => simp [read?_toChar ts form read hn]
  | case2 n hn ih =>
    rw [List.length_append, List.length_singleton] at h ⊢
    have hlast := read?_toChar ts form read (Nat.mod_lt n (by decide)) (Nat.lt_of_succ_le h) (n / 16)
    rw [foldlM_append, ih (Nat.le_of_succ_le h), Option.bind_some, List.foldlM_cons, hlast, Nat.div_add_mod]
    rfl

end Codes

/-! ## Texts -/

section Quoted
variable (ts : List Token) (read : List Char)

theorem foldlM_numbered (c : Char) :
    (Text.numbered c).foldlM read? ⟨ts, .quoted .text read⟩ = some ⟨ts, .quoted .text (c :: read)⟩ := by
  have hopen : ['\\', 'u', '\x7b'].foldlM read? ⟨ts, .quoted .text read⟩ = some ⟨ts, .longCode .text read 0 0⟩ := rfl
  have hlength : (Hex.digits c.toNat).length ≤ 6 := by
    refine Hex.length_digits_le (show c.toNat < 16777216 from ?_)
    have := c.valid
    simp only [UInt32.isValidChar, Nat.isValidChar, Char.toNat] at this ⊢
    omega
  have hclose : read? ⟨ts, .longCode .text read (Hex.digits c.toNat).length c.toNat⟩ '\x7d' =
      some ⟨ts, .quoted .text (c :: read)⟩ := by
    have hvalid : c.toNat.isValidChar := c.valid
    simp [read?, Hex.digits_ne_nil, ofCode?, hvalid, Char.ofNat_toNat]
  rw [Text.numbered, foldlM_append, foldlM_append, hopen, Option.bind_some, foldlM_digits _ _ _ _ hlength, Option.bind_some,
    List.foldlM_cons, hclose]
  rfl

/-- A character is read from its escape, whichever it is. -/
theorem foldlM_escapeChar (c : Char) :
    (Text.escapeChar true c).foldlM read? ⟨ts, .quoted .text read⟩ = some ⟨ts, .quoted .text (c :: read)⟩ := by
  unfold Text.escapeChar
  split
  · subst c; rfl
  split
  · subst c; rfl
  split
  · subst c; rfl
  split
  · subst c; rfl
  split
  · subst c; rfl
  split
  · subst c; rfl
  split
  · rename_i h; obtain ⟨rfl, -⟩ := h; rfl
  split
  · exact foldlM_numbered ts read c
  · rename_i hbackslash hquote _ _
    simp [read?, Quotation.quote, hquote, hbackslash]

end Quoted

/-- A text that is cut into these tokens, wherever it stands between others. -/
def Cut (cs : List Char) (ts : List Token) : Prop :=
  ∀ before, cs.foldlM read? ⟨before, .none⟩ = some ⟨ts.reverse ++ before, .none⟩

section Cut
variable {cs cs' : List Char} {ts ts' : List Token}

theorem Cut.append (h : Cut cs ts) (h' : Cut cs' ts') : Cut (cs ++ cs') (ts ++ ts') := by
  intro before
  rw [foldlM_append, h before, Option.bind_some, h', List.reverse_append, List.append_assoc]

theorem cut_comma : Cut [','] [.comma] := fun _ => rfl

theorem cut_newLine : Cut ['\n'] [] := fun _ => rfl

theorem cut_indent (depth : Nat) : Cut (Settings.indent depth) [] := by
  intro before
  have hblanks : ∀ n, (List.replicate n ' ').foldlM read? ⟨before, .none⟩ = some ⟨before, .none⟩ := by
    intro n
    induction n with
    | zero => rfl
    | succ n ih => exact ih
  exact hblanks _

/-- A quoted text is read as the text. -/
theorem cut_quoted (s : String) : Cut (Text.quoted true s) [.text s] := by
  intro ts
  have hchars : ∀ (cs read : List Char), (cs.flatMap (Text.escapeChar true)).foldlM read? ⟨ts, .quoted .text read⟩ =
      some ⟨ts, .quoted .text (cs.reverse ++ read)⟩ := by
    intro cs
    induction cs with
    | nil => intro read; rfl
    | cons c cs ih =>
      intro read
      rw [List.flatMap_cons, foldlM_append, foldlM_escapeChar, Option.bind_some, ih, List.reverse_cons, List.append_assoc]
      rfl
  have hopen : read? ⟨ts, .none⟩ '"' = some ⟨ts, .quoted .text []⟩ := rfl
  have hclose (read : List Char) :
      ['"'].foldlM read? ⟨ts, .quoted .text read⟩ = some ⟨.text (String.ofList read.reverse) :: ts, .none⟩ := rfl
  rw [Text.quoted, List.cons_append, List.foldlM_cons, hopen]
  refine (foldlM_append _ _ _).trans ?_
  rw [hchars, Option.bind_some, hclose, List.append_nil, List.reverse_reverse, String.ofList_toList]
  rfl

/-! ## Names and numbers -/

/-- The marks behind names and numbers. -/
inductive Mark : Char → Token → Prop
  | comma : Mark ',' .comma
  | colon : Mark ':' .colon

/-- Whether a text is read as a name. -/
def isName (s : String) : Bool :=
  match s.toList with
  | [] => false
  | c :: rest => startsName c && !isBlank c && rest.all inName

theorem begin?_of_startsName {c : Char} (h : startsName c = true) (hblank : isBlank c = false) (before : List Token) :
    begin? before c = some ⟨before, .word [c]⟩ := by
  have hne : c ≠ '"' ∧ c ≠ '\'' ∧ c ≠ '/' := by
    refine ⟨?_, ?_, ?_⟩ <;> · rintro rfl; cases h
  simp [begin?, hblank, hne, h]

theorem cut_name {s : String} (h : isName s = true) {c : Char} {t : Token} (hmark : Mark c t) :
    Cut (s.toList ++ [c]) [.name s, t] := by
  intro before
  have hword : s.toList.foldlM read? ⟨before, .none⟩ = some ⟨before, .word s.toList.reverse⟩ := by
    unfold isName at h
    split at h
    · cases h
    · rename_i c rest hs
      simp only [Bool.and_eq_true, Bool.not_eq_true', List.all_eq_true] at h
      obtain ⟨⟨hstart, hblank⟩, hrest⟩ := h
      have hmore : ∀ (cs read : List Char), (∀ c ∈ cs, inName c = true) →
          cs.foldlM read? ⟨before, .word read⟩ = some ⟨before, .word (cs.reverse ++ read)⟩ := by
        intro cs
        induction cs with
        | nil => intro read _; rfl
        | cons c cs ih =>
          intro read hcs
          have hc : read? ⟨before, .word read⟩ c = some ⟨before, .word (c :: read)⟩ := by
            simp [read?, hcs c List.mem_cons_self]
          rw [List.foldlM_cons, hc]
          refine (ih _ fun c hc => hcs c (List.mem_cons_of_mem _ hc)).trans ?_
          rw [List.reverse_cons, List.append_assoc]
          rfl
      have hbegin : read? ⟨before, .none⟩ c = some ⟨before, .word [c]⟩ := begin?_of_startsName hstart hblank before
      rw [hs, List.foldlM_cons, hbegin, List.reverse_cons]
      exact hmore rest [c] hrest
  have hend (read : List Char) : [c].foldlM Token.read? ⟨before, .word read⟩ =
      some ⟨t :: .name (String.ofList read.reverse) :: before, .none⟩ := by
    cases hmark <;> rfl
  rw [foldlM_append, hword, Option.bind_some, hend, List.reverse_reverse, String.ofList_toList]
  rfl

end Cut

end Ron.Token

/-! ## Values and entries -/

namespace Ron

open Token

/-- Tokens that are read as a value, with at most `depth` groups inside one another. -/
def Taken (depth : Nat) (ts : List Token) (v : Ron) : Prop :=
  ∀ closable frames, frames.length + depth ≤ depthLimit →
    ts.foldlM take? ⟨.value closable, frames⟩ = some ⟨.next v, frames⟩

/-- Tokens that add entries to the group that is open. -/
def Added (depth : Nat) (ts : List Token) (es : List (Option Ron × Ron)) : Prop :=
  ∀ bracket name seen frames, frames.length + 1 + depth ≤ depthLimit →
    ts.foldlM take? ⟨.value true, ⟨bracket, name, seen, none⟩ :: frames⟩ =
      some ⟨.value true, ⟨bracket, name, es.reverse ++ seen, none⟩ :: frames⟩

/-- A text that is read as a value in front of a comma. -/
def Reads (depth : Nat) (cs : List Char) (v : Ron) : Prop :=
  ∃ ts, Cut (cs ++ [',']) (ts ++ [.comma]) ∧ Taken depth ts v

/-- A text that adds entries to the group that is open. -/
def Adds (depth : Nat) (cs : List Char) (es : List (Option Ron × Ron)) : Prop := ∃ ts, Cut cs ts ∧ Added depth ts es

theorem foldlM_append (ts ts' : List Token) (p : Place) :
    (ts ++ ts').foldlM take? p = (ts.foldlM take? p).bind fun p => ts'.foldlM take? p := List.foldlM_append

variable {depth : Nat} {cs cs' : List Char} {ts ts' : List Token} {v : Ron} {es es' : List (Option Ron × Ron)}

theorem Reads.of_cut (hcut : Cut cs ts) (h : Taken depth ts v) : Reads depth cs v := ⟨ts, hcut.append cut_comma, h⟩

theorem reads_text (s : String) : Reads depth (Text.quoted true s) (text s) :=
  .of_cut (cut_quoted s) fun closable _ _ => by cases closable <;> rfl

theorem reads_name {s : String} (h : isName s = true) : Reads depth s.toList (name s) :=
  ⟨[.name s], cut_name h .comma, fun closable _ _ => by cases closable <;> rfl⟩

/-- A group is read from the entries between its brackets. -/
theorem Added.taken (h : Added depth ts es) (bracket : Bracket) :
    Taken (depth + 1) (.opens bracket :: ts ++ [.closes bracket]) (group bracket none es) := by
  intro closable frames hdepth
  have hopen : take? ⟨.value closable, frames⟩ (.opens bracket) = some ⟨.value true, ⟨bracket, none, [], none⟩ :: frames⟩ := by
    cases closable <;> simp [take?, beginValue?, openGroup?, show frames.length < depthLimit by omega]
  have hentries := h bracket none [] frames (by omega)
  rw [List.cons_append, List.foldlM_cons, hopen]
  refine (foldlM_append _ _ _).trans ?_
  rw [hentries, Option.bind_some, List.append_nil]
  simp [take?, closeGroup?]

theorem Adds.append (h : Adds depth cs es) (h' : Adds depth cs' es') : Adds depth (cs ++ cs') (es ++ es') := by
  obtain ⟨ts, hcut, h⟩ := h
  obtain ⟨ts', hcut', h'⟩ := h'
  refine ⟨ts ++ ts', hcut.append hcut', fun bracket name seen frames hdepth => ?_⟩
  rw [foldlM_append, h _ _ _ _ hdepth, Option.bind_some, h' _ _ _ _ hdepth, List.reverse_append, List.append_assoc]

theorem Adds.nil (h : Cut cs []) : Adds depth cs [] := ⟨[], h, fun _ _ _ _ _ => rfl⟩

theorem Adds.flatMap {α : Type} {f : α → List Char} {e : α → Option Ron × Ron} {items : List α}
    (h : ∀ a ∈ items, Adds depth (f a) [e a]) : Adds depth (items.flatMap f) (items.map e) := by
  induction items with
  | nil => exact .nil fun _ => rfl
  | cons a items ih => exact (h a List.mem_cons_self).append (ih fun b hb => h b (List.mem_cons_of_mem _ hb))

theorem take?_comma (v : Ron) (f : Frame) (frames : List Frame) : take? ⟨.next v, f :: frames⟩ .comma =
    some ⟨.value true, { f with entries := (f.key, v) :: f.entries, key := none } :: frames⟩ := by
  cases v <;> rfl

/-- A value on a line of its own is an entry without a key. -/
theorem Adds.item (h : Reads depth cs v) (indent : Nat) :
    Adds depth (Settings.indent indent ++ cs ++ [',', '\n']) [(none, v)] := by
  obtain ⟨ts, hcut, h⟩ := h
  refine ⟨ts ++ [.comma], ?_, fun bracket name seen frames hdepth => ?_⟩
  · have := ((cut_indent indent).append hcut).append cut_newLine
    simpa using this
  · rw [foldlM_append, h true _ (by simpa using hdepth), Option.bind_some, List.foldlM_cons, take?_comma]
    rfl

/-- A value behind a name is an entry with the name as its key. -/
theorem Adds.field {s : String} (hname : isName s = true) (h : Reads depth cs v) :
    Adds depth (Settings.fieldText s cs) [(some (name s), v)] := by
  obtain ⟨ts, hcut, h⟩ := h
  refine ⟨[.name s, .colon] ++ (ts ++ [.comma]), ?_, fun bracket group seen frames hdepth => ?_⟩
  · have hblank : Cut [' '] [] := fun _ => rfl
    have := ((cut_indent 1).append (cut_name hname .colon)).append ((hblank.append hcut).append cut_newLine)
    simpa [Settings.fieldText] using this
  · have hkey : [Token.name s, .colon].foldlM take? ⟨.value true, ⟨bracket, group, seen, none⟩ :: frames⟩ =
        some ⟨.value false, ⟨bracket, group, seen, some (name s)⟩ :: frames⟩ := rfl
    rw [foldlM_append, hkey, Option.bind_some, foldlM_append, h false _ (by simpa using hdepth), Option.bind_some,
      List.foldlM_cons, take?_comma]
    rfl

theorem takeHeaders?_opens (count : Nat) (bracket : Bracket) (ts : List Token) :
    takeHeaders? count (.opens bracket :: ts) = some ([], .opens bracket :: ts) := by
  cases count <;> rfl

/-- A group in parentheses that holds entries is a text by itself. -/
theorem Adds.read? (h : Adds depth cs es) (hdepth : depth + 1 ≤ depthLimit) (hfit : (group .round none es).wellFormed = true) :
    Ron.read? (String.ofList ('(' :: cs ++ [')'])) = some ⟨[], group .round none es⟩ := by
  obtain ⟨ts, hcut, h⟩ := h
  have hopen : Cut ['('] [.opens .round] := fun _ => rfl
  have hclose : Cut [')'] [.closes .round] := fun _ => rfl
  have htokens : Token.ofText? ('(' :: cs ++ [')']) = some (.opens .round :: ts ++ [.closes .round]) := by
    have hall := (hopen.append hcut).append hclose []
    rw [Token.ofText?, show '(' :: cs ++ [')'] = ['('] ++ cs ++ [')'] from rfl, hall]
    simp [Token.finish?]
  have hvalue : ofTokens? (.opens .round :: ts ++ [.closes .round]) = some (group .round none es) := by
    rw [ofTokens?, h.taken .round false [] (by simpa using hdepth)]
    simp only [hfit, if_true]
  rw [Ron.read?, String.toList_ofList, htokens]
  simp only [bind, Option.bind, List.cons_append, takeHeaders?_opens]
  rw [← List.cons_append, hvalue]
  rfl

end Ron

/-! ## Settings -/

namespace Settings

open Ron

/-- A list of texts as a value. -/
def keywordsValue (items : List String) : Ron := .group .square none (items.map fun s => (none, .text s))

/-- The fields of settings with their values. -/
def entries (s : Settings) : List (Option Ron × Ron) := [
  (some (.name "hdr_class_keywords"), keywordsValue s.hdrKeywords),
  (some (.name "msaa_class_keywords"), keywordsValue s.msaaKeywords),
  (some (.name "hdr_format"), .name s.hdrFormat.name),
  (some (.name "default_format"), .name s.defaultFormat.name),
  (some (.name "msaa_samples"), .number (toString s.msaaSamples.toNat).toList),
  (some (.name "fail_fast"), .name (if s.failFast then "true" else "false"))]

theorem reads_keywords (items : List String) : Reads 1 (keywordsText items) (keywordsValue items) := by
  have hopen : Token.Cut ['['] [.opens .square] := fun _ => rfl
  have hclose : Token.Cut [']'] [.closes .square] := fun _ => rfl
  have hgroup : ∀ cs, Adds 0 cs (items.map fun s => (none, .text s)) → Reads 1 ('[' :: cs ++ [']']) (keywordsValue items) := by
    rintro cs ⟨ts, hcut, h⟩
    exact .of_cut ((hopen.append hcut).append hclose) (h.taken .square)
  unfold keywordsText
  split
  · rename_i hempty
    rw [List.isEmpty_iff] at hempty
    subst hempty
    exact hgroup [] (.nil fun _ => rfl)
  · have hitems : Adds 0 (items.flatMap fun s => indent 2 ++ Text.quoted true s ++ [',', '\n'])
        (items.map fun s => (none, Ron.text s)) := .flatMap fun s _ => .item (reads_text s) 2
    have hlines := ((Adds.nil Token.cut_newLine).append hitems).append (.nil (Token.cut_indent 1))
    rw [List.nil_append, List.append_nil] at hlines
    simpa using hgroup _ hlines

theorem wellFormed_keywordsValue (items : List String) : (keywordsValue items).wellFormed = true := by
  have hentries : wellFormedEntries (items.map fun s => (none, .text s)) = true := by
    induction items with
    | nil => rfl
    | cons s items ih => exact ih
  simp [keywordsValue, wellFormed, keysFit, hentries]

theorem wellFormed_entries (s : Settings) : (Ron.group .round none s.entries).wellFormed = true := by
  simp [entries, wellFormed, keysFit, asName?, wellFormedEntries, wellFormed_keywordsValue]

theorem keywords?_keywordsValue (items : List String) : keywords? (keywordsValue items) = some items := by
  change (items.map fun s => ((none : Option Ron), Ron.text s)).mapM (fun e => e.2.asText?) = some items
  induction items with
  | nil => rfl
  | cons s items ih =>
    rw [List.map_cons, List.mapM_cons, ih]
    rfl

section Samples
variable {n : UInt32} (h : n ∈ sampleCounts)
include h

theorem reads_samples {depth : Nat} : Reads depth (toString n.toNat).toList (.number (toString n.toNat).toList) := by
  simp only [sampleCounts, List.mem_cons, List.not_mem_nil, or_false] at h
  rcases h with rfl | rfl | rfl | rfl | rfl <;>
    exact ⟨[.number _], fun _ => rfl, fun closable _ _ => by cases closable <;> rfl⟩

theorem asUInt32?_samples : (Ron.number (toString n.toNat).toList).asUInt32? = some n := by
  simp only [sampleCounts, List.mem_cons, List.not_mem_nil, or_false] at h
  rcases h with rfl | rfl | rfl | rfl | rfl <;> decide

end Samples

theorem isName_name (f : TextureFormat) : Token.isName f.name = true := by cases f <;> rfl

theorem asBool?_name (b : Bool) : (Ron.name (if b then "true" else "false")).asBool? = some b := by cases b <;> rfl

theorem read?_toText {s : Settings} (h : s.msaaSamples ∈ sampleCounts) :
    Ron.read? s.toText = some ⟨[], .group .round none s.entries⟩ := by
  have hbool : Token.isName (if s.failFast then "true" else "false") = true := by cases s.failFast <;> rfl
  have hadds := (((((((Adds.nil Token.cut_newLine).append
    (.field (s := "hdr_class_keywords") rfl (reads_keywords s.hdrKeywords))).append
    (.field (s := "msaa_class_keywords") rfl (reads_keywords s.msaaKeywords))).append
    (.field (s := "hdr_format") rfl (reads_name (isName_name s.hdrFormat)))).append
    (.field (s := "default_format") rfl (reads_name (isName_name s.defaultFormat)))).append
    (.field (s := "msaa_samples") rfl (reads_samples h))).append
    (.field (s := "fail_fast") rfl (reads_name hbool)))
  exact hadds.read? (by decide) s.wellFormed_entries

theorem ofDocument?_entries {s : Settings} (h : s.msaaSamples ∈ sampleCounts) :
    ofDocument? ⟨[], .group .round none s.entries⟩ = some s := by
  have hfields : namedFields? s.entries = some [
      ("hdr_class_keywords", keywordsValue s.hdrKeywords), ("msaa_class_keywords", keywordsValue s.msaaKeywords),
      ("hdr_format", .name s.hdrFormat.name), ("default_format", .name s.defaultFormat.name),
      ("msaa_samples", .number (toString s.msaaSamples.toNat).toList),
      ("fail_fast", .name (if s.failFast then "true" else "false"))] := rfl
  have hformat (f : TextureFormat) : format? (.name f.name) = some f := TextureFormat.ofName?_name f
  have hsamples := asUInt32?_samples h
  generalize (toString s.msaaSamples.toNat).toList = written at hfields hsamples
  simp [ofDocument?, hfields, ofFields?, fieldNames, field?, List.lookup_cons, keywords?_keywordsValue, hformat, hsamples,
    asBool?_name]

/-- Settings without a fault are read from the text they are written as, whatever is in their keywords. -/
theorem ofText_toText (s : Settings) (h : s.fault? = none) : ofText s.toText = .ok s := by
  have hsamples : s.msaaSamples ∈ sampleCounts := by simpa [fault?] using h
  rw [ofText, read?_toText hsamples, Option.bind_some, ofDocument?_entries hsamples]
  simp only [h]

/-- Settings with keywords that need quoting, one of them with a mark that attaches to the letter before it. -/
def strange : Settings :=
  { standard with
    hdrKeywords := ["say \"hi\"\\", "it's", "line\nend\x00\x07", "caf\u0065\u0301", "猫", "// not a comment", ""]
    msaaKeywords := []
    msaaSamples := 16
    defaultFormat := .depth24Stencil8
    failFast := true }

theorem strange_read : strange.fault? = none ∧ ofText strange.toText = .ok strange ∧ strange.toText = "\n".intercalate [
    "(",
    "    hdr_class_keywords: [",
    "        \"say \\\"hi\\\"\\\\\",",
    "        \"it\\'s\",",
    "        \"line\\nend\\0\\u\x7b7\x7d\",",
    "        \"cafe\\u\x7b301\x7d\",",
    "        \"猫\",",
    "        \"// not a comment\",",
    "        \"\",",
    "    ],",
    "    msaa_class_keywords: [],",
    "    hdr_format: rgba16f,",
    "    default_format: depth24_stencil8,",
    "    msaa_samples: 16,",
    "    fail_fast: true,",
    ")"] := by
  have hvalid : strange.fault? = none := by decide
  refine ⟨hvalid, ofText_toText strange hvalid, ?_⟩
  rw [toText, ← String.toList_inj, String.toList_ofList, String.toList_intercalate]
  decide +kernel

end Settings

end RenderGraph
