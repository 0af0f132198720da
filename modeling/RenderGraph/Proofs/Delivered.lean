import Mathlib.Data.List.DropRight
import RenderGraph.Command.Run
import RenderGraph.Proofs.Files
import RenderGraph.Proofs.PipelineText
/-!
# What a compile writes

`Delivers` says from the files alone which pipeline a compile is to write: the
settings in force and the graph have to load, and where a compile with an error
has failed there has to be none.

`runArguments_compile`: a compile succeeds just if there is such a pipeline, and
then its JSON value is given out as a text over several lines, after all else.
Otherwise nothing is printed and every file is as it was.
-/

namespace RenderGraph.Command

/-! ## The file beside another one -/

section Beside

open Disk

/-- Whether a part of a path leads somewhere. -/
def leads (part : String) : Bool := part ≠ "" && part ≠ "."

theorem parts_append (path rest : String) : parts (path ++ "/" ++ rest) = parts path ++ parts rest := by
  simp [parts, Text.split, List.splitOn_append_cons_self]

theorem parts_intercalate (pieces : List String) : parts ("/".intercalate pieces) = pieces.flatMap parts := by
  induction pieces with
  | nil => decide +kernel
  | cons piece rest ih =>
    cases rest with
    | nil => simp
    | cons next rest =>
      rw [String.intercalate_cons_cons, parts_append, ih]
      rfl

theorem trimParts_cons (part : String) (rest : List String) : trimParts (part :: rest) = part :: rest.rdropWhile (!leads ·) := by
  have hleads : (fun p : String => decide (p = "") || decide (p = ".")) = (!leads ·) := by
    funext p
    simp [leads]
  rw [trimParts, hleads]
  rfl

theorem filter_rdropWhile (rest : List String) : (rest.rdropWhile (!leads ·)).filter leads = rest.filter leads := by
  induction rest using List.reverseRecOn with
  | nil => rfl
  | append_singleton rest part ih =>
    cases h : leads part with
    | true => rw [List.rdropWhile_concat_neg _ _ _ (by simp [h])]
    | false => rw [List.rdropWhile_concat_pos _ _ _ (by simp [h]), ih]; simp [h]

theorem filter_trimParts (pieces : List String) : (trimParts pieces).filter leads = pieces.filter leads := by
  cases pieces with
  | nil => rfl
  | cons part rest => rw [trimParts_cons, List.filter_cons, filter_rdropWhile, List.filter_cons]

theorem filter_dropLast_trimParts (pieces : List String) :
    (trimParts pieces).dropLast.filter leads = (pieces.filter leads).dropLast := by
  rw [← filter_trimParts pieces]
  cases pieces with
  | nil => rfl
  | cons part rest =>
    -- What is left at the end leads on, unless it is the first part.
    have hlast := List.rdropWhile_last_not (!leads ·) rest
    rw [trimParts_cons]
    rcases List.eq_nil_or_concat (rest.rdropWhile (!leads ·)) with h | ⟨before, last, h⟩
    · rw [h]
      cases hpart : leads part <;> simp [hpart]
    · have hleads : leads last = true := by simpa [h] using hlast (by simp [h])
      rw [h, List.concat_eq_append, ← List.cons_append, List.dropLast_concat, List.filter_append]
      simp [hleads]

theorem not_mem_of_mem_splitOn {α : Type} [DecidableEq α] {a : α} (xs : List α) : ∀ piece ∈ xs.splitOn a, a ∉ piece := by
  induction xs with
  | nil => simp
  | cons x xs ih =>
    rw [List.splitOn_cons_eq_if_modifyHead]
    by_cases hx : x = a
    · simpa [hx] using ih
    · obtain ⟨first, rest, h⟩ := List.exists_cons_of_ne_nil (List.splitOn_ne_nil a xs)
      rw [h, List.forall_mem_cons] at ih
      simpa [hx, h, Ne.symm hx] using ih

/-- A piece between the separators of a path is a single part, if it leads on. -/
theorem parts_of_mem_split {path piece : String} (h : piece ∈ Text.split '/' path) : parts piece = [piece].filter leads := by
  obtain ⟨cs, hcs, rfl⟩ := List.mem_map.1 h
  have hsingle : cs.splitOn '/' = [cs] := List.splitOn_eq_singleton (not_mem_of_mem_splitOn _ cs hcs)
  rw [parts, Text.split, String.toList_ofList, hsingle]
  rfl

theorem prefix_trimParts (pieces : List String) : trimParts pieces <+: pieces := by
  cases pieces with
  | nil => exact List.prefix_rfl
  | cons part rest =>
    rw [trimParts_cons, List.prefix_cons_inj]
    exact List.rdropWhile_prefix _ _

/-- The way to the file beside another one is the way to that one, but for its last part. -/
theorem parts_beside {name : String} (hname : parts name = [name]) (path : String) :
    parts (beside path name) = (parts path).dropLast ++ [name] := by
  have hleads : (trimParts (trimParts (Text.split '/' path)).dropLast).filter leads = (parts path).dropLast := by
    rw [filter_trimParts, filter_dropLast_trimParts]
    rfl
  have hinit : (trimParts (Text.split '/' path)).dropLast <+: trimParts (Text.split '/' path) := List.dropLast_prefix _
  have hpieces : trimParts (trimParts (Text.split '/' path)).dropLast <+: Text.split '/' path :=
    (prefix_trimParts _).trans (hinit.trans (prefix_trimParts _))
  rw [← hleads]
  unfold beside
  generalize trimParts (trimParts (Text.split '/' path)).dropLast = pieces at hpieces ⊢
  have hparts : pieces.flatMap parts = pieces.filter leads := by
    rw [List.flatMap_congr fun piece h => parts_of_mem_split (hpieces.mem h), ← List.filter_flatMap, List.flatMap_singleton']
  have hmany : parts ("/".intercalate pieces ++ "/" ++ name) = pieces.filter leads ++ [name] := by
    rw [parts_append, parts_intercalate, hparts, hname]
  split
  · exact hname
  · exact hmany
  · exact hmany

example : beside "work/./sky.json" Settings.fileName = "work/render_graph.ron" := by decide +kernel

end Beside

/-! ## What a compile is to write -/

section Compiling
variable {σ : Type} [Files (StateM σ)]

/-- The settings in force for a graph: those of the file that is named; if none is, those of the file beside the graph if
there is one, and otherwise the standard ones. -/
def InForce (s : σ) (file : String) : Option String → Settings → Prop
  | some path, settings => SettingsAt s path settings
  | none, settings =>
    let path := beside file Settings.fileName
    (FileAt s path ∧ SettingsAt s path settings) ∨ (¬ FileAt s path ∧ settings = .standard)

/-- A graph compiled with settings. -/
def compiled (settings : Settings) (g : Graph) : CompileOutput :=
  { Compiler.standard with settings := settings }.compileGraph g

/-- Whether a compile counts as failed when it reports an error. -/
def Strict (failFast : Bool) (settings : Settings) : Prop := failFast = true ∨ settings.failFast = true

/-- The pipeline that a compile is to write. -/
def Delivers (s : σ) (file : String) (named : Option String) (failFast : Bool) (p : Pipeline) : Prop :=
  ∃ settings g, InForce s file named settings ∧ GraphAt .standard s file g ∧
    (Strict failFast settings → ∀ d ∈ (compiled settings g).diagnostics, d.isError = false) ∧
    p = (compiled settings g).pipeline

theorem exists_accepted_iff {strict : Bool} {o : CompileOutput} {p : Pipeline} :
    (∃ lines, accepted strict o = .ok (p, lines)) ↔
      (strict = true → ∀ d ∈ o.diagnostics, d.isError = false) ∧ p = o.pipeline := by
  have herrors : o.errors.isEmpty = true ↔ ∀ d ∈ o.diagnostics, d.isError = false := by
    simp [CompileOutput.errors, errorsOf, List.filter_eq_nil_iff]
  cases strict with
  | false => simp [accepted, eq_comm (a := p)]
  | true =>
    rw [← herrors, accepted, if_pos rfl, CompileOutput.result]
    by_cases h : o.errors.isEmpty = true
    · rw [if_pos h]
      change (∃ lines, Except.ok (o.pipeline, []) = Except.ok (p, lines)) ↔ _
      simp [h, eq_comm (a := p)]
    · rw [if_neg h]
      exact iff_of_false (fun ⟨_, hlines⟩ => nomatch hlines) fun hp => h (hp.1 rfl)

variable [Undisturbed σ] (s : σ) (file : String) (named : Option String) (failFast : Bool)

theorem looks_settingsFor : Looks (settingsFor file named : StateM σ _) s (InForce s file named) := by
  cases named with
  | some path => exact (looks_loadSettings s path).mapError (Failure.settings path)
  | none =>
    let path := beside file Settings.fileName
    have h : Looks (settingsFor file none : StateM σ _) s _ := looks_ifFile s path
      ((looks_loadSettings s path).mapError (Failure.settings path)) (.pure (.ok Settings.standard))
    exact h.congr fun settings => by simp only [InForce, Except.ok.injEq, eq_comm (b := settings), path]

theorem looks_compileFile : Looks (compileFile file named failFast : StateM σ _) s fun r =>
    ∃ settings g, InForce s file named settings ∧ GraphAt .standard s file g ∧
      accepted (failFast || settings.failFast) (compiled settings g) = .ok r := by
  have h : Looks (compileFile file named failFast : StateM σ _) s _ :=
    (looks_settingsFor s file named).bind (fun f => ⟨f, rfl⟩) fun settings _ =>
      (looks_loadGraph s file .standard).bind (fun cause => ⟨.graph file cause, rfl⟩) fun g _ =>
        .pure (accepted (failFast || settings.failFast) (compiled settings g))
  exact h.congr fun r => by simp only [exists_and_left]

/-- What a compile is to write is what it has before anything is written. -/
theorem delivers_iff {p : Pipeline} : Delivers s file named failFast p ↔
    ∃ lines, ((compileFile file named failFast : StateM σ _).run s).1 = .ok (p, lines) := by
  have hstrict (settings : Settings) : Strict failFast settings ↔ (failFast || settings.failFast) = true :=
    (Bool.or_eq_true ..).to_iff.symm
  simp only [(looks_compileFile s file named failFast).ok_iff, Delivers, hstrict, ← exists_accepted_iff]
  constructor
  · rintro ⟨settings, g, hsettings, hg, lines, h⟩
    exact ⟨lines, settings, g, hsettings, hg, h⟩
  · rintro ⟨lines, settings, g, hsettings, hg, h⟩
    exact ⟨settings, g, hsettings, hg, lines, h⟩

/-! ## What a compile does -/

/-- What is printed and how the files are after a text was given out: to a file if one is named, else as a line. -/
def givenOut (s : σ) (text : String) : Option String → String × σ
  | none => (text ++ "\n", s)
  | some path => ("", written s path text)

variable {s file named failFast}
variable {output : Option String}

theorem Delivers.unique {p p' : Pipeline} (h : Delivers s file named failFast p) (h' : Delivers s file named failFast p') :
    p = p' := by
  obtain ⟨lines, hlines⟩ := (delivers_iff s file named failFast).1 h
  obtain ⟨lines', hlines'⟩ := (delivers_iff s file named failFast).1 h'
  exact congrArg Prod.fst (Except.ok.inj (hlines.symm.trans hlines'))

/-- A compile that is to write a pipeline gives out its text. -/
theorem runCompile_of_delivers {p : Pipeline} (h : Delivers s file named failFast p)
    (hwrite : ∀ path, output = some path → ((Files.write path p.toText : StateM σ _).run s).1 = .ok ()) :
    ∃ lines, (runCompile file named output failFast : StateM σ _).run s =
      (⟨0, (givenOut s p.toText output).1, lines⟩, (givenOut s p.toText output).2) := by
  obtain ⟨lines, hlines⟩ := (delivers_iff s file named failFast).1 h
  have hcompile : (compileFile file named failFast : StateM σ _).run s = (.ok (p, lines), s) :=
    Prod.ext hlines (looks_compileFile s file named failFast).state
  refine ⟨lines, ?_⟩
  rw [runCompile, StateT.run_bind, hcompile]
  cases output with
  | none => rfl
  | some path =>
    have hwritten : (Files.write path p.toText : StateM σ _).run s = (.ok (), written s path p.toText) :=
      Prod.ext (hwrite path rfl) rfl
    change ((Files.write path p.toText : StateM σ _) >>= _).run s = _
    rw [StateT.run_bind, hwritten]
    rfl

/-- A compile that is not to write a pipeline fails, and does nothing else. -/
theorem runCompile_of_not_delivers (output : Option String) (h : ¬ ∃ p, Delivers s file named failFast p) :
    ∃ errors, (runCompile file named output failFast : StateM σ _).run s = (⟨1, "", errors⟩, s) := by
  have hstate := (looks_compileFile s file named failFast).state
  rw [runCompile, StateT.run_bind]
  cases hr : ((compileFile file named failFast : StateM σ _).run s).1 with
  | error f =>
    rw [show (compileFile file named failFast : StateM σ _).run s = (.error f, s) from Prod.ext hr hstate]
    exact ⟨f.lines, rfl⟩
  | ok r => exact absurd ⟨r.1, (delivers_iff s file named failFast).2 ⟨r.2, hr⟩⟩ h

/-- A compile command succeeds just if there is a pipeline to write: the settings in force load and are usable, the graph
loads, and there is no error where one counts as failure. Then the JSON value of the pipeline is given out over several
lines, to the output file if one is named, and the pipeline is read from this text as itself if it has only numbers that
are, and no parameter with more than a hundred lists inside one another. In every other case the command fails, nothing
is printed and the files are as they were. The way to the settings beside a graph is that to the graph but for its last
part. -/
theorem runArguments_compile {arguments : List String}
    (hparse : parse arguments = .ok (.compile file named output failFast))
    (hwrite : ∀ path p, output = some path → Delivers s file named failFast p →
      ((Files.write path p.toJson.pretty : StateM σ _).run s).1 = .ok ()) :
    Disk.parts (beside file Settings.fileName) = (Disk.parts file).dropLast ++ [Settings.fileName] ∧
    ∃ report after, (runArguments arguments : StateM σ _).run s = (report, after) ∧
      (report.code = 0 ↔ ∃ p, Delivers s file named failFast p) ∧
      (∀ p, Delivers s file named failFast p → ∃ text, (report.out, after) = givenOut s text output ∧
        text = p.toJson.pretty ∧ (p.Holdable 100 → Pipeline.ofText? text = some p)) ∧
      ((¬ ∃ p, Delivers s file named failFast p) → report.code = 1 ∧ report.out = "" ∧ after = s) := by
  have hrun : (runArguments arguments : StateM σ _) = runCompile file named output failFast := by
    rw [runArguments, hparse]
    rfl
  refine ⟨parts_beside (by decide +kernel) file, ?_⟩
  rw [hrun]
  by_cases h : ∃ p, Delivers s file named failFast p
  · obtain ⟨p, hp⟩ := h
    obtain ⟨lines, hlines⟩ := runCompile_of_delivers hp fun path hpath => hwrite path p hpath hp
    refine ⟨_, _, hlines, iff_of_true rfl ⟨p, hp⟩, fun p' hp' => ?_, fun hnone => absurd ⟨p, hp⟩ hnone⟩
    rw [hp'.unique hp]
    exact ⟨p.toText, rfl, rfl, fun hheld => hheld.ofText?_toText (by decide)⟩
  · obtain ⟨errors, herrors⟩ := runCompile_of_not_delivers output h
    exact ⟨_, _, herrors, iff_of_false Nat.one_ne_zero h, fun p hp => absurd ⟨p, hp⟩ h, fun _ => ⟨rfl, rfl, rfl⟩⟩

end Compiling

/-- The text of a graph of one node. -/
def lone (className : String) : String :=
  "\x7b\"nodes\":[\x7b\"type\":\"" ++ className ++ "\",\"x\":0,\"y\":0\x7d]\x7d"

/-- Two graphs, the second with a node of an unknown class, beside settings by which a compile with an error has failed. -/
def desk : Disk := .ofFiles [("work/sky.json", some (lone "ColorPass")), ("work/odd.json", some (lone "Mystery")),
  ("work/render_graph.ron", some "(fail_fast: true)")]

/-- The output file of the desk can be written. -/
theorem desk_writes (text : String) : ((Files.write "out.json" text : OnDisk _).run desk).1 = .ok () := by
  have hplace : desk.locate "out.json" = .ok ["out.json"] := by decide +kernel
  rw [Disk.run_write, Disk.write_eq_ok_iff.2 ⟨by decide +kernel, _, hplace, by decide +kernel, by decide +kernel, rfl⟩]

/-- The pipeline of the first graph. -/
def loneColor : Pipeline where
  name := ""
  passes := [{
    className := "ColorPass", name := "ColorPass", viewport := "", config := .color true false
    inputs := .ofList [("input_res", "empty_ColorPass_0_input_res"), ("shadow_map", "empty_ColorPass_0_shadow_map")]
    outputs := .ofList [("output_res", "ColorPass_0_output_res")], inplace := [], attributes := .empty }]
  specs := [⟨"ColorPass_0_output_res", .rgba16Float, 4, .full, none, none, none⟩]

/-- The text of the pipeline of the first graph. -/
def loneText : String := "\n".intercalate
  ["\x7b", "  \"name\": \"\",", "  \"passes\": [", "    \x7b", "      \"class_name\": \"ColorPass\",",
    "      \"name\": \"ColorPass\",", "      \"viewport_name\": \"\",", "      \"config\": \x7b", "        \"type\": \"color\",",
    "        \"clear\": true,", "        \"wireframe\": false", "      \x7d,", "      \"inputs\": \x7b",
    "        \"input_res\": \"empty_ColorPass_0_input_res\",", "        \"shadow_map\": \"empty_ColorPass_0_shadow_map\"",
    "      \x7d,", "      \"outputs\": \x7b", "        \"output_res\": \"ColorPass_0_output_res\"", "      \x7d,",
    "      \"inplace\": []", "    \x7d", "  ],", "  \"resource_specs\": [", "    \x7b",
    "      \"name\": \"ColorPass_0_output_res\",", "      \"format\": \"rgba16f\",", "      \"samples\": 4,", "      \"size\": \x7b",
    "        \"mode\": \"viewport\",", "        \"scale\": 1.0", "      \x7d,", "      \"clear_color\": null,",
    "      \"clear_depth\": null,", "      \"viewport_name\": null", "    \x7d", "  ]", "\x7d"]

theorem pretty_loneColor : loneColor.toJson.pretty = loneText := by
  rw [Json.pretty, loneText, ← String.toList_inj, String.toList_ofList, String.toList_intercalate]
  decide +kernel

/-- The pipeline of the first graph is written to the output file, and that of the second one is not. -/
theorem desk_compiled :
    (∃ report after, Delivers desk "work/sky.json" none false loneColor ∧
      (runArguments ["compile", "work/sky.json", "-o", "out.json"] : OnDisk Report).run desk = (report, after) ∧
      report.code = 0 ∧ report.out = "" ∧ contents after "out.json" = .ok loneText ∧
      Pipeline.ofText? loneText = some loneColor) ∧
    ∃ report, (runArguments ["compile", "work/odd.json", "-o", "out.json"] : OnDisk Report).run desk = (report, desk) ∧
      report.code = 1 ∧ report.out = "" := by
  constructor
  · have hcompiled : ((compileFile "work/sky.json" none false : OnDisk _).run desk).1.toOption.map Prod.fst = some loneColor := by
      decide +kernel
    obtain ⟨-, report, after, hrun, hcode, hgiven, -⟩ := runArguments_compile (s := desk)
      (show parse ["compile", "work/sky.json", "-o", "out.json"] = .ok (.compile "work/sky.json" none (some "out.json") false)
        by decide +kernel) fun path p hpath _ => by cases hpath; exact desk_writes p.toJson.pretty
    have hp : Delivers desk "work/sky.json" none false loneColor := by
      rw [delivers_iff]
      cases h : ((compileFile "work/sky.json" none false : OnDisk _).run desk).1 with
      | error f => rw [h] at hcompiled; cases hcompiled
      | ok r => rw [h] at hcompiled; exact ⟨r.2, congrArg Except.ok (Prod.ext (Option.some.inj hcompiled) rfl)⟩
    obtain ⟨text, hsame, htext, hread⟩ := hgiven loneColor hp
    rw [pretty_loneColor] at htext
    subst htext
    obtain ⟨hout, rfl⟩ := Prod.mk.inj hsame
    have hheld : loneColor.Holdable 100 := Pipeline.holdable (by decide +kernel) (by decide +kernel) (by decide +kernel)
    exact ⟨report, _, hp, hrun, hcode.2 ⟨_, hp⟩, hout, Disk.contents_written (desk_writes _), hread hheld⟩
  · obtain ⟨-, report, after, hrun, -, -, hfails⟩ := runArguments_compile (s := desk)
      (show parse ["compile", "work/odd.json", "-o", "out.json"] = .ok (.compile "work/odd.json" none (some "out.json") false)
        by decide +kernel) fun path p hpath _ => by cases hpath; exact desk_writes p.toJson.pretty
    have hnone : ((compileFile "work/odd.json" none false : OnDisk _).run desk).1.toOption.isNone := by decide +kernel
    obtain ⟨hcode, hout, rfl⟩ := hfails fun ⟨p, hp⟩ => by
      obtain ⟨lines, hlines⟩ := (delivers_iff ..).1 hp
      rw [hlines] at hnone
      cases hnone
    exact ⟨report, hrun, hcode, hout⟩

end RenderGraph.Command
