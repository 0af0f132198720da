import RenderGraph.Storage.Disk
/-!
# Looking at files

Places for files are taken to be such that looking at files leaves them as they
are (`Undisturbed`). A computation that does no more is described by what it
succeeds with (`Looks`), and such descriptions are put together step by step.

Files in memory are such a place, and there a text that was written is what the
file holds (`contents_written`).
-/

namespace RenderGraph

/-- Places for files where looking at files leaves them as they are. -/
class Undisturbed (σ : Type) [Files (StateM σ)] : Prop where
  read (path : String) (s : σ) : ((Files.read path : StateM σ _).run s).2 = s
  isFile (path : String) (s : σ) : ((Files.isFile path : StateM σ _).run s).2 = s

/-! ## Steps that only look at files -/

theorem mapError_eq_ok_iff {ε ε' α : Type} {r : Except ε α} {f : ε → ε'} {a : α} : r.mapError f = .ok a ↔ r = .ok a := by
  cases r with
  | error e => exact iff_of_false nofun nofun
  | ok a' =>
    change (Except.ok a' : Except ε' α) = .ok a ↔ _
    rw [Except.ok.injEq, Except.ok.injEq]

/-- A computation leaves the files as they are, and succeeds with just what is said. -/
structure Looks {σ ε α : Type} (x : StateM σ (Except ε α)) (s : σ) (p : α → Prop) : Prop where
  state : (x.run s).2 = s
  ok_iff (a : α) : (x.run s).1 = .ok a ↔ p a

namespace Looks

variable {σ ε ε' α β : Type} {x : StateM σ (Except ε α)} {s : σ} {p p' : α → Prop}

theorem congr (h : Looks x s p) (hp : ∀ a, p a ↔ p' a) : Looks x s p' := ⟨h.state, fun a => (h.ok_iff a).trans (hp a)⟩

theorem pure (r : Except ε α) : Looks (Pure.pure r) s (r = .ok ·) := ⟨rfl, fun _ => Iff.rfl⟩

/-- One step after another: a failure of the first is passed on, and otherwise the second is taken. -/
theorem bind (h : Looks x s p) {next : Except ε α → StateM σ (Except ε' β)} {q : α → β → Prop}
    (herror : ∀ e, ∃ e', next (.error e) = Pure.pure (.error e')) (hok : ∀ a, p a → Looks (next (.ok a)) s (q a)) :
    Looks (x >>= next) s fun b => ∃ a, p a ∧ q a b := by
  have hfirst := h.ok_iff
  cases hr : (x.run s).1 with
  | error e =>
    have hrun : x.run s = (.error e, s) := Prod.ext hr h.state
    obtain ⟨e', he'⟩ := herror e
    have hfails : (x >>= next).run s = (.error e', s) := by
      rw [StateT.run_bind, hrun]
      exact congrArg (StateT.run · s) he'
    refine ⟨congrArg Prod.snd hfails, fun b => ?_⟩
    rw [congrArg Prod.fst hfails]
    refine iff_of_false nofun fun ⟨a, ha, _⟩ => ?_
    simpa [hr] using (hfirst a).2 ha
  | ok a =>
    have hrun : x.run s = (.ok a, s) := Prod.ext hr h.state
    have ha : p a := (hfirst a).1 hr
    have hnext : (x >>= next).run s = (next (.ok a)).run s := by
      rw [StateT.run_bind, hrun]
      rfl
    refine ⟨(congrArg Prod.snd hnext).trans (hok a ha).state, fun b => ?_⟩
    rw [congrArg Prod.fst hnext, (hok a ha).ok_iff b]
    refine ⟨fun hb => ⟨a, ha, hb⟩, fun ⟨a', ha', hb⟩ => ?_⟩
    obtain rfl : a = a' := Except.ok.inj (hr.symm.trans ((hfirst a').2 ha'))
    exact hb

/-- Another name for what went wrong. -/
theorem mapError (h : Looks x s p) (f : ε → ε') : Looks (do return (← x).mapError f) s p := by
  have h' : Looks (do return (← x).mapError f) s _ := h.bind (fun e => ⟨f e, rfl⟩) fun a _ => .pure (.ok a)
  exact h'.congr fun a => by simp

end Looks

/-! ## What files hold -/

section Contents
variable {σ : Type} [Files (StateM σ)]

/-- What a file holds, or why it cannot be read. -/
def contents (s : σ) (path : String) : Except FileFault String := ((Files.read path : StateM σ _).run s).1

/-- Whether there is a file at a path. -/
def FileAt (s : σ) (path : String) : Prop := ((Files.isFile path : StateM σ _).run s).1 = true

/-- The files after a text was written to one of them. -/
def written (s : σ) (path text : String) : σ := ((Files.write path text : StateM σ _).run s).2

/-- The settings in a file: it can be read, its text is that of settings, and these are usable. -/
def SettingsAt (s : σ) (path : String) (settings : Settings) : Prop :=
  ∃ text, contents s path = .ok text ∧ (Ron.read? text).bind Settings.ofDocument? = some settings ∧ settings.fault? = none

/-- The graph in a file: it can be read, its text is that of a saved graph, and this one can be opened. -/
def GraphAt (catalog : NodeCatalog) (s : σ) (path : String) (g : Graph) : Prop :=
  ∃ text, contents s path = .ok text ∧ ∃ saved, SavedGraph.ofText? text = some saved ∧ saved.toGraph catalog = .ok g

theorem Settings.ofText_eq_ok_iff {text : String} {settings : Settings} : Settings.ofText text = .ok settings ↔
    (Ron.read? text).bind Settings.ofDocument? = some settings ∧ settings.fault? = none := by
  unfold Settings.ofText
  split
  · rename_i hnone
    simp [hnone]
  · rename_i read hread
    rw [hread]
    split <;> rename_i hfault
    · simp only [reduceCtorEq, Option.some.injEq, false_iff, not_and]
      rintro rfl
      simp [hfault]
    · simp only [Except.ok.injEq, Option.some.injEq]
      exact ⟨fun h => ⟨h, h ▸ hfault⟩, And.left⟩

theorem SavedGraph.openText_eq_ok_iff {catalog : NodeCatalog} {text : String} {g : Graph} :
    SavedGraph.openText catalog text = .ok g ↔ ∃ saved, SavedGraph.ofText? text = some saved ∧ saved.toGraph catalog = .ok g := by
  unfold SavedGraph.openText
  cases SavedGraph.ofText? text <;> simp

variable [Undisturbed σ] (s : σ) (path : String)

theorem looks_read : Looks (Files.read path : StateM σ _) s (contents s path = .ok ·) :=
  ⟨Undisturbed.read path s, fun _ => Iff.rfl⟩

theorem looks_loadSettings : Looks (loadSettings path : StateM σ _) s (SettingsAt s path) := by
  have h : Looks (loadSettings path : StateM σ _) s _ := (looks_read s path).bind (fun fault => ⟨.file fault, rfl⟩)
    fun text _ => .pure ((Settings.ofText text).mapError SettingsFileError.content)
  exact h.congr fun settings => by simp only [SettingsAt, mapError_eq_ok_iff, Settings.ofText_eq_ok_iff]

theorem looks_loadGraph (catalog : NodeCatalog) : Looks (loadGraph catalog path : StateM σ _) s (GraphAt catalog s path) := by
  have h : Looks (loadGraph catalog path : StateM σ _) s _ := (looks_read s path).bind (fun fault => ⟨.file fault, rfl⟩)
    fun text _ => .pure ((SavedGraph.openText catalog text).mapError GraphFileError.content)
  exact h.congr fun g => by simp only [GraphAt, mapError_eq_ok_iff, SavedGraph.openText_eq_ok_iff]

theorem looks_ifFile {ε α : Type} {x y : StateM σ (Except ε α)} {p q : α → Prop} (hx : Looks x s p) (hy : Looks y s q) :
    Looks (do if ← Files.isFile path then x else y) s fun a => FileAt s path ∧ p a ∨ ¬ FileAt s path ∧ q a := by
  have hrun : (do if ← Files.isFile path then x else y : StateM σ _).run s =
      (if ((Files.isFile path : StateM σ _).run s).1 then x else y).run s := by
    rw [StateT.run_bind]
    exact congrArg (StateT.run _) (Undisturbed.isFile path s)
  unfold FileAt
  cases h : ((Files.isFile path : StateM σ _).run s).1 with
  | true =>
    rw [h, if_pos rfl] at hrun
    exact ⟨(congrArg Prod.snd hrun).trans hx.state, fun a => by rw [congrArg Prod.fst hrun, hx.ok_iff]; simp⟩
  | false =>
    rw [h, if_neg Bool.false_ne_true] at hrun
    exact ⟨(congrArg Prod.snd hrun).trans hy.state, fun a => by rw [congrArg Prod.fst hrun, hy.ok_iff]; simp⟩

end Contents

/-! ## Files in memory -/

namespace Disk

instance : Undisturbed Disk := ⟨fun _ _ => rfl, fun _ _ => rfl⟩

variable {d d' : Disk}

theorem isDirectory_insert {l here : Location} {file : Option String} (h : d.isDirectory here = true) :
    (Disk.mk (d.files.insert l file)).isDirectory here = true := by
  simp only [isDirectory, Bool.or_eq_true, List.any_eq_true] at h ⊢
  refine h.imp id fun ⟨k, hk, hpath⟩ => ⟨k, ?_, hpath⟩
  rw [Table.keys_insert]
  split
  · exact hk
  · exact List.mem_append_left _ hk

/-- A path leads to the same place when there is one more file. -/
theorem follow_insert {l : Location} {file : Option String} (path : List String) : ∀ {here there : Location},
    d.follow here path = .ok there → (Disk.mk (d.files.insert l file)).follow here path = .ok there := by
  induction path with
  | nil => intro here there h; exact h
  | cons part rest ih =>
    intro here there h
    rw [follow] at h ⊢
    by_cases hhere : d.isDirectory here = true
    · rw [if_pos hhere] at h
      rw [if_pos (isDirectory_insert hhere)]
      exact ih h
    · rw [if_neg hhere] at h
      split at h <;> cases h

theorem locate_eq_ok {path : String} {l : Location} (h : d.locate path = .ok l) :
    path.startsWith "/" = false ∧ d.follow [] (parts path) = .ok l := by
  unfold locate at h
  split at h
  · cases h
  · rename_i habsolute
    refine ⟨by simpa using habsolute, ?_⟩
    split at h
    · rename_i l' hfollow
      split at h
      · cases h
      · exact hfollow.trans h
    · cases h

/-- A write succeeds just if the path leads to a place in a directory that is none itself. -/
theorem write_eq_ok_iff {path text : String} : d.write path text = .ok d' ↔ asksForDirectory path = false ∧
    ∃ l, d.locate path = .ok l ∧ d.isDirectory l = false ∧ d.isDirectory l.dropLast = true ∧
      d' = ⟨d.files.insert l (some text)⟩ := by
  unfold write
  cases hl : d.locate path with
  | error fault => simp [bind, Except.bind]
  | ok l =>
    simp only [bind, Except.bind, pure, Except.pure, throw, throwThe, MonadExceptOf.throw]
    cases hasks : asksForDirectory path <;> cases hplace : d.isDirectory l <;> cases hdir : d.isDirectory l.dropLast <;>
      simp [*, eq_comm (a := d')]

theorem run_write (path text : String) : (Files.write path text : OnDisk _).run d =
    match d.write path text with
    | .ok d' => (.ok (), d')
    | .error fault => (.error fault, d) := by
  simp only [Files.write, StateT.run_bind, StateT.run_get, pure_bind]
  cases d.write path text <;> rfl

/-- A text that was written is what the file holds. -/
theorem contents_written {path text : String} (h : ((Files.write path text : OnDisk _).run d).1 = .ok ()) :
    contents (written d path text) path = .ok text := by
  unfold written
  rw [run_write] at h ⊢
  cases hwrite : d.write path text with
  | error fault => rw [hwrite] at h; cases h
  | ok d' =>
    obtain ⟨hasks, l, hl, -, -, rfl⟩ := write_eq_ok_iff.1 hwrite
    obtain ⟨habsolute, hfollow⟩ := locate_eq_ok hl
    have hlocate : (Disk.mk (d.files.insert l (some text))).locate path = .ok l := by
      rw [locate, habsolute, follow_insert _ hfollow, hasks]
      rfl
    change (Disk.mk (d.files.insert l (some text))).read path = .ok text
    rw [read, hlocate]
    simp only [bind, Except.bind, Table.get?_insert_self]
    rfl

end Disk

end RenderGraph
