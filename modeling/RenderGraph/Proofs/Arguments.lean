import RenderGraph.Pass.Build
import RenderGraph.Pass.Standard
/-!
# The viewport among the arguments of a pass

The viewport is handed to a class as one argument among others, and may displace one of its own
name, be refused, or be left over. In each case a class makes its configuration of the arguments
that it takes, and the others are left over (`Pass.configure_eq`). The standard classes do not look
at the viewport (`ignoresViewport_standard`), and no extra argument or attribute is one, so a pass
built for another viewport is the same but for the viewport it is built for (`Pass.build_unplaced`).
-/

namespace RenderGraph

/-! ## Arguments that are taken -/

namespace PassClass

/-- Whether an argument of that name is taken. -/
def takes (c : PassClass) (key : String) : Bool := c.catchAll || c.declares key

theorem firstUnexpected?_eq_none_iff {c : PassClass} {arguments : Params} :
    c.firstUnexpected? arguments = none ↔ ∀ e ∈ arguments.entries, c.takes e.1 = true := by
  unfold firstUnexpected? takes
  split
  · rename_i h
    simp [h]
  · rename_i h
    simp [h, Table.keys]

/-- A class makes its configuration of arguments that it takes. -/
theorem construct_of_taken {c : PassClass} {arguments : Params} (h : ∀ e ∈ arguments.entries, c.takes e.1 = true)
    (bindings : SocketBindings) :
    c.construct arguments bindings = c.factory ⟨arguments, c.extrasOf arguments bindings⟩ := by
  rw [construct, firstUnexpected?_eq_none_iff.2 h]

end PassClass

namespace Pass

/-- Whether or not all arguments are taken, the configuration is made of those that are. -/
theorem configure_eq (c : PassClass) (arguments : Params) (bindings : SocketBindings) :
    let taken := arguments.filter fun k _ => c.takes k
    configure c arguments bindings = (c.factory ⟨taken, c.extrasOf taken bindings⟩).map fun config =>
      (config, arguments.filter fun k _ => !c.takes k) := by
  intro taken
  have htaken : c.construct taken bindings = c.factory ⟨taken, c.extrasOf taken bindings⟩ :=
    PassClass.construct_of_taken (fun e he => by obtain ⟨-, h⟩ := List.mem_filter.1 he; exact h) bindings
  rw [← htaken]
  cases hfirst : c.firstUnexpected? arguments with
  | some key =>
    have hrefused : c.construct arguments bindings = .error (.unexpected key) := by rw [PassClass.construct, hfirst]
    rw [configure, hrefused]
    rfl
  | none =>
    have hall := PassClass.firstUnexpected?_eq_none_iff.1 hfirst
    have hsame : taken = arguments := Table.filter_eq_self hall
    have hrest : (arguments.filter fun k _ => !c.takes k) = .empty := Table.filter_eq_empty fun e he => by rw [hall e he]; rfl
    rw [hrest, hsame, configure]
    -- A factory that refuses an argument itself is asked again, and refuses it again.
    cases hmade : c.construct arguments bindings with
    | ok config => rfl
    | error cause =>
      cases cause with
      | unexpected key => exact congrArg (Except.map _) ((congrArg (c.construct · bindings) hsame).trans hmade)
      | mismatch m => rfl
      | outOfRange name fault => rfl

end Pass

/-! ## Arguments without the viewport -/

theorem erase_argumentsFor (n : Node) (b : Bindings) (viewport : String) :
    (Pass.argumentsFor n b viewport).erase viewportKey = (Pass.argumentsFor n b "").erase viewportKey := by
  have hfold : ∀ (es : List (String × Param)) {t t' : Params}, t.erase viewportKey = t'.erase viewportKey →
      (es.foldl (fun t e => t.insertNew e.1 e.2) t).erase viewportKey =
        (es.foldl (fun t e => t.insertNew e.1 e.2) t').erase viewportKey := by
    intro es
    induction es with
    | nil => intro t t' h; exact h
    | cons e es ih => intro t t' h; exact ih (by rw [Table.erase_insertNew, Table.erase_insertNew, h])
  refine hfold n.params.entries ?_
  rw [if_pos rfl]
  split
  · rfl
  · rw [Table.erase_insert, if_pos rfl]

/-- The arguments without the viewport. -/
def Arguments.unplaced (a : Arguments) : Arguments := ⟨a.values.erase viewportKey, a.extras⟩

/-- Makes the same configuration whatever the viewport is. -/
def PassClass.IgnoresViewport (c : PassClass) : Prop := ∀ a : Arguments, c.factory a.unplaced = c.factory a

namespace Arguments

variable (a : Arguments) {name : String} (h : name ≠ viewportKey)
include h

theorem read_unplaced {α : Type} (expected : String) (missing : α) (read : Param → Option α) :
    a.unplaced.read name expected missing read = a.read name expected missing read := by
  rw [Arguments.read, Arguments.read, unplaced, Table.get?_erase, if_neg h]

theorem single_unplaced (missing : Single) : a.unplaced.single name missing = a.single name missing :=
  a.read_unplaced h ..

theorem natural_unplaced (missing : UInt32) : a.unplaced.natural name missing = a.natural name missing :=
  a.read_unplaced h ..

theorem bool_unplaced (missing : Bool) : a.unplaced.bool name missing = a.bool name missing :=
  a.read_unplaced h ..

theorem text_unplaced (missing : String) : a.unplaced.text name missing = a.text name missing :=
  a.read_unplaced h ..

end Arguments

open Arguments in
/-- No standard class looks at the viewport. -/
theorem ignoresViewport_standard : ∀ c ∈ PassCatalog.standardClasses, c.IgnoresViewport := by
  have hfactories (a : Arguments) : ∀ f ∈ PassCatalog.standardClasses.map PassClass.factory, f a.unplaced = f a := by
    have hlist : PassCatalog.standardClasses.map PassClass.factory = [Factory.shadow, Factory.depth, Factory.color,
      Factory.skybox, Factory.bloom, Factory.tonemap, Factory.colorGrading, Factory.postProcess, Factory.fxaa,
      Factory.present] := rfl
    have hextras : a.unplaced.extras = a.extras := rfl
    rw [hlist]
    simp (disch := decide) only [List.forall_mem_cons, Factory.shadow, Factory.depth, Factory.color, Factory.skybox,
      Factory.bloom, Factory.tonemap, Factory.colorGrading, Factory.postProcess, Factory.fxaa, Factory.present,
      single_unplaced, natural_unplaced, bool_unplaced, text_unplaced, hextras, true_and]
    exact nofun
  exact fun c hc a => hfactories a c.factory (List.mem_map_of_mem hc)

/-- Arguments that differ in the viewport alone make the same configuration. -/
theorem PassClass.IgnoresViewport.factory_congr {c : PassClass} (hc : c.IgnoresViewport) {values values' : Params}
    (h : values.erase viewportKey = values'.erase viewportKey) (bindings : SocketBindings) :
    c.factory ⟨values, c.extrasOf values bindings⟩ = c.factory ⟨values', c.extrasOf values' bindings⟩ := by
  have hextras : c.extrasOf values bindings = c.extrasOf values' bindings :=
    Table.filter_eq_of_erase_eq h fun _ => by simp
  calc c.factory ⟨values, c.extrasOf values bindings⟩
      = c.factory (Arguments.unplaced ⟨values, c.extrasOf values bindings⟩) := (hc _).symm
    _ = c.factory (Arguments.unplaced ⟨values', c.extrasOf values' bindings⟩) := by
      rw [Arguments.unplaced, Arguments.unplaced, h, hextras]
    _ = c.factory ⟨values', c.extrasOf values' bindings⟩ := hc _

/-! ## Passes without the viewport -/

/-- The pass without the viewport it renders into. -/
def Pass.unplaced (p : Pass) : Pass := { p with viewport := "" }

/-- The viewport decides nothing else about a pass. -/
theorem Pass.build_unplaced {catalog : PassCatalog} (h : ∀ c ∈ catalog.entries, c.IgnoresViewport) (n : Node) (b : Bindings)
    (viewport : String) : build catalog n b "" = (build catalog n b viewport).map Pass.unplaced := by
  unfold build
  cases hfind : catalog.find? n.title with
  | none => rfl
  | some c =>
    have hc := h c (Catalog.mem_of_find? hfind)
    have herase := erase_argumentsFor n b viewport
    generalize argumentsFor n b viewport = arguments at herase ⊢
    generalize argumentsFor n b "" = arguments' at herase ⊢
    have htaken : c.factory ⟨arguments.filter fun k _ => c.takes k, c.extrasOf (arguments.filter fun k _ => c.takes k) b.merged⟩ =
        c.factory ⟨arguments'.filter fun k _ => c.takes k, c.extrasOf (arguments'.filter fun k _ => c.takes k) b.merged⟩ :=
      hc.factory_congr (by rw [Table.erase_filter, Table.erase_filter, herase]) b.merged
    have hattributes : ((arguments.filter fun k _ => !c.takes k).filter fun k _ =>
        k ≠ viewportKey && k ≠ passNameKey && !b.merged.contains k) =
        (arguments'.filter fun k _ => !c.takes k).filter fun k _ =>
          k ≠ viewportKey && k ≠ passNameKey && !b.merged.contains k := by
      rw [Table.filter_filter, Table.filter_filter]
      exact Table.filter_eq_of_erase_eq herase fun _ => by simp
    simp only [configure_eq, htaken]
    cases c.factory ⟨arguments'.filter fun k _ => c.takes k, c.extrasOf (arguments'.filter fun k _ => c.takes k) b.merged⟩ with
    | error cause => rfl
    | ok config => simp only [Except.map, Pass.unplaced, hattributes]

end RenderGraph
