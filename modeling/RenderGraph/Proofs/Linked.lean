import RenderGraph.Proofs.Settling
/-!
# Buffers do not depend on the order of passes

A pass that works in place lets an output share the buffer of an input. Which names share a buffer
is found pass by pass, and the first pass that gives a name a buffer counts. Where each name is the
output of one alias at most and no alias leads back to its output, nothing hangs on that: a name
then has the canonical name at the end of its aliases (`reaches_canonical`), in whatever order the
passes come.

`canonical_linked`: so passes have the same buffers in the order of their nodes and in the order of
a schedule, and two names share a buffer just where aliases link them.
-/

namespace RenderGraph.Schedule

open Relation Aliases Paths

/-- A pass lets the output share the buffer of the input. -/
def Shares (passes : List Pass) (output input : String) : Prop :=
  ∃ p ∈ passes, ∃ a ∈ p.inplace, a.output = output ∧ a.input = input

theorem shares_iff {passes : List Pass} {output input : String} :
    Shares passes output input ↔ (output, input) ∈ aliasPairs passes := by
  simp only [Shares, aliasPairs, List.mem_flatMap, List.mem_map, Prod.mk.injEq]

theorem shares_of_perm {passes passes' : List Pass} (h : passes'.Perm passes) : Shares passes' = Shares passes := by
  funext output input
  simp only [Shares, h.mem_iff]

/-- Each name is the output of at most one alias. -/
def OneInput (passes : List Pass) : Prop :=
  ∀ output input input', Shares passes output input → Shares passes output input' → input = input'

/-- No alias leads back to its output. -/
def NoReturn (passes : List Pass) : Prop := ∀ n, ¬ TransGen (Shares passes) n n

section Linked
variable {passes : List Pass}

theorem oneInput_iff : OneInput passes ↔ Functional (aliasPairs passes) := by
  simp only [OneInput, Functional, shares_iff, Prod.forall, Prod.mk.injEq]
  constructor
  · rintro h a b hab a' b' hab' rfl
    exact ⟨rfl, h a b b' hab hab'⟩
  · intro h a b b' hab hab'
    exact (h a b hab a b' hab' rfl).2

variable (hone : OneInput passes)
include hone

/-- Names that aliases link have the same canonical name. -/
theorem canonical_of_linked {a b : String} (h : EqvGen (Shares passes) a b) :
    (aliases passes).canonical a = (aliases passes).canonical b := by
  induction h with
  | rel a b hab => exact canonical_of_mem (oneInput_iff.1 hone) (a, b) (shares_iff.1 hab)
  | refl a => rfl
  | symm a b _ ih => exact ih.symm
  | trans a b c _ _ hab hbc => exact hab.trans hbc

/-- The canonical name of a name stands at the end of its aliases. -/
theorem reaches_canonical (hends : NoReturn passes) (n : String) :
    ReflTransGen (Shares passes) n ((aliases passes).canonical n) ∧
      ∀ input, ¬ Shares passes ((aliases passes).canonical n) input := by
  have hstep : StepsTo (fun n => (aliasPairs passes).lookup n) = Shares passes := by
    funext a b
    exact propext ((lookup_eq_some_iff (oneInput_iff.1 hone) a b).trans shares_iff.symm)
  have hsettles : Settles (fun _ _ => True) (fun n => (aliasPairs passes).lookup n) n ((aliases passes).canonical n) :=
    settles_assignAll (oneInput_iff.1 hone) (fun _ => trivial) (List.pairwise_of_forall fun _ _ => trivial) n
  obtain ⟨hreach, hend⟩ := hsettles
  rw [hstep] at hreach hend
  refine ⟨hreach, fun input hshares => ?_⟩
  rcases hend with hstop | ⟨hcycle, -⟩
  · rw [shares_iff, ← lookup_eq_some_iff (oneInput_iff.1 hone)] at hshares
    exact absurd (hshares.symm.trans hstop) (Option.some_ne_none input)
  · exact hends _ hcycle

/-- Passes in another order have the same canonical names. -/
theorem canonical_perm (hends : NoReturn passes) {passes' : List Pass} (h : passes'.Perm passes) (n : String) :
    (aliases passes').canonical n = (aliases passes).canonical n := by
  have hone' : OneInput passes' := by rwa [OneInput, shares_of_perm h]
  have hends' : NoReturn passes' := by rwa [NoReturn, shares_of_perm h]
  obtain ⟨hreach, hstop⟩ := reaches_canonical hone' hends' n
  rw [shares_of_perm h] at hreach hstop
  -- No alias leads on from there, so the canonical name of that name is itself.
  have hself : (aliases passes).canonical ((aliases passes').canonical n) = (aliases passes').canonical n := by
    rcases ReflTransGen.cases_head (reaches_canonical hone hends ((aliases passes').canonical n)).1 with heq | ⟨m, hm, -⟩
    · exact heq.symm
    · exact absurd hm (hstop m)
  rw [← hself, canonical_of_linked hone (EqvGen.reflTransGen_le_eqvGen _ _ _ hreach)]

/-- Where each name is the output of one alias at most and no alias leads back, passes in any order have the same canonical
names, with or without a schedule; an output has that of the input it shares the buffer of; and two names have the same just
where aliases link them. -/
theorem canonical_linked (hends : NoReturn passes) :
    (∀ passes', passes'.Perm passes → ∀ n, (aliases passes').canonical n = (aliases passes).canonical n) ∧
    (∀ n, (Compile.order topological passes).aliases.canonical n = (aliases passes).canonical n) ∧
    (∀ p ∈ passes, ∀ a ∈ p.inplace, (aliases passes).canonical a.output = (aliases passes).canonical a.input) ∧
    ∀ a b, (aliases passes).canonical a = (aliases passes).canonical b ↔ EqvGen (Shares passes) a b := by
  refine ⟨fun _ => canonical_perm hone hends, fun n => ?_, fun p hp a ha => ?_, fun a b => ⟨fun h => ?_, ?_⟩⟩
  · rw [Compile.canonical_order]
    exact canonical_perm hone hends (Compile.perm_passes_order topological passes) n
  · exact canonical_of_linked hone (.rel _ _ ⟨p, hp, a, ha, rfl, rfl⟩)
  · -- Both names reach the canonical name they have in common.
    have ha := EqvGen.reflTransGen_le_eqvGen _ _ _ (reaches_canonical hone hends a).1
    have hb := EqvGen.reflTransGen_le_eqvGen _ _ _ (reaches_canonical hone hends b).1
    exact (h ▸ ha).trans _ _ _ (hb.symm _ _)
  · exact canonical_of_linked hone

end Linked

/-- A pass that works in place and does nothing else. -/
def inPlace (output input : String) : Pass where
  className := "SkyboxPass"
  name := output
  viewport := ""
  config := .depth
  inputs := .ofList [("input_res", input)]
  outputs := .ofList [("output_res", output)]
  inplace := [⟨output, input⟩]
  attributes := .empty

/-- A chain of two aliases that comes end first, and another alias of its buffer. -/
theorem gradedSky_linked :
    let passes := [inPlace "graded" "sky", inPlace "fog" "color", inPlace "sky" "color"]
    OneInput passes ∧ NoReturn passes ∧
      (aliases passes.reverse).canonical "graded" = (aliases passes).canonical "fog" := by
  intro passes
  have hone : OneInput passes := oneInput_iff.2 (by decide +kernel)
  have hends : NoReturn passes := by
    refine irrefl_of_rank (fun n => if n = "graded" then 0 else if n = "color" then 2 else 1) fun output input h => ?_
    have hall : ∀ e ∈ aliasPairs passes, (if e.1 = "graded" then 0 else if e.1 = "color" then 2 else 1) <
        if e.2 = "graded" then 0 else if e.2 = "color" then 2 else 1 := by decide +kernel
    exact hall _ (shares_iff.1 h)
  obtain ⟨hperm, -, hpairs, hlinked⟩ := canonical_linked hone hends
  refine ⟨hone, hends, ?_⟩
  rw [hperm _ (List.reverse_perm passes), hlinked]
  have hgraded : Shares passes "graded" "sky" := shares_iff.2 (by decide +kernel)
  have hsky : Shares passes "sky" "color" := shares_iff.2 (by decide +kernel)
  have hfog : Shares passes "fog" "color" := shares_iff.2 (by decide +kernel)
  exact (EqvGen.rel _ _ hgraded).trans _ _ _ ((EqvGen.rel _ _ hsky).trans _ _ _ ((EqvGen.rel _ _ hfog).symm _ _))

end RenderGraph.Schedule
