import RenderGraph.Proofs.Names
/-!
# A superseded name is given up for good

`Flat` is what the record of redirects satisfies from the first `_target` input
to the last: what replaces a name is not replaced itself. It needs nothing of
the graph. Names may stand twice, redirects may run in circles and links may
lead nowhere, because a redirect only records a name that stands for itself,
and moves on whatever stood for the name it supersedes.

`resolve_flat`: at the end one look at the record is enough, and neither an
output nor an input that an output feeds has a superseded name. An input that
nothing feeds may: its placeholder is made up after the redirects, whatever
names there are.
-/

namespace RenderGraph.Naming

/-- What replaces a name is not replaced itself. -/
def Flat (r : Naming) : Prop := ∀ a b, r.redirect? a = some b → r.redirect? b = none

namespace Flat

variable {r : Naming}

theorem redirect?_current (h : Flat r) (a : String) : r.redirect? (r.current a) = none := by
  cases ha : r.redirect? a with
  | none => rwa [current, ha, Option.getD_none]
  | some b => rw [current, ha, Option.getD_some]; exact h a b ha

theorem ne (h : Flat r) {a b : String} (hab : r.redirect? a = some b) : b ≠ a := by
  rintro rfl
  have := h b b hab
  rw [hab] at this
  cases this

theorem current_current (h : Flat r) (a : String) : r.current (r.current a) = r.current a := by
  have := h.redirect?_current a
  rw [current, this, Option.getD_none]

theorem supersede (h : Flat r) (old : String) {target : String} (ht : r.redirect? target = none) :
    Flat (r.supersede old target) := by
  by_cases hrefused : old = target ∨ (r.redirect? old).isSome
  · rwa [supersede_of_refused hrefused]
  rw [not_or, Option.not_isSome_iff_eq_none] at hrefused
  obtain ⟨hne, hnew⟩ := hrefused
  have htarget : (r.supersede old target).redirect? target = none := by
    rw [redirect?_supersede hne hnew, if_neg (Ne.symm hne), ht, Option.map_none]
  intro a b hab
  rw [redirect?_supersede hne hnew] at hab
  -- `b` is the new replacement, or an old one, which is then not the name that is superseded now.
  split at hab
  · cases hab
    exact htarget
  · obtain ⟨c, hc, hcb⟩ := Option.map_eq_some_iff.1 hab
    split at hcb
    · cases hcb
      exact htarget
    · rename_i hold
      subst hcb
      rw [redirect?_supersede hne hnew, if_neg hold, h a c hc, Option.map_none]

theorem redirect (h : Flat r) (n : Node) (i : Nat) (s : Socket) : Flat (r.redirect n i s) := by
  rcases r.redirect_cases n i s with heq | ⟨output, name, -, -, -, heq⟩
  · rwa [heq]
  · rw [heq, takeOver]
    cases r.names.get? ⟨i, .output, output⟩ with
    | none => exact h
    | some old => exact h.supersede old (h.redirect?_current name)

theorem foldl_redirect (es : List (Node × Nat × Socket)) :
    ∀ r : Naming, Flat r → Flat (es.foldl (fun r e => r.redirect e.1 e.2.1 e.2.2) r) := by
  induction es with
  | nil => intro r h; exact h
  | cons e es ih => intro r h; exact ih _ (h.redirect e.1 e.2.1 e.2.2)

end Flat

/-! ## The names at the end -/

theorem redirects_fillInput (r : Naming) (n : Node) (i : Nat) (s : Socket) :
    (r.fillInput n i s).redirects = r.redirects := by
  unfold fillInput
  split <;> rfl

theorem redirects_fill (nodes : List Node) (r : Naming) : (fill nodes r).redirects = r.redirects := by
  unfold fill
  induction socketsOf Node.inputs nodes generalizing r with
  | nil => rfl
  | cons e es ih => exact (ih _).trans (redirects_fillInput r _ _ _)

/-- Only redirects write the record. -/
theorem redirect?_resolve (nodes : List Node) (links : List Link) (a : String) :
    (resolve nodes links).redirect? a = (redirectAll nodes (carry nodes links (seed nodes))).redirect? a := by
  simp only [resolve, redirect?, redirects_fill, redirects_carry]

theorem flat_resolve (nodes : List Node) (links : List Link) : Flat (resolve nodes links) := by
  have hstart : Flat (carry nodes links (seed nodes)) := by
    intro a b hab
    rw [redirect?, redirects_carry, redirects_seed, Table.get?_empty] at hab
    cases hab
  have hall := Flat.foldl_redirect (socketsOf Node.inputs nodes) _ hstart
  intro a b hab
  rw [redirect?_resolve] at hab ⊢
  exact hall a b hab

/-- The sweep brings each output up to date, and nothing renames an output afterwards. -/
theorem redirect?_of_output {nodes : List Node} {links : List Link} {k : SocketKey} (hk : k.direction = .output)
    {name : String} (h : (resolve nodes links).names.get? k = some name) : (resolve nodes links).redirect? name = none := by
  rw [resolve, get?_fill_output _ _ hk, get?_carry_output _ _ hk] at h
  obtain ⟨old, -, rfl⟩ := Option.map_eq_some_iff.1 ((Table.get?_mapValues ..).symm.trans h)
  have hcurrent := (flat_resolve nodes links).redirect?_current old
  simp only [current, redirect?_resolve] at hcurrent ⊢
  exact hcurrent

theorem redirect?_of_source {nodes : List Node} {links : List Link} {i : Nat} {socket name : String} {k : SocketKey}
    (hk : source? nodes links i socket = some k) (h : (resolve nodes links).input? i socket = some name) :
    (resolve nodes links).redirect? name = none := by
  obtain ⟨name', hin, hout⟩ := input?_resolve hk
  rw [h] at hin
  cases hin
  obtain ⟨l, -, rfl⟩ := Option.map_eq_some_iff.1 hk
  exact redirect?_of_output rfl hout

/-- Whatever the nodes and links are, no replacement of a superseded name is superseded or is that name itself, so
looking a name up twice changes nothing; and each output, like each input with a link from an existing output, has a
name that is not superseded. -/
theorem resolve_flat (nodes : List Node) (links : List Link) :
    let r := resolve nodes links
    (∀ a b, r.redirect? a = some b → b ≠ a ∧ r.redirect? b = none) ∧
    (∀ a, r.current (r.current a) = r.current a) ∧
    (∀ k ∈ outputKeys nodes, ∃ name, r.names.get? k = some name ∧ r.redirect? name = none) ∧
    (∀ l ∈ links, startsAtOutput nodes l = true → endsAtInput nodes l = true →
      ∃ name, r.input? l.toNode l.toSocket = some name ∧ r.redirect? name = none) := by
  intro r
  have hflat : Flat r := flat_resolve nodes links
  refine ⟨fun a b hab => ⟨hflat.ne hab, hflat a b hab⟩, hflat.current_current, ?_, ?_⟩
  · intro k hk
    obtain ⟨e, -, rfl⟩ := List.mem_map.1 hk
    have hsome := (namesOutputs_resolve nodes links _ rfl).trans ((isSome_firstName?_iff nodes _).2 hk)
    obtain ⟨name, hname⟩ := Option.isSome_iff_exists.1 hsome
    exact ⟨name, hname, redirect?_of_output rfl hname⟩
  · intro l hl hout hin
    obtain ⟨l', -, -, -, hsource⟩ := exists_source hl hin hout
    obtain ⟨name, hname, -⟩ := input?_resolve hsource
    exact ⟨name, hname, redirect?_of_source hsource hname⟩

/-- An input without a link may come by a superseded name: here the color pass was named after its placeholder. -/
example :
    let color := { (Node.bare ⟨0⟩ "ColorPass" .pass).addOutput (.output "res" .fbo) with instanceName := some "empty_SkyboxPass_2" }
    let r := resolve [color.addInput (.input "res_target" .fbo), (Node.bare ⟨1⟩ "FBO" .resource).addOutput (.output "output" .fbo),
      (Node.bare ⟨2⟩ "SkyboxPass" .pass).addInput (.input "res" .fbo)] [⟨1, "output", 0, "res_target"⟩]
    r.input? 2 "res" = some "empty_SkyboxPass_2_res" ∧ r.redirect? "empty_SkyboxPass_2_res" = some "fbo_1" := by
  decide +kernel

end RenderGraph.Naming
