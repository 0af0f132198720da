import RenderGraph.Proofs.Sockets
import RenderGraph.Proofs.Targets
/-!
# The order of links

Links are followed one after another, twice, with redirects in between that go by what the first
time carried along. Still their order decides nothing but which of several links into one
input comes last. Two namings from which look-ups give the same (`Naming.Agrees`) stay so in each
step, and a compile looks names up and nothing else (`Compiler.compile_of_agrees`).

`compile_perm`: where no two links end at one input, links in another order compile to the same
output.
-/

namespace RenderGraph

namespace Naming

variable {nodes : List Node}

/-- Two namings from which look-ups give the same. The names themselves may stand in another order. -/
structure Agrees (r r' : Naming) : Prop where
  names : ∀ k, r.names.get? k = r'.names.get? k
  kinds : r.kinds = r'.kinds
  redirects : r.redirects = r'.redirects
  placeholders : r.placeholders = r'.placeholders

namespace Agrees

variable {r r' : Naming}

theorem refl (r : Naming) : Agrees r r := ⟨fun _ => rfl, rfl, rfl, rfl⟩

theorem input? (h : Agrees r r') (i : Nat) (socket : String) : r.input? i socket = r'.input? i socket := h.names _

theorem output? (h : Agrees r r') (i : Nat) (socket : String) : r.output? i socket = r'.output? i socket := h.names _

theorem kind? (h : Agrees r r') (name : String) : r.kind? name = r'.kind? name := by rw [Naming.kind?, h.kinds]; rfl

theorem isPlaceholder (h : Agrees r r') (name : String) : r.isPlaceholder name = r'.isPlaceholder name := by
  rw [Naming.isPlaceholder, h.placeholders]; rfl

theorem current (h : Agrees r r') : r.current = r'.current := by
  funext name
  rw [Naming.current, Naming.redirect?, h.redirects]; rfl

theorem insert (h : Agrees r r') (key : SocketKey) (name : String) :
    Agrees { r with names := r.names.insert key name } { r' with names := r'.names.insert key name } := by
  refine ⟨fun k => ?_, h.kinds, h.redirects, h.placeholders⟩
  rw [Table.get?_insert, Table.get?_insert, h.names]

theorem namesOutputs (h : Agrees r r') (hnamed : NamesOutputs nodes r) : NamesOutputs nodes r' := fun k hk => by
  rw [← h.names, hnamed k hk]

/-! ## The steps -/

theorem supersede (h : Agrees r r') (old target : String) : Agrees (r.supersede old target) (r'.supersede old target) := by
  unfold Naming.supersede
  rw [h.redirects]
  split
  · exact h
  · exact ⟨h.names, h.kinds, rfl, h.placeholders⟩

theorem takeOver (h : Agrees r r') (k : SocketKey) (name : String) : Agrees (r.takeOver k name) (r'.takeOver k name) := by
  unfold Naming.takeOver
  rw [h.current, h.names]
  cases r'.names.get? k with
  | none => exact h.insert k _
  | some old => exact (h.supersede old _).insert k _

theorem redirect (h : Agrees r r') (n : Node) (i : Nat) (s : Socket) : Agrees (r.redirect n i s) (r'.redirect n i s) := by
  rcases redirect_alike n (h.input? i s.name).symm with ⟨heq, heq'⟩ | ⟨output, name, -, -, -, heq, heq'⟩
  · rwa [heq, heq']
  · rw [heq, heq']
    exact h.takeOver _ name

theorem foldl_redirect (es : List (Node × Nat × Socket)) : ∀ r r' : Naming, Agrees r r' →
    Agrees (es.foldl (fun r e => r.redirect e.1 e.2.1 e.2.2) r) (es.foldl (fun r e => r.redirect e.1 e.2.1 e.2.2) r') := by
  induction es with
  | nil => intro r r' h; exact h
  | cons e es ih => intro r r' h; exact ih _ _ (h.redirect e.1 e.2.1 e.2.2)

theorem redirectAll (h : Agrees r r') : Agrees (redirectAll nodes r) (redirectAll nodes r') := by
  have hall := foldl_redirect (socketsOf Node.inputs nodes) r r' h
  refine ⟨fun k => ?_, hall.kinds, hall.redirects, hall.placeholders⟩
  refine (Table.get?_mapValues ..).trans (Eq.trans ?_ (Table.get?_mapValues ..).symm)
  rw [hall.current, hall.names]

theorem fillInput (h : Agrees r r') (n : Node) (i : Nat) (s : Socket) : Agrees (r.fillInput n i s) (r'.fillInput n i s) := by
  unfold Naming.fillInput
  rw [Table.contains, Table.contains, h.names]
  split
  · exact h
  · refine ⟨fun k => ?_, ?_, h.redirects, ?_⟩
    · simp only [assign, Table.get?_insert, h.names]
    · simp only [assign, h.kinds]
    · simp only [assign, h.placeholders]

theorem fill (h : Agrees r r') : Agrees (fill nodes r) (fill nodes r') := by
  unfold Naming.fill
  induction socketsOf Node.inputs nodes generalizing r r' with
  | nil => exact h
  | cons e es ih => exact ih (h.fillInput e.1 e.2.1 e.2.2)

end Agrees

/-! ## Links in another order -/

/-- Names are carried to the same inputs if each has the same source. -/
theorem Agrees.carry {r r' : Naming} (h : Agrees r r') (hnamed : NamesOutputs nodes r) {links links' : List Link}
    (hsource : ∀ i socket, source? nodes links i socket = source? nodes links' i socket) :
    Agrees (carry nodes links r) (carry nodes links' r') := by
  obtain ⟨hkinds, hplaceholders⟩ := kinds_placeholders_carry nodes links r
  obtain ⟨hkinds', hplaceholders'⟩ := kinds_placeholders_carry nodes links' r'
  refine ⟨fun ⟨i, direction, socket⟩ => ?_, by rw [hkinds, hkinds', h.kinds],
    by rw [redirects_carry, redirects_carry, h.redirects], by rw [hplaceholders, hplaceholders', h.placeholders]⟩
  cases direction with
  | output => rw [get?_carry_output nodes links rfl, get?_carry_output nodes links' rfl, h.names]
  | input =>
    rw [get?_carry_input hnamed, get?_carry_input (h.namesOutputs hnamed), hsource]
    cases source? nodes links' i socket <;> exact h.names _

/-- A link that is alone at its end feeds the input wherever it stands in the list. -/
theorem source?_perm (nodes : List Node) {links links' : List Link} (hperm : links'.Perm links)
    (hends : (links.map ending).Nodup) (i : Nat) (socket : String) : source? nodes links' i socket = source? nodes links i socket := by
  let into : Link → Bool := fun l => l.toNode = i && l.toSocket = socket && endsAtInput nodes l && startsAtOutput nodes l
  have hone : (links.filter into).length ≤ 1 := by
    have hsame : ∀ k ∈ (links.filter into).map ending, k = ⟨i, .input, socket⟩ := by
      intro k hk
      obtain ⟨l, hl, rfl⟩ := List.mem_map.1 hk
      have hp : into l = true := (List.mem_filter.1 hl).2
      simp only [into, Bool.and_eq_true, decide_eq_true_eq] at hp
      obtain ⟨⟨⟨rfl, rfl⟩, -⟩, -⟩ := hp
      rfl
    have hnodup : ((links.filter into).map ending).Nodup := (List.filter_sublist.map ending).nodup hends
    have hlength := List.nodup_iff_count_le_one.1 hnodup ⟨i, .input, socket⟩
    rwa [List.count_eq_length.2 fun k hk => (hsame k hk).symm, List.length_map] at hlength
  have hfilter : (links'.filter into).Perm (links.filter into) := hperm.filter into
  have heq : links'.filter into = links.filter into := by
    match hlist : links.filter into, hone with
    | [], _ => exact List.perm_nil.1 (hlist ▸ hfilter)
    | [l], _ => exact List.perm_singleton.1 (hlist ▸ hfilter)
  exact congrArg (fun ls => ls.getLast?.map origin) heq

theorem resolve_perm {links links' : List Link} (hperm : links'.Perm links) (hends : (links.map ending).Nodup) :
    Agrees (resolve nodes links') (resolve nodes links) := by
  have hsource := source?_perm nodes hperm hends
  have hseed := namesOutputs_seed nodes
  have hfirst := (Agrees.refl (seed nodes)).carry hseed hsource
  exact (hfirst.redirectAll.carry (hseed.carry links').redirectAll hsource).fill

end Naming

/-! ## What a compile looks up -/

namespace Compile

open Naming

variable {r r' : Naming} (h : Agrees r r')
include h

theorem bindingsOf_of_agrees : bindingsOf r = bindingsOf r' := by
  funext n i
  simp only [bindingsOf, h.input?, h.output?, h.isPlaceholder]

theorem pass?_of_agrees (catalog : PassCatalog) (s : Snapshot) : pass? catalog s r = pass? catalog s r' := by
  funext e
  rw [pass?, pass?, passOf, passOf, bindingsOf_of_agrees h]

theorem skipped?_of_agrees (catalog : PassCatalog) (s : Snapshot) : skipped? catalog s r = skipped? catalog s r' := by
  funext e
  rw [skipped?, skipped?, passOf, passOf, bindingsOf_of_agrees h]

theorem declarations_of_agrees (s : Snapshot) : declarations s r = declarations s r' := by
  have hname : declaredName? r = declaredName? r' := by
    funext e
    simp only [declaredName?, h.output?]
  have hdeclare : declare r = declare r' := by
    funext declared e
    rw [declare, declare, hname]
  rw [declarations, declarations, hdeclare]

theorem usages_of_agrees (o : Ordered) : usages r o = usages r' o := by
  have htarget : targetName? r = targetName? r' := by
    funext aliases name
    simp only [targetName?, h.isPlaceholder, h.kind?, h.current]
  have huse : use r o.aliases = use r' o.aliases := by
    funext t e
    rw [use, use, htarget]
  rw [usages, usages, huse]

end Compile

open Compile Naming

/-- A compile gives the same output for links from which the same names are looked up. -/
theorem Compiler.compile_of_agrees (c : Compiler) {s : Snapshot} {links : List Link}
    (h : Agrees (resolve s.nodes links) (resolve s.nodes s.links)) : c.compile { s with links := links } = c.compile s := by
  have hpass : pass? c.catalog { s with links := links } = pass? c.catalog s := rfl
  have hskipped : skipped? c.catalog { s with links := links } = skipped? c.catalog s := rfl
  have hdeclarations : declarations { s with links := links } = declarations s := rfl
  have hnodes : Snapshot.passNodes { s with links := links } = s.passNodes := rfl
  have hviewports : Snapshot.viewports { s with links := links } = s.viewports := rfl
  simp only [compile, hpass, hskipped, hdeclarations, hnodes, hviewports, pass?_of_agrees h, skipped?_of_agrees h,
    declarations_of_agrees h, usages_of_agrees h, h.redirects]

/-- Where no two links end at one input, a compile gives the same output for the links in any other order, whatever classes,
settings and scheduler it works with. -/
theorem Compiler.compile_perm (c : Compiler) {s : Snapshot} (hends : (s.links.map ending).Nodup) {links : List Link}
    (hperm : links.Perm s.links) : c.compile { s with links := links } = c.compile s :=
  c.compile_of_agrees (resolve_perm hperm hends)

/-- The redirected sky with a link that starts nowhere, into an input that nothing else feeds, and one that ends nowhere. -/
def looseSky : Snapshot :=
  { redirectedSky with
    links := redirectedSky.links ++ [⟨7, "output", 1, "output_res_target"⟩, ⟨1, "output_res", 3, "mask"⟩] }

theorem looseSky_reversed :
    (looseSky.links.map ending).Nodup ∧ looseSky.links.reverse.Perm looseSky.links ∧
    (Compiler.standard.compile looseSky).pipeline.specs.map TargetSpec.name = ["ColorPass_1_output_res"] ∧
    Compiler.standard.compile { looseSky with links := looseSky.links.reverse } = Compiler.standard.compile looseSky := by
  have hends : (looseSky.links.map ending).Nodup := by decide
  have hperm : looseSky.links.reverse.Perm looseSky.links := List.reverse_perm _
  exact ⟨hends, hperm, by decide +kernel, Compiler.compile_perm .standard hends hperm⟩

/-- Of two links into one input the last one decides, so there the order shows. -/
example :
    let s := { redirectedSky with links := redirectedSky.links ++ [⟨0, "output", 2, "input_res"⟩] }
    Compiler.standard.compile { s with links := s.links.reverse } ≠ Compiler.standard.compile s := by
  decide +kernel

end RenderGraph
