import RenderGraph.Proofs.Arguments
/-!
# Parameters that nothing claims

An argument is the viewport, the resource at a socket, the name of the pass or a
parameter of the node, and where several have one name the first of these counts
(`get?_argumentsFor`). A parameter of a name that none of the others has and that
the class does not declare is unclaimed.

`build_unclaimed`: no unclaimed parameter keeps a pass from being built. A class
that takes any argument gets all of them as extras, and for any other class all
of them become the attributes of the pass, each once and in the order of the node.
-/

namespace RenderGraph.Pass

variable (c : PassClass) (n : Node) (b : Bindings) (viewport : String)

/-- The arguments of a pass that are no parameters of its node. -/
def fixedArguments : Params :=
  let bound := b.all.foldl (fun t e => t.insert e.1 (.text e.2)) (Table.empty.insert passNameKey (.text n.displayName))
  if viewport = "" then bound else bound.insert viewportKey (.text viewport)

theorem argumentsFor_eq : argumentsFor n b viewport =
    n.params.entries.foldl (fun t e => t.insertNew e.1 e.2) (fixedArguments n b viewport) := rfl

theorem get?_fixedArguments (key : String) : (fixedArguments n b viewport).get? key =
    if key = viewportKey ∧ viewport ≠ "" then some (.text viewport)
    else ((b.merged.get? key).map Param.text).or (if key = passNameKey then some (.text n.displayName) else none) := by
  have hbound : (b.all.foldl (fun t e => t.insert e.1 (.text e.2)) (Table.empty.insert passNameKey (.text n.displayName))).get? key =
      ((b.merged.get? key).map Param.text).or (if key = passNameKey then some (.text n.displayName) else none) := by
    rw [Table.get?_foldl_insert_map, Table.get?_insert, Table.get?_empty]
    rfl
  rw [fixedArguments]
  split <;> rename_i hviewport
  · rw [hbound]
    simp [hviewport]
  · rw [Table.get?_insert, hbound]
    simp [hviewport]

/-- The viewport counts first, then what is bound to a socket, then the name of the pass, then a parameter. -/
theorem get?_argumentsFor (key : String) : (argumentsFor n b viewport).get? key =
    if key = viewportKey ∧ viewport ≠ "" then some (.text viewport)
    else ((b.merged.get? key).map Param.text).or
      (if key = passNameKey then some (.text n.displayName) else n.params.get? key) := by
  rw [argumentsFor_eq, Table.get?_foldl_insertNew, get?_fixedArguments]
  split
  · rfl
  · rw [Option.or_assoc]
    split <;> rfl

/-- Whether a name is none of a pass itself, its sockets and its viewport, and its class does not declare it. -/
def isUnclaimed (key : String) : Bool :=
  key ≠ passNameKey && key ≠ viewportKey && !b.merged.contains key && !c.declares key

/-- The parameters of a node that nothing claims, in their order. -/
def unclaimed : Params := n.params.filter fun k _ => isUnclaimed c b k

/-- The arguments under names that nothing but a parameter can have are these parameters. -/
theorem filter_argumentsFor {p : String → Bool}
    (hp : ∀ key, p key = true → key ≠ passNameKey ∧ key ≠ viewportKey ∧ b.merged.contains key = false) :
    ((argumentsFor n b viewport).filter fun k _ => p k) = n.params.filter fun k _ => p k := by
  have hfixed : ∀ key, p key = true → (fixedArguments n b viewport).get? key = none := by
    intro key hkey
    obtain ⟨hname, hviewport, hbound⟩ := hp key hkey
    have hnone : b.merged.get? key = none := by simpa [Table.contains] using hbound
    rw [get?_fixedArguments, if_neg fun h => hviewport h.1, hnone, if_neg hname]
    rfl
  refine Table.ext_entries ?_
  change (argumentsFor n b viewport).entries.filter (fun e => p e.1) = n.params.entries.filter fun e => p e.1
  rw [argumentsFor_eq, Table.entries_foldl_insertNew n.params.keys_nodup, List.filter_append, List.filter_filter]
  have hnone : (fixedArguments n b viewport).entries.filter (fun e => p e.1) = [] := by
    refine List.filter_eq_nil_iff.2 fun e he hkey => ?_
    have hget := ((fixedArguments n b viewport).get?_eq_some_iff e.1 e.2).2 he
    rw [hfixed e.1 hkey] at hget
    cases hget
  rw [hnone, List.nil_append]
  refine List.filter_congr fun e _ => ?_
  by_cases hkey : p e.1 = true
  · simp [hkey, Table.contains, hfixed e.1 hkey]
  · simp [hkey]

theorem filter_unclaimed (wanted : Bool) :
    ((argumentsFor n b viewport).filter fun k _ => wanted && isUnclaimed c b k) = if wanted then unclaimed c n b else .empty := by
  cases wanted with
  | false => exact Table.filter_eq_empty fun _ _ => rfl
  | true =>
    refine filter_argumentsFor n b viewport fun key hkey => ?_
    simp only [isUnclaimed, Bool.true_and, Bool.and_eq_true, decide_eq_true_eq, Bool.not_eq_true'] at hkey
    exact ⟨hkey.1.1.1, hkey.1.1.2, hkey.1.2⟩

/-- The filter for extras lets the unclaimed ones through, if the class takes any argument. -/
theorem takes_and_extra (key : String) : (c.takes key && (!c.declares key && !b.merged.contains key && key ≠ viewportKey)) =
    (c.catchAll && isUnclaimed c b key) := by
  by_cases hname : key = passNameKey
  · simp [isUnclaimed, PassClass.declares, hname]
  · cases hdeclares : c.declares key <;> simp [isUnclaimed, PassClass.takes, hname, hdeclares, Bool.and_comm]

/-- The filter for attributes lets the unclaimed ones through, if the class does not take any argument. -/
theorem not_takes_and_attribute (key : String) :
    (!c.takes key && (key ≠ viewportKey && key ≠ passNameKey && !b.merged.contains key)) = (!c.catchAll && isUnclaimed c b key) := by
  cases hdeclares : c.declares key <;> simp [isUnclaimed, PassClass.takes, hdeclares, Bool.and_comm]

/-- What the factory of a class gets: the arguments that the class takes, and the unclaimed parameters as extras if it
takes any argument. -/
def seen : Arguments :=
  if c.catchAll then ⟨argumentsFor n b viewport, unclaimed c n b⟩
  else ⟨(argumentsFor n b viewport).filter fun k _ => c.declares k, .empty⟩

theorem seen_eq : seen c n b viewport = ⟨(argumentsFor n b viewport).filter fun k _ => c.takes k,
    c.extrasOf ((argumentsFor n b viewport).filter fun k _ => c.takes k) b.merged⟩ := by
  have hextras := filter_unclaimed c n b viewport c.catchAll
  simp only [← takes_and_extra] at hextras
  rw [PassClass.extrasOf, Table.filter_filter, hextras, seen]
  unfold PassClass.takes
  split <;> rename_i hany
  · rw [Table.filter_eq_self fun _ _ => by rw [hany, Bool.true_or]]
  · simp only [hany, Bool.false_or]

/-- The arguments that a class does not take, apart from resources and the viewport. -/
theorem attributes_eq : (((argumentsFor n b viewport).filter fun k _ => !c.takes k).filter fun k _ =>
    k ≠ viewportKey && k ≠ passNameKey && !b.merged.contains k) = if c.catchAll then .empty else unclaimed c n b := by
  simp only [Table.filter_filter, not_takes_and_attribute, filter_unclaimed]
  cases c.catchAll <;> rfl

variable {c n} {catalog : PassCatalog}

/-- A pass is built just if the factory of its class accepts what it gets. -/
theorem build_eq (hc : catalog.find? n.title = some c) : build catalog n b viewport =
    match c.factory (seen c n b viewport) with
    | .error cause => .error (.refused c.name cause)
    | .ok config => .ok
      { className := c.name
        name := n.displayName
        viewport := viewport
        config := config
        inputs := b.inputs
        outputs := b.outputs
        inplace := inplaceOf c b
        attributes := if c.catchAll then .empty else unclaimed c n b } := by
  rw [← attributes_eq c n b viewport]
  simp only [build, hc, configure_eq, ← seen_eq]
  cases c.factory (seen c n b viewport) <;> rfl

/-- A node is a pass just if the factory of its class accepts what it sees, whatever the node has unclaimed. Those
parameters are what a class that takes any argument sees as extras, and they are the attributes of a pass of any other
class. A resource at a socket comes before a parameter of its name. An argument is the viewport if there is one, then a
resource, then the name of the pass, and a parameter as it is where none of these has its name. -/
theorem build_unclaimed (hc : catalog.find? n.title = some c) :
    let arguments := argumentsFor n b viewport
    ((∃ p, build catalog n b viewport = .ok p) ↔ ∃ config, c.factory (seen c n b viewport) = .ok config) ∧
    (∀ p : Pass, build catalog n b viewport = .ok p →
      c.factory (seen c n b viewport) = .ok p.config ∧ p.attributes = if c.catchAll then .empty else unclaimed c n b) ∧
    (∀ key resource, b.merged.get? key = some resource →
      arguments.get? key = some (.text (if key = viewportKey ∧ viewport ≠ "" then viewport else resource))) ∧
    ∀ key, arguments.get? key =
      if key = viewportKey ∧ viewport ≠ "" then some (.text viewport)
      else ((b.merged.get? key).map Param.text).or
        (if key = passNameKey then some (.text n.displayName) else n.params.get? key) := by
  intro arguments
  rw [build_eq b viewport hc]
  refine ⟨?_, ?_, fun key resource hbound => ?_, get?_argumentsFor n b viewport⟩
  · cases c.factory (seen c n b viewport) <;> simp
  · intro p hp
    cases hmade : c.factory (seen c n b viewport) with
    | error cause => rw [hmade] at hp; cases hp
    | ok config => rw [hmade] at hp; cases hp; exact ⟨rfl, rfl⟩
  · rw [get?_argumentsFor, hbound]
    split <;> rfl

/-- An effect with a parameter of a bloom pass, one under the name of a socket, and two that nothing claims. -/
def tinted (className : String) : Node :=
  { Node.bare ⟨0⟩ className .effect with
    params := .ofList [("tint", .text "rose"), ("input_res", .text "own"), ("threshold", .whole 2), ("grain", .whole 1)] }

def sceneToGlow : Bindings := ⟨.ofList [("input_res", "scene")], .ofList [("output_res", "glow")], []⟩

/-- A bloom pass has the two as attributes and works on the scene under the name of the node, and a shader gets them with
the threshold. -/
theorem tinted_built :
    (∃ p, build .standard (tinted "BloomPass") sceneToGlow "main" = .ok p ∧
      p.attributes.entries = [("tint", .text "rose"), ("grain", .whole 1)]) ∧
    (argumentsFor (tinted "BloomPass") sceneToGlow "main").get? "input_res" = some (.text "scene") ∧
    (argumentsFor (tinted "BloomPass") sceneToGlow "main").get? "pass_name" = some (.text "BloomPass") ∧
    ∃ p, build .standard (tinted "PostProcessPass") sceneToGlow "main" = .ok p ∧ p.attributes = .empty ∧
      p.config = .postProcess "" (.ofList [("tint", .text "rose"), ("threshold", .whole 2), ("grain", .whole 1)]) := by
  obtain ⟨hbloom, hkept, hbound, hlaw⟩ := build_unclaimed sceneToGlow "main"
    (rfl : PassCatalog.standard.find? (tinted "BloomPass").title = some _)
  obtain ⟨hshader, hhanded, -⟩ := build_unclaimed sceneToGlow "main"
    (rfl : PassCatalog.standard.find? (tinted "PostProcessPass").title = some _)
  obtain ⟨p, hp⟩ := hbloom.2 ⟨_, rfl⟩
  obtain ⟨q, hq⟩ := hshader.2 ⟨_, rfl⟩
  obtain ⟨hconfig, hattributes⟩ := hhanded q hq
  refine ⟨⟨p, hp, ?_⟩, hbound "input_res" "scene" rfl, (hlaw "pass_name").trans (by decide +kernel), q, hq, hattributes, Except.ok.inj (hconfig.symm.trans rfl)⟩
  rw [(hkept p hp).2]
  decide +kernel

end RenderGraph.Pass
