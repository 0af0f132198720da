import RenderGraph.Compile
/-!
# What names are made of

The names of resources are made of titles, given names, roles, sockets and links, and so are the
declarations among them. The rest of a node, its identity, parameters and place, has no part in
that: nodes that agree without it (`Node.outline`) have the same names (`Naming.resolve_congr`) and
declare the same (`Compile.declarations_congr`). Specs read the parameters besides
(`Compile.specOf_congr`).
-/

namespace RenderGraph

/-- The node without its identity, its parameters and its place. -/
def Node.outline (n : Node) : Node :=
  { n with id := ⟨0⟩, params := .empty, position := .origin, size := defaultSize 0 0 }

namespace Naming

theorem socketsOf_outline {side : Node → List Socket} (hside : ∀ n : Node, side n.outline = side n) (nodes : List Node) :
    socketsOf side (nodes.map Node.outline) = (socketsOf side nodes).map fun e => (e.1.outline, e.2) := by
  simp only [socketsOf, List.zipIdx_map, List.flatMap_map, List.map_flatMap, List.map_map]
  congr 1
  funext e
  rw [Prod.map_fst, hside]
  rfl

theorem endsAtInput_outline (nodes : List Node) : endsAtInput (nodes.map Node.outline) = endsAtInput nodes := by
  funext l
  rw [endsAtInput, endsAtInput, List.getElem?_map, Option.bind_map]
  rfl

theorem seed_outline (nodes : List Node) : seed (nodes.map Node.outline) = seed nodes := by
  rw [seed, socketsOf_outline fun _ => rfl, List.foldl_map]
  rfl

theorem carry_outline (nodes : List Node) : carry (nodes.map Node.outline) = carry nodes := by
  funext links r
  unfold carry
  congr 1
  funext r l
  rw [carryLink, carryLink, endsAtInput_outline]

theorem redirectAll_outline (nodes : List Node) : redirectAll (nodes.map Node.outline) = redirectAll nodes := by
  funext r
  rw [redirectAll, socketsOf_outline fun _ => rfl, List.foldl_map]
  rfl

theorem fill_outline (nodes : List Node) : fill (nodes.map Node.outline) = fill nodes := by
  funext r
  rw [fill, socketsOf_outline fun _ => rfl, List.foldl_map]
  rfl

theorem resolve_outline (nodes : List Node) (links : List Link) :
    resolve (nodes.map Node.outline) links = resolve nodes links := by
  rw [resolve, fill_outline, carry_outline, redirectAll_outline, seed_outline]
  rfl

/-- Names are the same for nodes with the same outlines. -/
theorem resolve_congr {nodes nodes' : List Node} (h : nodes.map Node.outline = nodes'.map Node.outline)
    (links : List Link) : resolve nodes links = resolve nodes' links := by
  rw [← resolve_outline, h, resolve_outline]

end Naming

namespace Compile

/-- So are the declarations. -/
theorem declarations_congr {s s' : Snapshot} (h : s.nodes.map Node.outline = s'.nodes.map Node.outline) (r : Naming) :
    declarations s r = declarations s' r := by
  have houtline (s : Snapshot) : declarations s r = (s.nodes.map Node.outline).zipIdx.foldl (declare r) .empty := by
    rw [declarations, Snapshot.indexed, List.zipIdx_map, List.foldl_map]
    rfl
  rw [houtline, houtline, h]

/-- A change of each node that leaves the roles alone changes the nodes that become passes in the same way. -/
theorem passNodes_map {s s' : Snapshot} {change : Node → Node} (h : s'.nodes = s.nodes.map change)
    (hkind : ∀ n, (change n).kind = n.kind) : s'.passNodes = s.passNodes.map fun e => (change e.1, e.2) := by
  rw [Snapshot.passNodes, Snapshot.indexed, h, List.zipIdx_map, List.filter_map]
  refine congrArg (List.map _) (List.filter_congr fun e _ => ?_)
  exact congrArg NodeKind.isPass (hkind e.1)

theorem infer_congr {n? m? : Option Node} (h : n?.map Node.params = m?.map Node.params) (settings : Settings)
    (name : String) (users : List String) (viewport : Option String) :
    TargetSpec.infer settings name n? users viewport = TargetSpec.infer settings name m? users viewport := by
  cases n? <;> cases m?
  case none.none => rfl
  case none.some | some.none => cases h
  case some.some n m => simp only [TargetSpec.infer, Option.some.inj h]

/-- Of the nodes, a spec takes the parameters alone. -/
theorem specOf_congr {nodes nodes' : List Node} (h : nodes.map Node.params = nodes'.map Node.params)
    (settings : Settings) (declared : Table String Nat) (scopes : Scopes) :
    specOf ⟨settings, nodes, declared, scopes⟩ = specOf ⟨settings, nodes', declared, scopes⟩ := by
  have hnode (i? : Option Nat) : (i?.bind fun i => nodes[i]?).map Node.params =
      (i?.bind fun i => nodes'[i]?).map Node.params := by
    simp only [Option.map_bind, Function.comp_def, ← List.getElem?_map, h]
  funext target u
  exact infer_congr (hnode _) settings target _ _

end Compile

end RenderGraph
