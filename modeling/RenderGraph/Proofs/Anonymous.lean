import RenderGraph.Proofs.Outline
/-!
# Identities do not matter to a compile

Identities tell the nodes of a graph apart while it is edited. A compile knows nodes by their
positions: without the identities it gives the same output (`compile_anonymous`), so two
graphs that differ in identities alone compile alike.
-/

namespace RenderGraph

/-- The node without its identity. -/
def Node.anonymous (n : Node) : Node := { n with id := ⟨0⟩ }

/-- What a compile reads, without the identities. -/
def Snapshot.anonymous (s : Snapshot) : Snapshot := { s with nodes := s.nodes.map Node.anonymous }

/-! ## What the stages read of a node -/

theorem Snapshot.outline_anonymous (s : Snapshot) : s.anonymous.nodes.map Node.outline = s.nodes.map Node.outline := by
  rw [Snapshot.anonymous, List.map_map]
  rfl

namespace Compile

theorem passNodes_anonymous (s : Snapshot) : s.anonymous.passNodes = s.passNodes.map fun e => (e.1.anonymous, e.2) :=
  passNodes_map rfl fun _ => rfl

theorem declarations_anonymous (s : Snapshot) (r : Naming) : declarations s.anonymous r = declarations s r :=
  declarations_congr s.outline_anonymous r

theorem viewports_anonymous (s : Snapshot) : s.anonymous.viewports = s.viewports := by
  rw [Snapshot.viewports, Snapshot.anonymous, List.map_map]
  rfl

theorem specOf_anonymous (settings : Settings) (nodes : List Node) (declared : Table String Nat) (scopes : Scopes) :
    specOf ⟨settings, nodes.map Node.anonymous, declared, scopes⟩ = specOf ⟨settings, nodes, declared, scopes⟩ :=
  specOf_congr (by rw [List.map_map]; rfl) settings declared scopes

theorem spec?_anonymous (settings : Settings) (nodes : List Node) (declared : Table String Nat) (scopes : Scopes) :
    spec? ⟨settings, nodes.map Node.anonymous, declared, scopes⟩ = spec? ⟨settings, nodes, declared, scopes⟩ := by
  funext e
  rw [spec?, spec?, specOf_anonymous]

theorem omitted?_anonymous (settings : Settings) (nodes : List Node) (declared : Table String Nat) (scopes : Scopes) :
    omitted? ⟨settings, nodes.map Node.anonymous, declared, scopes⟩ = omitted? ⟨settings, nodes, declared, scopes⟩ := by
  funext e
  rw [omitted?, omitted?, specOf_anonymous]

end Compile

open Compile in
/-- A compile gives the same output without the identities of the nodes. -/
theorem Compiler.compile_anonymous (c : Compiler) (s : Snapshot) : c.compile s.anonymous = c.compile s := by
  have hpass (r : Naming) : s.anonymous.passNodes.filterMap (pass? c.catalog s.anonymous r) =
      s.passNodes.filterMap (pass? c.catalog s r) := by
    rw [passNodes_anonymous, List.filterMap_map]
    rfl
  have hskipped (r : Naming) : s.anonymous.passNodes.filterMap (skipped? c.catalog s.anonymous r) =
      s.passNodes.filterMap (skipped? c.catalog s r) := by
    rw [passNodes_anonymous, List.filterMap_map]
    rfl
  have hempty : s.anonymous.passNodes.isEmpty = s.passNodes.isEmpty := by
    rw [passNodes_anonymous, List.isEmpty_map]
  have hnames : Naming.resolve s.anonymous.nodes s.anonymous.links = Naming.resolve s.nodes s.links :=
    Naming.resolve_congr s.outline_anonymous s.links
  have hspec := spec?_anonymous c.settings s.nodes
  have homitted := omitted?_anonymous c.settings s.nodes
  simp only [compile, hempty, hnames, hpass, hskipped, declarations_anonymous, viewports_anonymous]
  simp only [Snapshot.anonymous, hspec, homitted]

end RenderGraph
