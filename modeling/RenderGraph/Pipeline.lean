import RenderGraph.Pass
import RenderGraph.Target
/-!
# Pipelines

What a graph compiles to: passes in the order in which they run, and how the render targets that
they share are created.
-/

namespace RenderGraph

structure Pipeline where
  name : String
  passes : List Pass
  specs : List TargetSpec
deriving DecidableEq

namespace Pipeline

/-- The pipeline of a graph without passes. -/
def empty : Pipeline := ⟨"empty", [], []⟩

def isEmpty (p : Pipeline) : Bool := p.passes.isEmpty

def pass? (p : Pipeline) (name : String) : Option Pass := p.passes.find? fun q => q.name = name

def spec? (p : Pipeline) (name : String) : Option TargetSpec := p.specs.find? fun s => s.name = name

end Pipeline

end RenderGraph
