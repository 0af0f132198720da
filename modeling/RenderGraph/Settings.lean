import RenderGraph.Target
/-!
# Settings

What a compile can be told: which pass classes need targets of high range or with several samples,
what these get, and whether a compile with an error has failed.
-/

namespace RenderGraph

structure Settings where
  /-- Parts of the names of pass classes that need targets of high range. -/
  hdrKeywords : List String
  /-- Parts of the names of pass classes that gain from several samples. -/
  msaaKeywords : List String
  hdrFormat : TextureFormat
  defaultFormat : TextureFormat
  /-- The samples of targets that gain from several. -/
  msaaSamples : UInt32
  failFast : Bool
deriving DecidableEq

namespace Settings

/-- The settings that hold where nothing else was said. -/
def standard : Settings where
  hdrKeywords := ["postprocess", "post_process", "bloom", "tonemap", "color"]
  msaaKeywords := ["color", "depth", "skybox"]
  hdrFormat := .rgba16Float
  defaultFormat := .rgba8
  msaaSamples := 4
  failFast := false

/-- The conventional name of a file of settings. -/
def fileName : String := "render_graph.ron"

def sampleCounts : List UInt32 := [1, 2, 4, 8, 16]

inductive Fault where
  | samples (n : UInt32)
deriving DecidableEq, Repr

def Fault.message : Fault → String
  | samples n => "Invalid setting: msaa_samples must be 1, 2, 4, 8, or 16 (got " ++ toString n.toNat ++ ")"

/-- The fault of settings, if there is one. -/
def fault? (s : Settings) : Option Fault :=
  if sampleCounts.contains s.msaaSamples then none else some (.samples s.msaaSamples)

/-- Whether one of the keywords stands in the name of a class, whatever the letter case. -/
def matchesKeyword (keywords : List String) (className : String) : Bool :=
  keywords.any fun k => Text.contains (Text.lowercase className) (Text.lowercase k)

/-- Whether a pass class needs targets of high range. -/
def wantsHdr (s : Settings) (className : String) : Bool := matchesKeyword s.hdrKeywords className

/-- Whether a pass class gains from several samples. -/
def wantsMsaa (s : Settings) (className : String) : Bool := matchesKeyword s.msaaKeywords className

end Settings

end RenderGraph
