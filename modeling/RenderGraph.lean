import RenderGraph.Main
import RenderGraph.Graph.Json
import RenderGraph.SavedGraph.Sameness
import RenderGraph.Storage.Disk
import RenderGraph.Proofs.Aliases
import RenderGraph.Proofs.Connections
import RenderGraph.Proofs.Links
import RenderGraph.Proofs.Redirects
import RenderGraph.Proofs.Schedule
import RenderGraph.Proofs.Sockets
import RenderGraph.Proofs.Specs
import RenderGraph.Proofs.Superseded
import RenderGraph.Proofs.Targets
import RenderGraph.Proofs.Conserved
import RenderGraph.Proofs.Anonymous
import RenderGraph.Proofs.Replay
import RenderGraph.Proofs.Wiring
import RenderGraph.Proofs.Saving
import RenderGraph.Proofs.Numerals
import RenderGraph.Proofs.Tokens
import RenderGraph.Proofs.Reading
import RenderGraph.Proofs.Decoding
import RenderGraph.Proofs.Reopening
import RenderGraph.Proofs.Resaving
import RenderGraph.Proofs.Arguments
import RenderGraph.Proofs.Layout
import RenderGraph.Proofs.Parameters
import RenderGraph.Proofs.Scopes
import RenderGraph.Proofs.LinkOrder
import RenderGraph.Proofs.PipelineText
import RenderGraph.Proofs.Usable
import RenderGraph.Proofs.Culprits
import RenderGraph.Proofs.Stuck
import RenderGraph.Proofs.Opening
import RenderGraph.Proofs.Unclaimed
import RenderGraph.Proofs.ByteOrder
import RenderGraph.Proofs.Linked
import RenderGraph.Proofs.Distinct
import RenderGraph.Proofs.Appended
import RenderGraph.Proofs.Contained
import RenderGraph.Proofs.Removal
import RenderGraph.Proofs.SettingsText
import RenderGraph.Proofs.Sizes
import RenderGraph.Proofs.Delivered
import RenderGraph.Proofs.Rounds
