import Reconciler.Attribute
import Reconciler.AttributeJson
import Reconciler.AttributeMap
import Reconciler.Component
import Reconciler.Equality
import Reconciler.Json.Basic
import Reconciler.Json.Library
import Reconciler.Json.Number
import Reconciler.Json.Record
import Reconciler.Json.Text
import Reconciler.LogFilter
import Reconciler.Nested
import Reconciler.Number.Decimal
import Reconciler.Number.Double
import Reconciler.Peer.Basic
import Reconciler.Peer.Headless
import Reconciler.Peer.Recorder
import Reconciler.Peer.Script
import Reconciler.Probe
import Reconciler.Proofs.Account
import Reconciler.Proofs.Aftermath
import Reconciler.Proofs.Audited
import Reconciler.Proofs.Burst
import Reconciler.Proofs.Comparison
import Reconciler.Proofs.Conflicts
import Reconciler.Proofs.DecimalText
import Reconciler.Proofs.DeepEquality
import Reconciler.Proofs.Distinct
import Reconciler.Proofs.Handles
import Reconciler.Proofs.Interleaving
import Reconciler.Proofs.Isolation
import Reconciler.Proofs.Journal
import Reconciler.Proofs.JsonGrammar
import Reconciler.Proofs.JsonLibrary
import Reconciler.Proofs.LargeWeights
import Reconciler.Proofs.Lifetimes
import Reconciler.Proofs.Magnitudes
import Reconciler.Proofs.Nearest
import Reconciler.Proofs.Operations
import Reconciler.Proofs.PartByPart
import Reconciler.Proofs.Pass
import Reconciler.Proofs.Precedence
import Reconciler.Proofs.Presence
import Reconciler.Proofs.Reachable
import Reconciler.Proofs.RecordReading
import Reconciler.Proofs.Recording
import Reconciler.Proofs.RegionReading
import Reconciler.Proofs.Removal
import Reconciler.Proofs.Rendered
import Reconciler.Proofs.Replay
import Reconciler.Proofs.Report
import Reconciler.Proofs.Rerender
import Reconciler.Proofs.Rounds
import Reconciler.Proofs.Run
import Reconciler.Proofs.SettingsDocument
import Reconciler.Proofs.Simulation
import Reconciler.Proofs.Staging
import Reconciler.Proofs.Structural
import Reconciler.Proofs.Turn
import Reconciler.Proofs.Unambiguity
import Reconciler.Proofs.WeightGrammar
import Reconciler.Proofs.WireEquality
import Reconciler.Proofs.WriteThrough
import Reconciler.Proofs.ZeroSign
import Reconciler.Resource
import Reconciler.Settings
import Reconciler.Shared
import Reconciler.Slot.Basic
import Reconciler.Slot.Commit
import Reconciler.Slot.Describe
import Reconciler.Slot.Policy
import Reconciler.Standard
import Reconciler.StateStyles
import Reconciler.Table.Basic
import Reconciler.Table.Commit
import Reconciler.Text.Blank
import Reconciler.UiState
import Reconciler.Value.Appearance
import Reconciler.Value.Literal
import Reconciler.Value.LooseNumber
import Reconciler.Value.Matrix
import Reconciler.Value.Sides
import Reconciler.Wire
