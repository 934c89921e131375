import Workboard.KeyMap
import Workboard.Decimal.Layout
import Workboard.Json.Printer
import Workboard.Json.Shape
import Workboard.Text.Blank
import Workboard.Text.Case
import Workboard.Text.Cluster
import Workboard.Text.Folding
import Workboard.Board.Codec
import Workboard.Board.Fingerprint
import Workboard.Board.Literal
import Workboard.Board.Lookup
import Workboard.Board.Mutation
import Workboard.Board.Execute
import Workboard.Board.MutationCodec
import Workboard.Command.Batch
import Workboard.Command.Envelope
import Workboard.Apply.PinTable
import Workboard.Apply.Error
import Workboard.Apply.References
import Workboard.Apply.Grid
import Workboard.Apply.Catalog
import Workboard.Apply.Pauses
import Workboard.Apply.Notice
import Workboard.Apply.Placeholder
import Workboard.Apply.Addressing
import Workboard.Apply.Session
import Workboard.Apply.Memory
import Workboard.Apply.Report
import Workboard.Apply.Batch
import Workboard.Search.Terms
import Workboard.Search.Highlight
import Workboard.Search.Affinity
import Workboard.Search.Pattern
import Workboard.Search.Field
import Workboard.Search.Profile
import Workboard.Search.Document
import Workboard.Search.Postings
import Workboard.Search.Index
import Workboard.Search.Cache
import Workboard.Text.Split
import Workboard.Text.Digits
import Workboard.Command.Schema
import Workboard.Cli.Path
import Workboard.Cli.Console
import Workboard.Cli.Disk
import Workboard.Cli.Arguments
import Workboard.Cli.Listing
import Workboard.Cli.Run
import Workboard.Main
import Workboard.Apply.CatalogText
import Workboard.Proofs.Keyed
import Workboard.Proofs.Copies
import Workboard.Proofs.Changes
import Workboard.Proofs.Refusal
import Workboard.Proofs.Conservation
import Workboard.Proofs.FreshId
import Workboard.Proofs.Ensures
import Workboard.Proofs.Proper
import Workboard.Proofs.Account
import Workboard.Proofs.Sound
import Workboard.Proofs.SoundMutation
import Workboard.Proofs.Interleaving
import Workboard.Proofs.Refetching
import Workboard.Proofs.InStep
import Workboard.Proofs.Log
import Workboard.Proofs.PinValue
import Workboard.Proofs.PinStep
import Workboard.Proofs.Connections
import Workboard.Proofs.Wiring
import Workboard.Proofs.Texts
import Workboard.Proofs.StaleViews
import Workboard.Proofs.Repeats
import Workboard.Proofs.Aliases
import Workboard.Proofs.Scan
import Workboard.Proofs.NumberText
import Workboard.Proofs.PrintedText
import Workboard.Proofs.Records
import Workboard.Proofs.Rounding
import Workboard.Proofs.Doubles
import Workboard.Proofs.DecimalGap
import Workboard.Proofs.ShortestDecimal
import Workboard.Proofs.SingleText
import Workboard.Proofs.Numbers
import Workboard.Proofs.BoardText
import Workboard.Proofs.Obtained
import Workboard.Proofs.Saving
import Workboard.Proofs.Comparison
import Workboard.Proofs.Reload
import Workboard.Proofs.Ranking
import Workboard.Proofs.Documents
import Workboard.Proofs.Secrets
import Workboard.Proofs.CompactText
import Workboard.Proofs.Fingerprints
import Workboard.Proofs.RecentlyUsed
import Workboard.Proofs.ValueText
import Workboard.Proofs.NormalForm
import Workboard.Proofs.CommandValue
import Workboard.Proofs.CommandText
import Workboard.Proofs.Blocks
import Workboard.Proofs.Segments
import Workboard.Proofs.BatchText
import Workboard.Proofs.Legible
import Workboard.Proofs.Quotations
import Workboard.Proofs.NodeIds
import Workboard.Proofs.Replay
import Workboard.Proofs.Protocol
import Workboard.Proofs.PlainNames
import Workboard.Proofs.Merging
import Workboard.Proofs.Omission
import Workboard.Proofs.Removal
import Workboard.Proofs.Mirrored
import Workboard.Proofs.OpenEnds
import Workboard.Proofs.HandedOut
import Workboard.Proofs.Literals
import Workboard.Proofs.PinRoundTrip
import Workboard.Proofs.LayerCycles
import Workboard.Proofs.Footprint
import Workboard.Proofs.Splice
import Workboard.Proofs.Rewiring
import Workboard.Proofs.PinAnswers
import Workboard.Proofs.Recorded
import Workboard.Proofs.Breadcrumbs
import Workboard.Proofs.BarePins
import Workboard.Proofs.ConnectionRuns
import Workboard.Proofs.RepeatedConnections
import Workboard.Proofs.LastingNodes
import Workboard.Proofs.PlaceholderPins
import Workboard.Proofs.BoardIds
import Workboard.Proofs.JoinedRanges
import Workboard.Proofs.Occurrences
import Workboard.Proofs.Marks
import Workboard.Proofs.Corpus
import Workboard.Proofs.KeptCommands
import Workboard.Proofs.PartialWords
import Workboard.Proofs.Namesakes
import Workboard.Proofs.RefusedBatches
