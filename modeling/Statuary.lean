import Statuary.Assoc
import Statuary.Command.Flags
import Statuary.Command.Input
import Statuary.Command.Memory
import Statuary.Command.Options
import Statuary.Command.Query
import Statuary.Command.Session
import Statuary.Command.World
import Statuary.Correlation
import Statuary.Export.Build
import Statuary.Export.Delivery
import Statuary.Export.Payload
import Statuary.Export.Run
import Statuary.Export.Watch
import Statuary.Files.Bytes
import Statuary.Files.Content
import Statuary.Files.Frame
import Statuary.Files.Path
import Statuary.Files.System
import Statuary.Files.Tree
import Statuary.Files.Zip
import Statuary.History.Archive
import Statuary.History.Digest
import Statuary.History.Index
import Statuary.History.IndexFile
import Statuary.History.Ledger
import Statuary.History.Locator
import Statuary.History.Pragma
import Statuary.History.Restore
import Statuary.History.Statement
import Statuary.History.Storage
import Statuary.History.Store
import Statuary.History.Ulid
import Statuary.Json.Basic
import Statuary.Json.Fields
import Statuary.Json.Writer
import Statuary.Main
import Statuary.Naming.Identifier
import Statuary.Naming.Scheme
import Statuary.Naming.Template
import Statuary.Notice.Address
import Statuary.Notice.Basic
import Statuary.Notice.Hub
import Statuary.Notice.Subscription
import Statuary.Number.Binary
import Statuary.Number.Decimal
import Statuary.Number.Literal
import Statuary.Number.Shortest
import Statuary.Program.Basic
import Statuary.Program.Pack
import Statuary.Program.Source
import Statuary.Proofs.Assoc
import Statuary.Proofs.Export.Accepted
import Statuary.Proofs.Export.Payload
import Statuary.Proofs.Export.Summon
import Statuary.Proofs.Export.Worn
import Statuary.Proofs.Files.Below
import Statuary.Proofs.Files.Path
import Statuary.Proofs.Number.Numeral
import Statuary.Proofs.Number.Rounding
import Statuary.Proofs.Program.Meaning
import Statuary.Proofs.Program.Preservation
import Statuary.Proofs.Program.Simulation
import Statuary.Proofs.Tag.Marker
import Statuary.Proofs.Tag.Parsed
import Statuary.Proofs.Tag.Reading
import Statuary.Proofs.Tag.RoundTrip
import Statuary.Proofs.Tag.Word
import Statuary.Quicksort
import Statuary.Rig.Basic
import Statuary.Rig.BuildData
import Statuary.Rig.Document
import Statuary.Settings.Basic
import Statuary.Settings.Document
import Statuary.Settings.Schema
import Statuary.Tag.Basic
import Statuary.Tag.Edit
import Statuary.Tag.Parser
import Statuary.Tag.Placeholder
import Statuary.Tag.Printer
import Statuary.Tag.Scalar
import Statuary.Text.Base64
import Statuary.Text.Blank
import Statuary.Text.Fold
import Statuary.Text.Printable
import Statuary.Text.Quoted
import Statuary.Text.Search
import Statuary.Text.Utf8
import Statuary.Time.Duration
import Statuary.Time.Instant
import Statuary.Yaml.Comment
import Statuary.Yaml.Cursor
import Statuary.Yaml.Directive
import Statuary.Yaml.Node
import Statuary.Yaml.Property
import Statuary.Yaml.Reading
import Statuary.Yaml.Scalar
import Statuary.Yaml.Shape
import Statuary.Yaml.Timestamp
import Statuary.Yaml.Token
import Statuary.Yaml.Value
import Statuary.Proofs.Tag.Grammar
import Statuary.Proofs.Tag.Derivation
import Statuary.Proofs.Tag.Break
import Statuary.Proofs.Program.Lines
import Statuary.Proofs.Export.Lines
import Statuary.Proofs.Export.Unmarked
import Statuary.Proofs.Export.Switching
import Statuary.Proofs.Number.Literal
import Statuary.Proofs.Game.Command
import Statuary.Proofs.Correlation.Reading
import Statuary.Proofs.Correlation.Effect
import Statuary.Proofs.Correlation.Summoning
import Statuary.Proofs.Correlation.Removal
import Statuary.Proofs.Correlation.Safety
import Statuary.Proofs.Export.Hidden
import Statuary.Proofs.Program.Numbering
import Statuary.Proofs.Program.Places
import Statuary.Proofs.Program.Linking
import Statuary.Proofs.Program.Filing
import Statuary.Proofs.Export.Filing
import Statuary.Proofs.Tag.Table
import Statuary.Proofs.Tag.Node
import Statuary.Proofs.Tag.Change
import Statuary.Proofs.Tag.Editing
import Statuary.Proofs.Text.Bytes
import Statuary.Proofs.Time.Instant
import Statuary.Proofs.Notice.Visits
import Statuary.Proofs.Export.Effects
import Statuary.Proofs.Export.Delivery
import Statuary.Proofs.Files.Place
import Statuary.Proofs.Files.Sight
import Statuary.Proofs.Files.Follow
import Statuary.Proofs.Files.Tree
import Statuary.Proofs.Files.Directories
import Statuary.Proofs.Files.Replace
import Statuary.Proofs.Json.Plain
import Statuary.Proofs.History.Index
import Statuary.Proofs.History.Envelope
import Statuary.Proofs.History.Store
import Statuary.Proofs.History.Depot
import Statuary.Proofs.History.Restoring
import Statuary.Proofs.History.Contained
import Statuary.Proofs.Export.Merged
import Statuary.Proofs.Export.Apart
import Statuary.Proofs.Ends
import Statuary.Proofs.Tag.Union
import Statuary.Proofs.Tag.Memory
import Statuary.Proofs.Tag.InPlace
import Statuary.Proofs.Naming.Tags
import Statuary.Proofs.Text.Pieces
import Statuary.Proofs.Tag.Scan
import Statuary.Proofs.Tag.ScanWord
import Statuary.Proofs.Tag.ScanText
import Statuary.Proofs.Tag.Scanning
import Statuary.Proofs.Tag.Substitution
import Statuary.Proofs.Naming.Percent
import Statuary.Proofs.Settings.Tags
import Statuary.Proofs.Export.Selectors
import Statuary.Proofs.Export.Touched
import Statuary.Proofs.Rig.Changes
import Statuary.Proofs.Rig.Normal
import Statuary.Proofs.Rig.Valid
import Statuary.Proofs.Program.ReadBack
import Statuary.Proofs.Program.Lookup
import Statuary.Proofs.Program.Reading
import Statuary.Proofs.Export.Riding
import Statuary.Proofs.Export.Zip
import Statuary.Proofs.Tag.Canonical
import Statuary.Proofs.Tag.Spacing
import Statuary.Proofs.Text.Whole
import Statuary.Proofs.Naming.Filling
import Statuary.Proofs.Naming.Identifier
import Statuary.Proofs.History.ReadBack
import Statuary.Proofs.Export.Watching
import Statuary.Proofs.Number.Nearest
import Statuary.Proofs.Tag.NumberForm
import Statuary.Proofs.Tag.Classified
import Statuary.Proofs.Program.Running
import Statuary.Proofs.Program.Written
