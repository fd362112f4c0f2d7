import Quadlet.Text.Bytes
import Quadlet.Text.Error
import Quadlet.Text.Hex
import Quadlet.Text.Utf8
import Quadlet.Text.Property
import Quadlet.Text.Quoted
import Quadlet.Text.Base64
import Quadlet.Text.Numeral
import Quadlet.Json.Token
import Quadlet.Json.Tree
import Quadlet.Json.Shortest
import Quadlet.Json.Number
import Quadlet.Json.Writer
import Quadlet.Json.Value
import Quadlet.Text.KeyMap
import Quadlet.Error
import Quadlet.Message
import Quadlet.Machine
import Quadlet.Code.Descriptor
import Quadlet.Code.Set
import Quadlet.Table.Document
import Quadlet.Json.Record
import Quadlet.Table.Reader
import Quadlet.Table.KeriV1
import Quadlet.Registry
import Quadlet.Header
import Quadlet.Primitive
import Quadlet.Version
import Quadlet.Framing
import Quadlet.Session.State
import Quadlet.Session.Hooks
import Quadlet.Session.Basic
import Quadlet.Input
import Quadlet.Report
import Quadlet.CommandLine
import Quadlet.Main
import Quadlet.Proofs.Base64
import Quadlet.Proofs.Padding
import Quadlet.Proofs.UnusedBits
import Quadlet.Proofs.Numeral
import Quadlet.Proofs.Loaded
import Quadlet.Proofs.Acceptance
import Quadlet.Proofs.Primitive
import Quadlet.Proofs.Encoding
import Quadlet.Proofs.Framing
import Quadlet.Proofs.Extension
import Quadlet.Proofs.Readable
import Quadlet.Proofs.Shortage
import Quadlet.Proofs.Delimited
import Quadlet.Proofs.UrlText
import Quadlet.Proofs.Sizing
import Quadlet.Proofs.Fields
import Quadlet.Proofs.Counting
import Quadlet.Proofs.Hexadecimal
import Quadlet.Proofs.Utf8
import Quadlet.Proofs.VersionString
import Quadlet.Proofs.Checked
import Quadlet.Proofs.Safety
import Quadlet.Proofs.Session.State
import Quadlet.Proofs.Session.Step
import Quadlet.Proofs.Session.Run
import Quadlet.Proofs.Session.Reach
import Quadlet.Proofs.Session.Contexts
import Quadlet.Proofs.Session.Progress
import Quadlet.Proofs.Session.Observation
import Quadlet.Proofs.Session.Extension
import Quadlet.Proofs.Session.Markers
import Quadlet.Proofs.Session.Failure
import Quadlet.Proofs.Session.Spans
import Quadlet.Proofs.Session.Truncation
import Quadlet.Proofs.Session.Composition
import Quadlet.Proofs.Session.Forest
import Quadlet.Proofs.Session.Paths
import Quadlet.Proofs.Session.Scope
import Quadlet.Proofs.Session.Nesting
import Quadlet.Proofs.Session.Items
import Quadlet.Proofs.Session.Building
import Quadlet.Proofs.Session.Row
import Quadlet.Proofs.Session.SealTriples
import Quadlet.Proofs.Session.Grid
import Quadlet.Proofs.Session.LineBreaks
import Quadlet.Proofs.JsonText
import Quadlet.Proofs.Rendering
import Quadlet.Proofs.Indentation
