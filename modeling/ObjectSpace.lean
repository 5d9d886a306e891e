import ObjectSpace.Instances
import ObjectSpace.Table
import ObjectSpace.Text.Blank
import ObjectSpace.Text.Integer
import ObjectSpace.Text.Hex
import ObjectSpace.Text.Lossy
import ObjectSpace.Binary64.Text
import ObjectSpace.Uuid
import ObjectSpace.Instant.Text
import ObjectSpace.Json.Raw
import ObjectSpace.Json.Printer
import ObjectSpace.Value.Order
import ObjectSpace.Report.Wire
import ObjectSpace.Mismatch
import ObjectSpace.Identity.OfValue
import ObjectSpace.Shape.Accepts
import ObjectSpace.Codec.Arguments
import ObjectSpace.Native
import ObjectSpace.Class.Basic
import ObjectSpace.Message
import ObjectSpace.Codec.Call
import ObjectSpace.Run
import ObjectSpace.Store.Memory
import ObjectSpace.Store.Unreliable
import ObjectSpace.Settings.Basic
import ObjectSpace.Reference.Target
import ObjectSpace.Reference.Proxy
import ObjectSpace.Object.Resident
import ObjectSpace.Service.Catalog
import ObjectSpace.Service.Script
import ObjectSpace.Session.Basic
import ObjectSpace.Session.Call
import ObjectSpace.CommandLine.Program
import ObjectSpace.Main
import ObjectSpace.Proofs.Value.Order
import ObjectSpace.Proofs.Ordered
import ObjectSpace.Proofs.Success
import ObjectSpace.Proofs.Value.Within
import ObjectSpace.Proofs.Shape.Induction
import ObjectSpace.Proofs.Shape.Canonical
import ObjectSpace.Proofs.Binary64.Round
import ObjectSpace.Proofs.Json.WellFormed
import ObjectSpace.Proofs.Codec.Scalars
import ObjectSpace.Proofs.Codec.Walk
import ObjectSpace.Proofs.Value.Same
import ObjectSpace.Proofs.Table
import ObjectSpace.Proofs.Run
import ObjectSpace.Proofs.Uuid
import ObjectSpace.Proofs.Text.Integer
import ObjectSpace.Proofs.Text.Hex
import ObjectSpace.Proofs.Identity.Json
import ObjectSpace.Proofs.Class.Declaration
import ObjectSpace.Proofs.Class.Fields
import ObjectSpace.Proofs.Codec.Canonical
import ObjectSpace.Proofs.Codec.Reading
import ObjectSpace.Proofs.Codec.Writing
import ObjectSpace.Proofs.Codec.Plain
import ObjectSpace.Proofs.Codec.Numbers
import ObjectSpace.Proofs.Codec.RoundTrip
import ObjectSpace.Proofs.Store.Lawful
import ObjectSpace.Proofs.Store.Write
import ObjectSpace.Proofs.Reference.Proxy
import ObjectSpace.Proofs.Reference.Target
import ObjectSpace.Proofs.Object.Batch
import ObjectSpace.Proofs.Object.Operation
import ObjectSpace.Proofs.Object.Overlay
import ObjectSpace.Proofs.Object.WriteBack
import ObjectSpace.Proofs.Object.Flush
import ObjectSpace.Proofs.Session.Keyed
import ObjectSpace.Proofs.Session.Passes
import ObjectSpace.Proofs.Session.Commit
import ObjectSpace.Proofs.Codec.Everywhere
import ObjectSpace.Proofs.Codec.UnionWalk
import ObjectSpace.Proofs.Codec.Writable
import ObjectSpace.Proofs.Object.Change
import ObjectSpace.Proofs.Object.Staged
import ObjectSpace.Proofs.Object.Reference
import ObjectSpace.Proofs.Session.Step
import ObjectSpace.Proofs.Session.Noting
import ObjectSpace.Proofs.Session.Separation
import ObjectSpace.Proofs.Binary64.Nearest
import ObjectSpace.Proofs.Binary64.Shortest
import ObjectSpace.Proofs.Json.Literal
import ObjectSpace.Proofs.Json.Number
import ObjectSpace.Proofs.Json.Escape
import ObjectSpace.Proofs.Json.Cut
import ObjectSpace.Proofs.Json.Text
import ObjectSpace.Proofs.Instant.Calendar
import ObjectSpace.Proofs.Instant.Text
import ObjectSpace.Proofs.Codec.Printing
import ObjectSpace.Proofs.Codec.Payload
import ObjectSpace.Proofs.Session.Reload
import ObjectSpace.Proofs.Class.Methods
import ObjectSpace.Proofs.Class.Tables
import ObjectSpace.Proofs.Codec.Envelope
import ObjectSpace.Proofs.Codec.Arguments
import ObjectSpace.Proofs.Codec.Assignment
import ObjectSpace.Proofs.Service.Call
import ObjectSpace.Proofs.Codec.Conforming
import ObjectSpace.Proofs.Service.Arguments
import ObjectSpace.Proofs.Service.Invoke
import ObjectSpace.Proofs.Session.Call
import ObjectSpace.Proofs.Dispatch.Race
import ObjectSpace.Proofs.Report.Wire
import ObjectSpace.Proofs.Store.Steady
import ObjectSpace.Proofs.Object.Alike
import ObjectSpace.Proofs.Dispatch.Handling
import ObjectSpace.Proofs.Session.Remote
import ObjectSpace.Proofs.Store.Related
import ObjectSpace.Proofs.Object.Over
import ObjectSpace.Proofs.Session.Over
import ObjectSpace.Proofs.Session.Interleaving
import ObjectSpace.Proofs.Store.Journal
import ObjectSpace.Proofs.Object.Marks
import ObjectSpace.Proofs.Writers.Program
import ObjectSpace.Proofs.Writers.Alone
import ObjectSpace.Proofs.Writers.Updates
import ObjectSpace.Proofs.Object.Fate
import ObjectSpace.Proofs.Session.Through
import ObjectSpace.Proofs.Session.Recreation
import ObjectSpace.Proofs.Pool.Shutdown
import ObjectSpace.Proofs.Codec.Again
import ObjectSpace.Proofs.Pool.Rounds
import ObjectSpace.Proofs.Session.Crash
import ObjectSpace.Proofs.Dispatch.Deadlines
import ObjectSpace.Proofs.Dispatch.Failures
import ObjectSpace.Proofs.Codec.Acceptance
import ObjectSpace.Proofs.Codec.NormalForm
import ObjectSpace.Proofs.Codec.Alternatives
import ObjectSpace.Proofs.Codec.Integers
import ObjectSpace.Proofs.Codec.Content
import ObjectSpace.Proofs.Session.Accessors
import ObjectSpace.Proofs.Codec.Null
import ObjectSpace.Proofs.Class.Defaults
import ObjectSpace.Proofs.Object.Bookkeeping
import ObjectSpace.Proofs.Codec.Located
import ObjectSpace.Proofs.Native
import ObjectSpace.Proofs.Identity.Text
import ObjectSpace.Proofs.Session.Details
