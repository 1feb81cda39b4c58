import TreeOps.App.Commands
import TreeOps.App.Run
import TreeOps.App.Session
import TreeOps.Attributes
import TreeOps.CommandLine.Arguments
import TreeOps.CommandLine.Options
import TreeOps.CommandLine.Parse
import TreeOps.Config.Basic
import TreeOps.Config.Document
import TreeOps.Config.Load
import TreeOps.Config.Location
import TreeOps.Config.Template
import TreeOps.Create
import TreeOps.Disk.Basic
import TreeOps.Disk.Calls
import TreeOps.Disk.Files
import TreeOps.Disk.Outline
import TreeOps.Disk.Resolve
import TreeOps.Disk.SystemCall
import TreeOps.Disk.Work
import TreeOps.Entry
import TreeOps.Log.Note
import TreeOps.Log.Record
import TreeOps.Main
import TreeOps.Markup.Event
import TreeOps.Markup.Token
import TreeOps.Memory.Basic
import TreeOps.Memory.Calls
import TreeOps.Memory.Overlay
import TreeOps.Native.Code
import TreeOps.Native.HostError
import TreeOps.Native.HostErrorTexts
import TreeOps.Path.Basic
import TreeOps.Path.Map
import TreeOps.Path.Topology
import TreeOps.Pattern.Match
import TreeOps.Pattern.Token
import TreeOps.Program.Basic
import TreeOps.Program.Call
import TreeOps.Program.Handler
import TreeOps.Progress
import TreeOps.Proofs.Config.Fields
import TreeOps.Proofs.Config.Layout
import TreeOps.Proofs.Config.Written
import TreeOps.Proofs.Create
import TreeOps.Proofs.Create.Exact
import TreeOps.Proofs.Disk.Resolve
import TreeOps.Proofs.Errors.Copies
import TreeOps.Proofs.Errors.Paths
import TreeOps.Proofs.Errors.Reports
import TreeOps.Proofs.Markup.Plain
import TreeOps.Proofs.Markup.Reading
import TreeOps.Proofs.Markup.Tokens
import TreeOps.Proofs.Memory.Below
import TreeOps.Proofs.Memory.Closed
import TreeOps.Proofs.Memory.EitherOrder
import TreeOps.Proofs.Memory.History
import TreeOps.Proofs.Memory.Keeps
import TreeOps.Proofs.Memory.Listing
import TreeOps.Proofs.Memory.Nodes
import TreeOps.Proofs.Memory.Replies
import TreeOps.Proofs.Memory.Shape
import TreeOps.Proofs.Memory.Sound
import TreeOps.Proofs.Memory.Strikes
import TreeOps.Proofs.Memory.Torn
import TreeOps.Proofs.Memory.Touches
import TreeOps.Proofs.Memory.Watched
import TreeOps.Proofs.Native.Numbers
import TreeOps.Proofs.Path.Ancestors
import TreeOps.Proofs.Path.Components
import TreeOps.Proofs.Path.Lookup
import TreeOps.Proofs.Path.Topology
import TreeOps.Proofs.Pattern.Accepted
import TreeOps.Proofs.Pattern.Documented
import TreeOps.Proofs.Pattern.Meaning
import TreeOps.Proofs.Pattern.Rows
import TreeOps.Proofs.Pattern.Runs
import TreeOps.Proofs.Pattern.Tokens
import TreeOps.Proofs.Program.Asks
import TreeOps.Proofs.Program.EitherOrder
import TreeOps.Proofs.Program.Ensures
import TreeOps.Proofs.Program.History
import TreeOps.Proofs.Program.Keeps
import TreeOps.Proofs.Program.Moments
import TreeOps.Proofs.Reachable
import TreeOps.Proofs.Removal.Confined
import TreeOps.Proofs.Removal.EitherOrder
import TreeOps.Proofs.Removal.Exact
import TreeOps.Proofs.Removal.File
import TreeOps.Proofs.Removal.Frame
import TreeOps.Proofs.Removal.Hollow
import TreeOps.Proofs.Removal.Mounts
import TreeOps.Proofs.Removal.Passing
import TreeOps.Proofs.Removal.Prune
import TreeOps.Proofs.Removal.ReadOnly
import TreeOps.Proofs.Removal.Refusals
import TreeOps.Proofs.Removal.Reported
import TreeOps.Proofs.Removal.Retries
import TreeOps.Proofs.Removal.Shrinks
import TreeOps.Proofs.Removal.Single
import TreeOps.Proofs.Removal.Transient
import TreeOps.Proofs.Requests
import TreeOps.Proofs.Text.Characters
import TreeOps.Proofs.Text.Decimal
import TreeOps.Proofs.Text.Trimmed
import TreeOps.Proofs.Text.Utf8
import TreeOps.Proofs.Transactions
import TreeOps.Proofs.Transfer.Agree
import TreeOps.Proofs.Transfer.Cancel
import TreeOps.Proofs.Transfer.Complete
import TreeOps.Proofs.Transfer.Course
import TreeOps.Proofs.Transfer.Ends
import TreeOps.Proofs.Transfer.Entered
import TreeOps.Proofs.Transfer.Exact
import TreeOps.Proofs.Transfer.Frame
import TreeOps.Proofs.Transfer.Links
import TreeOps.Proofs.Transfer.Loss
import TreeOps.Proofs.Transfer.Mirror
import TreeOps.Proofs.Transfer.Misled
import TreeOps.Proofs.Transfer.Phases
import TreeOps.Proofs.Transfer.Resume
import TreeOps.Proofs.Transfer.Sound
import TreeOps.Proofs.Transfer.Steps
import TreeOps.Proofs.Transfer.Topology
import TreeOps.Proofs.Transfer.Whole
import TreeOps.Proofs.Transfer.Writes
import TreeOps.Proofs.Walk.Complete
import TreeOps.Proofs.Walk.Filters
import TreeOps.Proofs.Walk.Lazy
import TreeOps.Proofs.Walk.Recursive
import TreeOps.Proofs.Walk.Tolerance
import TreeOps.Removal.Classify
import TreeOps.Removal.Delete
import TreeOps.Removal.Prune
import TreeOps.Text.Blank
import TreeOps.Text.Cased
import TreeOps.Text.Decimal
import TreeOps.Text.Lowercase
import TreeOps.Text.LowercaseTable
import TreeOps.Text.Printable
import TreeOps.Text.Quoted
import TreeOps.Text.Ranges
import TreeOps.Text.Utf8
import TreeOps.Transfer
import TreeOps.TreeError
import TreeOps.Walk
