import SyntaxRepair.Anchor
import SyntaxRepair.Command.Arguments
import SyntaxRepair.Command.Options
import SyntaxRepair.Command.RepairSources
import SyntaxRepair.Command.Run
import SyntaxRepair.Command.ShowReport
import SyntaxRepair.Decimal.Binary64
import SyntaxRepair.Decimal.Shortest
import SyntaxRepair.Edit.Buffer
import SyntaxRepair.Edit.History
import SyntaxRepair.Error
import SyntaxRepair.Event
import SyntaxRepair.Failure
import SyntaxRepair.Files.Path
import SyntaxRepair.Files.Store
import SyntaxRepair.Json.Number
import SyntaxRepair.Json.Parser
import SyntaxRepair.Json.Printer
import SyntaxRepair.Json.Value
import SyntaxRepair.Main
import SyntaxRepair.Measure
import SyntaxRepair.Misfit
import SyntaxRepair.Mission.Execution
import SyntaxRepair.Mission.Queue
import SyntaxRepair.Overload.Dispatcher
import SyntaxRepair.Overload.Groups
import SyntaxRepair.Parse.Command
import SyntaxRepair.Parse.Document
import SyntaxRepair.Parse.Fault
import SyntaxRepair.Parse.Recording
import SyntaxRepair.Parse.Result
import SyntaxRepair.Proofs.Edit.Arrangement
import SyntaxRepair.Proofs.Edit.Performing
import SyntaxRepair.Proofs.Edit.Shrinking
import SyntaxRepair.Proofs.Edit.Splice
import SyntaxRepair.Proofs.Repair.Findings
import SyntaxRepair.Proofs.Repair.Rounds
import SyntaxRepair.Proofs.Repair.Steps
import SyntaxRepair.Proofs.Tree.Nodes
import SyntaxRepair.Range
import SyntaxRepair.Repair.Extension
import SyntaxRepair.Repair.Loop
import SyntaxRepair.Repair.Pass
import SyntaxRepair.Repair.Workspace
import SyntaxRepair.Schema.Pointer
import SyntaxRepair.Schema.Rule
import SyntaxRepair.Settings
import SyntaxRepair.Setup
import SyntaxRepair.Text.Basic
import SyntaxRepair.Text.CodePoint
import SyntaxRepair.Text.DecimalDigit
import SyntaxRepair.Text.Lines
import SyntaxRepair.Text.LowerCase
import SyntaxRepair.Text.Printable
import SyntaxRepair.Text.Quoted
import SyntaxRepair.Text.Utf8
import SyntaxRepair.Tree.Index
import SyntaxRepair.Tree.Node
import SyntaxRepair.Violation
import SyntaxRepair.World
import SyntaxRepair.Proofs.Repair.Sweeping
import SyntaxRepair.Proofs.Repair.Merging
import SyntaxRepair.Proofs.Repair.Rewriting
import SyntaxRepair.Proofs.Repair.TypeCut
import SyntaxRepair.Proofs.Mission.AssignmentPlace
import SyntaxRepair.Proofs.Repair.Agreement
import SyntaxRepair.Proofs.Repair.Progress
import SyntaxRepair.Proofs.Edit.Insertions
import SyntaxRepair.Proofs.Mission.Execution
import SyntaxRepair.Proofs.Mission.Queue
import SyntaxRepair.Proofs.Mission.WholeLines
import SyntaxRepair.Proofs.Overload.Entries
import SyntaxRepair.Proofs.Repair.Accounting
import SyntaxRepair.Proofs.Edit.Carrying
import SyntaxRepair.Proofs.Edit.Reordering
import SyntaxRepair.Proofs.Edit.Landing
import SyntaxRepair.Proofs.Tree.Numbering
import SyntaxRepair.Proofs.Repair.Waiting
import SyntaxRepair.Proofs.Repair.Following
import SyntaxRepair.Proofs.Overload.Gathering
import SyntaxRepair.Proofs.Repair.Dispatching
import SyntaxRepair.Proofs.Repair.Contracts
import SyntaxRepair.Proofs.Tree.Parents
import SyntaxRepair.Proofs.Repair.Refusals
import SyntaxRepair.Proofs.Overload.Siblings
import SyntaxRepair.Proofs.Overload.NewNames
import SyntaxRepair.Proofs.Repair.Resolvable
import SyntaxRepair.Proofs.Repair.Orders
import SyntaxRepair.Proofs.Parse.Documents
import SyntaxRepair.Proofs.Repair.Countable
import SyntaxRepair.Proofs.Repair.Failures
import SyntaxRepair.Proofs.Text.Comments
import SyntaxRepair.Proofs.Mission.TypeComments
import SyntaxRepair.Proofs.Repair.Resuming
import SyntaxRepair.Proofs.Repair.Idling
import SyntaxRepair.Proofs.Repair.Capping
import SyntaxRepair.Proofs.Edit.Uprooting
import SyntaxRepair.Proofs.Repair.Anchoring
import SyntaxRepair.Proofs.Overload.DispatcherPlace
import SyntaxRepair.Proofs.Parse.Format
import SyntaxRepair.Proofs.Parse.Encoding
import SyntaxRepair.Proofs.Files.Store
import SyntaxRepair.Proofs.Repair.Mirroring
import SyntaxRepair.Proofs.Command.Acts
import SyntaxRepair.Proofs.Json.Misfits
import SyntaxRepair.Proofs.Command.Setups
import SyntaxRepair.Proofs.Command.Endings
import SyntaxRepair.Proofs.Files.Targets
import SyntaxRepair.Proofs.Files.Texts
import SyntaxRepair.Proofs.Repair.PlainForm
import SyntaxRepair.Proofs.Command.Outputs
import SyntaxRepair.Tree.Arena
import SyntaxRepair.Proofs.Tree.Ancestry
import SyntaxRepair.Proofs.Tree.Innermost
import SyntaxRepair.Proofs.Tree.Flattening
import SyntaxRepair.Proofs.Command.Writes
import SyntaxRepair.Proofs.Text.Octets
import SyntaxRepair.Proofs.Text.Unified
import SyntaxRepair.Proofs.Repair.LineEnds
import SyntaxRepair.Proofs.Command.Stems
import SyntaxRepair.Proofs.Command.Flags
import SyntaxRepair.Proofs.Command.UpToDate
import SyntaxRepair.Proofs.Edit.Overhang
import SyntaxRepair.Proofs.Edit.InsertionOrder
import SyntaxRepair.Proofs.Overload.Consistency
import SyntaxRepair.Proofs.Repair.Declining
import SyntaxRepair.Proofs.Text.Lines
import SyntaxRepair.Proofs.Text.Indenting
import SyntaxRepair.Proofs.Tables
import SyntaxRepair.Proofs.Settings.Format
import SyntaxRepair.Proofs.Settings.Names
import SyntaxRepair.Proofs.Settings.Usable
import SyntaxRepair.Proofs.Settings.Reading
import SyntaxRepair.Proofs.Parse.Reports
import SyntaxRepair.Proofs.Schema.Pointers
import SyntaxRepair.Proofs.Mission.Operations
import SyntaxRepair.Proofs.Anchors
import SyntaxRepair.Proofs.Sequences
import SyntaxRepair.Proofs.Overload.Updating
import SyntaxRepair.Proofs.Schema.Rules
import SyntaxRepair.Proofs.Text.Parts
import SyntaxRepair.Proofs.Json.Numbers
