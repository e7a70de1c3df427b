import Stepwise.Span
import Stepwise.Program.Basic
import Stepwise.Program.Block
import Stepwise.Decimal.Layout
import Stepwise.Decimal.Remainder
import Stepwise.Json.Text
import Stepwise.Json.Printer
import Stepwise.Program.Reader
import Stepwise.Program.Writer
import Stepwise.Program.Construct
import Stepwise.Lowering.Program
import Stepwise.Value.Equality
import Stepwise.Value.Export
import Stepwise.Value.Notation
import Stepwise.Memory.Snapshot
import Stepwise.Host
import Stepwise.Control.Basic
import Stepwise.Engine.Operators
import Stepwise.Engine.Basic
import Stepwise.Engine.Task
import Stepwise.Session.Request
import Stepwise.Program.Shorthand
import Stepwise.Config.Load
import Stepwise.Command.Progress
import Stepwise.Command.Arguments
import Stepwise.Main
import Stepwise.Proofs.Engine.Approximation
import Stepwise.Proofs.Engine.Wary
import Stepwise.Proofs.Engine.Machine
import Stepwise.Proofs.Engine.Limit
import Stepwise.Proofs.Simulation.Leads
import Stepwise.Proofs.Simulation.Memory
import Stepwise.Proofs.Engine.Observation
import Stepwise.Proofs.Simulation.Stack
import Stepwise.Proofs.Simulation.Pose
import Stepwise.Proofs.Simulation.Layer
import Stepwise.Proofs.Engine.Faults
import Stepwise.Proofs.Program.Scoping
import Stepwise.Proofs.Program.Jumps
import Stepwise.Proofs.Simulation.Expression
import Stepwise.Proofs.Simulation.Statement
import Stepwise.Proofs.Lowering.Fresh
import Stepwise.Proofs.Lowering.Output
import Stepwise.Proofs.Lowering.Render
import Stepwise.Proofs.Lowering.Supply
import Stepwise.Proofs.Lowering.Methods
import Stepwise.Proofs.Engine.Settle
import Stepwise.Proofs.Simulation.Site
import Stepwise.Proofs.Simulation.Call
import Stepwise.Proofs.Simulation.Copy
import Stepwise.Proofs.Simulation.Hoist
import Stepwise.Proofs.Simulation.Simple
import Stepwise.Proofs.Simulation.Block
import Stepwise.Proofs.Simulation.Loop
import Stepwise.Proofs.Simulation.Attempt
import Stepwise.Proofs.Simulation.Body
import Stepwise.Proofs.Engine.Watch
import Stepwise.Proofs.Engine.Stumbles
import Stepwise.Proofs.Simulation.Program
import Stepwise.Proofs.Engine.Order
import Stepwise.Proofs.Lowering.Meaning
import Stepwise.Proofs.Engine.Discipline
import Stepwise.Proofs.Engine.Balance
import Stepwise.Proofs.Lowering.Findings
import Stepwise.Proofs.Program.Calls
import Stepwise.Proofs.Lowering.Fragment
import Stepwise.Proofs.Lowering.Wellformed
import Stepwise.Proofs.Lowering.OwnJumps
import Stepwise.Proofs.Engine.Checked
import Stepwise.Proofs.Lowering.Soundness
import Stepwise.Proofs.Control.Acts
import Stepwise.Proofs.Control.Accounts
import Stepwise.Proofs.Control.History
import Stepwise.Proofs.Engine.Changes
import Stepwise.Proofs.Engine.Timing
import Stepwise.Proofs.Engine.Habit
import Stepwise.Proofs.Engine.Pace
import Stepwise.Proofs.Control.Cancellation
import Stepwise.Proofs.Session.Work
import Stepwise.Proofs.Session.Moves
import Stepwise.Proofs.Engine.Shapes
import Stepwise.Proofs.Engine.Cancelled
import Stepwise.Proofs.Session.Lifetime
import Stepwise.Proofs.Control.Guards
import Stepwise.Proofs.Control.Quiescence
import Stepwise.Proofs.Control.Closing
import Stepwise.Proofs.Engine.Conduct
import Stepwise.Proofs.Session.Books
import Stepwise.Proofs.Session.Requests
import Stepwise.Proofs.Session.Rest
import Stepwise.Proofs.Lowering.Refusals
import Stepwise.Proofs.Lowering.Reports
import Stepwise.Proofs.Program.Written
import Stepwise.Proofs.Program.Interchange
import Stepwise.Proofs.Engine.Mirror
import Stepwise.Proofs.Engine.Isolation
import Stepwise.Proofs.Engine.Ahead
import Stepwise.Proofs.Lowering.Declared
import Stepwise.Proofs.Lowering.Bench
import Stepwise.Proofs.Lowering.Bounded
import Stepwise.Proofs.Lowering.Idempotence
import Stepwise.Proofs.Value.Bisimilarity
import Stepwise.Proofs.Value.Rendering
import Stepwise.Proofs.Memory.Shadowing
import Stepwise.Proofs.Engine.Chronicle
import Stepwise.Proofs.Engine.Disposal
import Stepwise.Proofs.Engine.Retelling
import Stepwise.Proofs.Engine.Nesting
import Stepwise.Proofs.Engine.Origins
import Stepwise.Proofs.Lowering.Mentions
import Stepwise.Proofs.Engine.Veil
import Stepwise.Proofs.Lowering.Capture
import Stepwise.Proofs.Lowering.Pieces
import Stepwise.Proofs.Lowering.Ownership
import Stepwise.Proofs.Engine.Charting
import Stepwise.Proofs.Engine.HostCalls
import Stepwise.Proofs.Lowering.Labels
import Stepwise.Proofs.Value.Arithmetic
import Stepwise.Proofs.Engine.Globals
