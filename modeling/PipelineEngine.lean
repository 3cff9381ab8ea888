import PipelineEngine.Container.Basic
import PipelineEngine.Main
import PipelineEngine.Report.Calls
import PipelineEngine.Report.Journal
import PipelineEngine.Report.Settings
import PipelineEngine.Simulation.Engine
import PipelineEngine.Simulation.Host
import PipelineEngine.Simulation.Script
import PipelineEngine.Proofs.Fields
import PipelineEngine.Proofs.Store.Cells
import PipelineEngine.Proofs.Fallible
import PipelineEngine.Proofs.Store.Doomed
import PipelineEngine.Proofs.Store.Accepted
import PipelineEngine.Proofs.Store.History
import PipelineEngine.Proofs.Store.References
import PipelineEngine.Proofs.Model.Linked
import PipelineEngine.Proofs.Value.Compare
import PipelineEngine.Proofs.Store.Uniqueness
import PipelineEngine.Proofs.Store.Completeness
import PipelineEngine.Proofs.Model.Hooks
import PipelineEngine.Proofs.Expression.Reference
import PipelineEngine.Proofs.Run.Reached
import PipelineEngine.Proofs.Expression.Evaluate
import PipelineEngine.Proofs.Run.Backwards
import PipelineEngine.Proofs.Response.Success
import PipelineEngine.Proofs.Job.Board
import PipelineEngine.Proofs.Job.History
import PipelineEngine.Proofs.Calendar.Dates
import PipelineEngine.Proofs.Calendar.Instants
import PipelineEngine.Proofs.Schedule.Candidates
import PipelineEngine.Proofs.Schedule.Recurrence
import PipelineEngine.Proofs.Schedule.Lookup
import PipelineEngine.Proofs.Schedule.Declared
import PipelineEngine.Proofs.Job.Reports
import PipelineEngine.Proofs.Job.Ticks
import PipelineEngine.Proofs.Run.Requests
import PipelineEngine.Proofs.Run.Entries
import PipelineEngine.Proofs.Journal.Course
import PipelineEngine.Proofs.Run.Account
import PipelineEngine.Proofs.Journal.Replay
import PipelineEngine.Proofs.Run.Replayed
import PipelineEngine.Proofs.Store.Worklist
import PipelineEngine.Proofs.Store.Removal
import PipelineEngine.Proofs.Store.Delete
import PipelineEngine.Proofs.Store.Restriction
import PipelineEngine.Proofs.Model.Reordered
import PipelineEngine.Proofs.Store.Overlays
import PipelineEngine.Proofs.Store.Update
import PipelineEngine.Proofs.Store.Insert
import PipelineEngine.Proofs.Run.Determined
import PipelineEngine.Proofs.Store.Predicates
import PipelineEngine.Proofs.Schedule.Enumeration
import PipelineEngine.Proofs.Schedule.Bounds
import PipelineEngine.Proofs.Text.Numerals
import PipelineEngine.Proofs.Expression.Grammar
import PipelineEngine.Proofs.Expression.Written
import PipelineEngine.Proofs.Expression.Canonical
import PipelineEngine.Proofs.Expression.Spelled
import PipelineEngine.Proofs.Expression.Bytes
import PipelineEngine.Proofs.Expression.Boundaries
import PipelineEngine.Proofs.Run.Exchanges
import PipelineEngine.Proofs.Run.Invocations
import PipelineEngine.Proofs.Run.Itinerary
import PipelineEngine.Proofs.Run.Followed
import PipelineEngine.Proofs.Run.Limits
import PipelineEngine.Proofs.Identifier.Snowflakes
import PipelineEngine.Proofs.Model.Reloads
import PipelineEngine.Proofs.Subscription.Channels
import PipelineEngine.Proofs.Schedule.Retirement
import PipelineEngine.Proofs.Subscription.Publications
import PipelineEngine.Proofs.Subscription.Delivered
import PipelineEngine.Proofs.Schedule.Periods
import PipelineEngine.Proofs.Run.Attempts
import PipelineEngine.Proofs.Model.Slots
import PipelineEngine.Proofs.Run.Positions
import PipelineEngine.Proofs.Store.Reported
import PipelineEngine.Proofs.Value.Paths
import PipelineEngine.Proofs.Value.Doubles
import PipelineEngine.Proofs.Value.Equality
import PipelineEngine.Proofs.Expression.Integers
import PipelineEngine.Proofs.Response.Mapped
import PipelineEngine.Proofs.Expression.Sources
import PipelineEngine.Proofs.Response.Selection
import PipelineEngine.Proofs.Text.Trimmed
import PipelineEngine.Proofs.Response.Yields
import PipelineEngine.Proofs.Subscription.Sources
import PipelineEngine.Proofs.Identifier.Uuids
import PipelineEngine.Proofs.Identifier.Sorted
import PipelineEngine.Proofs.Journal.Keys
import PipelineEngine.Proofs.Run.Keyed
import PipelineEngine.Proofs.Calendar.Timestamps
import PipelineEngine.Proofs.Value.Texts
import PipelineEngine.Proofs.Journal.Lines
import PipelineEngine.Proofs.Text.Lowered
import PipelineEngine.Proofs.Provider.Images
import PipelineEngine.Proofs.Provider.References
import PipelineEngine.Proofs.Provider.Merge
import PipelineEngine.Proofs.Container.Passwords
