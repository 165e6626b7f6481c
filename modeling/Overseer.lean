import Overseer.Bytes
import Overseer.Cli.Arguments
import Overseer.Cli.Files
import Overseer.Cli.Program
import Overseer.Command.Basic
import Overseer.Command.Environment
import Overseer.Command.Flags
import Overseer.Command.Path
import Overseer.Config
import Overseer.Decimal.Shortest
import Overseer.Digest.Sha256
import Overseer.Elf.Header
import Overseer.Elf.Layout
import Overseer.Elf.Scan
import Overseer.Elf.Section
import Overseer.Elf.Symbol
import Overseer.ExitStatus
import Overseer.Json.Number
import Overseer.Json.Reader
import Overseer.Json.Value
import Overseer.Json.Writer
import Overseer.Kernel.Basic
import Overseer.Kernel.Child
import Overseer.Kernel.Poll
import Overseer.Log.Artifacts
import Overseer.Log.Emitter
import Overseer.Log.Entry
import Overseer.Log.Timestamp
import Overseer.Log.Validation
import Overseer.Loop.Condition
import Overseer.Loop.Pass
import Overseer.Loop.Watch
import Overseer.Main
import Overseer.Os.Failure
import Overseer.Proofs.Alarms
import Overseer.Proofs.Balance
import Overseer.Proofs.Binding
import Overseer.Proofs.Calendar
import Overseer.Proofs.Calls
import Overseer.Proofs.Capture
import Overseer.Proofs.ChildWaits
import Overseer.Proofs.ChildWatches
import Overseer.Proofs.Choosing
import Overseer.Proofs.Chronology
import Overseer.Proofs.Clock
import Overseer.Proofs.Collecting
import Overseer.Proofs.Counting
import Overseer.Proofs.Custody
import Overseer.Proofs.CustodyEffects
import Overseer.Proofs.Deadlines
import Overseer.Proofs.DeedEffects
import Overseer.Proofs.DeedInvariants
import Overseer.Proofs.Deeds
import Overseer.Proofs.Dispatching
import Overseer.Proofs.Displaying
import Overseer.Proofs.Disposal
import Overseer.Proofs.Drains
import Overseer.Proofs.Duty
import Overseer.Proofs.Effect
import Overseer.Proofs.Emitting
import Overseer.Proofs.EventDelivery
import Overseer.Proofs.FirsthandExits
import Overseer.Proofs.FlagSets
import Overseer.Proofs.Generations
import Overseer.Proofs.HandleAccounts
import Overseer.Proofs.HandleDeeds
import Overseer.Proofs.HandleEvents
import Overseer.Proofs.HandleOwnership
import Overseer.Proofs.Image
import Overseer.Proofs.IsolatedRun
import Overseer.Proofs.Journal
import Overseer.Proofs.LastWords
import Overseer.Proofs.Learning
import Overseer.Proofs.Lifecycle
import Overseer.Proofs.Limits
import Overseer.Proofs.Listing
import Overseer.Proofs.Lookup
import Overseer.Proofs.MachineChanges
import Overseer.Proofs.Marks
import Overseer.Proofs.Merging
import Overseer.Proofs.Minding
import Overseer.Proofs.NumeralReading
import Overseer.Proofs.Numerals
import Overseer.Proofs.Origins
import Overseer.Proofs.Outline
import Overseer.Proofs.Output
import Overseer.Proofs.OutputDeeds
import Overseer.Proofs.Ownership
import Overseer.Proofs.ParkedStatuses
import Overseer.Proofs.Parsing
import Overseer.Proofs.Passes
import Overseer.Proofs.Precedence
import Overseer.Proofs.Punctuality
import Overseer.Proofs.Quiet
import Overseer.Proofs.ReadOut
import Overseer.Proofs.Readiness
import Overseer.Proofs.Reapers
import Overseer.Proofs.Recording
import Overseer.Proofs.Registry
import Overseer.Proofs.RegistryEdits
import Overseer.Proofs.Removal
import Overseer.Proofs.Rereading
import Overseer.Proofs.Run
import Overseer.Proofs.RunDisposal
import Overseer.Proofs.RunInput
import Overseer.Proofs.RunPhases
import Overseer.Proofs.RunReports
import Overseer.Proofs.Scanning
import Overseer.Proofs.Schema
import Overseer.Proofs.Separators
import Overseer.Proofs.Signals
import Overseer.Proofs.SilentChanges
import Overseer.Proofs.SilentSteps
import Overseer.Proofs.Spans
import Overseer.Proofs.SpawnAndClose
import Overseer.Proofs.Spawning
import Overseer.Proofs.Stacks
import Overseer.Proofs.Statuses
import Overseer.Proofs.Stepping
import Overseer.Proofs.Stopping
import Overseer.Proofs.Storing
import Overseer.Proofs.Summaries
import Overseer.Proofs.Timers
import Overseer.Proofs.TraceIds
import Overseer.Proofs.Traps
import Overseer.Proofs.Truncation
import Overseer.Proofs.UnrelatedCallbacks
import Overseer.Proofs.Vacancy
import Overseer.Proofs.Waits
import Overseer.Proofs.Wakeups
import Overseer.Proofs.WatchAccounts
import Overseer.Proofs.WatchRoles
import Overseer.Proofs.WatchSteps
import Overseer.Proofs.Wiring
import Overseer.Proofs.WriteDelivery
import Overseer.Run.Report
import Overseer.Severity
import Overseer.Supervisor.Calls
import Overseer.Supervisor.Event
import Overseer.Supervisor.Handle
import Overseer.Supervisor.Machine
import Overseer.Supervisor.Script
import Overseer.Supervisor.Session
import Overseer.Supervisor.Step
import Overseer.Text.Blank
import Overseer.Text.Duration
import Overseer.Text.Number
import Overseer.Text.Quoted
import Overseer.Text.Unprintable
import Overseer.Text.Utf8
import Overseer.Word
