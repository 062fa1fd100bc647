import Experimaestro.Library.TransitionSystem
import Experimaestro.Library.SharedPermits
import Experimaestro.Library.Forest
import Experimaestro.Library.Utf8
import Experimaestro.Library.Lineage
import Experimaestro.Library.Separators
import Experimaestro.Library.ShellPrograms
import Experimaestro.Library.Simulations
import Experimaestro.Scheduler.Workspace
import Experimaestro.Scheduler.Settling
import Experimaestro.Scheduler.Moves
import Experimaestro.Scheduler.DependencyOrder
import Experimaestro.Scheduler.FailurePropagation
import Experimaestro.Scheduler.Restarts
import Experimaestro.Scheduler.TokenAccounting
import Experimaestro.Scheduler.Wakeups
import Experimaestro.Scheduler.Quiescence
import Experimaestro.Scheduler.LockFiles
import Experimaestro.Scheduler.LockRelease
import Experimaestro.Scheduler.LockCrashes
import Experimaestro.Scheduler.Machine
import Experimaestro.Scheduler.MutexOwnership
import Experimaestro.Scheduler.MutexDiscipline
import Experimaestro.Scheduler.FinalStates
import Experimaestro.Scheduler.Signals
import Experimaestro.Scheduler.Waiters
import Experimaestro.Scheduler.Interrupts
import Experimaestro.Configuration.Values
import Experimaestro.Configuration.Digest
import Experimaestro.Configuration.DigestFrames
import Experimaestro.Configuration.Identifiers
import Experimaestro.Configuration.Submission
import Experimaestro.Configuration.JobOrder
import Experimaestro.Scheduler.Experiments
import Experimaestro.Configuration.Skipping
import Experimaestro.Configuration.Exposure
import Experimaestro.Configuration.ArrayTypes
import Experimaestro.Configuration.RoundTrip
import Experimaestro.Configuration.CommonAncestors
import Experimaestro.Configuration.Tags
import Experimaestro.Configuration.Copies
import Experimaestro.Configuration.ParameterRecovery
import Experimaestro.Configuration.Sealing
import Experimaestro.Configuration.Dependencies
import Experimaestro.Configuration.Storing
import Experimaestro.Configuration.Filling
import Experimaestro.Configuration.ValidationErrors
import Experimaestro.Configuration.Validity
import Experimaestro.Configuration.CommandParameters
import Experimaestro.Configuration.Integers
import Experimaestro.Configuration.ScalarTexts
import Experimaestro.Configuration.NativeObjects
import Experimaestro.Configuration.TaskObjects
import Experimaestro.Definitions.LoadOrder
import Experimaestro.Definitions.DefinitionRoundTrip
import Experimaestro.Definitions.Hierarchies
import Experimaestro.Commands.Variables
import Experimaestro.Commands.Quoting
import Experimaestro.Commands.Contexts
import Experimaestro.Commands.Redirections
import Experimaestro.Commands.ScriptBuilder
import Experimaestro.Commands.ScriptRuns
import Experimaestro.Scheduler.ScriptStages
import Experimaestro.Scheduler.ScriptProcesses
import Experimaestro.Scheduler.ScriptResults
import Experimaestro.Scheduler.ExitStates
import Experimaestro.Files.RelativePaths
import Experimaestro.Files.ControlFiles
import Experimaestro.Files.Directories
import Experimaestro.Files.LockTaking
import Experimaestro.Files.RemoteStreams
import Experimaestro.Launchers.EnvMatcher
import Experimaestro.Web.Client
import Experimaestro.Web.Mirror
import Experimaestro.Web.JobList
