import Sower.Lib.Interleaving
import Sower.Lib.Table
import Sower.Lib.Search
import Sower.Calendar
import Sower.PolicyLaws
import Sower.PolicyWindows
import Sower.Deploy.Completion
import Sower.Deploy.RemoteCommand
import Sower.Garden.Permissions
import Sower.Garden.Reboot
import Sower.Garden.OneRun
import Sower.Garden.RebootRequests
import Sower.Garden.SeedAccounts
import Sower.Garden.BootLinks
import Sower.Garden.Subscriptions
import Sower.Server.RecordedResults
import Sower.Server.Replay
import Sower.Server.Duplicates
import Sower.Server.Supersede
import Sower.Server.DirectLinks
import Sower.Server.RetryPolicy
import Sower.Server.RetryDiscipline
import Sower.Server.RetryBroadcast
import Sower.Server.ReplayMarks
import Sower.Server.InFlight
import Sower.Server.Isolation
import Sower.Server.Reports
import Sower.Server.Watching
import Sower.Server.LogEnding
import Sower.Network.Scripts
import Sower.Network.Confinement
import Sower.Network.Leases
import Sower.Network.Recovery
import Sower.Network.JournalClosure
import Sower.Network.Routes
import Sower.Hypervisor.Lifecycle
import Sower.Vm.Frames
import Sower.Vm.GuestConnections
import Sower.Vm.StreamResults
import Sower.Vm.StopMeaning
import Sower.Nix.JobCompletion
import Sower.Activator.InstalledUnits
import Sower.Server.LogRetention
import Sower.Lib.Pattern
import Sower.Cli.JobRecognition
import Sower.Server.Matching
import Sower.Server.SubscriptionSync
import Sower.Garden.DeploymentLog
import Sower.Garden.LogBatches
import Sower.Server.GenerationSync
import Sower.Garden.Reauthentication
import Sower.Activator.Transports
import Sower.Lib.Triples
import Sower.Cli.Pipeline
import Sower.Cli.PipelineHonesty
import Sower.Vm.LedgerAnswers
import Sower.Server.LogOwners
import Sower.Client.PathExpansion
import Sower.Vm.GuardCleanup
import Sower.Vm.LedgerWatches
import Sower.Vm.LedgerLaunches
import Sower.Vm.CommandExecution
import Sower.Vm.CommandTurns
import Sower.Vm.GuardTurns
import Sower.Vm.StreamTurns
import Sower.Vm.Relay
import Sower.Vm.RelayRoutes
import Sower.Vm.RelayParts
import Sower.Vm.RelayRuns
import Sower.Vm.RelayProtocol
import Sower.Activator.Handler
import Sower.Activator.Activation
import Sower.Garden.SeedActivation
import Sower.Lib.OrderedSet
import Sower.Nix.Queue
import Sower.Nix.QueueWorld
import Sower.Garden.Reload
import Sower.Garden.Admin
import Sower.Garden.AdminClient
import Sower.Garden.AdminProtocol
