import JobScheduler.Settings.Json
import JobScheduler.Settings.Load
import JobScheduler.Scheduler.Playback
import JobScheduler.LogOutput
import JobScheduler.Proofs.Projection.Call
import JobScheduler.Proofs.Projection.Turn
import JobScheduler.Proofs.Projection
import JobScheduler.Proofs.Soundness
import JobScheduler.Proofs.Registration
import JobScheduler.Proofs.Activity
import JobScheduler.Proofs.Outcome
import JobScheduler.Proofs.Requests
import JobScheduler.Proofs.Playback
import JobScheduler.Proofs.RunnerEnd
import JobScheduler.Proofs.Rounds
import JobScheduler.Proofs.NoFurtherRuns
import JobScheduler.Proofs.Cancellation
import JobScheduler.Proofs.Conservation
import JobScheduler.Proofs.Tokens
import JobScheduler.Proofs.TokenCancellation
import JobScheduler.Proofs.Answers
import JobScheduler.Proofs.Orders
import JobScheduler.Proofs.HiddenJobs
import JobScheduler.Proofs.View.Call
import JobScheduler.Proofs.View.Turn
import JobScheduler.Proofs.Isolation
import JobScheduler.Proofs.KindAgreement.Script
import JobScheduler.Proofs.KindAgreement.Stage
import JobScheduler.Proofs.KindAgreement.Turn
import JobScheduler.Proofs.KindAgreement.Call
import JobScheduler.Proofs.KindAgreement
import JobScheduler.Proofs.Ownership
import JobScheduler.Proofs.FunctionalSimulation
import JobScheduler.Proofs.Observation
import JobScheduler.Proofs.Abandonment
import JobScheduler.Proofs.Simulation
import JobScheduler.Proofs.PanicContainment.Script
import JobScheduler.Proofs.PanicContainment.State
import JobScheduler.Proofs.AfterPanic
import JobScheduler.Proofs.PanicContainment
import JobScheduler.Proofs.PrefixCancellation
import JobScheduler.Proofs.RegistryLog
import JobScheduler.Proofs.Installation
import JobScheduler.Proofs.Overlay
import JobScheduler.Proofs.Layering
import JobScheduler.Proofs.Promptness
import JobScheduler.Proofs.Timers
import JobScheduler.Proofs.Completion
import JobScheduler.Proofs.Settling
import JobScheduler.Proofs.Simulation.Call
import JobScheduler.Proofs.Simulation.Turn
import JobScheduler.Proofs.GivingUp
import JobScheduler.Proofs.Delivery
import JobScheduler.Proofs.RecordSignals
import JobScheduler.Proofs.Finality
import JobScheduler.Proofs.Quoting
import JobScheduler.Proofs.Inline
import JobScheduler.Proofs.Level
import JobScheduler.Proofs.Documents
