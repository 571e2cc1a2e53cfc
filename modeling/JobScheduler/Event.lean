import JobScheduler.Report
import JobScheduler.Script

/-!
The events of a run: what runners write while they work, the reports to a recording monitor, and
the entries of the log.
-/

namespace JobScheduler

/-- A job by the number of jobs that were registered before it. -/
abbrev JobId := Nat

inductive LogLevel where
  | trace
  | debug
  | error
  /-- The making of a span, which is no level of its own. -/
  | span
deriving DecidableEq, Repr

def LogLevel.name : LogLevel → String
  | trace => "TRACE"
  | debug => "DEBUG"
  | error => "ERROR"
  | span => "SPAN"

/-- The value of a field of a log entry. -/
inductive LogField where
  | text (value : String)
  | instant (value : Int)
  | flag (value : Bool)
deriving DecidableEq, Repr

/-- An entry of the log. -/
inductive LogEntry where
  | registered (job cls : String) (periodic : Bool)
  | unregistered (job : String)
  | span (job cls : String) (periodic : Bool)
  | oneOffScheduled (job : String) (instant : Int)
  | nextScheduled (instant : Int)
  | runSignalled (job : String)
  | runSkipped (job : String) (e : ServiceError)
  | cancelSignalled (job : String)
  | alreadyFinalised (job : String)
  | parentDone (instant : Int)
  | cancelTriggered (instant : Int)
  | runTriggered (instant : Int)
  | timerTriggered (instant : Int)
  | alreadyRunning (instant : Int)
  | completed (instant : Int)
  | jobPanicked (payload : Payload)
  | noMoreInstances
  | runtimeFailed (e : RuntimeError)
  | runtimePanicked (payload : Payload)
deriving DecidableEq, Repr

namespace LogEntry

def level : LogEntry → LogLevel
  | registered .. | unregistered _ | runSignalled _ | cancelSignalled _ => .debug
  | jobPanicked _ | runtimeFailed _ | runtimePanicked _ => .error
  | span .. => .span
  | _ => .trace

def message : LogEntry → String
  | registered .. => "job registered"
  | unregistered _ => "job removed from registry"
  | span .. => "scheduler"
  | oneOffScheduled .. | nextScheduled _ => "scheduled job"
  | runSignalled _ => "run signalled"
  | runSkipped .. => "run skipped"
  | cancelSignalled _ => "cancel signalled"
  | alreadyFinalised _ => "job already finalised"
  | parentDone _ => "parent context done; job not running"
  | cancelTriggered _ => "cancel triggered; job not running"
  | runTriggered _ => "run triggered; job running"
  | timerTriggered _ => "timer triggered; job running"
  | alreadyRunning _ => "already running; job not running"
  | completed _ => "job complete"
  | jobPanicked _ => "job panicked"
  | noMoreInstances => "no more instances; periodic job stopping"
  | runtimeFailed _ => "failed to obtain runtime; periodic job stopping"
  | runtimePanicked _ => "runtime function panicked; periodic job stopping"

def fields : LogEntry → List (String × LogField)
  | registered job cls periodic | span job cls periodic =>
    [("job", .text job), ("class", .text cls), ("periodic", .flag periodic)]
  | unregistered job | runSignalled job | cancelSignalled job | alreadyFinalised job =>
    [("job", .text job)]
  | oneOffScheduled job instant => [("job", .text job), ("scheduled", .instant instant)]
  | runSkipped job e => [("job", .text job), ("error", .text e.message)]
  | nextScheduled instant | parentDone instant | cancelTriggered instant | runTriggered instant
  | timerTriggered instant | alreadyRunning instant | completed instant =>
    [("scheduled", .instant instant)]
  | jobPanicked payload | runtimePanicked payload => [("panic", .text payload.message)]
  | runtimeFailed e => [("error", .text e.message)]
  | noMoreInstances => []

end LogEntry

/-- What an event tells. -/
inductive Happening where
  /-- A report to the monitor about job `about` of class `cls`. -/
  | reported (about : JobId) (report : Report) (cls : String)
  /-- An execution began, the `n`-th that counts on its counter. -/
  | started (n : Nat)
  | ended
  | context (cancelled : Bool)
  | called (verb : String) (answer : Answer)
  /-- The runtime function was called for the `k`-th time. -/
  | asked (k : Nat)
  | logged (entry : LogEntry)
deriving DecidableEq, Repr

/-- An event: when it was written, and by which job's runner, if by one. -/
structure Event where
  time : Int
  actor : Option JobId
  what : Happening
deriving DecidableEq, Repr

end JobScheduler
