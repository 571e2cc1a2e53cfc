import JobScheduler.Scheduler.Call

/-!
The runners. A one-off job's runner waits for the first of four things (its parent token is
cancelled, it is told to stop, it is told to run, its instant is reached), in that order when
several are there, and ends. A periodic job's runner calls its runtime function for an instant,
waits in the same way, and after an execution starts over.

`Scheduler.step?` is one step of a runner, and none where it cannot go on: the beginning or the end
of a wait, a call of the runtime function, one action, or the end of a function.
-/

namespace JobScheduler

/-- What ends a wait. -/
inductive Waking where
  | parent
  | cancel
  | signal
  | timer
deriving DecidableEq, Repr

namespace Scheduler

/-- What ends a job's wait now, if anything does. -/
def waking? (s : Scheduler) (job : Job) (timer : Option Int) : Option Waking :=
  if s.tokens.isCancelled job.token then some .parent
  else if job.record.cancelling.pending then some .cancel
  else if job.record.running.pending then some .signal
  else if timer.any fun t => decide (t ≤ s.now) then some .timer
  else none

/-- Whether a pause of the job's runner is over. -/
def isOver (s : Scheduler) (job : Job) : Pause → Bool
  | .none => true
  | .clock deadline => decide (deadline ≤ s.now)
  | .token => s.tokens.isCancelled job.token

/-- The runner of job `i` ends by itself. -/
def leave (s : Scheduler) (i : JobId) : Scheduler := s.updateJob i (·.leave .returned)

/-- The runner of job `i` ends after it was told to stop; who told it took the job out of the
registry. -/
def stop (s : Scheduler) (i : JobId) (job : Job) : Scheduler :=
  ((s.updateRecord i Record.finalise).report (some i) i job.record.cls .cancelled).leave i

/-- The runner of job `i` ends with no one having told it to stop. -/
def retire (s : Scheduler) (i : JobId) (job : Job) : Scheduler :=
  (s.remove (some i) i job.record.name).stop i job

/-- The runner of job `i` begins to wait for `instant`. For how long follows from the date of now,
and where there is none the runner is gone. -/
def await (s : Scheduler) (i : JobId) (instant : Int) : Scheduler :=
  if s.now ≤ lastDated then
    s.setPhase i (.waiting instant (some (waitUntil s.now (instant - s.now))))
  else s.updateJob i Job.vanish

/-- The runner of job `i` calls the runtime function. -/
def ask (s : Scheduler) (i : JobId) (job : Job) : Scheduler :=
  let e := job.plan.entry job.asks
  (s.emit (some i) (.asked (job.asks + 1))).updateJob i fun j =>
    { j with asks := j.asks + 1, phase := .planning .none (Action.opened e.actions) e.result }

/-- The runner of job `i` enters the job function. -/
def start (s : Scheduler) (i : JobId) (job : Job) (instant : Int) (trigger : Trigger) : Scheduler :=
  let n := s.count job.counter + 1
  let s := (s.report (some i) i job.record.cls (.started trigger)).setCount job.counter n
  (s.emit (some i) (.started n)).updateJob i fun j =>
    { j with
      runs := j.runs + 1
      phase := .running instant .none (Action.opened (j.work.body j.runs)) }

/-- What follows an execution, however it ended: a periodic job starts over, and a one-off job is
at its end. -/
def complete (s : Scheduler) (i : JobId) (job : Job) (instant : Int) : Scheduler :=
  let s := s.log (some i) (.completed instant)
  if job.record.periodic then (s.updateRecord i Record.deactivate).setPhase i .looping
  else (s.updateRecord i Record.finalise).leave i

/-- One action that is not a panic, and what to wait for after it. -/
def act (s : Scheduler) (i : JobId) (job : Job) : Action → Scheduler × Pause
  | .sleep ms => (s, .clock (waitUntil s.now ms))
  | .context => (s.emit (some i) (.context (s.tokens.isCancelled job.token)), .none)
  | .awaitContext => (s, .token)
  | .call c =>
    let (s, answer) := s.call (some i) c
    (s.emit (some i) (.called c.verb answer), .none)
  | .panic _ | .earlyPanic _ => (s, .none)

/-- The runner of job `i` goes on in the runtime function. -/
def planOn (s : Scheduler) (i : JobId) (job : Job) (result : Except RuntimeError Moment) :
    List Action → Scheduler
  | [] =>
    match result with
    | .ok runtime =>
      let instant := runtime.resolve s.now
      (s.log (some i) (.nextScheduled instant)).await i instant
    | .error .noMoreInstances => (s.log (some i) .noMoreInstances).retire i job
    | .error e => (s.log (some i) (.runtimeFailed e)).retire i job
  | .panic payload :: _ => (s.log (some i) (.runtimePanicked payload)).retire i job
  | action :: rest =>
    let (s, pause) := s.act i job action
    s.setPhase i (.planning pause rest result)

/-- The runner of job `i` goes on in the job function. -/
def runOn (s : Scheduler) (i : JobId) (job : Job) (instant : Int) : List Action → Scheduler
  | [] => (s.emit (some i) .ended).complete i job instant
  | .panic payload :: _ => (s.log (some i) (.jobPanicked payload)).complete i job instant
  | action :: rest =>
    let (s, pause) := s.act i job action
    s.setPhase i (.running instant pause rest)

/-- The runner of job `i` wakes up from its wait. -/
def wake (s : Scheduler) (i : JobId) (job : Job) (instant : Int) : Waking → Scheduler
  | .parent => (s.log (some i) (.parentDone instant)).retire i job
  | .cancel =>
    ((s.updateRecord i Record.takeCancel).log (some i) (.cancelTriggered instant)).stop i job
  | .signal =>
    ((s.updateRecord i Record.takeRun).log (some i) (.runTriggered instant)).start i job instant
      .signal
  | .timer =>
    match job.record.tryActivate with
    | (_, false) =>
      (s.log (some i) (.alreadyRunning instant)).setPhase i
        (if job.record.periodic then .looping else .waiting instant none)
    | (r, true) =>
      let s := s.updateRecord i fun _ => r
      let s := if job.record.periodic then s else s.remove (some i) i job.record.name
      (s.log (some i) (.timerTriggered instant)).start i job instant .timer

/-- One step of the runner of job `i`, if it can go on. -/
def step? (s : Scheduler) (i : JobId) : Option Scheduler :=
  match s.jobs[i]? with
  | none => none
  | some job =>
    match job.phase with
    | .spawned instant => some (s.await i instant)
    | .looping => some (s.ask i job)
    | .planning pause rest result =>
      if s.isOver job pause then some (s.planOn i job result rest) else none
    | .waiting instant timer => (s.waking? job timer).map (s.wake i job instant)
    | .running instant pause rest =>
      if s.isOver job pause then some (s.runOn i job instant rest) else none
    | .returned | .vanished => none

end Scheduler

end JobScheduler
