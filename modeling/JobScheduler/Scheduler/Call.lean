import JobScheduler.Scheduler

/-!
The calls on a scheduler's service: scheduling, running, cancelling and asking, and the calls that
make and cancel tokens. Each takes the caller, a job's runner or nobody, since the events a call
writes are the caller's.
-/

namespace JobScheduler

namespace Scheduler

/-- The checks before a job is registered, in order. -/
def vet (s : Scheduler) (o : JobOrder) (planned : Bool) (work : Option Work) :
    Except ServiceError Work :=
  if o.name = "" then .error .noJobName
  else if !planned then .error .noRuntimeFunc
  else match work with
    | none => .error .noJobFunc
    | some work => if s.isRegistered o.name then .error (.jobAlreadyExists o.name) else .ok work

/-- A new job as ordered. Where no runner can live it is gone at once. -/
def newJob (s : Scheduler) (o : JobOrder) (periodic : Bool) (work : Work) (plan : Plan Action)
    (phase : Phase) : Job :=
  let job : Job :=
    { record := { name := o.name, cls := o.cls, periodic := periodic }
      tag := o.tag
      token := s.tokens.named o.parent
      counter := o.counter
      work := work
      plan := plan
      phase := phase }
  if o.outside then job.vanish else job

/-- Adds a job to the registry and reports it. -/
def enrol (s : Scheduler) (caller : Option JobId) (job : Job) : Scheduler :=
  let r := job.record
  let i := s.jobs.length
  let s := { s with registry := s.registry ++ [(r.name, i)], jobs := s.jobs ++ [job] }
  (s.report caller i r.cls .scheduled).log caller (.registered r.name r.cls r.periodic)

/-- The last part of scheduling job `i`: the span its runner works in, and the runner. -/
def launch (s : Scheduler) (i : JobId) (o : JobOrder) (periodic : Bool) : Scheduler × Answer :=
  (s.log (some i) (.span o.name o.cls periodic), if o.outside then .panicked else .done)

def schedule (s : Scheduler) (caller : Option JobId) (o : JobOrder) (work : Option Work)
    (runtime : Moment) : Scheduler × Answer :=
  match s.vet o true work with
  | .error e => (s, .refused e)
  | .ok work =>
    let i := s.jobs.length
    let instant := runtime.resolve s.now
    let s := s.enrol caller (s.newJob o false work .empty (.spawned instant))
    (s.log caller (.oneOffScheduled o.name instant)).launch i o false

def schedulePeriodic (s : Scheduler) (caller : Option JobId) (o : JobOrder) (work : Option Work)
    (plan : Option (Plan Action)) : Scheduler × Answer :=
  match s.vet o plan.isSome work with
  | .error e => (s, .refused e)
  | .ok work =>
    let i := s.jobs.length
    let s := s.enrol caller (s.newJob o true work (plan.getD .empty) .looping)
    s.launch i o true

/-- Runs a job now. A one-off job leaves the registry first, so that its timer is not for it any
more. -/
def run (s : Scheduler) (caller : Option JobId) (name : String) :
    Scheduler × Except ServiceError Unit :=
  match s.find? name with
  | none => (s, .error (.noSuchJob name))
  | some (i, job) =>
    let s := if job.record.periodic then s else s.unregister name
    match job.record.triggerRun with
    | (r, .ok ()) => ((s.updateRecord i fun _ => r).log caller (.runSignalled name), .ok ())
    | (r, .error e) => (s.updateRecord i fun _ => r, .error e)

/-- Runs a job if it can be run. -/
def runIfExists (s : Scheduler) (caller : Option JobId) (name : String) : Scheduler :=
  match s.run caller name with
  | (s, .ok ()) => s
  | (s, .error e) => s.log caller (.runSkipped name e)

/-- Cancels a job: it leaves the registry and its runner is told to stop. -/
def cancel (s : Scheduler) (caller : Option JobId) (name : String) :
    Scheduler × Except ServiceError Unit :=
  match s.find? name with
  | none => (s, .error (.noSuchJob name))
  | some (i, job) =>
    let s := s.unregister name
    match job.record.cancel with
    | (r, true) => ((s.updateRecord i fun _ => r).log caller (.cancelSignalled name), .ok ())
    | (r, false) => ((s.updateRecord i fun _ => r).log caller (.alreadyFinalised name), .ok ())

def cancelIfExists (s : Scheduler) (caller : Option JobId) (name : String) : Scheduler :=
  (s.cancel caller name).1

/-- The registered names that start with `stem`. -/
def matching (s : Scheduler) (stem : String) : List String :=
  (s.registry.map (·.1)).filter fun name => stem.toList.isPrefixOf name.toList

/-- Cancels every job whose name starts with `stem`. -/
def cancelAll (s : Scheduler) (caller : Option JobId) (stem : String) : Scheduler :=
  (s.matching stem).foldl (fun s name => s.cancelIfExists caller name) s

/-- The text that describes the service. -/
def describe (s : Scheduler) : String :=
  "Service \x7b jobs: " ++ toString s.registry.length ++ " \x7d"

def cancelToken (s : Scheduler) (name : String) : Scheduler :=
  { s with tokens := s.tokens.cancel (s.tokens.named name) }

def newToken (s : Scheduler) (name : String) (above : Option String) : Scheduler :=
  { s with tokens := s.tokens.bind name above }

/-- Carries out a call for `caller`. -/
def call (s : Scheduler) (caller : Option JobId) : Call → Scheduler × Answer
  | .schedule order work runtime => s.schedule caller order work runtime
  | .schedulePeriodic order work plan => s.schedulePeriodic caller order work plan
  | .run name => ((s.run caller name).1, .ofResult (s.run caller name).2)
  | .runIfExists name => (s.runIfExists caller name, .nothing)
  | .cancel name => ((s.cancel caller name).1, .ofResult (s.cancel caller name).2)
  | .cancelIfExists name => (s.cancelIfExists caller name, .nothing)
  | .cancelAll stem => (s.cancelAll caller stem, .nothing)
  | .isRegistered name => (s, .flag (s.isRegistered name))
  | .isActive name => (s, .maybeFlag (s.isActive name))
  | .names => (s, .list s.names)
  | .describe => (s, .text s.describe)
  | .newToken name above => (s.newToken name above, .nothing)
  | .cancelToken name => (s.cancelToken name, .nothing)

end Scheduler

end JobScheduler
