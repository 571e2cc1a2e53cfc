import JobScheduler.Scheduler.Turn

/-!
Scripts carried out in virtual time. A runner that goes on does so until it has to wait, and then
another that can go on does. A step of the script may let the runners settle, move the clock, drop
the runners, or call the service.
-/

namespace JobScheduler

namespace Scheduler

/-- How many steps runners take before they are taken to go on for ever, as two periodic jobs do
that keep running each other. -/
def settleLimit : Nat := 10000000

/-- The first runner that can go on, after one step. -/
def firstStep? (s : Scheduler) : Option (JobId × Scheduler) :=
  (List.range s.jobs.length).findSome? fun i => (s.step? i).map (i, ·)

/-- At most `fuel` steps of runners, the `current` one until it has to wait. -/
def settleFor : Nat → Option JobId → Scheduler → Scheduler
  | 0, _, s => s
  | fuel + 1, current, s =>
    match current.bind fun i => (s.step? i).map (i, ·) with
    | some (i, s) => settleFor fuel (some i) s
    | none =>
      match s.firstStep? with
      | some (i, s) => settleFor fuel (some i) s
      | none => s

/-- Every runner goes on until none can. -/
def settle (s : Scheduler) : Scheduler := settleFor settleLimit none s

/-- The first deadline after now and not after `stop`. -/
def nextDeadline? (s : Scheduler) (stop : Int) : Option Int :=
  ((s.jobs.filterMap Job.deadline?).filter fun t => decide (s.now < t) && decide (t ≤ stop)).min?

/-- From deadline to deadline until `stop`, at most `fuel` of them. -/
def advanceFor : Nat → Scheduler → Int → Scheduler
  | 0, s, stop => { s with now := stop }
  | fuel + 1, s, stop =>
    match s.nextDeadline? stop with
    | none => { s with now := stop }
    | some t => advanceFor fuel { s with now := t }.settle stop

/-- Settles, then waits for `ms` milliseconds, as a runner waits: for `longestWait` at most. Each
stop of the clock is at a later millisecond, so there are no more stops than milliseconds. -/
def advance (s : Scheduler) (ms : Nat) : Scheduler := advanceFor ms s.settle (waitUntil s.now ms)

def stall (s : Scheduler) (ms : Nat) : Scheduler := { s with now := s.now + ms }

/-- All runners vanish, and with them the receivers of their signals. -/
def shutdown (s : Scheduler) : Scheduler := { s with jobs := s.jobs.map Job.vanish }

/-- Carries out one step of a script. -/
def perform (s : Scheduler) : Step → Scheduler × Answer
  | .call c => s.call none c
  | .settle => (s.settle, .nothing)
  | .advance ms => (s.advance ms, .nothing)
  | .stall ms => (s.stall ms, .nothing)
  | .shutdown => (s.shutdown, .nothing)

/-- The tag of a runner in events; nobody has the empty tag. -/
def tag (s : Scheduler) (actor : Option JobId) : String :=
  match actor.bind (s.jobs[·]?) with
  | some job => job.tag
  | none => ""

/-- The events since `earlier`, as they were written. -/
def eventsSince (s earlier : Scheduler) : List Event :=
  (s.history.take (s.history.length - earlier.history.length)).reverse

/-- Events with the tags of their actors by time, then by tag; otherwise as they were written. -/
def arranged (s : Scheduler) (events : List Event) : List (String × Event) :=
  (events.map fun e => (s.tag e.actor, e)).mergeSort fun a b =>
    if a.2.time ≠ b.2.time then decide (a.2.time < b.2.time) else decide (a.1 ≤ b.1)

end Scheduler

/-- What can be seen of a scheduler after a step. -/
structure Sighting where
  answer : Answer
  time : Int
  events : List (String × Event)
  /-- The registered names, with whether each job is active. -/
  jobs : List (String × Bool)
  tallies : Tallies

namespace Scheduler

/-- What can be seen after a step from `earlier` that answered `answer`. -/
def sighting (s earlier : Scheduler) (answer : Answer) : Sighting :=
  { answer := answer
    time := s.now
    events := s.arranged (s.eventsSince earlier)
    jobs := s.names.map fun name => (name, (s.isActive name).getD false)
    tallies := s.monitor.tallies.sorted }

/-- Carries out a script, with what can be seen after each step. -/
def play (s : Scheduler) : List Step → Scheduler × List Sighting
  | [] => (s, [])
  | step :: rest =>
    let (next, answer) := s.perform step
    let (last, sightings) := next.play rest
    (last, next.sighting s answer :: sightings)

/-- A scheduler before anything was asked of it. -/
def initial (monitor : Monitor) (logging : Bool) : Scheduler :=
  { monitor := monitor, logging := logging }

end Scheduler

end JobScheduler
