import JobScheduler.Event
import JobScheduler.Record
import JobScheduler.Token

/-!
The state of a scheduler with its runners: the clock, the tokens, the registry of names, every job
that was ever registered with its record and what its runner is at, and the history of events.

A job is never dropped from `Scheduler.jobs`; its place in that list is its identity, and the
registry maps a name to the job that holds the name now.
-/

namespace JobScheduler

/-- What a runner waits for before it carries out the next action. -/
inductive Pause where
  | none
  | clock (deadline : Int)
  | token
deriving DecidableEq, Repr

/-- The longest time in milliseconds that a clock is waited for: thirty years of 365 days. -/
def longestWait : Int := 30 * 365 * 24 * 60 * 60 * 1000

/-- When a wait of a length that begins now is over. -/
def waitUntil (now length : Int) : Int := now + min (max length 0) longestWait

theorem le_waitUntil (now length : Int) : now ≤ waitUntil now length := by
  unfold waitUntil longestWait
  omega

theorem waitUntil_le (now : Int) (ms : Nat) : waitUntil now ms ≤ now + ms := by
  unfold waitUntil
  omega

/-- The last millisecond that has a date: the end of the year 262142, where 0 is 22:13:20 on
14 November 2023. -/
def lastDated : Int := 8208566876799999

/-- What a runner is at. -/
inductive Phase where
  /-- About to wait for the instant of a one-off job. -/
  | spawned (instant : Int)
  /-- About to call the runtime function. -/
  | looping
  /-- In the runtime function: what is left to do, and what it will return. -/
  | planning (pause : Pause) (rest : List Action) (result : Except RuntimeError Moment)
  /-- Waiting for the job's instant, with or without a timer. -/
  | waiting (instant : Int) (timer : Option Int)
  /-- In the job function: what is left to do. -/
  | running (instant : Int) (pause : Pause) (rest : List Action)
  /-- Ended by itself. -/
  | returned
  /-- Gone without having ended. -/
  | vanished

def Phase.alive : Phase → Bool
  | returned | vanished => false
  | _ => true

/-- A job: its record and its runner. -/
structure Job where
  record : Record
  tag : String
  token : Token
  counter : String
  work : Work
  plan : Plan Action
  /-- How many times the job function was entered. -/
  runs : Nat := 0
  /-- How many times the runtime function was called. -/
  asks : Nat := 0
  phase : Phase

namespace Job

/-- The job once its runner is gone, in whatever way. -/
def leave (j : Job) (phase : Phase) : Job := { j with record := j.record.abandon, phase := phase }

/-- The job when the runners are dropped: one that lives is gone, and nothing else changes. -/
def vanish (j : Job) : Job := if j.phase.alive then j.leave .vanished else j

/-- When the runner of a job can go on without anything but time passing. -/
def deadline? (j : Job) : Option Int :=
  match j.phase with
  | .waiting _ timer => timer
  | .planning (.clock deadline) _ _ | .running _ (.clock deadline) _ => some deadline
  | _ => none

end Job

structure Scheduler where
  now : Int := 0
  tokens : Tokens := Tokens.initial
  registry : List (String × JobId) := []
  jobs : List Job := []
  counters : List (String × Nat) := []
  monitor : Monitor := .recording
  /-- Whether log entries are collected. -/
  logging : Bool := false
  /-- All events so far, the latest first. -/
  history : List Event := []

namespace Scheduler

def emit (s : Scheduler) (actor : Option JobId) (what : Happening) : Scheduler :=
  { s with history := ⟨s.now, actor, what⟩ :: s.history }

def log (s : Scheduler) (actor : Option JobId) (entry : LogEntry) : Scheduler :=
  if s.logging then s.emit actor (.logged entry) else s

/-- Tells the monitor about job `about`; only a recording monitor makes an event of it. -/
def report (s : Scheduler) (actor : Option JobId) (about : JobId) (cls : String) (r : Report) :
    Scheduler :=
  match s.monitor with
  | .recording => s.emit actor (.reported about r cls)
  | monitor => { s with monitor := monitor.observe r cls }

def updateJob (s : Scheduler) (i : JobId) (f : Job → Job) : Scheduler :=
  { s with jobs := s.jobs.modify i f }

def updateRecord (s : Scheduler) (i : JobId) (f : Record → Record) : Scheduler :=
  s.updateJob i fun j => { j with record := f j.record }

def setPhase (s : Scheduler) (i : JobId) (phase : Phase) : Scheduler :=
  s.updateJob i fun j => { j with phase := phase }

/-- The job registered under a name. -/
def find? (s : Scheduler) (name : String) : Option (JobId × Job) :=
  (s.registry.lookup name).bind fun i => s.jobs[i]?.map (i, ·)

def isRegistered (s : Scheduler) (name : String) : Bool := (s.registry.lookup name).isSome

/-- The names in the registry, by code point. -/
def names (s : Scheduler) : List String :=
  (s.registry.map (·.1)).mergeSort fun a b => decide (a ≤ b)

/-- Whether the job registered under a name is active, if there is one. -/
def isActive (s : Scheduler) (name : String) : Option Bool :=
  (s.find? name).map fun found => found.2.record.active

/-- Takes a name out of the registry. -/
def unregister (s : Scheduler) (name : String) : Scheduler :=
  { s with registry := s.registry.filter fun entry => entry.1 ≠ name }

/-- Takes job `i` out of the registry if it still holds its name. A job registered later under the
same name is left alone. -/
def remove (s : Scheduler) (actor : Option JobId) (i : JobId) (name : String) : Scheduler :=
  if s.registry.lookup name = some i then (s.unregister name).log actor (.unregistered name) else s

/-- The value of a counter that executions share. -/
def count (s : Scheduler) (counter : String) : Nat := (s.counters.lookup counter).getD 0

def setCount (s : Scheduler) (counter : String) (n : Nat) : Scheduler :=
  { s with counters := (counter, n) :: s.counters.filter fun entry => entry.1 ≠ counter }

end Scheduler

end JobScheduler
