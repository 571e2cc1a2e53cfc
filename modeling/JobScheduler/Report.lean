/-!
What a scheduler reports about its jobs, and the observers that take the reports: one that records
each of them, one that counts them by class, and one that ignores them.
-/

namespace JobScheduler

/-- What started an execution: a request to run now, or the job's instant. -/
inductive Trigger where
  | signal
  | timer
deriving DecidableEq, Repr

/-- A report about a job of some class. -/
inductive Report where
  | scheduled
  | cancelled
  | started (trigger : Trigger)
deriving DecidableEq, Repr

/-- A family of counters. -/
inductive Counter where
  | scheduled
  | cancelled
  | started
deriving DecidableEq, Repr

namespace Counter

def name : Counter → String
  | scheduled => "chaind_scheduler_jobs_scheduled_total"
  | cancelled => "chaind_scheduler_jobs_cancelled_total"
  | started => "chaind_scheduler_jobs_started_total"

def description : Counter → String
  | scheduled => "Number of jobs scheduled"
  | cancelled => "Number of jobs cancelled or retired without running"
  | started => "Number of job executions started"

/-- All families, in the order in which they are described. -/
def all : List Counter := [scheduled, cancelled, started]

end Counter

def Trigger.label : Trigger → String
  | signal => "signal"
  | timer => "timer"

/-- One counter: its family and its labels. -/
structure Series where
  counter : Counter
  labels : List (String × String)
deriving DecidableEq, Repr

/-- The counter that a report about a job of class `cls` adds one to. -/
def Report.series (report : Report) (cls : String) : Series :=
  match report with
  | scheduled => ⟨.scheduled, [("class", cls)]⟩
  | cancelled => ⟨.cancelled, [("class", cls)]⟩
  | started trigger => ⟨.started, [("class", cls), ("trigger", trigger.label)]⟩

/-- The counters that were added to, each with its total. -/
abbrev Tallies := List (Series × Nat)

namespace Tallies

def total (t : Tallies) (s : Series) : Nat := (t.lookup s).getD 0

def add : Tallies → Series → Tallies
  | [], s => [(s, 1)]
  | (s', n) :: rest, s => if s' = s then (s', n + 1) :: rest else (s', n) :: add rest s

/-- Whether one label list stands before another: by code point, label after label. -/
def labelsLE : List (String × String) → List (String × String) → Bool
  | [], _ => true
  | _ :: _, [] => false
  | (k, v) :: rest, (k', v') :: rest' =>
    if k ≠ k' then decide (k < k')
    else if v ≠ v' then decide (v < v')
    else labelsLE rest rest'

/-- The counters by name, then by labels. -/
def sorted (t : Tallies) : Tallies :=
  t.mergeSort fun a b =>
    if a.1.counter.name ≠ b.1.counter.name then decide (a.1.counter.name < b.1.counter.name)
    else labelsLE a.1.labels b.1.labels

end Tallies

/-- The observer of a scheduler. -/
inductive Monitor where
  /-- Each report becomes an event. -/
  | recording
  /-- Each report adds one to a counter. -/
  | counting (tallies : Tallies)
  /-- Reports are ignored. -/
  | silent
deriving DecidableEq, Repr

namespace Monitor

/-- The monitor after a report about a job of class `cls`. -/
def observe (report : Report) (cls : String) : Monitor → Monitor
  | counting tallies => counting (tallies.add (report.series cls))
  | recording => recording
  | silent => silent

def tallies : Monitor → Tallies
  | counting tallies => tallies
  | recording | silent => []

/-- The counters a monitor describes when it is made. -/
def described : Monitor → List Counter
  | counting _ => Counter.all
  | recording | silent => []

end Monitor

end JobScheduler
