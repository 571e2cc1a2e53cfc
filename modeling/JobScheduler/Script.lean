import JobScheduler.Error

/-!
What is asked of a scheduler: the calls on its service, the work of job functions and runtime
functions as lists of actions, and scripts of steps that mix calls with the passing of time.
-/

namespace JobScheduler

/-- A point in time, fixed or counted from the moment at which it is needed. -/
inductive Moment where
  | fixed (instant : Int)
  | after (ms : Int)
deriving DecidableEq, Repr

def Moment.resolve (now : Int) : Moment → Int
  | fixed instant => instant
  | after ms => now + ms

/-- What a panic carries. -/
inductive Payload where
  | text (message : String)
  | other
deriving DecidableEq, Repr

def Payload.message : Payload → String
  | text message => message
  | other => "non-string panic payload"

/-- One call of a runtime function: what it does first, and its result. -/
structure Entry (α : Type) where
  actions : List α
  result : Except RuntimeError Moment

/-- A runtime function, by its calls: the entries in order, and once they are used up an instant
each `every` milliseconds, at least one; without `every` there are no more instances. -/
structure Plan (α : Type) where
  entries : List (Entry α)
  every : Option Int

namespace Plan

def empty {α : Type} : Plan α := ⟨[], none⟩

/-- The `k`-th call, counted from zero. -/
def entry {α : Type} (p : Plan α) (k : Nat) : Entry α :=
  match p.entries[k]? with
  | some e => e
  | none =>
    match p.every with
    | some ms => ⟨[], .ok (.after (max ms 1))⟩
    | none => ⟨[], .error .noMoreInstances⟩

end Plan

/-- Who a job is: the tag on its runner's events, its name and class, the name of its parent token
and of the counter its executions share, and whether the call is made where no runner can live. -/
structure JobOrder where
  tag : String
  name : String
  cls : String
  parent : String
  counter : String
  outside : Bool := false
deriving DecidableEq, Repr

mutual

/-- One thing that a job function or a runtime function does. -/
inductive Action where
  /-- Wait for a while; a negative time is none. -/
  | sleep (ms : Int)
  /-- Look whether the token is cancelled. -/
  | context
  /-- Wait until the token is cancelled. -/
  | awaitContext
  | call (c : Call)
  | panic (payload : Payload)
  /-- Panic before there is anything to wait for. It counts only as the first action. -/
  | earlyPanic (payload : Payload)

/-- A call on the service or on the tokens. The work of a job is the list of its executions. -/
inductive Call where
  | schedule (order : JobOrder) (work : Option (List (List Action))) (instant : Moment)
  | schedulePeriodic (order : JobOrder) (work : Option (List (List Action)))
      (plan : Option (Plan Action))
  | run (name : String)
  | runIfExists (name : String)
  | cancel (name : String)
  | cancelIfExists (name : String)
  /-- Cancel every job whose name starts with `stem`. -/
  | cancelAll (stem : String)
  | isRegistered (name : String)
  | isActive (name : String)
  | names
  | describe
  | newToken (name : String) (above : Option String)
  | cancelToken (name : String)

end

/-- What each execution of a job does, in order. -/
abbrev Work := List (List Action)

namespace Work

/-- The `k`-th execution, counted from zero: the last one given is used for all that follow, and
without any an execution does nothing. -/
def body (w : Work) (k : Nat) : List Action :=
  match w[k]? with
  | some b => b
  | none => w.getLast?.getD []

end Work

namespace Action

/-- A list of actions as it is carried out: an early panic at its head is a panic. -/
def opened : List Action → List Action
  | earlyPanic payload :: rest => panic payload :: rest
  | actions => actions

end Action

/-- What a call answers. -/
inductive Answer where
  | nothing
  | done
  | refused (e : ServiceError)
  /-- The call was made outside any runtime, where a runner cannot be started. -/
  | panicked
  | flag (value : Bool)
  | maybeFlag (value : Option Bool)
  | list (names : List String)
  | text (value : String)
deriving DecidableEq, Repr

def Answer.ofResult : Except ServiceError Unit → Answer
  | .ok () => done
  | .error e => refused e

/-- The word for a call in events. -/
def Call.verb : Call → String
  | schedule .. => "schedule"
  | schedulePeriodic .. => "periodic"
  | run _ => "run"
  | runIfExists _ => "run_if_exists"
  | cancel _ => "cancel"
  | cancelIfExists _ => "cancel_if_exists"
  | cancelAll _ => "cancel_jobs"
  | isRegistered _ => "exists"
  | isActive _ => "active"
  | names => "list"
  | describe => "debug"
  | newToken .. => "token"
  | cancelToken _ => "cancel_token"

/-- One step of a script. -/
inductive Step where
  | call (c : Call)
  /-- Every runner that can go on does, until none can. -/
  | settle
  /-- Time passes, and runners go on as their deadlines are reached. -/
  | advance (ms : Nat)
  /-- Time passes and no runner goes on. -/
  | stall (ms : Nat)
  /-- All runners vanish. -/
  | shutdown

end JobScheduler
