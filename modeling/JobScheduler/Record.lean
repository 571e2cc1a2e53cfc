import JobScheduler.Channel
import JobScheduler.Error

/-!
The record of one scheduled job: its name and class, whether it is active and finalised, and the
two channels by which its runner is told to run now and to stop.

`Record.triggerRun` answers with an error or places one run signal, `Record.cancel` finalises once,
and `Record.finalise` is the end: both channels are closed for good.
-/

namespace JobScheduler

structure Record where
  name : String
  cls : String
  periodic : Bool
  active : Bool := false
  finalised : Bool := false
  cancelling : Channel := {}
  running : Channel := {}
deriving DecidableEq, Repr

namespace Record

/-- Claims the record for an execution; refused while it is active. -/
def tryActivate (r : Record) : Record × Bool :=
  if r.active then (r, false) else ({ r with active := true }, true)

def deactivate (r : Record) : Record := { r with active := false }

/-- Marks the job active and signals its runner. The slot is empty whenever the job is inactive, so
the signal is lost only where there is no runner to take it, and then the mark is taken back. -/
def triggerRun (r : Record) : Record × Except ServiceError Unit :=
  if r.active then (r, .error (.jobRunning r.name))
  else if r.finalised then (r, .error (.jobFinalised r.name))
  else
    let claimed := r.tryActivate.1
    match claimed.running.send? with
    | some channel => ({ claimed with running := channel }, .ok ())
    | none => (claimed.deactivate, .error (.jobFinalised r.name))

/-- Finalises the job and signals its runner to stop; false if the job was finalised before. -/
def cancel (r : Record) : Record × Bool :=
  if r.finalised then (r, false)
  else
    let ended := { r with finalised := true }
    ({ ended with cancelling := (ended.cancelling.send?).getD ended.cancelling }, true)

/-- Ends the job: both channels are closed and it is no longer active. -/
def finalise (r : Record) : Record :=
  { r with
    active := false
    finalised := true
    cancelling := r.cancelling.close
    running := r.running.close }

/-- The record once its runner is gone, and with it both receivers. -/
def abandon (r : Record) : Record :=
  { r with cancelling := r.cancelling.drop, running := r.running.drop }

def takeRun (r : Record) : Record := { r with running := r.running.take }

def takeCancel (r : Record) : Record := { r with cancelling := r.cancelling.take }

/-- What can be done to a record and its receivers. -/
inductive Operation where
  | triggerRun
  | cancel
  | tryActivate
  | deactivate
  | finalise
  | receiveRun
  | receiveCancel
  | dropRun
  | dropCancel
deriving DecidableEq, Repr

/-- What an operation answers. -/
inductive Reply where
  | nothing
  | flag (value : Bool)
  | result (outcome : Except ServiceError Unit)
  | receipt (found : Receipt)

def perform (r : Record) : Operation → Record × Reply
  | .triggerRun => (r.triggerRun.1, .result r.triggerRun.2)
  | .cancel => (r.cancel.1, .flag r.cancel.2)
  | .tryActivate => (r.tryActivate.1, .flag r.tryActivate.2)
  | .deactivate => (r.deactivate, .nothing)
  | .finalise => (r.finalise, .nothing)
  | .receiveRun => (r.takeRun, .receipt r.running.receipt)
  | .receiveCancel => (r.takeCancel, .receipt r.cancelling.receipt)
  | .dropRun => ({ r with running := r.running.drop }, .nothing)
  | .dropCancel => ({ r with cancelling := r.cancelling.drop }, .nothing)

/-- Each operation's reply with the record after it. -/
def performAll (r : Record) : List Operation → List (Reply × Record)
  | [] => []
  | op :: rest => ((r.perform op).2, (r.perform op).1) :: (r.perform op).1.performAll rest

end Record

end JobScheduler
