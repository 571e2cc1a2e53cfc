/-!
A signal channel: one slot between the holders of a job's record and the job's runner. A signal is
placed only into an open channel whose slot is empty and whose receiver exists, and one that was
placed can be taken even after the sending side was closed.
-/

namespace JobScheduler

structure Channel where
  /-- Whether the sending side is open. -/
  sending : Bool := true
  /-- Whether a signal is in the slot. -/
  pending : Bool := false
  /-- Whether the receiver exists. -/
  listening : Bool := true
deriving DecidableEq, Repr

/-- What the receiver finds. -/
inductive Receipt where
  | signal
  | empty
  | closed
  | dropped
deriving DecidableEq, Repr

namespace Channel

def send? (c : Channel) : Option Channel :=
  if c.sending && c.listening && !c.pending then some { c with pending := true } else none

def close (c : Channel) : Channel := { c with sending := false }

/-- The receiver goes away, and a signal in the slot with it. -/
def drop (c : Channel) : Channel := { c with listening := false, pending := false }

/-- The slot after the receiver took what was in it. -/
def take (c : Channel) : Channel := { c with pending := false }

def receipt (c : Channel) : Receipt :=
  if !c.listening then .dropped
  else if c.pending then .signal
  else if c.sending then .empty
  else .closed

end Channel

end JobScheduler
