import JobScheduler.LogFilter
import JobScheduler.Settings

/-!
Setting up log output in a process. The filter is the environment's if that can be read, and
otherwise the one in the settings. Only one subscriber can be installed, so that the first call
with a filter decides for good; it writes an event of its own that says so.
-/

namespace JobScheduler

/-- What is installed: a filter, and the layout of what passes it. -/
structure Subscriber where
  filter : LogFilter
  layout : LogFormat
deriving DecidableEq, Repr

namespace LogOutput

/-- The target of the event that tells of the installation, and the names of its fields. -/
def ownTarget : String := "chaind_core::telemetry"

def ownFields : List String := ["message", "level", "format"]

/-- The filter of a call, if it has one. -/
def filter? (environment : Option String) (s : LoggingSettings) : Option LogFilter :=
  (environment.bind LogFilter.parse?).or (LogFilter.parse? s.level)

/-- One call: what is installed after it, and whether it installed that. -/
def install (environment : Option String) (installed : Option Subscriber) (s : LoggingSettings) :
    Option Subscriber × Bool :=
  match filter? environment s, installed with
  | some filter, none => (some ⟨filter, s.format⟩, true)
  | _, installed => (installed, false)

/-- A sequence of calls: what is installed after them, and which of them installed it. -/
def installAll (environment : Option String) (installed : Option Subscriber) :
    List LoggingSettings → Option Subscriber × List Bool
  | [] => (installed, [])
  | s :: rest =>
    let (next, ok) := install environment installed s
    let (last, oks) := installAll environment next rest
    (last, ok :: oks)

/-- How many levels of a target's events, with any fields, are enabled, from errors on. -/
def enabled (installed : Option Subscriber) (target : String) : Nat :=
  match installed with
  | some s => (s.filter.verbosity target none).rank
  | none => 0

/-- The layout in which the installation is told, if its event passes the filter. -/
def announcement? (installed : Option Subscriber) : Option LogFormat :=
  installed.bind fun s =>
    let verbosity := s.filter.verbosity ownTarget (some ownFields)
    if Verbosity.debug.rank ≤ verbosity.rank then some s.layout else none

end LogOutput

end JobScheduler
