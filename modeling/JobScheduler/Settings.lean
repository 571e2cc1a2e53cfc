/-!
The settings of a program that schedules jobs, with their defaults.

`Settings.read` reads them from a tree of values in any notation that says what a structure, a
text, a format and a truth value are in it. A field that is missing takes its default, a section
that is missing takes the default of sections of its kind, and what is there must be readable.
-/

namespace JobScheduler

/-- The layout of log output. -/
inductive LogFormat where
  | pretty
  | compact
  | json
deriving DecidableEq, Repr

namespace LogFormat

def name : LogFormat → String
  | pretty => "pretty"
  | compact => "compact"
  | json => "json"

def ofName? (s : String) : Option LogFormat :=
  [pretty, compact, json].find? fun f => f.name = s

protected def default : LogFormat := pretty

end LogFormat

/-- The level of a section without one. -/
def defaultLevel : String := "info"

/-- Whether job counters are kept where a section does not say it. -/
def metricsByDefault : Bool := true

structure LoggingSettings where
  /-- The filter of log events where the environment gives none. -/
  level : String := defaultLevel
  format : LogFormat := .default
deriving DecidableEq, Repr

/-- The section where there is none. -/
protected def LoggingSettings.default : LoggingSettings where
  level := defaultLevel
  format := .default

structure SchedulerSettings where
  /-- Whether job counters are kept. -/
  metrics : Bool := metricsByDefault
deriving DecidableEq, Repr

/-- The section where there is none. -/
protected def SchedulerSettings.default : SchedulerSettings where
  metrics := true

structure Settings where
  logging : LoggingSettings := .default
  scheduler : SchedulerSettings := .default
deriving DecidableEq, Repr

protected def Settings.default : Settings where
  logging := .default
  scheduler := .default

/-- How settings are written in trees of type `δ`. -/
structure Reading (δ : Type) where
  /-- The fields of a structure, of which the names are given in order. -/
  fields? : List String → δ → Option (List (String × δ))
  text? : δ → Option String
  format? : δ → Option LogFormat
  flag? : δ → Option Bool

/-- A field that may be missing. -/
def fieldOr {δ α : Type} (fields : List (String × δ)) (name : String) (read : δ → Option α)
    (default : α) : Option α :=
  match fields.lookup name with
  | some d => read d
  | none => some default

def LoggingSettings.read {δ : Type} (r : Reading δ) (d : δ) : Option LoggingSettings := do
  let fields ← r.fields? ["level", "format"] d
  let level ← fieldOr fields "level" r.text? defaultLevel
  let format ← fieldOr fields "format" r.format? .default
  return { level := level, format := format }

def SchedulerSettings.read {δ : Type} (r : Reading δ) (d : δ) : Option SchedulerSettings := do
  let fields ← r.fields? ["metrics"] d
  let metrics ← fieldOr fields "metrics" r.flag? metricsByDefault
  return { metrics := metrics }

def Settings.read {δ : Type} (r : Reading δ) (d : δ) : Option Settings := do
  let fields ← r.fields? ["logging", "scheduler"] d
  let logging ← fieldOr fields "logging" (LoggingSettings.read r) .default
  let scheduler ← fieldOr fields "scheduler" (SchedulerSettings.read r) .default
  return { logging := logging, scheduler := scheduler }

end JobScheduler
