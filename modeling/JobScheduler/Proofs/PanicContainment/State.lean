import JobScheduler.Proofs.PanicContainment.Script
import JobScheduler.Proofs.Simulation.Turn

/-!
Two schedulers side by side whose scripts differ in panics of job functions that the second does
without. They agree in everything but what is left to do of the functions and what the events tell
of their ends: they are akin (`Scheduler.calmed_iff`).
-/

namespace JobScheduler

inductive Phase.Calmed : Phase → Phase → Prop where
  | spawned (instant : Int) : Phase.Calmed (.spawned instant) (.spawned instant)
  | looping : Phase.Calmed .looping .looping
  | planning {rest rest' : List Action} (pause : Pause) (result : Except RuntimeError Moment) :
      List.Forall₂ Action.Calmed rest rest' →
      Phase.Calmed (.planning pause rest result) (.planning pause rest' result)
  | waiting (instant : Int) (timer : Option Int) :
      Phase.Calmed (.waiting instant timer) (.waiting instant timer)
  | running {rest rest' : List Action} (instant : Int) (pause : Pause) : Body.Calmed rest rest' →
      Phase.Calmed (.running instant pause rest) (.running instant pause rest')
  | returned : Phase.Calmed .returned .returned
  | vanished : Phase.Calmed .vanished .vanished

/-- Whether the second job is the first with some panics taken out of its functions. -/
structure Job.Calmed (j j' : Job) : Prop where
  record : j'.record = j.record
  tag : j'.tag = j.tag
  token : j'.token = j.token
  counter : j'.counter = j.counter
  work : List.Forall₂ Func.Calmed j.work j'.work
  plan : Plan.Calmed j.plan j'.plan
  runs : j'.runs = j.runs
  asks : j'.asks = j.asks
  phase : Phase.Calmed j.phase j'.phase

/-- Whether two schedulers agree in everything but their histories, and in what is left to do of the
functions up to panics that the second does without. -/
structure Scheduler.Calmed (s t : Scheduler) : Prop where
  now : t.now = s.now
  tokens : t.tokens = s.tokens
  registry : t.registry = s.registry
  jobs : List.Forall₂ Job.Calmed s.jobs t.jobs
  counters : t.counters = s.counters
  monitor : t.monitor = s.monitor
  logging : t.logging = s.logging

/-- Whether besides the same events were written since the histories were `base` and `base'`. -/
structure Scheduler.CalmedSince (s : Scheduler) (base base' : List Event) (t : Scheduler) : Prop
    extends Scheduler.Calmed s t where
  events : ∃ events, s.history = events ++ base ∧ t.history = events ++ base'

theorem Phase.calmed_iff {p p' : Phase} : Phase.Calmed p p' ↔ Phase.Akin calmed p p' := by
  constructor
  · intro h
    cases h with
    | spawned instant => exact .spawned instant
    | looping => exact .looping
    | planning pause result hrest => exact .planning pause (.mk hrest rfl)
    | waiting instant timer => exact .waiting instant timer
    | running instant pause hrest => exact .running instant pause hrest
    | returned => exact .returned
    | vanished => exact .vanished
  · intro h
    cases h with
    | spawned instant => exact .spawned instant
    | looping => exact .looping
    | @planning rest rest' result result' pause hcourse =>
        obtain ⟨hrest, hresult⟩ := hcourse
        obtain rfl : result' = result := hresult
        exact .planning pause result' hrest
    | waiting instant timer => exact .waiting instant timer
    | running instant pause hrest => exact .running instant pause hrest
    | returned => exact .returned
    | vanished => exact .vanished

theorem Job.calmed_iff {j j' : Job} : j.Calmed j' ↔ j.Akin calmed j' := by
  constructor
  · rintro ⟨hrecord, htag, htoken, hcounter, hwork, hplan, hruns, hasks, hphase⟩
    exact ⟨hrecord, htag, htoken, hcounter, hwork, hplan, hruns, hasks, Phase.calmed_iff.mp hphase⟩
  · rintro ⟨hrecord, htag, htoken, hcounter, hwork, hplan, hruns, hasks, hphase⟩
    exact ⟨hrecord, htag, htoken, hcounter, hwork, hplan, hruns, hasks, Phase.calmed_iff.mpr hphase⟩

namespace Scheduler

variable {s t : Scheduler} {base base' : List Event}

theorem calmed_iff : s.Calmed t ↔ s.Akin calmed t := by
  constructor
  · rintro ⟨hnow, htokens, hregistry, hjobs, hcounters, hmonitor, hlogging⟩
    have hakin := hjobs.imp fun _ _ => Job.calmed_iff.mp
    exact ⟨hnow, htokens, hregistry, hakin, hcounters, hmonitor, hlogging⟩
  · rintro ⟨hnow, htokens, hregistry, hjobs, hcounters, hmonitor, hlogging⟩
    have hcalmed := hjobs.imp fun _ _ => Job.calmed_iff.mpr
    exact ⟨hnow, htokens, hregistry, hcalmed, hcounters, hmonitor, hlogging⟩

theorem AkinSince.calmed (h : s.AkinSince calmed base base' t) : s.CalmedSince base base' t where
  toCalmed := calmed_iff.mpr h.toAkin
  events := h.events

end Scheduler

end JobScheduler
