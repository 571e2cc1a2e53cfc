import JobScheduler.Proofs.Run
import JobScheduler.Proofs.Situation

/-!
The life of one job, told without the rest of the scheduler. Calls touch a job, its runner takes
turns, time passes and the runners may be dropped; `Life` is any sequence of these, with the marks
it leaves, the latest first.
-/

namespace JobScheduler

/-- Whether the runner is in the job function. -/
def Phase.isRunning : Phase → Bool
  | running .. => true
  | _ => false

/-- What the runner waits for after an action that is carried out at `now`. -/
def Action.pause (now : Int) : Action → Pause
  | sleep ms => .clock (waitUntil now ms)
  | awaitContext => .token
  | _ => .none

/-- Whether a function ends before this list of actions: nothing is left, or it panics. -/
def Action.over : List Action → Bool
  | [] | panic _ :: _ => true
  | _ => false

/-- Whether the next step of the runner is to begin to wait: for the instant of a one-off job, or
for the one that the runtime function returns. -/
def Job.BeginsToWait (j : Job) : Prop :=
  (∃ instant, j.phase = .spawned instant) ∨
    ∃ pause moment, j.phase = .planning pause [] (.ok moment)

namespace Situation

/-- The job after a request to run it now. -/
def requestRun (v : Situation) : Situation :=
  { v.withRecord (·.triggerRun.1) with registered := v.job.record.periodic }

/-- The job after a request to stop it. -/
def requestStop (v : Situation) : Situation :=
  (v.withRecord (·.cancel.1)).unlisted

/-- The mark of a run signal that is in the slot when the runner ends. -/
def leftover (v : Situation) : List Mark := if v.job.record.running.pending then [.lost] else []

/-- The marks of beginning to wait, where the runner is gone if now has no date. -/
def awaitMarks (v : Situation) : List Mark := if v.now ≤ lastDated then [] else v.leftover

/-- Whether the next step of the job's runner starts an execution on a run signal. -/
def isSignalled (v : Situation) : Bool :=
  match v.job.phase with
  | .waiting _ _ =>
    !v.orphaned && !v.job.record.cancelling.pending && v.job.record.running.pending
  | _ => false

/-- The marks of dropping the runner. -/
def vanishMarks (v : Situation) : List Mark := if v.job.phase.alive then v.leftover else []

end Situation

/-- A job that nothing has happened to yet. -/
structure Job.Fresh (j : Job) : Prop where
  record : j.record = { name := j.record.name, cls := j.record.cls, periodic := j.record.periodic }
  runs : j.runs = 0
  asks : j.asks = 0
  phase : (∃ instant, j.phase = .spawned instant) ∧ j.record.periodic = false ∨
    j.phase = .looping ∧ j.record.periodic = true

/-- The situation of a job that was just registered, with its runner or where none can live. -/
inductive Situation.Born : Situation → Prop where
  | inside {v : Situation} : v.registered = true → v.job.Fresh → Born v
  | outside {v : Situation} {j : Job} :
      v.registered = true → j.Fresh → v.job = j.leave .vanished → Born v

/-- What a call does to a job. -/
inductive Touch : Situation → List Mark → Situation → Prop where
  | none (v : Situation) : Touch v [] v
  | accept {v : Situation} :
      v.registered = true → v.job.record.triggerRun.2 = .ok () → Touch v [.accepted] v.requestRun
  | refuse {v : Situation} {e : ServiceError} :
      v.registered = true → v.job.record.triggerRun.2 = .error e → Touch v [] v.requestRun
  | stop {v : Situation} : v.registered = true → Touch v [] v.requestStop
  | orphan (v : Situation) (above : Bool) :
      Touch v [] { v with orphaned := above || v.orphaned }

/-- What a step of its runner does to a job. -/
inductive Turn : Situation → List Mark → Situation → Prop where
  | begin {v : Situation} {instant : Int} :
      v.job.phase = .spawned instant → Turn v v.awaitMarks (v.await instant)
  | ask {v : Situation} : v.job.phase = .looping → Turn v [.asked] v.ask
  /-- An action of the runtime function; a call may touch the job itself. -/
  | plan {v v' : Situation} {ms : List Mark} {pause : Pause} {action : Action}
      {rest : List Action} {result : Except RuntimeError Moment} :
      v.job.phase = .planning pause (action :: rest) result → v.isOver pause = true →
      Touch v ms v' → ((∀ c, action ≠ .call c) → ms = [] ∧ v' = v) →
      Turn v ms (v'.withPhase (.planning (action.pause v.now) rest result))
  /-- The runtime function returns an instant. -/
  | arrange {v : Situation} {pause : Pause} {moment : Moment} :
      v.job.phase = .planning pause [] (.ok moment) → v.isOver pause = true →
      Turn v v.awaitMarks (v.await (moment.resolve v.now))
  /-- The runtime function returns an error or panics. -/
  | giveUp {v : Situation} {pause : Pause} {rest : List Action}
      {result : Except RuntimeError Moment} :
      v.job.phase = .planning pause rest result → v.isOver pause = true →
      Action.over rest = true → (rest = [] → ∃ e, result = .error e) →
      Turn v (.reported .cancelled :: v.leftover) v.retire
  | orphaned {v : Situation} {instant : Int} {timer : Option Int} :
      v.job.phase = .waiting instant timer → v.orphaned = true →
      Turn v (.reported .cancelled :: v.leftover) v.retire
  | stopped {v : Situation} {instant : Int} {timer : Option Int} :
      v.job.phase = .waiting instant timer → v.orphaned = false →
      v.job.record.cancelling.pending = true →
      Turn v (.reported .cancelled :: v.leftover) (v.withRecord Record.takeCancel).stop
  | signalled {v : Situation} {instant : Int} {timer : Option Int} :
      v.job.phase = .waiting instant timer → v.orphaned = false →
      v.job.record.cancelling.pending = false → v.job.record.running.pending = true →
      Turn v [.entered, .reported (.started .signal)] ((v.withRecord Record.takeRun).start instant)
  /-- The timer ends the wait of a job that is active. -/
  | skipped {v : Situation} {instant : Int} {timer : Option Int} :
      v.job.phase = .waiting instant timer → v.job.record.running.pending = false →
      v.job.record.active = true →
      Turn v [] (v.withPhase (if v.job.record.periodic then .looping else .waiting instant .none))
  | timed {v : Situation} {instant t : Int} :
      v.job.phase = .waiting instant (some t) → t ≤ v.now → v.orphaned = false →
      v.job.record.cancelling.pending = false → v.job.record.running.pending = false →
      v.job.record.active = false →
      Turn v [.entered, .reported (.started .timer)]
        ({ v.withRecord (·.tryActivate.1) with
          registered := v.registered && v.job.record.periodic }.start instant)
  /-- An action of the job function; a call may touch the job itself. -/
  | act {v v' : Situation} {ms : List Mark} {instant : Int} {pause : Pause} {action : Action}
      {rest : List Action} :
      v.job.phase = .running instant pause (action :: rest) → v.isOver pause = true →
      Touch v ms v' → ((∀ c, action ≠ .call c) → ms = [] ∧ v' = v) →
      Turn v ms (v'.withPhase (.running instant (action.pause v.now) rest))
  | complete {v : Situation} {instant : Int} {pause : Pause} {rest : List Action} :
      v.job.phase = .running instant pause rest → v.isOver pause = true →
      Action.over rest = true →
      Turn v (if v.job.record.periodic then [] else v.leftover) v.complete

/-- Whether a move is a step of the runner of job `i`. -/
def Move.isTurnOf (i : JobId) : Move → Bool
  | turn k => k == i
  | _ => false

/-- What a move does to job `i`. -/
inductive Change (i : JobId) : Move → Situation → List Mark → Situation → Prop where
  | touch {m : Move} {v v' : Situation} {ms : List Mark} :
      m ≠ .turn i → Touch v ms v' → Change i m v ms v'
  | turn {v v' : Situation} {ms : List Mark} : Turn v ms v' → Change i (.turn i) v ms v'
  | pass (v : Situation) (ms : Nat) : Change i (.pass ms) v [] { v with now := v.now + ms }
  | vanish (v : Situation) : Change i .shutdown v v.vanishMarks (v.update Job.vanish)

/-- A part of the life of job `i`, with its marks. -/
inductive Life (i : JobId) (first : Situation) : List Mark → Situation → Prop where
  | start : Life i first [] first
  | next {past ms : List Mark} {v v' : Situation} {m : Move} :
      Life i first past v → Change i m v ms v' → Life i first (ms ++ past) v'

/-- Marks of which only the loss of a signal may be one. -/
def Unseen (ms : List Mark) : Prop := ∀ m ∈ ms, m = .lost

theorem Unseen.countP {ms : List Mark} (h : Unseen ms) {p : Mark → Bool} (hp : p .lost = false) :
    ms.countP p = 0 := by
  rw [List.countP_eq_zero]
  intro m hm
  rw [h m hm, hp]
  exact Bool.false_ne_true

theorem Unseen.count {ms : List Mark} (h : Unseen ms) {m : Mark} (hm : m ≠ .lost) :
    ms.count m = 0 := by
  apply h.countP
  simpa using hm.symm

theorem Unseen.filter {ms : List Mark} (h : Unseen ms) : ms.filter Mark.visible = [] := by
  rw [List.filter_eq_nil_iff]
  intro m hm
  rw [h m hm]
  exact Bool.false_ne_true

namespace Situation

theorem unseen_leftover (v : Situation) : Unseen v.leftover := by
  unfold leftover
  split <;> simp [Unseen]

theorem unseen_awaitMarks (v : Situation) : Unseen v.awaitMarks := by
  unfold awaitMarks
  split
  · simp [Unseen]
  · exact v.unseen_leftover

theorem unseen_vanishMarks (v : Situation) : Unseen v.vanishMarks := by
  unfold vanishMarks
  split
  · exact v.unseen_leftover
  · simp [Unseen]

theorem count_lost_leftover (v : Situation) :
    v.leftover.count .lost = if v.job.record.running.pending then 1 else 0 := by
  unfold leftover
  split <;> rfl

theorem alive_vanish (j : Job) : j.vanish.phase.alive = false := by
  unfold Job.vanish
  split
  · rfl
  · rename_i h
    exact Bool.eq_false_iff.mpr h

theorem alive_retire (v : Situation) : v.retire.job.phase.alive = false := rfl

theorem alive_stop (v : Situation) : v.stop.job.phase.alive = false := rfl

theorem alive_start (v : Situation) (instant : Int) :
    (v.start instant).job.phase.alive = true := rfl

theorem await_of_gone {v : Situation} {instant : Int}
    (h : (v.await instant).job.phase.alive = false) :
    lastDated < v.now ∧ v.await instant = v.update Job.vanish := by
  unfold await at h ⊢
  split at h
  · exact absurd h (by simp [withPhase, Phase.alive])
  · rename_i hlate
    exact ⟨Int.not_le.mp hlate, if_neg hlate⟩

theorem count_lost_await (v : Situation) (instant : Int) :
    v.awaitMarks.count .lost =
      if v.job.record.running.pending && !(v.await instant).job.phase.alive then 1 else 0 := by
  unfold awaitMarks await
  split
  · simp [withPhase, Phase.alive]
  · rw [count_lost_leftover, update_job, alive_vanish]
    simp

end Situation

theorem Touch.phase_eq {v v' : Situation} {ms : List Mark} (h : Touch v ms v') :
    v'.job.phase = v.job.phase := by
  cases h <;> rfl

theorem Touch.count_lost {v v' : Situation} {ms : List Mark} (h : Touch v ms v') :
    ms.count .lost = 0 := by
  cases h <;> rfl

theorem Turn.count_lost {v v' : Situation} {ms : List Mark} (h : Turn v ms v') :
    ms.count .lost =
      if v.job.record.running.pending && !v'.job.phase.alive then 1 else 0 := by
  cases h with
  | begin hp => exact v.count_lost_await _
  | ask hp => simp [Situation.ask, Phase.alive]
  | plan hp ho ht hno => simp [ht.count_lost, Situation.withPhase, Phase.alive]
  | arrange hp ho => exact v.count_lost_await _
  | giveUp hp ho hover hend =>
      simp [v.alive_retire, v.count_lost_leftover, List.count_cons_of_ne]
  | orphaned hp ho => simp [v.alive_retire, v.count_lost_leftover, List.count_cons_of_ne]
  | stopped hp ho hc =>
      simp [Situation.alive_stop, v.count_lost_leftover, List.count_cons_of_ne]
  | signalled hp ho hc hr => simp [Situation.alive_start]
  | skipped hp hr ha => simp [hr]
  | timed hp ht ho hc hr ha => simp [hr]
  | act hp ho ht hno => simp [ht.count_lost, Situation.withPhase, Phase.alive]
  | complete hp ho hover =>
      unfold Situation.complete
      split
      · simp [Situation.withPhase, Phase.alive]
      · simp [v.alive_stop, v.count_lost_leftover]

theorem Turn.alive {v v' : Situation} {ms : List Mark} (h : Turn v ms v') :
    v.job.phase.alive = true := by
  cases h <;> simp_all [Phase.alive]

theorem Change.count_lost {i : JobId} {m : Move} {v v' : Situation} {ms : List Mark}
    (h : Change i m v ms v') :
    ms.count .lost =
      if v.job.phase.alive && v.job.record.running.pending && !v'.job.phase.alive then 1
      else 0 := by
  cases h with
  | touch _ ht => rw [ht.count_lost, ht.phase_eq]; cases v.job.phase.alive <;> simp
  | turn ht => rw [ht.count_lost, ht.alive, Bool.true_and]
  | pass => cases v.job.phase.alive <;> simp
  | vanish =>
      rw [Situation.update_job, Situation.alive_vanish]
      unfold Situation.vanishMarks
      split
      · rename_i ha
        simp [ha, v.count_lost_leftover]
      · rename_i ha
        simp [ha]

end JobScheduler
