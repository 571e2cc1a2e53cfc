import JobScheduler.Proofs.Persistence

/-!
One job of a scheduler, seen alone: what its own runner and the calls on it depend on, and the
marks that its life leaves in the history. For every operation there is one lemma that says what it
does to the situation of each job.
-/

namespace JobScheduler

/-- What the life of a job leaves behind. -/
inductive Mark where
  | reported (r : Report)
  /-- The job function was entered. -/
  | entered
  /-- The runtime function was called. -/
  | asked
  /-- A run was requested with success. -/
  | accepted
  /-- The runner ended with a run signal in the slot. -/
  | lost
deriving DecidableEq, Repr

/-- Whether the history shows a mark. -/
def Mark.visible : Mark → Bool
  | accepted | lost => false
  | _ => true

/-- The mark of job `i` that an event shows. -/
def Event.mark? (i : JobId) (e : Event) : Option Mark :=
  match e.what with
  | .reported about r _ => if about = i then some (.reported r) else none
  | .started _ => if e.actor = some i then some .entered else none
  | .asked _ => if e.actor = some i then some .asked else none
  | _ => none

/-- The situation of one job. -/
structure Situation where
  now : Int
  /-- Whether the parent token is cancelled. -/
  orphaned : Bool
  /-- Whether the registry maps the job's name to the job. -/
  registered : Bool
  job : Job

namespace Situation

def update (v : Situation) (f : Job → Job) : Situation := { v with job := f v.job }

def withRecord (v : Situation) (f : Record → Record) : Situation :=
  v.update fun j => { j with record := f j.record }

def withPhase (v : Situation) (phase : Phase) : Situation :=
  v.update fun j => { j with phase := phase }

def unlisted (v : Situation) : Situation := { v with registered := false }

/-- The job when its runner ends by itself. -/
def leave (v : Situation) : Situation := v.update (·.leave .returned)

def stop (v : Situation) : Situation := (v.withRecord Record.finalise).leave

def retire (v : Situation) : Situation := v.unlisted.stop

def await (v : Situation) (instant : Int) : Situation :=
  if v.now ≤ lastDated then
    v.withPhase (.waiting instant (some (waitUntil v.now (instant - v.now))))
  else v.update Job.vanish

def ask (v : Situation) : Situation :=
  let e := v.job.plan.entry v.job.asks
  v.update fun j =>
    { j with asks := j.asks + 1, phase := .planning .none (Action.opened e.actions) e.result }

def start (v : Situation) (instant : Int) : Situation :=
  v.update fun j =>
    { j with
      runs := j.runs + 1
      phase := .running instant .none (Action.opened (j.work.body j.runs)) }

def complete (v : Situation) : Situation :=
  if v.job.record.periodic then (v.withRecord Record.deactivate).withPhase .looping else v.stop

/-- Whether a pause of the job's runner is over. -/
def isOver (v : Situation) : Pause → Bool
  | .none => true
  | .clock deadline => decide (deadline ≤ v.now)
  | .token => v.orphaned

theorem unlisted_of_free {v : Situation} (h : v.registered = false) : v.unlisted = v := by
  cases v
  cases h
  rfl

@[simp] theorem update_registered (v : Situation) (f : Job → Job) :
    (v.update f).registered = v.registered := rfl

@[simp] theorem update_job (v : Situation) (f : Job → Job) : (v.update f).job = f v.job := rfl

end Situation

namespace Scheduler

def situate (s : Scheduler) (i : JobId) (job : Job) : Situation where
  now := s.now
  orphaned := s.tokens.isCancelled job.token
  registered := decide (s.registry.lookup job.record.name = some i)
  job := job

/-- The situation of job `i`, if there is such a job. -/
def situation? (s : Scheduler) (i : JobId) : Option Situation := s.jobs[i]?.map (s.situate i)

/-- The marks of job `i` in the history, the latest first. -/
def marks (s : Scheduler) (i : JobId) : List Mark := s.history.filterMap (Event.mark? i)

theorem situation?_eq_some {s : Scheduler} {i : JobId} {v : Situation} :
    s.situation? i = some v ↔ s.jobs[i]? = some v.job ∧ v = s.situate i v.job := by
  constructor
  · intro h
    obtain ⟨job, hj, rfl⟩ := Option.map_eq_some_iff.mp h
    exact ⟨hj, rfl⟩
  · rintro ⟨hj, hv⟩
    rw [situation?, hj, Option.map_some, ← hv]

theorem situation?_of_getElem? {s : Scheduler} {i : JobId} {job : Job}
    (h : s.jobs[i]? = some job) : s.situation? i = some (s.situate i job) := by
  rw [situation?, h, Option.map_some]

theorem situation?_eq_none {s : Scheduler} {i : JobId} :
    s.situation? i = none ↔ s.jobs.length ≤ i := by
  simp [situation?]

section

variable (s : Scheduler) (a : Option JobId) (i k : JobId)

@[simp] theorem situation?_emit (w : Happening) : (s.emit a w).situation? i = s.situation? i := rfl

@[simp] theorem situation?_log (e : LogEntry) : (s.log a e).situation? i = s.situation? i := by
  unfold log
  split <;> rfl

@[simp] theorem situation?_report (cls : String) (r : Report) :
    (s.report a k cls r).situation? i = s.situation? i := by
  unfold report
  split <;> rfl

@[simp] theorem situation?_setCount (counter : String) (n : Nat) :
    (s.setCount counter n).situation? i = s.situation? i := rfl

@[simp] theorem marks_emit (w : Happening) :
    (s.emit a w).marks i = (Event.mark? i ⟨s.now, a, w⟩).toList ++ s.marks i := by
  simp only [marks, emit, List.filterMap_cons]
  cases Event.mark? i ⟨s.now, a, w⟩ <;> rfl

@[simp] theorem marks_log (e : LogEntry) : (s.log a e).marks i = s.marks i := by
  unfold log
  split
  · simp [Event.mark?]
  · rfl

theorem marks_report {s : Scheduler} (hs : s.monitor = .recording) (cls : String) (r : Report) :
    (s.report a i cls r).marks i = .reported r :: s.marks i := by
  simp [report, hs, Event.mark?]

theorem marks_report_of_ne (h : k ≠ i) (cls : String) (r : Report) :
    (s.report a k cls r).marks i = s.marks i := by
  unfold report
  split
  · simp [Event.mark?, h]
  · rfl

@[simp] theorem marks_setCount (counter : String) (n : Nat) :
    (s.setCount counter n).marks i = s.marks i := rfl

@[simp] theorem marks_updateJob (f : Job → Job) : (s.updateJob k f).marks i = s.marks i := rfl

@[simp] theorem marks_updateRecord (f : Record → Record) :
    (s.updateRecord k f).marks i = s.marks i := rfl

@[simp] theorem marks_setPhase (phase : Phase) : (s.setPhase k phase).marks i = s.marks i := rfl

@[simp] theorem marks_unregister (name : String) : (s.unregister name).marks i = s.marks i := rfl

@[simp] theorem marks_remove (name : String) : (s.remove a k name).marks i = s.marks i := by
  unfold remove
  split
  · simp
  · rfl

@[simp] theorem marks_leave : (s.leave k).marks i = s.marks i := rfl

end

section

variable (s : Scheduler) {i k : JobId}

theorem situation?_updateJob_of_ne (h : k ≠ i) (f : Job → Job) :
    (s.updateJob k f).situation? i = s.situation? i := by
  simp only [situation?, updateJob, List.getElem?_modify, if_neg h]
  cases s.jobs[i]? <;> rfl

theorem situation?_updateJob (f : Job → Job) (hf : ∀ j, (f j).terms = j.terms) :
    (s.updateJob i f).situation? i = (s.situation? i).map (·.update f) := by
  simp only [situation?, updateJob, List.getElem?_modify, if_true]
  cases s.jobs[i]? with
  | none => rfl
  | some job =>
      have hname : (f job).record.name = job.record.name := name_eq_of_terms (hf job)
      have htoken : (f job).token = job.token := congrArg (fun t => t.2.2.1) (hf job)
      simp [situate, Situation.update, hname, htoken]

theorem situation?_updateRecord (f : Record → Record) (hf : ∀ r, (f r).label = r.label) :
    (s.updateRecord i f).situation? i = (s.situation? i).map (·.withRecord f) :=
  s.situation?_updateJob _ fun j => j.terms_record f hf

theorem situation?_updateRecord_of_ne (h : k ≠ i) (f : Record → Record) :
    (s.updateRecord k f).situation? i = s.situation? i :=
  s.situation?_updateJob_of_ne h _

theorem situation?_setPhase (phase : Phase) :
    (s.setPhase i phase).situation? i = (s.situation? i).map (·.withPhase phase) :=
  s.situation?_updateJob _ fun _ => rfl

theorem situation?_setPhase_of_ne (h : k ≠ i) (phase : Phase) :
    (s.setPhase k phase).situation? i = s.situation? i :=
  s.situation?_updateJob_of_ne h _

theorem situate_unregister (i : JobId) (job : Job) (name : String) :
    (s.unregister name).situate i job =
      if job.record.name = name then (s.situate i job).unlisted else s.situate i job := by
  unfold situate
  rw [lookup_unregister]
  split <;> rfl

theorem situation?_unregister (name : String) :
    (s.unregister name).situation? i =
      (s.situation? i).map fun v => if v.job.record.name = name then v.unlisted else v := by
  unfold situation?
  rw [Option.map_map]
  congr 1
  funext job
  exact s.situate_unregister i job name

theorem situation?_remove (a : Option JobId) {v : Situation} (hv : s.situation? i = some v) :
    (s.remove a i v.job.record.name).situation? i = some v.unlisted := by
  unfold remove
  split
  · simp [situation?_unregister, hv]
  · rename_i h
    have hfree : v.registered = false := by
      rw [(situation?_eq_some.mp hv).2]
      exact decide_eq_false h
    rw [hv, Situation.unlisted_of_free hfree]

theorem situation?_remove_of_ne (h : k ≠ i) (a : Option JobId) (name : String) :
    (s.remove a k name).situation? i = s.situation? i := by
  unfold remove
  split
  · rename_i hk
    rw [situation?_log, situation?_unregister]
    cases hv : s.situation? i with
    | none => rfl
    | some v =>
        by_cases hname : v.job.record.name = name
        · have hfree : v.registered = false := by
            rw [(situation?_eq_some.mp hv).2]
            apply decide_eq_false
            rw [hname, hk]
            simpa using h
          simp [Situation.unlisted_of_free hfree]
        · simp [hname]
  · rfl

end

section

variable {s : Scheduler} {i k : JobId} {v : Situation}

theorem situation?_leave : (s.leave i).situation? i = (s.situation? i).map Situation.leave :=
  s.situation?_updateJob _ fun j => j.terms_leave _

theorem situation?_stop (job : Job) :
    (s.stop i job).situation? i = (s.situation? i).map Situation.stop := by
  rw [stop, situation?_leave, situation?_report,
    situation?_updateRecord _ _ Record.label_finalise, Option.map_map]
  rfl

theorem situation?_retire (hv : s.situation? i = some v) :
    (s.retire i v.job).situation? i = some v.retire := by
  rw [retire, situation?_stop, situation?_remove _ _ hv]
  rfl

theorem situation?_await (hv : s.situation? i = some v) (instant : Int) :
    (s.await i instant).situation? i = some (v.await instant) := by
  have hnow : v.now = s.now := congrArg Situation.now (situation?_eq_some.mp hv).2
  unfold await Situation.await
  rw [hnow]
  split
  · rw [situation?_setPhase, hv, Option.map_some]
  · rw [situation?_updateJob _ _ Job.terms_vanish, hv, Option.map_some]

theorem situation?_ask (hv : s.situation? i = some v) :
    (s.ask i v.job).situation? i = some v.ask := by
  unfold ask
  dsimp only
  rw [situation?_updateJob _ _ (by intro j; rfl)]
  rw [situation?_emit, hv]
  rfl

theorem situation?_start (job : Job) (instant : Int) (trigger : Trigger) :
    (s.start i job instant trigger).situation? i =
      (s.situation? i).map (·.start instant) := by
  unfold start
  dsimp only
  rw [situation?_updateJob _ _ (by intro j; rfl)]
  rw [situation?_emit, situation?_setCount, situation?_report]
  rfl

theorem situation?_complete (hv : s.situation? i = some v) (instant : Int) :
    (s.complete i v.job instant).situation? i = some v.complete := by
  unfold complete Situation.complete
  dsimp only
  split
  · rw [situation?_setPhase, situation?_updateRecord _ _ Record.label_deactivate, situation?_log,
      hv]
    rfl
  · rw [situation?_leave, situation?_updateRecord _ _ Record.label_finalise, situation?_log, hv]
    rfl

variable (h : k ≠ i) (job : Job) (instant : Int)
include h

theorem situation?_stop_of_ne : (s.stop k job).situation? i = s.situation? i := by
  rw [stop, leave, situation?_updateJob_of_ne _ h, situation?_report,
    situation?_updateRecord_of_ne _ h]

theorem situation?_retire_of_ne : (s.retire k job).situation? i = s.situation? i := by
  rw [retire, situation?_stop_of_ne h, situation?_remove_of_ne _ h]

theorem situation?_await_of_ne : (s.await k instant).situation? i = s.situation? i := by
  unfold await
  split
  · exact s.situation?_setPhase_of_ne h _
  · exact s.situation?_updateJob_of_ne h _

theorem situation?_ask_of_ne : (s.ask k job).situation? i = s.situation? i := by
  unfold ask
  dsimp only
  rw [situation?_updateJob_of_ne _ h, situation?_emit]

theorem situation?_start_of_ne (trigger : Trigger) :
    (s.start k job instant trigger).situation? i = s.situation? i := by
  unfold start
  dsimp only
  rw [situation?_updateJob_of_ne _ h, situation?_emit, situation?_setCount, situation?_report]

theorem situation?_complete_of_ne : (s.complete k job instant).situation? i = s.situation? i := by
  unfold complete
  dsimp only
  split
  · rw [situation?_setPhase_of_ne _ h, situation?_updateRecord_of_ne _ h, situation?_log]
  · rw [leave, situation?_updateJob_of_ne _ h, situation?_updateRecord_of_ne _ h, situation?_log]

end

section

variable {s : Scheduler} {i k : JobId} (job : Job) (instant : Int)

theorem marks_stop (hs : s.monitor = .recording) :
    (s.stop i job).marks i = .reported .cancelled :: s.marks i := by
  have hrecord : (s.updateRecord i Record.finalise).monitor = .recording := hs
  rw [stop, marks_leave, marks_report _ _ hrecord, marks_updateRecord]

theorem marks_stop_of_ne (h : k ≠ i) : (s.stop k job).marks i = s.marks i := by
  rw [stop, marks_leave, marks_report_of_ne _ _ _ _ h, marks_updateRecord]

theorem marks_retire (hs : s.monitor = .recording) :
    (s.retire i job).marks i = .reported .cancelled :: s.marks i := by
  rw [retire, marks_stop job ((s.persists_remove _ _ _).monitor hs), marks_remove]

theorem marks_retire_of_ne (h : k ≠ i) : (s.retire k job).marks i = s.marks i := by
  rw [retire, marks_stop_of_ne job h, marks_remove]

theorem marks_start (hs : s.monitor = .recording) (trigger : Trigger) :
    (s.start i job instant trigger).marks i =
      .entered :: .reported (.started trigger) :: s.marks i := by
  unfold start
  dsimp only
  rw [marks_updateJob, marks_emit, marks_setCount, marks_report _ _ hs]
  simp [Event.mark?]

theorem marks_start_of_ne (h : k ≠ i) (trigger : Trigger) :
    (s.start k job instant trigger).marks i = s.marks i := by
  unfold start
  dsimp only
  rw [marks_updateJob, marks_emit, marks_setCount, marks_report_of_ne _ _ _ _ h]
  simp [Event.mark?, h]

theorem marks_ask : (s.ask i job).marks i = .asked :: s.marks i := by
  unfold ask
  dsimp only
  rw [marks_updateJob, marks_emit]
  simp [Event.mark?]

theorem marks_ask_of_ne (h : k ≠ i) : (s.ask k job).marks i = s.marks i := by
  unfold ask
  dsimp only
  rw [marks_updateJob, marks_emit]
  simp [Event.mark?, h]

theorem marks_await : (s.await k instant).marks i = s.marks i := by
  unfold await
  split <;> rfl

theorem marks_complete : (s.complete k job instant).marks i = s.marks i := by
  unfold complete
  dsimp only
  split <;> simp

end

end Scheduler

end JobScheduler
