import JobScheduler.Proofs.Registration

/-!
What it means that a job is active: while its runner lives, the job function is in progress or one
run signal is in the slot, and never both. So the slot is empty whenever the job is not active, and
no timer ever finds its job active; and since no job that is registered is finalised, no job is ever
cancelled twice.
-/

namespace JobScheduler

/-- Whether an event tells that something was skipped: an execution since the job was active, or a
signal to stop since the job was finalised. -/
def Happening.isSkip : Happening → Bool
  | .logged (.alreadyRunning _) | .logged (.alreadyFinalised _) => true
  | _ => false

theorem Record.cancel_first {r : Record} (h : r.finalised = false) : r.cancel.2 = true := by
  rw [cancel, if_neg (Bool.eq_false_iff.mp h)]

namespace Scheduler

/-- Nothing was ever skipped. -/
def Unskipped (s : Scheduler) : Prop := ∀ e ∈ s.history, e.what.isSkip = false

/-- No job that holds its name is finalised. -/
def Current (s : Scheduler) : Prop :=
  ∀ i v, s.situation? i = some v → v.registered = true → v.job.record.finalised = false

variable {s : Scheduler} {a : Option JobId} {i : JobId} {job : Job}

theorem unskipped_emit {w : Happening} (h : s.Unskipped) (hw : w.isSkip = false) :
    (s.emit a w).Unskipped := by
  intro e he
  rcases List.mem_cons.mp he with rfl | he
  · exact hw
  · exact h e he

theorem unskipped_log {entry : LogEntry} (h : s.Unskipped)
    (hentry : (Happening.logged entry).isSkip = false) : (s.log a entry).Unskipped := by
  unfold log
  split
  · exact unskipped_emit h hentry
  · exact h

theorem unskipped_report (h : s.Unskipped) (about : JobId) (cls : String) (r : Report) :
    (s.report a about cls r).Unskipped := by
  unfold report
  split
  · exact unskipped_emit h rfl
  · exact h

theorem unskipped_remove (h : s.Unskipped) (name : String) : (s.remove a i name).Unskipped := by
  unfold remove
  split
  · exact unskipped_log h rfl
  · exact h

theorem unskipped_enrol (h : s.Unskipped) (job : Job) : (s.enrol a job).Unskipped :=
  unskipped_log (unskipped_report (by exact h) _ _ _) rfl

theorem unskipped_schedule (h : s.Unskipped) (o : JobOrder) (work : Option Work)
    (runtime : Moment) : (s.schedule a o work runtime).1.Unskipped := by
  unfold schedule
  split
  · exact h
  · exact unskipped_log (unskipped_log (unskipped_enrol h _) rfl) rfl

theorem unskipped_schedulePeriodic (h : s.Unskipped) (o : JobOrder) (work : Option Work)
    (plan : Option (Plan Action)) : (s.schedulePeriodic a o work plan).1.Unskipped := by
  unfold schedulePeriodic
  split
  · exact h
  · exact unskipped_log (unskipped_enrol h _) rfl

theorem unskipped_run (h : s.Unskipped) (name : String) : (s.run a name).1.Unskipped := by
  unfold run
  split
  · exact h
  · rename_i i job _
    have hs : (if job.record.periodic then s else s.unregister name).Unskipped := by
      split <;> exact h
    dsimp only
    split
    · exact unskipped_log hs rfl
    · exact hs

theorem unskipped_runIfExists (h : s.Unskipped) (name : String) :
    (s.runIfExists a name).Unskipped := by
  have hrun := unskipped_run (a := a) h name
  unfold runIfExists
  split
  · rename_i heq
    rwa [heq] at hrun
  · rename_i heq
    rw [heq] at hrun
    exact unskipped_log hrun rfl

theorem Current.cancel_eq (hcur : s.Current) (hs : s.Named) {name : String}
    (h : s.find? name = some (i, job)) : job.record.cancel.2 = true := by
  obtain ⟨hv, hr, -⟩ := situation?_of_find? hs h
  exact Record.cancel_first (hcur i _ hv hr)

theorem current_cancel (hs : s.Named) (hcur : s.Current) (name : String) :
    (s.cancel a name).1.Current := by
  intro k v hv hr
  cases hold : s.situation? k with
  | none =>
      rw [situation?_cancel_of_none hold] at hv
      exact absurd hv (by simp)
  | some w =>
      rw [situation?_cancel hs a name hold] at hv
      obtain rfl := Option.some_inj.mp hv
      split at hr
      · exact absurd hr (by simp [registered_requestStop])
      · rename_i hl
        rw [if_neg hl]
        exact hcur k w hold hr

theorem unskipped_cancel (h : s.Unskipped) (hs : s.Named) (hcur : s.Current) (name : String) :
    (s.cancel a name).1.Unskipped := by
  unfold cancel
  split
  · exact h
  · rename_i i job hfind
    have hfirst := hcur.cancel_eq hs hfind
    dsimp only
    split
    · exact unskipped_log h rfl
    · rename_i hagain
      rw [hagain] at hfirst
      exact absurd hfirst Bool.false_ne_true

theorem unskipped_cancelAll (h : s.Unskipped) (hs : s.Named) (hcur : s.Current) (stem : String) :
    (s.cancelAll a stem).Unskipped := by
  unfold cancelAll
  generalize s.matching stem = names
  induction names generalizing s with
  | nil => exact h
  | cons name rest ih =>
      exact ih (unskipped_cancel h hs hcur name) ((s.persists_cancel a name).named hs)
        (current_cancel hs hcur name)

theorem unskipped_call (h : s.Unskipped) (hs : s.Named) (hcur : s.Current) (c : Call) :
    (s.call a c).1.Unskipped := by
  cases c with
  | schedule o work runtime => exact unskipped_schedule h o work runtime
  | schedulePeriodic o work plan => exact unskipped_schedulePeriodic h o work plan
  | run name => exact unskipped_run h name
  | runIfExists name => exact unskipped_runIfExists h name
  | cancel name => exact unskipped_cancel h hs hcur name
  | cancelIfExists name => exact unskipped_cancel h hs hcur name
  | cancelAll stem => exact unskipped_cancelAll h hs hcur stem
  | _ => exact h

theorem unskipped_stop (h : s.Unskipped) : (s.stop i job).Unskipped := by
  have hrecord : (s.updateRecord i Record.finalise).Unskipped := h
  exact unskipped_report hrecord i job.record.cls .cancelled

theorem unskipped_retire (h : s.Unskipped) : (s.retire i job).Unskipped :=
  unskipped_stop (unskipped_remove h job.record.name)

theorem unskipped_await (h : s.Unskipped) (instant : Int) : (s.await i instant).Unskipped := by
  unfold await
  split <;> exact h

theorem unskipped_complete (h : s.Unskipped) (instant : Int) :
    (s.complete i job instant).Unskipped := by
  have hlog : (s.log (some i) (.completed instant)).Unskipped := unskipped_log h rfl
  unfold complete
  dsimp only
  split <;> exact hlog

theorem unskipped_start (h : s.Unskipped) (instant : Int) (trigger : Trigger) :
    (s.start i job instant trigger).Unskipped := by
  have hreport := unskipped_report (a := some i) h i job.record.cls (.started trigger)
  have hemit : ∀ n, ((s.report (some i) i job.record.cls (.started trigger)).emit (some i)
    (.started n)).Unskipped := fun n => unskipped_emit hreport rfl
  exact hemit _

theorem unskipped_act (h : s.Unskipped) (hs : s.Named) (hcur : s.Current) (action : Action) :
    (s.act i job action).1.Unskipped := by
  cases action with
  | call c => exact unskipped_emit (unskipped_call h hs hcur c) rfl
  | context => exact unskipped_emit h rfl
  | _ => exact h

theorem unskipped_planOn (h : s.Unskipped) (hs : s.Named) (hcur : s.Current)
    (result : Except RuntimeError Moment) (rest : List Action) :
    (s.planOn i job result rest).Unskipped := by
  unfold planOn
  split
  · split
    · exact unskipped_await (unskipped_log h rfl) _
    · exact unskipped_retire (unskipped_log h rfl)
    · exact unskipped_retire (unskipped_log h rfl)
  · exact unskipped_retire (unskipped_log h rfl)
  · exact unskipped_act h hs hcur _

theorem unskipped_runOn (h : s.Unskipped) (hs : s.Named) (hcur : s.Current) (instant : Int)
    (rest : List Action) : (s.runOn i job instant rest).Unskipped := by
  unfold runOn
  split
  · exact unskipped_complete (unskipped_emit h rfl) instant
  · exact unskipped_complete (unskipped_log h rfl) instant
  · exact unskipped_act h hs hcur _

theorem unskipped_wake (h : s.Unskipped) (instant : Int) (w : Waking)
    (hw : w = .timer → job.record.active = false) : (s.wake i job instant w).Unskipped := by
  cases w with
  | parent => exact unskipped_retire (unskipped_log h rfl)
  | cancel =>
      have htake : (s.updateRecord i Record.takeCancel).Unskipped := h
      exact unskipped_stop (unskipped_log htake rfl)
  | signal =>
      have htake : (s.updateRecord i Record.takeRun).Unskipped := h
      exact unskipped_start (unskipped_log htake rfl) instant .signal
  | timer =>
      have hactive : ∀ f, (s.updateRecord i f).Unskipped := fun _ => h
      simp only [wake, Record.tryActivate_of_inactive (hw rfl)]
      split
      · exact unskipped_start (unskipped_log (hactive _) rfl) instant .timer
      · exact unskipped_start (unskipped_log (unskipped_remove (hactive _) _) rfl) instant .timer

theorem unskipped_step {s' : Scheduler} (h : s.Unskipped) (hs : s.Named) (hcur : s.Current)
    (hw : ∀ job instant timer, s.jobs[i]? = some job → job.phase = .waiting instant timer →
      s.waking? job timer = some .timer → job.record.active = false)
    (hstep : s.step? i = some s') : s'.Unskipped := by
  unfold step? at hstep
  split at hstep
  · exact absurd hstep (by simp)
  · rename_i job hj
    split at hstep
    · cases hstep
      exact unskipped_await h _
    · cases hstep
      exact unskipped_emit h rfl
    · obtain ⟨-, hstep⟩ := Option.ite_none_right_eq_some.mp hstep
      cases hstep
      exact unskipped_planOn h hs hcur _ _
    · rename_i instant timer hp
      obtain ⟨w, hwaking, rfl⟩ := Option.map_eq_some_iff.mp hstep
      refine unskipped_wake h instant w ?_
      rintro rfl
      exact hw job instant timer hj hp hwaking
    · obtain ⟨-, hstep⟩ := Option.ite_none_right_eq_some.mp hstep
      cases hstep
      exact unskipped_runOn h hs hcur _ _
    · exact absurd hstep (by simp)
    · exact absurd hstep (by simp)

end Scheduler

namespace Situation

theorem Sound.active_eq_false {v : Situation} (hv : v.Sound) {instant : Int} {timer : Option Int}
    (hp : v.job.phase = .waiting instant timer) (hr : v.job.record.running.pending = false) :
    v.job.record.active = false := by
  have ha : v.job.phase.alive = true := by
    rw [hp]
    rfl
  have hactive := (hv.tended_of_alive ha).active
  rwa [hp, hr] at hactive

end Situation

namespace Run

variable {monitor : Monitor} {logging : Bool} {past : List (Scheduler × Move)} {s : Scheduler}
  {i : JobId} {job : Job}

/-- No timer finds its job active. -/
theorem active_of_timer (run : Run (.initial monitor logging) past s) (hj : s.jobs[i]? = some job)
    {instant : Int} {timer : Option Int} (hp : job.phase = .waiting instant timer)
    (hw : s.waking? job timer = some .timer) : job.record.active = false := by
  have hr : job.record.running.pending = false := by
    unfold Scheduler.waking? at hw
    split at hw
    · exact absurd hw (by simp)
    · split at hw
      · exact absurd hw (by simp)
      · split at hw
        · exact absurd hw (by simp)
        · rename_i h
          exact Bool.eq_false_iff.mpr h
  exact (run.sound (Scheduler.situation?_of_getElem? hj)).active_eq_false hp hr

theorem current (run : Run (.initial monitor logging) past s) : s.Current :=
  fun _ _ hv hr => ((run.sound hv).open_of_registered hr).2.1

theorem unskipped (run : Run (.initial monitor logging) past s) : s.Unskipped := by
  induction run with
  | start => exact fun e he => absurd he (by simp [Scheduler.initial])
  | next m run hm ih =>
      cases m with
      | call c =>
          cases hm
          exact Scheduler.unskipped_call ih run.named run.current c
      | turn k =>
          refine Scheduler.unskipped_step ih run.named run.current ?_ hm
          intro job instant timer hj hp hw
          exact run.active_of_timer hj hp hw
      | pass ms =>
          cases hm
          exact ih
      | shutdown =>
          cases hm
          exact ih

/-- In every run, a job whose runner lives is active if and only if it is executing or one run
signal is in the slot, and never both; a job whose runner returned is not active, is finalised and
has both channels closed; and no execution is ever skipped because the timer found its job active.
-/
theorem active_iff (run : Run (.initial monitor logging) past s) :
    (∀ (i : JobId) (job : Job), s.jobs[i]? = some job →
      (job.phase.alive = true →
        (job.record.active = true ↔
          job.phase.isRunning = true ∨ job.record.running.pending = true) ∧
        ¬(job.phase.isRunning = true ∧ job.record.running.pending = true) ∧
        (job.record.active = false → job.record.running.pending = false)) ∧
      (job.phase = .returned →
        job.record.active = false ∧ job.record.finalised = true ∧
          job.record.running.sending = false ∧ job.record.cancelling.sending = false) ∧
      ∀ instant timer, job.phase = .waiting instant timer →
        s.waking? job timer = some .timer → job.record.tryActivate.2 = true) ∧
    ∀ e ∈ s.history, ∀ instant, e.what ≠ .logged (.alreadyRunning instant) := by
  refine ⟨?_, ?_⟩
  · intro i job hj
    have hsound := run.sound (Scheduler.situation?_of_getElem? hj)
    refine ⟨?_, ?_, ?_⟩
    · intro ha
      have hv := hsound.tended_of_alive ha
      have hactive : job.record.active = (job.phase.isRunning || job.record.running.pending) :=
        hv.active
      have honce : job.phase.isRunning = true → job.record.running.pending = false := hv.once
      refine ⟨by rw [hactive, Bool.or_eq_true], ?_, ?_⟩
      · rintro ⟨hrun, hpending⟩
        exact Bool.false_ne_true ((honce hrun).symm.trans hpending)
      · intro hidle
        rw [hactive, Bool.or_eq_false_iff] at hidle
        exact hidle.2
    · intro hp
      have hv := hsound.ended_of_returned hp
      exact ⟨hv.active, hv.finalised, congrArg Channel.sending hv.running,
        congrArg Channel.sending hv.cancelling⟩
    · intro instant timer hp hw
      rw [Record.tryActivate_of_inactive (run.active_of_timer hj hp hw)]
  · intro e he instant hskip
    have hnone := run.unskipped e he
    rw [hskip] at hnone
    exact absurd hnone (by simp [Happening.isSkip])

theorem active_of_request : ∃ past s job, Run (.initial .recording false) past s ∧
    s.jobs[0]? = some job ∧ job.phase.alive = true ∧ job.record.running.pending = true ∧
      job.record.active = true := by
  have run := (begun (.initial .recording false)).next
    (.call (.schedule plainOrder (some []) (.after 1))) rfl |>.next (.turn 0) rfl |>.next
    (.call (.run "a")) rfl
  obtain ⟨hactive, -⟩ := run.active_iff.1 0 _ rfl |>.1 rfl
  exact ⟨_, _, _, run, rfl, rfl, rfl, hactive.mpr (.inr rfl)⟩

end Run

end JobScheduler
