import JobScheduler.Proofs.Registration
import JobScheduler.Proofs.RunnerEnd

/-!
What calls answer, and what they leave behind when they are refused. The answer to a request to run
a name follows from what the caller can know of the job: whether it has a runner, and whether it is
executing or has been asked to (`Run.request_answered`). A call that is refused changes nothing,
except that a one-off job whose runner is gone loses its name by a request to run it
(`Run.refused_unchanged`).
-/

namespace JobScheduler

/-- The record once a request to run its job is accepted. -/
def Record.signalled (r : Record) : Record :=
  { r with active := true, running := { r.running with pending := true } }

/-- Whether a job is executing, or has a run signal that is not consumed. -/
def Job.Busy (j : Job) : Prop := j.phase.isRunning = true ∨ j.record.running.pending = true

/-- Whether a move takes the runner of job `i` away while the job is busy. -/
def Scheduler.TakesBusy (s : Scheduler) (m : Move) (i : JobId) : Prop :=
  ∃ job job', s.jobs[i]? = some job ∧ job.phase.alive = true ∧ job.Busy ∧
    (s.move? m).bind (·.jobs[i]?) = some job' ∧ job'.phase = .vanished

/-- Whether the runner of job `i` vanished in the course of a run while the job was busy. -/
def Run.LeftBusy (past : List (Scheduler × Move)) (i : JobId) : Prop :=
  ∃ e ∈ past, e.1.TakesBusy e.2 i

namespace Scheduler

/-- What speaks against scheduling a job, in the order of the checks. -/
def faults (s : Scheduler) (o : JobOrder) (planned : Bool) (work : Option Work) :
    List (Bool × ServiceError) :=
  [(decide (o.name = ""), .noJobName), (!planned, .noRuntimeFunc), (work.isNone, .noJobFunc),
    (s.isRegistered o.name, .jobAlreadyExists o.name)]

def firstFault? (s : Scheduler) (o : JobOrder) (planned : Bool) (work : Option Work) :
    Option ServiceError :=
  ((s.faults o planned work).find? (·.1)).map (·.2)

/-- What the monitor of a scheduler was told, the latest first. -/
def notices (s : Scheduler) : List (JobId × Report × String) :=
  s.history.filterMap fun e => match e.what with
    | .reported about r cls => some (about, r, cls)
    | _ => none

/-- Whether a scheduler comes out of another by one new job as ordered, with a runner of its own. -/
structure Enlists (s s' : Scheduler) (o : JobOrder) (periodic : Bool) : Prop where
  registry : s'.registry = s.registry ++ [(o.name, s.jobs.length)]
  jobs : ∃ job, s'.jobs = s.jobs ++ [job] ∧ job.phase.alive = true ∧
    job.record = { name := o.name, cls := o.cls, periodic := periodic }
  monitor : s'.monitor = s.monitor.observe .scheduled o.cls
  notices : s'.notices = if s.monitor = .recording
    then (s.jobs.length, .scheduled, o.cls) :: s.notices else s.notices
  rest : s'.now = s.now ∧ s'.tokens = s.tokens ∧ s'.counters = s.counters

end Scheduler

theorem Touch.active_of_abandoned {v v' : Situation} {ms : List Mark} (h : Touch v ms v')
    (hv : v.Abandoned) : v'.job.record.active = v.job.record.active := by
  cases h with
  | none => rfl
  | accept => exact congrArg (fun r => r.1.active) hv.triggerRun_eq
  | refuse => exact congrArg (fun r => r.1.active) hv.triggerRun_eq
  | stop =>
      show v.job.record.cancel.1.active = _
      unfold Record.cancel
      split <;> rfl
  | orphan => rfl

theorem Change.active_of_vanished {i : JobId} {m : Move} {v v' : Situation} {ms : List Mark}
    (h : Change i m v ms v') (hv : v.Sound) (hp : v'.job.phase = .vanished) :
    v'.job.record.active = v.job.record.active := by
  have hvanish : v.job.vanish.record.active = v.job.record.active := by
    unfold Job.vanish
    split <;> rfl
  cases h with
  | touch _ ht => exact ht.active_of_abandoned (hv.abandoned_of_vanished (ht.phase_eq ▸ hp))
  | turn ht =>
      obtain ⟨-, instant, rfl⟩ := ht.await_of_vanished hp
      rw [(Situation.await_of_gone (by rw [hp]; rfl)).2]
      exact hvanish
  | pass => rfl
  | vanish => exact hvanish

theorem Situation.Born.inactive {v : Situation} (h : v.Born) : v.job.record.active = false := by
  cases h with
  | inside _ hj => rw [hj.record]
  | outside _ hj hjob =>
      rw [hjob, Job.leave, hj.record]
      rfl

namespace Situation

variable {v : Situation}

theorem Sound.triggerRun_cases (hv : v.Sound) (hr : v.registered = true) :
    v.job.record.active = true ∧ v.job.record.periodic = true ∧
        v.job.record.triggerRun = (v.job.record, .error (.jobRunning v.job.record.name)) ∨
      v.job.record.active = false ∧ v.job.phase.alive = true ∧
        v.job.record.triggerRun = (v.job.record.signalled, .ok ()) ∨
      v.job.record.active = false ∧ v.job.phase.alive = false ∧
        v.job.record.triggerRun = (v.job.record, .error (.jobFinalised v.job.record.name)) := by
  obtain ⟨-, hf, hkind⟩ := hv.open_of_registered hr
  cases ha : v.job.record.active with
  | true =>
      have hper : v.job.record.periodic = true := by simpa [ha] using hkind
      exact .inl ⟨rfl, hper, Record.triggerRun_of_active ha⟩
  | false =>
      refine .inr ?_
      cases hv with
      | tended halive hv =>
          have hidle : v.job.phase.isRunning = false ∧ v.job.record.running.pending = false := by
            simpa [ha] using hv.active.symm
          exact .inl ⟨rfl, halive,
            Record.triggerRun_of_listening ha hf hv.running.1 hv.running.2 hidle.2⟩
      | ended _ hv => exact absurd hr (Bool.eq_false_iff.mp hv.registered)
      | abandoned hp hv =>
          refine .inr ⟨rfl, by rw [hp]; rfl, ?_⟩
          rw [hv.triggerRun_eq, ha]
          rfl

end Situation

namespace Scheduler

variable {s : Scheduler} {i : JobId} {job : Job}

theorem updateRecord_self (hj : s.jobs[i]? = some job) :
    (s.updateRecord i fun _ => job.record) = s := by
  refine (updateRecord_const hj id).trans ?_
  show { s with jobs := s.jobs.modify i id } = s
  rw [List.modify_id]

/-- The scheduler once a request found the job that is registered under a name. -/
def called (s : Scheduler) (name : String) (job : Job) : Scheduler :=
  if job.record.periodic then s else s.unregister name

theorem jobs_called (s : Scheduler) (name : String) (job : Job) :
    (s.called name job).jobs = s.jobs := by
  unfold called
  split <;> rfl

theorem registry_called (s : Scheduler) (name : String) (job : Job) :
    (s.called name job).registry =
      if job.record.periodic then s.registry else (s.unregister name).registry := by
  unfold called
  split <;> rfl

theorem registry_log (s : Scheduler) (a : Option JobId) (e : LogEntry) :
    (s.log a e).registry = s.registry := by
  unfold log
  split <;> rfl

theorem run_of_error (a : Option JobId) {name : String} {e : ServiceError}
    (hfind : s.find? name = some (i, job)) (h : job.record.triggerRun = (job.record, .error e)) :
    s.run a name = (s.called name job, .error e) := by
  have hj : (s.called name job).jobs[i]? = some job :=
    (s.jobs_called name job).symm ▸ (find?_eq_some hfind).2
  simp only [run, hfind, h]
  exact congrArg (·, Except.error e) (updateRecord_self hj)

theorem run_of_ok (a : Option JobId) {name : String} (hfind : s.find? name = some (i, job))
    (h : job.record.triggerRun = (job.record.signalled, .ok ())) :
    s.run a name =
      (((s.called name job).updateRecord i Record.signalled).log a (.runSignalled name),
        .ok ()) := by
  have hj : (s.called name job).jobs[i]? = some job :=
    (s.jobs_called name job).symm ▸ (find?_eq_some hfind).2
  simp only [run, hfind, h]
  rw [← updateRecord_const hj Record.signalled]
  rfl

end Scheduler

namespace Run

variable {monitor : Monitor} {logging : Bool} {past : List (Scheduler × Move)} {s : Scheduler}
  {i : JobId} {job : Job}

theorem LeftBusy.vanished (run : Run (.initial monitor logging) past s) (h : LeftBusy past i)
    (hj : s.jobs[i]? = some job) : job.phase = .vanished := by
  obtain ⟨⟨s₁, m⟩, hmem, job₁, job₂, -, -, -, hj₂, hp⟩ := h
  obtain ⟨past₁, s₂, past₂, before, hm, after⟩ := run.of_mem hmem
  rw [hm, Option.bind_some] at hj₂
  obtain ⟨job', hj', hphase, -⟩ :=
    (before.next m hm).gone hj₂ (by rw [hp]; rfl) after
  obtain rfl : job = job' := Option.some_inj.mp (hj.symm.trans hj')
  exact hphase.trans hp

/-- A job whose runner is gone without having ended is active if and only if it was busy when its
runner vanished. -/
theorem active_of_vanished_iff (run : Run (.initial monitor logging) past s)
    (hj : s.jobs[i]? = some job) (hp : job.phase = .vanished) :
    job.record.active = true ↔ LeftBusy past i := by
  induction run generalizing job with
  | start => exact absurd hj (by simp [Scheduler.initial])
  | @next past s s' m run hm ih =>
      have hcons : LeftBusy ((s, m) :: past) i ↔ s.TakesBusy m i ∨ LeftBusy past i := by
        simp [LeftBusy]
      rw [hcons]
      cases Scheduler.origin_of_move run.named hm (Scheduler.situation?_of_getElem? hj) with
      | born hs hborn _ _ _ =>
          -- Nothing was ever done to a job that is new.
          have hnone : s.jobs[i]? = none := Option.map_eq_none_iff.mp hs
          have hidle : job.record.active = false := hborn.inactive
          refine iff_of_false (by simp [hidle]) ?_
          rintro (⟨job₁, -, hj₁, -⟩ | ⟨e, he, job₁, -, hj₁, -⟩)
          · exact absurd (hnone.symm.trans hj₁) (by simp)
          · obtain ⟨_, s₂, _, -, hm₁, after⟩ := run.of_mem he
            obtain ⟨job₂, hj₂, -⟩ := Scheduler.terms_of_move hm₁ hj₁
            obtain ⟨job₃, hj₃, -⟩ := after.terms hj₂
            exact absurd (hnone.symm.trans hj₃) (by simp)
      | @changed v ms hs hchange _ _ =>
          have hjv := (Scheduler.situation?_eq_some.mp hs).1
          have hsame : job.record.active = v.job.record.active :=
            hchange.active_of_vanished (run.sound hs) hp
          have hnext : (s.move? m).bind (·.jobs[i]?) = some job := by
            rw [hm, Option.bind_some, hj]
          rw [hsame]
          cases ha : v.job.phase.alive with
          | true =>
              -- The runner vanishes by this move.
              have hactive := ((run.sound hs).tended_of_alive ha).active
              have hbefore : ¬LeftBusy past i := fun h => by
                rw [h.vanished run hjv] at ha
                exact Bool.false_ne_true ha
              rw [hactive, Bool.or_eq_true, or_iff_left hbefore]
              constructor
              · intro hbusy
                exact ⟨v.job, job, hjv, ha, hbusy, hnext, hp⟩
              · rintro ⟨job₁, -, hj₁, -, hbusy, -⟩
                obtain rfl : v.job = job₁ := Option.some_inj.mp (hjv.symm.trans hj₁)
                exact hbusy
          | false =>
              have hgone : ¬s.TakesBusy m i := by
                rintro ⟨job₁, -, hj₁, ha₁, -⟩
                obtain rfl : v.job = job₁ := Option.some_inj.mp (hjv.symm.trans hj₁)
                exact Bool.false_ne_true (ha.symm.trans ha₁)
              rw [or_iff_right hgone]
              exact ih hjv ((hchange.of_gone ha).1.symm.trans hp)

/-- What a request to run the job `i`, which holds `name` at the end of a run, comes to. -/
structure Answered (past : List (Scheduler × Move)) (s : Scheduler) (i : JobId) (job : Job)
    (name : String) (s' : Scheduler) (answer : Except ServiceError Unit) : Prop where
  /-- A one-off job leaves the registry in every case, and a periodic one stays. -/
  entry : s'.registry = if job.record.periodic then s.registry else (s.unregister name).registry
  /-- What is accepted makes the job active and places one run signal, and what is refused leaves
  every job as it was. -/
  accepted : answer = .ok () → job.record.running.pending = false ∧
    s'.jobs = s.jobs.modify i fun j => { j with record := j.record.signalled }
  refused : answer ≠ .ok () → s'.jobs = s.jobs
  oneOff : job.record.periodic = false →
    answer = if job.phase.alive then .ok () else .error (.jobFinalised name)
  running : job.record.periodic = true →
    (answer = .error (.jobRunning name) ↔ job.Busy ∨ LeftBusy past i)
  finalised : job.record.periodic = true →
    (answer = .error (.jobFinalised name) ↔
      ¬(job.Busy ∨ LeftBusy past i) ∧ job.phase.alive = false)
  done : job.record.periodic = true →
    (answer = .ok () ↔ ¬(job.Busy ∨ LeftBusy past i) ∧ job.phase.alive = true)
  alive : job.phase.alive = true → answer ≠ .error (.jobFinalised name)

theorem active_iff_busy (run : Run (.initial monitor logging) past s) (hj : s.jobs[i]? = some job)
    (hr : (s.situate i job).registered = true) :
    job.record.active = true ↔ job.Busy ∨ LeftBusy past i := by
  have hsound := run.sound (Scheduler.situation?_of_getElem? hj)
  cases ha : job.phase.alive with
  | true =>
      have hactive : job.record.active = (job.phase.isRunning || job.record.running.pending) :=
        (hsound.tended_of_alive ha).active
      have hleft : ¬LeftBusy past i := fun h => by
        rw [h.vanished run hj] at ha
        exact Bool.false_ne_true ha
      rw [hactive, Bool.or_eq_true, or_iff_left hleft]
      rfl
  | false =>
      have hp : job.phase = .vanished := by
        cases hp : job.phase with
        | vanished => rfl
        | returned => exact absurd hp (hsound.open_of_registered hr).1
        | _ => exact absurd ha (by simp [hp, Phase.alive])
      have hidle : ¬job.Busy := by
        have hempty : job.record.running.pending = false :=
          (hsound.abandoned_of_vanished hp).running.1
        simp [Job.Busy, hp, hempty, Phase.isRunning]
      rw [run.active_of_vanished_iff hj hp, or_iff_right hidle]

/-- In every state of every run, a name that is not registered cannot be run. A registered one-off
job loses its name whatever the answer is, which is yes if and only if it has a runner. A registered
periodic job keeps its name; it is running if it is executing or has an unconsumed run signal, or
did when its runner vanished, and else it is finalised if it has no runner. -/
theorem request_answered (run : Run (.initial monitor logging) past s) (a : Option JobId)
    (name : String) :
    (s.registry.lookup name = none → s.run a name = (s, .error (.noSuchJob name))) ∧
    ∀ i, s.registry.lookup name = some i → ∃ job, s.jobs[i]? = some job ∧
      job.record.name = name ∧ Answered past s i job name (s.run a name).1 (s.run a name).2 := by
  refine ⟨fun hnone => ?_, fun i hl => ?_⟩
  · simp only [Scheduler.run, (Scheduler.find?_eq_none_iff run.named name).mpr hnone]
  · obtain ⟨job, hj, hname⟩ := run.named name i hl
    have hfind : s.find? name = some (i, job) := by simp [Scheduler.find?, hl, hj]
    have hv := Scheduler.situation?_of_getElem? hj
    have hr := ((Scheduler.lookup_eq_some_iff run.named hv name).mp hl).1
    have hbusy := run.active_iff_busy hj hr
    have hentry := s.registry_called name job
    have hjobs := s.jobs_called name job
    refine ⟨job, hj, hname, ?_⟩
    subst hname
    rcases (run.sound hv).triggerRun_cases hr with
      ⟨hactive, hper, htrigger⟩ | ⟨hidle, halive, htrigger⟩ | ⟨hidle, hgone, htrigger⟩
    · have hleft := hbusy.mp hactive
      rw [Scheduler.run_of_error a hfind htrigger]
      exact
        { entry := hentry
          accepted := fun h => absurd h (by simp)
          refused := fun _ => hjobs
          oneOff := fun hone => absurd (hone.symm.trans hper) Bool.false_ne_true
          running := fun _ => iff_of_true rfl hleft
          finalised := fun _ => iff_of_false (by simp) fun h => h.1 hleft
          done := fun _ => iff_of_false (by simp) fun h => h.1 hleft
          alive := fun _ => by simp }
    · have hfree : ¬(job.Busy ∨ LeftBusy past i) := fun h =>
        Bool.false_ne_true (hidle.symm.trans (hbusy.mpr h))
      have hempty := Bool.eq_false_iff.mpr fun h => hfree (.inl (.inr h))
      have hsignalled : (((s.called job.record.name job).updateRecord i Record.signalled).log a
          (.runSignalled job.record.name)).jobs =
          s.jobs.modify i fun j => { j with record := j.record.signalled } := by
        rw [Scheduler.jobs_log, ← hjobs]
        rfl
      rw [Scheduler.run_of_ok a hfind htrigger]
      exact
        { entry := (Scheduler.registry_log _ _ _).trans hentry
          accepted := fun _ => ⟨hempty, hsignalled⟩
          refused := fun h => absurd rfl h
          oneOff := fun _ => (if_pos halive).symm
          running := fun _ => iff_of_false (by simp) hfree
          finalised := fun _ => iff_of_false (by simp) fun h =>
            Bool.false_ne_true (h.2.symm.trans halive)
          done := fun _ => iff_of_true rfl ⟨hfree, halive⟩
          alive := fun _ => by simp }
    · have hfree : ¬(job.Busy ∨ LeftBusy past i) := fun h =>
        Bool.false_ne_true (hidle.symm.trans (hbusy.mpr h))
      have hdead : job.phase.alive ≠ true := Bool.eq_false_iff.mp hgone
      rw [Scheduler.run_of_error a hfind htrigger]
      exact
        { entry := hentry
          accepted := fun h => absurd h (by simp)
          refused := fun _ => hjobs
          oneOff := fun _ => (if_neg hdead).symm
          running := fun _ => iff_of_false (by simp) hfree
          finalised := fun _ => iff_of_true rfl ⟨hfree, hgone⟩
          done := fun _ => iff_of_false (by simp) fun h => hdead h.2
          alive := fun h => absurd h hdead }

theorem running_of_vanished : ∃ past s, Run (.initial .recording false) past s ∧
    s.registry.lookup "a" = some 0 ∧ (s.run none "a").2 = .error (.jobRunning "a") := by
  have run := (begun (.initial .recording false)).next
    (.call (.schedulePeriodic plainOrder (some []) (some .empty))) rfl |>.next
    (.call (.run "a")) rfl |>.next .shutdown rfl
  obtain ⟨job, hj, -, hanswered⟩ := (run.request_answered none "a").2 0 rfl
  cases hj
  refine ⟨_, _, run, rfl, (hanswered.running rfl).mpr (.inr ?_)⟩
  exact ⟨_, List.mem_cons_self, _, _, rfl, rfl, .inr rfl, rfl, rfl⟩

end Run

namespace Scheduler

variable {s t : Scheduler} {a : Option JobId} {o : JobOrder} {periodic : Bool}

theorem vet_eq (s : Scheduler) (o : JobOrder) (planned : Bool) (work : Option Work) :
    s.vet o planned work = match s.firstFault? o planned work with
      | some e => .error e
      | none => .ok (work.getD []) := by
  unfold vet firstFault? faults
  by_cases hname : o.name = ""
  · simp [hname]
  · cases planned with
    | false => simp [hname]
    | true =>
        cases work with
        | none => simp [hname]
        | some w =>
            cases s.isRegistered o.name <;> simp [hname]

theorem Enlists.log (h : s.Enlists t o periodic) (a : Option JobId) (e : LogEntry) :
    s.Enlists (t.log a e) o periodic := by
  unfold Scheduler.log
  split
  · exact { h with notices := h.notices }
  · exact h

theorem report_eq (s : Scheduler) (a : Option JobId) (i : JobId) (cls : String) (r : Report) :
    s.report a i cls r = { s with
      monitor := s.monitor.observe r cls
      history := if s.monitor = .recording
        then ⟨s.now, a, .reported i r cls⟩ :: s.history else s.history } := by
  unfold report
  cases h : s.monitor <;> simp [emit, h, Monitor.observe]

theorem enlists_enrol (s : Scheduler) (a : Option JobId) {job : Job}
    (halive : job.phase.alive = true)
    (hrecord : job.record = { name := o.name, cls := o.cls, periodic := periodic }) :
    s.Enlists (s.enrol a job) o periodic := by
  unfold enrol
  dsimp only
  rw [report_eq, hrecord]
  refine Enlists.log ?_ _ _
  exact
    { registry := rfl
      jobs := ⟨job, rfl, halive, hrecord⟩
      monitor := rfl
      notices := by
        by_cases hm : s.monitor = .recording <;> simp [notices, hm]
      rest := ⟨rfl, rfl, rfl⟩ }

theorem record_newJob (s : Scheduler) (o : JobOrder) (periodic : Bool) (work : Work)
    (plan : Plan Action) (phase : Phase) (hin : o.outside = false) :
    (s.newJob o periodic work plan phase).record =
      { name := o.name, cls := o.cls, periodic := periodic } := by
  unfold newJob
  rw [hin]
  rfl

theorem schedule_answers (s : Scheduler) (a : Option JobId) (o : JobOrder) (work : Option Work)
    (runtime : Moment) :
    (∀ e, s.firstFault? o true work = some e → s.schedule a o work runtime = (s, .refused e)) ∧
    (s.firstFault? o true work = none → o.outside = false →
      (s.schedule a o work runtime).2 = .done ∧
        s.Enlists (s.schedule a o work runtime).1 o false) := by
  unfold schedule
  rw [vet_eq]
  refine ⟨fun e he => by rw [he], fun hnone hin => ?_⟩
  rw [hnone]
  refine ⟨?_, ?_⟩
  · simp [launch, hin]
  · exact ((enlists_enrol s a (alive_newJob o false _ .empty rfl hin)
      (s.record_newJob o false _ _ _ hin)).log _ _).log _ _

theorem schedulePeriodic_answers (s : Scheduler) (a : Option JobId) (o : JobOrder)
    (work : Option Work) (plan : Option (Plan Action)) :
    (∀ e, s.firstFault? o plan.isSome work = some e →
      s.schedulePeriodic a o work plan = (s, .refused e)) ∧
    (s.firstFault? o plan.isSome work = none → o.outside = false →
      (s.schedulePeriodic a o work plan).2 = .done ∧
        s.Enlists (s.schedulePeriodic a o work plan).1 o true) := by
  unfold schedulePeriodic
  rw [vet_eq]
  refine ⟨fun e he => by rw [he], fun hnone hin => ?_⟩
  rw [hnone]
  refine ⟨?_, ?_⟩
  · simp [launch, hin]
  · exact (enlists_enrol s a (alive_newJob o true _ _ rfl hin)
      (s.record_newJob o true _ _ _ hin)).log _ _

theorem schedule_of_refused {work : Option Work} {runtime : Moment} {e : ServiceError}
    (h : (s.schedule a o work runtime).2 = .refused e) : (s.schedule a o work runtime).1 = s := by
  unfold schedule at h ⊢
  split at h
  · rfl
  · unfold launch at h
    dsimp only at h
    split at h <;> exact absurd h nofun

theorem schedulePeriodic_of_refused {work : Option Work} {plan : Option (Plan Action)}
    {e : ServiceError} (h : (s.schedulePeriodic a o work plan).2 = .refused e) :
    (s.schedulePeriodic a o work plan).1 = s := by
  unfold schedulePeriodic at h ⊢
  split at h
  · rfl
  · unfold launch at h
    dsimp only at h
    split at h <;> exact absurd h nofun

theorem cancel_of_error {name : String} {e : ServiceError}
    (h : (s.cancel a name).2 = .error e) : (s.cancel a name).1 = s := by
  unfold cancel at h ⊢
  split at h
  · rfl
  · dsimp only at h
    split at h <;> exact absurd h nofun

end Scheduler

namespace Run

variable {monitor : Monitor} {logging : Bool} {past : List (Scheduler × Move)} {s : Scheduler}

theorem run_of_gone (run : Run (.initial monitor logging) past s) (a : Option JobId)
    {name : String} {i : JobId} {job : Job} (hfind : s.find? name = some (i, job))
    (hone : job.record.periodic = false) (hgone : job.phase.alive = false) :
    s.run a name = (s.unregister name, .error (.jobFinalised name)) := by
  obtain ⟨hv, hr, rfl⟩ := Scheduler.situation?_of_find? run.named hfind
  rcases (run.sound hv).triggerRun_cases hr with
    ⟨-, hper, -⟩ | ⟨-, halive, -⟩ | ⟨-, -, htrigger⟩
  · exact absurd (hone.symm.trans hper) Bool.false_ne_true
  · exact absurd (hgone.symm.trans halive) Bool.false_ne_true
  · rw [Scheduler.run_of_error a hfind htrigger, Scheduler.called, hone]
    rfl

theorem run_of_refused (run : Run (.initial monitor logging) past s) (a : Option JobId)
    {name : String} {e : ServiceError} (h : (s.run a name).2 = .error e) :
    (s.run a name).1 = s ∨ ∃ i job, s.find? name = some (i, job) ∧
      job.record.periodic = false ∧ job.phase.alive = false := by
  cases hfind : s.find? name with
  | none =>
      refine .inl ?_
      simp only [Scheduler.run, hfind]
  | some found =>
      obtain ⟨i, job⟩ := found
      obtain ⟨hv, hr, hname⟩ := Scheduler.situation?_of_find? run.named hfind
      rcases (run.sound hv).triggerRun_cases hr with
        ⟨-, hper, htrigger⟩ | ⟨-, -, htrigger⟩ | ⟨-, hgone, htrigger⟩
      · have hper' : job.record.periodic = true := hper
        rw [Scheduler.run_of_error a hfind htrigger, Scheduler.called, if_pos hper']
        exact .inl rfl
      · rw [Scheduler.run_of_ok a hfind htrigger] at h
        exact absurd h (by simp)
      · cases hper : job.record.periodic with
        | true =>
            rw [Scheduler.run_of_error a hfind htrigger, Scheduler.called, if_pos hper]
            exact .inl rfl
        | false => exact .inr ⟨i, job, rfl, hper, hgone⟩

/-- In every state of every run, a call that is refused changes nothing: neither the registry nor a
job nor its channels nor what the monitor was told. The one exception is a request to run a one-off
job whose runner is gone, which is told that the job is finalised, and takes out its entry. A call
that schedules a job is refused with the first fault in the order of the checks, and where there is
none and runners can live, one entry, one job with a runner and one report are added. -/
theorem refused_unchanged (run : Run (.initial monitor logging) past s) (a : Option JobId) :
    (∀ c e, (s.call a c).2 = .refused e → (s.call a c).1 = s ∨ ∃ name i job, c = .run name ∧
      s.find? name = some (i, job) ∧ job.record.periodic = false ∧ job.phase.alive = false) ∧
    (∀ name i job, s.find? name = some (i, job) → job.record.periodic = false →
      job.phase.alive = false → s.run a name = (s.unregister name, .error (.jobFinalised name))) ∧
    (∀ o work runtime,
      (∀ e, s.firstFault? o true work = some e →
        (s.call a (.schedule o work runtime)).2 = .refused e) ∧
      (s.firstFault? o true work = none → o.outside = false →
        (s.call a (.schedule o work runtime)).2 = .done ∧
          s.Enlists (s.call a (.schedule o work runtime)).1 o false)) ∧
    ∀ o work plan,
      (∀ e, s.firstFault? o plan.isSome work = some e →
        (s.call a (.schedulePeriodic o work plan)).2 = .refused e) ∧
      (s.firstFault? o plan.isSome work = none → o.outside = false →
        (s.call a (.schedulePeriodic o work plan)).2 = .done ∧
          s.Enlists (s.call a (.schedulePeriodic o work plan)).1 o true) := by
  have herror : ∀ {result : Except ServiceError Unit} {e : ServiceError},
      Answer.ofResult result = .refused e → result = .error e := by
    intro result e h
    cases result with
    | ok => exact absurd h nofun
    | error e' =>
        cases h
        rfl
  refine ⟨fun c e h => ?_, fun name i job hfind => run.run_of_gone a hfind,
    fun o work runtime => ?_, fun o work plan => ?_⟩
  · cases c with
    | schedule o work runtime => exact .inl (Scheduler.schedule_of_refused h)
    | schedulePeriodic o work plan => exact .inl (Scheduler.schedulePeriodic_of_refused h)
    | run name =>
        rcases run.run_of_refused a (herror h) with hsame | ⟨i, job, hrest⟩
        · exact .inl hsame
        · exact .inr ⟨name, i, job, rfl, hrest⟩
    | cancel name => exact .inl (Scheduler.cancel_of_error (herror h))
    | _ => exact absurd h nofun
  · obtain ⟨hfault, hnone⟩ := s.schedule_answers a o work runtime
    exact ⟨fun e he => congrArg Prod.snd (hfault e he), hnone⟩
  · obtain ⟨hfault, hnone⟩ := s.schedulePeriodic_answers a o work plan
    exact ⟨fun e he => congrArg Prod.snd (hfault e he), hnone⟩

theorem refused_of_taken : ∃ past s, Run (.initial .recording false) past s ∧
    (s.call none (.schedule plainOrder (some []) (.after 1))).2 =
      .refused (.jobAlreadyExists "a") ∧
    (s.call none (.schedulePeriodic plainOrder (some []) none)).2 = .refused .noRuntimeFunc ∧
    (s.call none (.run "a")).2 = .refused (.jobFinalised "a") ∧
    (s.run none "a").1 = s.unregister "a" := by
  have run := (begun (.initial .recording false)).next
    (.call (.schedule plainOrder (some []) (.after 1))) rfl |>.next .shutdown rfl
  obtain ⟨-, hgone, hone, hper⟩ := run.refused_unchanged none
  have hrun := hgone "a" 0 _ rfl rfl rfl
  refine ⟨_, _, run, (hone _ _ _).1 _ rfl, (hper _ _ none).1 _ rfl, ?_, ?_⟩
  · exact congrArg (fun r => Answer.ofResult r.2) hrun
  · exact congrArg Prod.fst hrun

end Run

end JobScheduler
