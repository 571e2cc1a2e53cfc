import JobScheduler.Proofs.Cancellation
import JobScheduler.Proofs.Orders
import JobScheduler.Proofs.FunctionalSimulation

/-!
Jobs whose runner is gone without having ended: the runners were dropped, or the job was scheduled
where no runner can live. Such a job keeps its name, as it is, until a call takes the name from it
(`Run.stays`), it is never heard of again, and once its name is free it might as well never have
been called so (`Run.buried`).
-/

namespace JobScheduler

/-- Whether a call takes a name from a job without a runner that holds it: it cancels the job, or
requests a run of it and the job is a one-off job. -/
def Call.takes (name : String) (periodic : Bool) : Call → Bool
  | .run n | .runIfExists n => !periodic && n == name
  | c => c.cancels name

/-- Whether a move makes a call that takes a name from a job without a runner. -/
def Scheduler.takes (s : Scheduler) (m : Move) (name : String) (periodic : Bool) : Bool :=
  (s.callOf? m).any (·.takes name periodic)

namespace Scheduler

variable {s s' : Scheduler} {i : JobId} {m : Move} {a : Option JobId} {v : Situation}

theorem call_of_nameless (a : Option JobId) {c : Call} {o : JobOrder} (ho : c.order? = some o)
    (hname : o.name = "") : (s.call a c).1 = s := by
  cases c with
  | schedule o' work runtime =>
      cases ho
      simp only [call, schedule, vet, hname, if_true]
  | schedulePeriodic o' work plan =>
      cases ho
      simp only [call, schedulePeriodic, vet, hname, if_true]
  | _ => exact absurd ho (by simp [Call.order?])

theorem name_ne_of_move (hm : s.move? m = some s') (hnone : s.jobs[i]? = none) {job : Job}
    (hj : s'.jobs[i]? = some job) : job.record.name ≠ "" := by
  intro hname
  obtain ⟨c, hc, ⟨o, ho, hn, -⟩, -⟩ := orderedBy_of_move hm hnone hj
  have hsame := fun a => call_of_nameless (s := s) a ho (hn.symm.trans hname)
  cases m with
  | call c' =>
      cases hm
      cases hc
      rw [hsame] at hj
      exact absurd (hnone.symm.trans hj) (by simp)
  | turn k =>
      obtain ⟨answer, phase, rfl⟩ := step_of_call hm hc
      rw [hsame] at hj
      simp [setPhase, updateJob, emit, List.getElem?_modify, hnone] at hj
  | _ => exact absurd hc (by simp [callOf?])

theorem lookup_cancel (hs : s.Named) (a : Option JobId) (name n : String) :
    (s.cancel a name).1.registry.lookup n =
      if n = name then none else s.registry.lookup n := by
  cases hfind : s.find? name with
  | none =>
      have hfree := (find?_eq_none_iff hs name).mp hfind
      simp only [cancel, hfind]
      split
      · rename_i hn
        rw [hn, hfree]
      · rfl
  | some found =>
      obtain ⟨k, job⟩ := found
      simp only [cancel, hfind]
      split <;> rw [registry_log] <;> exact s.lookup_unregister name n

theorem registry_run (a : Option JobId) {name : String} {job : Job}
    (hfind : s.find? name = some (i, job)) :
    (s.run a name).1.registry = (s.called name job).registry := by
  simp only [run, hfind]
  split
  · exact registry_log _ _ _
  · rfl

theorem registry_runIfExists (a : Option JobId) (name : String) :
    (s.runIfExists a name).registry = (s.run a name).1.registry := by
  unfold runIfExists
  rcases s.run a name with ⟨t, _ | _⟩
  · exact registry_log _ _ _
  · rfl

theorem lookup_cancelEach (hs : s.Named) (a : Option JobId) (names : List String) (n : String) :
    (names.foldl (fun s name => s.cancelIfExists a name) s).registry.lookup n =
      if n ∈ names then none else s.registry.lookup n := by
  induction names generalizing s with
  | nil => simp
  | cons name rest ih =>
      rw [List.foldl_cons, cancelIfExists, ih ((s.persists_cancel a name).named hs),
        lookup_cancel hs]
      by_cases hn : n = name <;> simp [hn]

end Scheduler

namespace Scheduler

variable {s s' : Scheduler} {i : JobId} {m : Move} {v : Situation}

theorem stays_of_call (hs : s.Named) (hv : s.situation? i = some v) (hr : v.registered = true)
    (hgone : v.Abandoned) (a : Option JobId) {c : Call}
    (hc : c.takes v.job.record.name v.job.record.periodic = false) :
    ∃ v', (s.call a c).1.situation? i = some v' ∧ v'.registered = true ∧ v'.job = v.job := by
  have hname : ∀ name, s.registry.lookup name = some i → v.job.record.name = name :=
    fun name hl => ((lookup_eq_some_iff hs hv name).mp hl).2
  have hrun : ∀ name, (!v.job.record.periodic && name == v.job.record.name) = false →
      ∃ v', (s.run a name).1.situation? i = some v' ∧ v'.registered = true ∧ v'.job = v.job := by
    intro name hno
    refine ⟨_, situation?_run hs a name hv, ?_⟩
    split
    · rename_i hl
      have hper : v.job.record.periodic = true := by simpa [hname name hl] using hno
      have hsame : v.job.record.triggerRun.1 = v.job.record := congrArg Prod.fst hgone.triggerRun_eq
      exact ⟨hper, by simp [Situation.requestRun, Situation.withRecord, Situation.update, hsame]⟩
    · exact ⟨hr, rfl⟩
  have hcancel : ∀ name, (name == v.job.record.name) = false →
      ∃ v', (s.cancel a name).1.situation? i = some v' ∧ v'.registered = true ∧
        v'.job = v.job := by
    intro name hno
    refine ⟨v, ?_, hr, rfl⟩
    rw [situation?_cancel hs a name hv, if_neg]
    intro hl
    simp [hname name hl] at hno
  cases c with
  | schedule o work runtime =>
      exact ⟨v, ((enrols_schedule a o work runtime).old hv).1, hr, rfl⟩
  | schedulePeriodic o work plan =>
      exact ⟨v, ((enrols_schedulePeriodic a o work plan).old hv).1, hr, rfl⟩
  | run name => exact hrun name hc
  | runIfExists name =>
      obtain ⟨v', hv', hstays⟩ := hrun name hc
      exact ⟨v', ((runIfExists_eq a name i).1).trans hv', hstays⟩
  | cancel name => exact hcancel name hc
  | cancelIfExists name => exact hcancel name hc
  | cancelAll stem =>
      refine ⟨v, ?_, hr, rfl⟩
      have hno : stem.toList.isPrefixOf v.job.record.name.toList = false := hc
      rw [call, situation?_cancelAll hs a stem hv, if_neg (by simp [hno])]
  | cancelToken name => exact ⟨_, situation?_cancelToken hv name, hr, rfl⟩
  | _ => exact ⟨v, hv, hr, rfl⟩

theorem stays_of_move (hs : s.Named) (hv : s.situation? i = some v) (hr : v.registered = true)
    (hp : v.job.phase = .vanished) (hgone : v.Abandoned)
    (hm : s.move? m = some s') (hno : s.takes m v.job.record.name v.job.record.periodic = false) :
    ∃ v', s'.situation? i = some v' ∧ v'.registered = true ∧ v'.job = v.job := by
  have hj := (situation?_eq_some.mp hv).1
  cases m with
  | call c =>
      cases hm
      exact stays_of_call hs hv hr hgone none hno
  | turn k =>
      have hki : k ≠ i := by
        rintro rfl
        rw [move?, step?_of_gone] at hm
        · exact absurd hm (by simp)
        · intro job hj'
          obtain rfl : job = v.job := Option.some_inj.mp (hj'.symm.trans hj)
          rw [hp]
          rfl
      rw [(step_of_ne hki hm).1]
      rw [takes] at hno
      cases hc : s.callOf? (.turn k) with
      | none => exact ⟨v, hv, hr, rfl⟩
      | some c =>
          rw [hc] at hno
          exact stays_of_call hs hv hr hgone (some k) hno
  | pass ms =>
      cases hm
      have hnew : (s.stall ms).situation? i = some ((s.stall ms).situate i v.job) :=
        situation?_of_getElem? hj
      exact ⟨_, hnew, decide_eq_true ((registered_iff hv).mp hr), rfl⟩
  | shutdown =>
      cases hm
      have hnew : s.shutdown.situation? i = some (v.update Job.vanish) := by
        rw [situation?_shutdown, hv, Option.map_some]
      refine ⟨_, hnew, hr, ?_⟩
      rw [Situation.update_job, Job.vanish, hp]
      rfl

theorem freed_of_move (hs : s.Named) (hv : s.situation? i = some v) (hr : v.registered = true)
    (hm : s.move? m = some s') (htakes : s.takes m v.job.record.name v.job.record.periodic = true) :
    s'.registry.lookup v.job.record.name = none := by
  have hfind : s.find? v.job.record.name = some (i, v.job) := by
    simp [find?, (registered_iff hv).mp hr, (situation?_eq_some.mp hv).1]
  have hrun : ∀ a name, (!v.job.record.periodic && name == v.job.record.name) = true →
      (s.run a name).1.registry.lookup v.job.record.name = none := by
    intro a name htaken
    obtain ⟨hone, hname⟩ := (Bool.and_eq_true _ _).mp htaken
    have hone' : v.job.record.periodic = false := by simpa using hone
    rw [eq_of_beq hname, registry_run a hfind, registry_called, hone']
    simp only [Bool.false_eq_true, if_false, lookup_unregister, if_true]
  have hcancel : ∀ a name, (name == v.job.record.name) = true →
      (s.cancel a name).1.registry.lookup v.job.record.name = none := by
    intro a name htaken
    rw [lookup_cancel hs, if_pos (eq_of_beq htaken).symm]
  have hcall : ∀ a c, c.takes v.job.record.name v.job.record.periodic = true →
      (s.call a c).1.registry.lookup v.job.record.name = none := by
    intro a c htaken
    cases c with
    | run name => exact hrun a name htaken
    | runIfExists name => exact (registry_runIfExists a name).symm ▸ hrun a name htaken
    | cancel name => exact hcancel a name htaken
    | cancelIfExists name => exact hcancel a name htaken
    | cancelAll stem =>
        have hmem := (mem_matching hv hr stem).mpr htaken
        rw [call, cancelAll, lookup_cancelEach hs, if_pos hmem]
    | _ => exact absurd htaken Bool.false_ne_true
  cases m with
  | call c =>
      cases hm
      exact hcall none c htakes
  | turn k =>
      obtain ⟨c, hc, htaken⟩ := Option.any_eq_true _ _ |>.mp htakes
      obtain ⟨answer, phase, rfl⟩ := step_of_call hm hc
      exact hcall (some k) c htaken
  | _ => exact absurd htakes Bool.false_ne_true

end Scheduler

namespace Scheduler

theorem log_updateJob (s : Scheduler) (a : Option JobId) (e : LogEntry) (i : JobId)
    (f : Job → Job) :
    (s.updateJob i f).log a e = (s.log a e).updateJob i f := by
  unfold log
  rw [show (s.updateJob i f).logging = s.logging from rfl]
  split <;> rfl

theorem report_updateJob (s : Scheduler) (a : Option JobId) (about : JobId) (cls : String)
    (r : Report) (i : JobId) (f : Job → Job) :
    (s.updateJob i f).report a about cls r = (s.report a about cls r).updateJob i f := by
  rw [report_eq, report_eq]
  rfl

theorem enrol_vanish (s : Scheduler) (a : Option JobId) (job : Job) :
    s.enrol a job.vanish = (s.enrol a job).updateJob s.jobs.length Job.vanish := by
  have hjobs : (s.jobs ++ [job]).modify s.jobs.length Job.vanish = s.jobs ++ [job.vanish] := by
    apply List.ext_getElem?
    intro i
    rw [List.getElem?_modify, getElem?_added, getElem?_added]
    by_cases hi : i = s.jobs.length
    · simp [hi]
    · simp [hi, Ne.symm hi]
  have hlabel : job.vanish.record.label = job.record.label := congrArg Prod.fst job.terms_vanish
  have hname : job.vanish.record.name = job.record.name := congrArg Prod.fst hlabel
  have hcls : job.vanish.record.cls = job.record.cls := congrArg (·.2.1) hlabel
  have hperiodic : job.vanish.record.periodic = job.record.periodic := congrArg (·.2.2) hlabel
  unfold enrol
  dsimp only
  rw [hname, hcls, hperiodic, ← log_updateJob, ← report_updateJob, updateJob, ← hjobs]

theorem newJob_outside (s : Scheduler) {o : JobOrder} (hout : o.outside = true) (periodic : Bool)
    (work : Work) (plan : Plan Action) (phase : Phase) :
    s.newJob o periodic work plan phase =
      (s.newJob { o with outside := false } periodic work plan phase).vanish := by
  unfold newJob
  rw [hout]
  rfl

theorem schedule_outside (s : Scheduler) (a : Option JobId) {o : JobOrder} {work : Option Work}
    (runtime : Moment) (hnone : s.firstFault? o true work = none) (hout : o.outside = true) :
    s.schedule a o work runtime =
      ((s.schedule a { o with outside := false } work runtime).1.updateJob s.jobs.length Job.vanish,
        .panicked) := by
  have hnone' : s.firstFault? { o with outside := false } true work = none := hnone
  unfold schedule
  rw [vet_eq, vet_eq, hnone, hnone']
  simp only [launch, newJob_outside s hout, enrol_vanish, log_updateJob, hout, if_true]

theorem schedulePeriodic_outside (s : Scheduler) (a : Option JobId) {o : JobOrder}
    {work : Option Work} {plan : Option (Plan Action)}
    (hnone : s.firstFault? o plan.isSome work = none) (hout : o.outside = true) :
    s.schedulePeriodic a o work plan =
      ((s.schedulePeriodic a { o with outside := false } work plan).1.updateJob s.jobs.length
        Job.vanish, .panicked) := by
  have hnone' : s.firstFault? { o with outside := false } plan.isSome work = none := hnone
  unfold schedulePeriodic
  rw [vet_eq, vet_eq, hnone, hnone']
  simp only [launch, newJob_outside s hout, enrol_vanish, log_updateJob, hout, if_true]

/-- Whether a scheduler comes out of another by one new job as ordered, whose runner is gone at
once. -/
def EnlistsGone (s t : Scheduler) (o : JobOrder) (periodic : Bool) : Prop :=
  ∃ u, s.Enlists u o periodic ∧ t = u.updateJob s.jobs.length Job.vanish

theorem schedule_panics (s : Scheduler) (a : Option JobId) {o : JobOrder} {work : Option Work}
    (runtime : Moment) (hnone : s.firstFault? o true work = none) (hout : o.outside = true) :
    (s.schedule a o work runtime).2 = .panicked ∧
      s.EnlistsGone (s.schedule a o work runtime).1 o false := by
  have henlists := ((s.schedule_answers a { o with outside := false } work runtime).2 hnone rfl).2
  rw [s.schedule_outside a runtime hnone hout]
  exact ⟨rfl, _, { henlists with }, rfl⟩

theorem schedulePeriodic_panics (s : Scheduler) (a : Option JobId) {o : JobOrder}
    {work : Option Work} {plan : Option (Plan Action)}
    (hnone : s.firstFault? o plan.isSome work = none) (hout : o.outside = true) :
    (s.schedulePeriodic a o work plan).2 = .panicked ∧
      s.EnlistsGone (s.schedulePeriodic a o work plan).1 o true := by
  have henlists :=
    ((s.schedulePeriodic_answers a { o with outside := false } work plan).2 hnone rfl).2
  rw [s.schedulePeriodic_outside a hnone hout]
  exact ⟨rfl, _, { henlists with }, rfl⟩

/-- Whether a scheduler is another one without its runners: the registry, the flags of all jobs, the
monitor and the history are the same, and no runner lives. -/
structure Bereft (s t : Scheduler) : Prop where
  rest : t = { s with jobs := t.jobs }
  length : t.jobs.length = s.jobs.length
  flags : ∀ (i : JobId) (job : Job), s.jobs[i]? = some job → ∃ job' : Job,
    t.jobs[i]? = some job' ∧
    job'.phase.alive = false ∧ job'.terms = job.terms ∧
    job'.record.active = job.record.active ∧ job'.record.finalised = job.record.finalised
  isActive : ∀ name, t.isActive name = s.isActive name

theorem bereft_shutdown (s : Scheduler) : s.Bereft s.shutdown where
  rest := rfl
  length := by simp [shutdown]
  flags i job hj := by
    refine ⟨job.vanish, by simp [shutdown, hj], Situation.alive_vanish job, job.terms_vanish, ?_⟩
    unfold Job.vanish
    split <;> exact ⟨rfl, rfl⟩
  isActive name := by
    have hactive : ∀ j : Job, j.vanish.record.active = j.record.active := by
      intro j
      unfold Job.vanish
      split <;> rfl
    unfold Scheduler.isActive find? shutdown
    cases s.registry.lookup name with
    | none => rfl
    | some i =>
        simp only [Option.bind_some, List.getElem?_map, Option.map_map]
        cases s.jobs[i]? with
        | none => rfl
        | some job => exact congrArg some (hactive job)

end Scheduler

namespace Scheduler

/-- A scheduler with other jobs in the places of some. -/
def burying (s : Scheduler) (tombs : JobId → Option Job) : Scheduler :=
  { s with jobs := s.jobs.mapIdx fun i j => (tombs i).getD j }

/-- Whether job `i` is out of reach: it has no runner, and no name leads to it. -/
structure Forgets (s : Scheduler) (i : JobId) : Prop where
  gone : ∃ job, s.jobs[i]? = some job ∧ job.phase.alive = false
  free : ∀ name, s.registry.lookup name ≠ some i

variable {s : Scheduler} {tombs : JobId → Option Job} {i : JobId}

theorem getElem?_burying (s : Scheduler) (tombs : JobId → Option Job) (i : JobId) :
    (s.burying tombs).jobs[i]? = s.jobs[i]?.map (tombs i).getD := by
  simp [burying, List.getElem?_mapIdx]

end Scheduler

/-- The retelling that changes nothing. -/
def Retelling.identity : Retelling where
  tell s := s
  hidden _ := False
  core _ _ _ _ _ := rfl
  length _ := rfl
  jobs _ _ _ := rfl
  gone _ _ _ h := h.elim
  updateJob _ _ _ _ := rfl
  addJob _ _ _ := rfl
  shutdown _ := rfl
  emit _ _ _ _ := rfl
  log _ _ _ := rfl
  report _ _ _ _ _ := rfl

theorem Retelling.identity_lasts (s : Scheduler) : identity.Lasts s :=
  fun _ _ _ => ⟨fun _ _ _ h => h, fun _ h => h.elim⟩

/-- The retelling with other jobs in the places of some, which have no runners. -/
def Retelling.buried (tombs : JobId → Option Job)
    (hgone : ∀ i g, tombs i = some g → g.phase.alive = false) : Retelling where
  tell s := s.burying tombs
  hidden i := (tombs i).isSome
  core _ _ _ _ _ := rfl
  length s := by simp [Scheduler.burying]
  jobs s i hi := by
    rw [Scheduler.getElem?_burying, Option.not_isSome_iff_eq_none.mp hi]
    exact Option.map_id_fun ▸ rfl
  gone s i job hi hj := by
    obtain ⟨g, hg⟩ := Option.isSome_iff_exists.mp hi
    rw [Scheduler.getElem?_burying, hg] at hj
    obtain ⟨_, _, rfl⟩ := Option.map_eq_some_iff.mp hj
    exact hgone i g hg
  updateJob s i f hi := by
    have hnone := Option.not_isSome_iff_eq_none.mp hi
    have hjobs : (s.jobs.modify i f).mapIdx (fun i j => (tombs i).getD j) =
        (s.jobs.mapIdx fun i j => (tombs i).getD j).modify i f := by
      apply List.ext_getElem?
      intro k
      simp only [List.getElem?_mapIdx, List.getElem?_modify]
      by_cases hk : i = k
      · subst hk
        cases s.jobs[i]? <;> simp [hnone]
      · simp [hk]
    simp only [Scheduler.burying, Scheduler.updateJob, hjobs]
  addJob s job hnew := by
    have hnone := Option.not_isSome_iff_eq_none.mp hnew
    simp [Scheduler.burying, hnone]
  shutdown s := by
    have hjobs : (s.jobs.map Job.vanish).mapIdx (fun i j => (tombs i).getD j) =
        (s.jobs.mapIdx fun i j => (tombs i).getD j).map Job.vanish := by
      apply List.ext_getElem?
      intro k
      simp only [List.getElem?_mapIdx, List.getElem?_map, Option.map_map]
      congr 1
      funext j
      cases hg : tombs k with
      | none => rfl
      | some g =>
          have hstays : g.vanish = g := if_neg (by simp [hgone k g hg])
          exact hstays.symm
    simp only [Scheduler.burying, Scheduler.shutdown, hjobs]
  emit _ _ _ _ := rfl
  log s a e := by
    unfold Scheduler.log
    rw [show (s.burying tombs).logging = s.logging from rfl]
    split <;> rfl
  report s a i cls r := by
    rw [Scheduler.report_eq, Scheduler.report_eq]
    rfl

theorem Change.forgotten {i : JobId} {m : Move} {v v' : Situation} {ms : List Mark}
    (h : Change i m v ms v') (hfree : v.registered = false) (hgone : v.job.phase.alive = false) :
    v'.registered = false ∧ v'.job.phase.alive = false := by
  refine ⟨?_, by rw [(h.of_gone hgone).1, hgone]⟩
  cases h with
  | touch _ ht =>
      cases ht with
      | none => exact hfree
      | accept hr => exact absurd (hfree.symm.trans hr) Bool.false_ne_true
      | refuse hr => exact absurd (hfree.symm.trans hr) Bool.false_ne_true
      | stop => rfl
      | orphan => exact hfree
  | turn ht => exact absurd (hgone.symm.trans ht.alive) Bool.false_ne_true
  | pass => exact hfree
  | vanish => exact hfree

namespace Scheduler

/-- Whether a job can be scheduled under a name. -/
structure Free (t : Scheduler) (name : String) : Prop where
  oneOff : ∀ a o work runtime, o.name = name → o.outside = false →
    (t.call a (.schedule o (some work) runtime)).2 = .done ∧
      t.Enlists (t.call a (.schedule o (some work) runtime)).1 o false
  periodic : ∀ a o work plan, o.name = name → o.outside = false →
    (t.call a (.schedulePeriodic o (some work) (some plan))).2 = .done ∧
      t.Enlists (t.call a (.schedulePeriodic o (some work) (some plan))).1 o true

theorem free_of_lookup {t : Scheduler} {name : String} (hname : name ≠ "")
    (hl : t.registry.lookup name = none) : t.Free name := by
  have hfree : t.isRegistered name = false := by simp [isRegistered, hl]
  constructor
  · rintro a o work runtime rfl hin
    refine (t.schedule_answers a o (some work) runtime).2 ?_ hin
    simp [firstFault?, faults, hname, hfree]
  · rintro a o work plan rfl hin
    refine (t.schedulePeriodic_answers a o (some work) (some plan)).2 ?_ hin
    simp [firstFault?, faults, hname, hfree]

/-- What a job that holds `name` and has no runner is like in a state. -/
structure Stays (t : Scheduler) (i : JobId) (job : Job) (name : String) : Prop where
  entry : t.registry.lookup name = some i
  same : t.jobs[i]? = some job
  isActive : t.isActive name = some job.record.active
  /-- What is called so is not scheduled. -/
  refused : ∀ a o work runtime, o.name = name → ∃ e,
    t.call a (.schedule o work runtime) = (t, .refused e) ∧
      (work.isSome → e = .jobAlreadyExists name)
  refusedPeriodic : ∀ a o work plan, o.name = name → ∃ e,
    t.call a (.schedulePeriodic o work plan) = (t, .refused e) ∧
      (work.isSome → plan.isSome → e = .jobAlreadyExists name)
  /-- A call that takes the name leaves it to be scheduled again, and the job out of reach. -/
  freed : ∀ m t', t.takes m name job.record.periodic = true → t.move? m = some t' →
    t'.registry.lookup name = none ∧ t'.Free name ∧ t'.Forgets i

end Scheduler

namespace Run

variable {monitor : Monitor} {logging : Bool} {past past' : List (Scheduler × Move)}
  {s t : Scheduler} {i : JobId} {job : Job} {name : String}

theorem name_ne (run : Run (.initial monitor logging) past s) (hj : s.jobs[i]? = some job) :
    job.record.name ≠ "" := by
  induction run generalizing job with
  | start => exact absurd hj (by simp [Scheduler.initial])
  | @next past s s' m run hm ih =>
      cases hjob : s.jobs[i]? with
      | none => exact Scheduler.name_ne_of_move hm hjob hj
      | some job₀ =>
          obtain ⟨job', hj', hterms⟩ := Scheduler.terms_of_move hm hjob
          obtain rfl : job = job' := Option.some_inj.mp (hj.symm.trans hj')
          rw [Scheduler.name_eq_of_terms hterms]
          exact ih hjob

/-- A job without a runner keeps its name, as it is, until a call takes the name from it. -/
theorem stays (run : Run (.initial monitor logging) past s) (hj : s.jobs[i]? = some job)
    (hp : job.phase = .vanished) (hl : s.registry.lookup name = some i) (after : Run s past' t)
    (hno : ∀ e ∈ past', e.1.takes e.2 name job.record.periodic = false) :
    t.registry.lookup name = some i ∧ t.jobs[i]? = some job := by
  induction after with
  | start => exact ⟨hl, hj⟩
  | @next past' t t' m after hm ih =>
      obtain ⟨hm_no, hbefore⟩ := List.forall_mem_cons.mp hno
      obtain ⟨hlt, hjt⟩ := ih hbefore
      have run' := run.trans after
      have hv := Scheduler.situation?_of_getElem? hjt
      obtain ⟨hr, hname⟩ := (Scheduler.lookup_eq_some_iff run'.named hv name).mp hlt
      subst hname
      obtain ⟨v', hv', hr', hjob⟩ := Scheduler.stays_of_move run'.named hv hr hp
        ((run'.sound hv).abandoned_of_vanished hp) hm hm_no
      rw [← show v'.job.record.name = _ from congrArg (fun j : Job => j.record.name) hjob]
      exact ⟨(Scheduler.registered_iff hv').mp hr',
        ((Scheduler.situation?_eq_some.mp hv').1).trans (congrArg some hjob)⟩

theorem stays_as_held (run : Run (.initial monitor logging) past t) (hj : t.jobs[i]? = some job)
    (hp : job.phase = .vanished) (hl : t.registry.lookup name = some i) : t.Stays i job name := by
  have hv := Scheduler.situation?_of_getElem? hj
  obtain ⟨hr, hname⟩ := (Scheduler.lookup_eq_some_iff run.named hv name).mp hl
  have hnamed : name ≠ "" := hname ▸ run.name_ne hj
  have hregistered : t.isRegistered name = true := by simp [Scheduler.isRegistered, hl]
  refine ⟨hl, hj, by simp [Scheduler.isActive, Scheduler.find?, hl, hj], ?_, ?_, ?_⟩
  · rintro a o work runtime rfl
    have hrefused := (t.schedule_answers a o work runtime).1
    cases work with
    | none =>
        refine ⟨.noJobFunc, hrefused _ ?_, fun h => absurd h (by simp)⟩
        simp [Scheduler.firstFault?, Scheduler.faults, hnamed]
    | some work =>
        refine ⟨.jobAlreadyExists o.name, hrefused _ ?_, fun _ => rfl⟩
        simp [Scheduler.firstFault?, Scheduler.faults, hnamed, hregistered]
  · rintro a o work plan rfl
    have hrefused := (t.schedulePeriodic_answers a o work plan).1
    cases plan with
    | none =>
        refine ⟨.noRuntimeFunc, hrefused _ ?_, fun _ h => absurd h (by simp)⟩
        simp [Scheduler.firstFault?, Scheduler.faults, hnamed]
    | some plan =>
        cases work with
        | none =>
            refine ⟨.noJobFunc, hrefused _ ?_, fun h => absurd h (by simp)⟩
            simp [Scheduler.firstFault?, Scheduler.faults, hnamed]
        | some work =>
            refine ⟨.jobAlreadyExists o.name, hrefused _ ?_, fun _ _ => rfl⟩
            simp [Scheduler.firstFault?, Scheduler.faults, hnamed, hregistered]
  · intro m t' htakes hm
    subst hname
    have hfree := Scheduler.freed_of_move run.named hv hr hm htakes
    obtain ⟨job', hj', hphase, -⟩ := run.gone hj (by rw [hp]; rfl) (single m hm)
    obtain ⟨job'', hj'', hterms⟩ := Scheduler.terms_of_move hm hj
    obtain rfl : job' = job'' := Option.some_inj.mp (hj'.symm.trans hj'')
    refine ⟨hfree, Scheduler.free_of_lookup hnamed hfree, ⟨job', hj', by rw [hphase, hp]; rfl⟩,
      fun name hheld => ?_⟩
    obtain ⟨job₁, hj₁, rfl⟩ := (run.next m hm).named name i hheld
    obtain rfl : job' = job₁ := Option.some_inj.mp (hj'.symm.trans hj₁)
    rw [Scheduler.name_eq_of_terms hterms] at hheld
    exact absurd (hfree.symm.trans hheld) (by simp)

theorem forgets (run : Run (.initial monitor logging) past s) (h : s.Forgets i)
    (after : Run s past' t) : t.Forgets i := by
  obtain ⟨⟨job, hj, hgone⟩, hfree⟩ := h
  have hv := Scheduler.situation?_of_getElem? hj
  have hunlisted : (s.situate i job).registered = false := by
    refine Bool.eq_false_iff.mpr fun hr => hfree _ ((Scheduler.registered_iff hv).mp hr)
  obtain ⟨job', hj', hunlisted', hgone'⟩ := run.kept
    (P := fun v => v.registered = false ∧ v.job.phase.alive = false)
    (fun _ _ _ _ _ hc hP => hc.forgotten hP.1 hP.2) hj ⟨hunlisted, hgone⟩ after
  refine ⟨⟨job', hj', hgone'⟩, fun name hl => ?_⟩
  have hv' := Scheduler.situation?_of_getElem? hj'
  have hr := ((Scheduler.lookup_eq_some_iff (run.trans after).named hv' name).mp hl).1
  exact Bool.false_ne_true (hunlisted'.symm.trans hr)

/-- Whether the second entry is the same move as the first, with the same answer, from the same
state except for the jobs in the places of some. -/
structure Buries (tombs : JobId → Option Job) (e e' : Scheduler × Move) : Prop where
  move : e'.2 = e.2
  state : e'.1 = e.1.burying tombs
  answer : e'.1.answer? e'.2 = e.1.answer? e.2

/-- Whatever stood in the places of jobs that are out of reach, the rest of a run would be the
same. -/
theorem buried (run : Run (.initial monitor logging) past s) {tombs : JobId → Option Job}
    (htombs : ∀ i g, tombs i = some g → g.phase.alive = false ∧ s.Forgets i)
    (after : Run s past' t) :
    ∃ past'', Run (s.burying tombs) past'' (t.burying tombs) ∧
      List.Forall₂ (Buries tombs) past' past'' := by
  have hgone : ∀ i g, tombs i = some g → g.phase.alive = false := fun i g h => (htombs i g h).1
  have hlasts : (Retelling.buried tombs hgone).Lasts s := by
    intro past₁ t₁ after₁
    have hforgets : ∀ i, (tombs i).isSome → t₁.Forgets i := by
      intro i hi
      obtain ⟨g, hg⟩ := Option.isSome_iff_exists.mp hi
      exact run.forgets (htombs i g hg).2 after₁
    exact ⟨fun name i hl hi => (hforgets i hi).free name hl, fun i hi => (hforgets i hi).gone⟩
  obtain ⟨past'', t', run', ht', hpast⟩ :=
    Run.retold hlasts (Retelling.identity_lasts (s.burying tombs)) rfl after
  obtain rfl : t' = t.burying tombs := ht'
  exact ⟨past'', run', hpast.imp fun e e' he => ⟨he.move, he.tell, he.answer⟩⟩

theorem as_first (run : Run (.initial monitor logging) past s) (hname : name ≠ "")
    (hall : ∀ i job, s.jobs[i]? = some job → job.record.name = name → s.Forgets i)
    (after : Run s past' t) :
    ∃ tombs past'', (∀ job ∈ (s.burying tombs).jobs, job.record.name ≠ name) ∧
      Run (s.burying tombs) past'' (t.burying tombs) ∧
      List.Forall₂ (Buries tombs) past' past'' := by
  -- The jobs of that name stay where they are, without a name.
  let tombs : JobId → Option Job := fun i => (s.jobs[i]?).bind fun job =>
    if job.record.name = name then some { job with record := { job.record with name := "" } }
    else none
  have htombs : ∀ i job, s.jobs[i]? = some job → tombs i =
      if job.record.name = name then some { job with record := { job.record with name := "" } }
      else none := by
    intro i job hj
    simp only [tombs, hj, Option.bind_some]
  have hreach : ∀ i g, tombs i = some g → g.phase.alive = false ∧ s.Forgets i := by
    intro i g hg
    obtain ⟨job, hj, hite⟩ := Option.bind_eq_some_iff.mp hg
    obtain ⟨hjob, hsome⟩ := Option.ite_none_right_eq_some.mp hite
    have hforgets := hall i job hj hjob
    obtain ⟨job', hj', hgone⟩ := hforgets.gone
    obtain rfl : job = job' := Option.some_inj.mp (hj.symm.trans hj')
    cases hsome
    exact ⟨hgone, hforgets⟩
  obtain ⟨past'', run', hpast⟩ := run.buried hreach after
  refine ⟨tombs, past'', fun job hmem => ?_, run', hpast⟩
  obtain ⟨i, hi⟩ := List.mem_iff_getElem?.mp hmem
  rw [Scheduler.getElem?_burying] at hi
  obtain ⟨job₀, hj₀, rfl⟩ := Option.map_eq_some_iff.mp hi
  rw [htombs i job₀ hj₀]
  by_cases hjob : job₀.record.name = name
  · rw [if_pos hjob]
    exact hname.symm
  · rw [if_neg hjob]
    exact hjob

/-- What becomes of the job `i`, which had no runner in the state `s`, in a run on to `t`. -/
structure Abandons (past past' : List (Scheduler × Move)) (s t : Scheduler) (i : JobId)
    (job : Job) : Prop where
  idle : ∀ e ∈ past', e.2 ≠ .turn i
  silent : ∃ new, t.history = new ++ s.history ∧ ∀ e ∈ new, ¬e.concerns i
  uncancelled : ∀ u, Recorded (past' ++ past) u → u.reports i .cancelled = 0
  stays : ∀ name, s.registry.lookup name = some i →
    (∀ e ∈ past', e.1.takes e.2 name job.record.periodic = false) → t.Stays i job name

theorem idle_of_gone (run : Run (.initial monitor logging) past s) (hj : s.jobs[i]? = some job)
    (hgone : job.phase.alive = false) (after : Run s past' t) : ∀ e ∈ past', e.2 ≠ .turn i := by
  rintro ⟨s₁, m⟩ he rfl
  obtain ⟨past₁, s₂, -, before, hm, -⟩ := after.of_mem he
  obtain ⟨job', hj', hphase, -⟩ := run.gone hj hgone before
  rw [Scheduler.move?, Scheduler.step?_of_gone] at hm
  · exact absurd hm (by simp)
  · intro job'' hj''
    obtain rfl : job' = job'' := Option.some_inj.mp (hj'.symm.trans hj'')
    rw [hphase, hgone]

theorem abandons (run : Run (.initial monitor logging) past s) (hj : s.jobs[i]? = some job)
    (hp : job.phase = .vanished) (after : Run s past' t) : Abandons past past' s t i job where
  idle := run.idle_of_gone hj (by rw [hp]; rfl) after
  silent := run.silent hj (by rw [hp]; rfl) after
  uncancelled u hu := by
    obtain ⟨logging', past₁, run₁, -, hjobs⟩ := (run.trans after).of_recorded hu
    obtain ⟨job', hj', hphase, -⟩ := run.gone hj (by rw [hp]; rfl) after
    have hj₁ := hj'
    rw [← hjobs] at hj₁
    refine run₁.not_cancelled hj₁ ?_
    rw [hphase, hp]
    nofun
  stays name hl hno := by
    obtain ⟨hlt, hjt⟩ := run.stays hj hp hl after hno
    exact (run.trans after).stays_as_held hjt hp hlt

/-- Jobs whose runner is gone. A call that schedules a job where no runner can live registers and
reports it, and panics; when the runners are dropped, nothing else changes. Nothing is heard any
more of a job whose runner is gone, and its cancellation is never reported. If it holds a name, then
it keeps it and stays as it is, and calls that schedule the name are refused, until a call takes the
name from it: then the name is free. What stands in the places of jobs that hold no name and have no
runner makes no difference, so that a name which is free again is as one that no job ever had. -/
theorem gone_for_good (run : Run (.initial monitor logging) past s) :
    (∀ a o work runtime, s.firstFault? o true work = none → o.outside = true →
      (s.call a (.schedule o work runtime)).2 = .panicked ∧
        s.EnlistsGone (s.call a (.schedule o work runtime)).1 o false) ∧
    (∀ a o work plan, s.firstFault? o plan.isSome work = none → o.outside = true →
      (s.call a (.schedulePeriodic o work plan)).2 = .panicked ∧
        s.EnlistsGone (s.call a (.schedulePeriodic o work plan)).1 o true) ∧
    s.Bereft s.shutdown ∧
    ∀ past' t, Run s past' t →
      (∀ i job, s.jobs[i]? = some job → job.phase = .vanished →
        Abandons past past' s t i job) ∧
      (∀ tombs, (∀ i g, tombs i = some g → g.phase.alive = false ∧ s.Forgets i) →
        ∃ past'', Run (s.burying tombs) past'' (t.burying tombs) ∧
          List.Forall₂ (Buries tombs) past' past'') ∧
      ∀ name, name ≠ "" →
        (∀ i job, s.jobs[i]? = some job → job.record.name = name → s.Forgets i) →
        ∃ tombs past'', (∀ job ∈ (s.burying tombs).jobs, job.record.name ≠ name) ∧
          Run (s.burying tombs) past'' (t.burying tombs) ∧
          List.Forall₂ (Buries tombs) past' past'' := by
  refine ⟨fun a o work runtime => ?_, fun a o work plan => ?_, s.bereft_shutdown, ?_⟩
  · exact s.schedule_panics a runtime
  · exact s.schedulePeriodic_panics a
  · intro past' t after
    refine ⟨fun i job hj hp => run.abandons hj hp after, fun tombs htombs => ?_, ?_⟩
    · exact run.buried htombs after
    · exact fun name hname hall => run.as_first hname hall after

theorem held_of_shutdown : ∃ past s past' t t', Run (.initial .recording false) past s ∧
    Run s past' t ∧ t.isActive "a" = some false ∧
    (t.call none (.schedule plainOrder (some []) (.after 1))).2 =
      .refused (.jobAlreadyExists "a") ∧
    t.move? (.call (.cancel "a")) = some t' ∧
    (t'.call none (.schedule plainOrder (some []) (.after 1))).2 = .done := by
  have run := (begun (.initial .recording false)).next
    (.call (.schedule plainOrder (some []) (.after 1))) rfl |>.next .shutdown rfl
  have after := (begun ((Scheduler.initial .recording false).call none
    (.schedule plainOrder (some []) (.after 1))).1.shutdown).next (.pass 5) rfl
  have habandons := (run.gone_for_good.2.2.2 _ _ after).1 0 _ rfl rfl
  have hstays := habandons.stays "a" rfl (List.forall_mem_singleton.mpr rfl)
  obtain ⟨e, hcall, he⟩ := hstays.refused none plainOrder (some []) (.after 1) rfl
  obtain ⟨-, hfree, -⟩ := hstays.freed (.call (.cancel "a")) _ rfl rfl
  refine ⟨_, _, _, _, _, run, after, hstays.isActive, ?_, rfl, ?_⟩
  · rw [hcall, he rfl]
  · exact (hfree.oneOff none plainOrder [] (.after 1) rfl rfl).1

end Run

end JobScheduler
