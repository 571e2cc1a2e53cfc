import JobScheduler.Proofs.Life
import JobScheduler.Proofs.Run

/-!
What calls do to each job: a request finds the job that is registered under the name, a job that is
scheduled is new, and every other job is left as it was. `touch_of_call` sums it up for the jobs
that exist before a call, `born_of_call` for the one that a call may add.
-/

namespace JobScheduler

namespace Scheduler

variable {s : Scheduler} {i k : JobId} {v : Situation}

theorem situation?_unregister_of_ne {name : String} (hk : s.registry.lookup name = some k)
    (h : k ≠ i) : (s.unregister name).situation? i = s.situation? i := by
  have hremove := situation?_remove_of_ne s h none name
  rwa [remove, if_pos hk, situation?_log] at hremove

theorem registered_iff (hv : s.situation? i = some v) :
    v.registered = true ↔ s.registry.lookup v.job.record.name = some i := by
  rw [(situation?_eq_some.mp hv).2]
  exact decide_eq_true_iff

theorem lookup_eq_some_iff (hs : s.Named) (hv : s.situation? i = some v) (name : String) :
    s.registry.lookup name = some i ↔ v.registered = true ∧ v.job.record.name = name := by
  rw [registered_iff hv]
  constructor
  · intro h
    obtain ⟨job, hj, rfl⟩ := hs name i h
    obtain ⟨hj', -⟩ := situation?_eq_some.mp hv
    obtain rfl : v.job = job := Option.some_inj.mp (hj'.symm.trans hj)
    exact ⟨h, rfl⟩
  · rintro ⟨h, rfl⟩
    exact h

theorem lookup_congr {s' : Scheduler} (hs : s.Named) (hs' : s'.Named)
    (h : s'.situation? i = s.situation? i) (name : String) :
    s'.registry.lookup name = some i ↔ s.registry.lookup name = some i := by
  have hexists : ∀ t : Scheduler, t.Named → t.registry.lookup name = some i →
      t.situation? i ≠ none := by
    intro t ht hl hnone
    obtain ⟨job, hj, -⟩ := ht name i hl
    rw [situation?_of_getElem? hj] at hnone
    exact absurd hnone (by simp)
  cases hv : s.situation? i with
  | none =>
      rw [hv] at h
      exact ⟨fun hl => absurd h (hexists s' hs' hl), fun hl => absurd hv (hexists s hs hl)⟩
  | some v => rw [lookup_eq_some_iff hs' (h.trans hv), lookup_eq_some_iff hs hv]

theorem find?_eq_none_iff (hs : s.Named) (name : String) :
    s.find? name = none ↔ s.registry.lookup name = none := by
  cases hk : s.registry.lookup name with
  | none => simp [find?, hk]
  | some k =>
      obtain ⟨job, hj, -⟩ := hs name k hk
      simp [find?, hk, hj]

theorem situation?_of_find? (hs : s.Named) {name : String} {job : Job}
    (h : s.find? name = some (i, job)) :
    s.situation? i = some (s.situate i job) ∧ (s.situate i job).registered = true ∧
      job.record.name = name := by
  obtain ⟨hl, hj⟩ := find?_eq_some h
  have hv := situation?_of_getElem? hj
  obtain ⟨hr, hn⟩ := (lookup_eq_some_iff hs hv name).mp hl
  exact ⟨hv, hr, hn⟩

theorem run_of_find? {name : String} {job : Job} (a : Option JobId)
    (h : s.find? name = some (k, job)) :
    (s.run a name).2 = job.record.triggerRun.2 ∧
      (s.run a name).1.situation? i =
        ((if job.record.periodic then s else s.unregister name).updateRecord k
          (·.triggerRun.1)).situation? i ∧
      (s.run a name).1.marks i = s.marks i := by
  have hsame : (if job.record.periodic then s else s.unregister name).jobs[k]? = some job := by
    split <;> exact (find?_eq_some h).2
  have hmarks : (if job.record.periodic then s else s.unregister name).marks i = s.marks i := by
    split <;> rfl
  have hrecord := updateRecord_const hsame fun r => r.triggerRun.1
  unfold run
  rw [h]
  dsimp only
  split
  · rename_i r hr
    obtain rfl : r = job.record.triggerRun.1 := by rw [hr]
    rw [hrecord, hr, situation?_log, marks_log, marks_updateRecord]
    exact ⟨rfl, rfl, hmarks⟩
  · rename_i r e hr
    obtain rfl : r = job.record.triggerRun.1 := by rw [hr]
    rw [hrecord, hr, marks_updateRecord]
    exact ⟨rfl, rfl, hmarks⟩

theorem situation?_run (hs : s.Named) (a : Option JobId) (name : String)
    (hv : s.situation? i = some v) :
    (s.run a name).1.situation? i =
      some (if s.registry.lookup name = some i then v.requestRun else v) := by
  cases hfind : s.find? name with
  | none =>
      rw [(find?_eq_none_iff hs name).mp hfind, run, hfind]
      exact hv
  | some found =>
      obtain ⟨k, job⟩ := found
      obtain ⟨hk, hj⟩ := find?_eq_some hfind
      rw [(run_of_find? a hfind).2.1, hk]
      by_cases hki : k = i
      · subst hki
        obtain ⟨hv', hr, hn⟩ := situation?_of_find? hs hfind
        obtain rfl : s.situate k job = v := Option.some_inj.mp (hv'.symm.trans hv)
        rw [situation?_updateRecord _ _ Record.label_triggerRun, if_pos rfl]
        have hname : (s.situate k job).job.record.name = name := hn
        have hperiodic : (s.situate k job).job.record.periodic = job.record.periodic := rfl
        cases hp : job.record.periodic with
        | true =>
            rw [if_pos rfl, hv, Situation.requestRun, hperiodic, hp, ← hr]
            rfl
        | false =>
            rw [if_neg (by simp), situation?_unregister, hv, Option.map_some, Option.map_some,
              if_pos hname, Situation.requestRun, hperiodic, hp]
            rfl
      · rw [situation?_updateRecord_of_ne _ hki, if_neg (fun h => hki (Option.some_inj.mp h))]
        split
        · exact hv
        · rw [situation?_unregister_of_ne hk hki, hv]

theorem situation?_cancel (hs : s.Named) (a : Option JobId) (name : String)
    (hv : s.situation? i = some v) :
    (s.cancel a name).1.situation? i =
      some (if s.registry.lookup name = some i then v.requestStop else v) := by
  cases hfind : s.find? name with
  | none =>
      rw [(find?_eq_none_iff hs name).mp hfind, cancel, hfind]
      exact hv
  | some found =>
      obtain ⟨k, job⟩ := found
      obtain ⟨hk, hj⟩ := find?_eq_some hfind
      have hstate : (s.cancel a name).1.situation? i =
          ((s.unregister name).updateRecord k (·.cancel.1)).situation? i := by
        have hrecord := updateRecord_const (s := s.unregister name) hj fun r => r.cancel.1
        unfold cancel
        rw [hfind]
        dsimp only
        split <;>
        · rename_i r hr
          obtain rfl : r = job.record.cancel.1 := by rw [hr]
          rw [hrecord, situation?_log]
      rw [hstate, hk]
      by_cases hki : k = i
      · subst hki
        obtain ⟨hv', hr, hn⟩ := situation?_of_find? hs hfind
        obtain rfl : s.situate k job = v := Option.some_inj.mp (hv'.symm.trans hv)
        have hname : (s.situate k job).job.record.name = name := hn
        rw [situation?_updateRecord _ _ Record.label_cancel, situation?_unregister, hv, if_pos rfl,
          Option.map_some, Option.map_some, if_pos hname]
        rfl
      · rw [situation?_updateRecord_of_ne _ hki, if_neg (fun h => hki (Option.some_inj.mp h)),
          situation?_unregister_of_ne hk hki, hv]

theorem registered_requestStop (v : Situation) : v.requestStop.registered = false := rfl

theorem situation?_cancelEach (hs : s.Named) (a : Option JobId) (names : List String)
    (hv : s.situation? i = some v) :
    (names.foldl (fun s name => s.cancelIfExists a name) s).situation? i =
      some (if v.registered = true ∧ v.job.record.name ∈ names then v.requestStop else v) := by
  induction names generalizing s v with
  | nil => simpa using hv
  | cons name rest ih =>
      have hstep := situation?_cancel hs a name hv
      have hnamed := (s.persists_cancel a name).named hs
      rw [List.foldl_cons, cancelIfExists, ih hnamed hstep]
      by_cases hl : s.registry.lookup name = some i
      · obtain ⟨hr, hn⟩ := (lookup_eq_some_iff hs hv name).mp hl
        rw [if_pos hl, if_neg (by simp [registered_requestStop]), if_pos ⟨hr, by simp [hn]⟩]
      · have hother : ¬(v.registered = true ∧ v.job.record.name = name) :=
          fun h => hl ((lookup_eq_some_iff hs hv name).mpr h)
        have hiff : v.registered = true ∧ v.job.record.name ∈ name :: rest ↔
            v.registered = true ∧ v.job.record.name ∈ rest := by
          rw [List.mem_cons]
          constructor
          · rintro ⟨hr, hn | hn⟩
            · exact absurd ⟨hr, hn⟩ hother
            · exact ⟨hr, hn⟩
          · rintro ⟨hr, hn⟩
            exact ⟨hr, .inr hn⟩
        simp only [if_neg hl, hiff]

theorem mem_matching (hv : s.situation? i = some v) (hr : v.registered = true) (stem : String) :
    v.job.record.name ∈ s.matching stem ↔
      stem.toList.isPrefixOf v.job.record.name.toList = true := by
  obtain ⟨before, after, hsplit, -⟩ := List.lookup_eq_some_iff.mp ((registered_iff hv).mp hr)
  rw [matching, List.mem_filter, and_iff_right]
  rw [hsplit]
  simp

theorem situation?_cancelAll (hs : s.Named) (a : Option JobId) (stem : String)
    (hv : s.situation? i = some v) :
    (s.cancelAll a stem).situation? i =
      some (if v.registered = true ∧ stem.toList.isPrefixOf v.job.record.name.toList = true
        then v.requestStop else v) := by
  have hiff := and_congr_right fun hr => mem_matching hv hr stem
  rw [cancelAll, situation?_cancelEach hs a _ hv]
  simp only [hiff]

theorem situation?_cancelToken (hv : s.situation? i = some v) (name : String) :
    (s.cancelToken name).situation? i =
      some { v with orphaned := v.job.token.below (s.tokens.named name) || v.orphaned } := by
  obtain ⟨hj, hv'⟩ := situation?_eq_some.mp hv
  have hnew : (s.cancelToken name).situation? i = some ((s.cancelToken name).situate i v.job) :=
    situation?_of_getElem? hj
  rw [hnew, hv']
  rfl

theorem fresh_newJob (o : JobOrder) (periodic : Bool) (work : Work) (plan : Plan Action)
    (phase : Phase) (hout : o.outside = false)
    (hphase : (∃ instant, phase = .spawned instant) ∧ periodic = false ∨
      phase = .looping ∧ periodic = true) :
    (s.newJob o periodic work plan phase).Fresh := by
  unfold newJob
  rw [hout]
  exact ⟨rfl, rfl, rfl, hphase⟩

theorem situation?_enrol (a : Option JobId) (job : Job) (i : JobId)
    (hfree : s.registry.lookup job.record.name = none) :
    (s.enrol a job).situation? i =
      if i = s.jobs.length then some { s.situate i job with registered := true }
      else s.situation? i := by
  have hstate : (s.enrol a job).situation? i =
      ({ s with
        registry := s.registry ++ [(job.record.name, s.jobs.length)]
        jobs := s.jobs ++ [job] } : Scheduler).situation? i := by
    unfold enrol
    dsimp only
    rw [situation?_log, situation?_report]
  rw [hstate, situation?]
  dsimp only
  rw [getElem?_added]
  by_cases hi : i = s.jobs.length
  · subst hi
    simp [situate, List.lookup_append, hfree]
  · rw [if_neg hi, if_neg hi, situation?]
    congr 1
    funext j
    simp only [situate, List.lookup_append]
    congr 1
    cases hl : s.registry.lookup j.record.name with
    | some k => rfl
    | none =>
        rw [List.lookup_cons]
        have hne : s.jobs.length ≠ i := Ne.symm hi
        split <;> simp [hne]

theorem marks_enrol (a : Option JobId) (job : Job) (hs : s.monitor = .recording) :
    (s.enrol a job).marks s.jobs.length = .reported .scheduled :: s.marks s.jobs.length := by
  unfold enrol
  dsimp only
  rw [marks_log, marks_report _ _ (by exact hs)]
  rfl

theorem lookup_eq_none_of_vet {o : JobOrder} {planned : Bool} {work : Option Work} {w : Work}
    (h : s.vet o planned work = .ok w) : s.registry.lookup o.name = none := by
  unfold vet at h
  split at h
  · exact absurd h (by simp)
  · split at h
    · exact absurd h (by simp)
    · split at h
      · exact absurd h (by simp)
      · split at h
        · exact absurd h (by simp)
        · rename_i hfree
          exact Option.not_isSome_iff_eq_none.mp hfree

theorem label_newJob (o : JobOrder) (periodic : Bool) (work : Work) (plan : Plan Action)
    (phase : Phase) :
    (s.newJob o periodic work plan phase).record.label = (o.name, o.cls, periodic) := by
  unfold newJob
  dsimp only
  split
  · exact congrArg (fun t => t.1) (Job.terms_vanish _)
  · rfl

theorem name_newJob (o : JobOrder) (periodic : Bool) (work : Work) (plan : Plan Action)
    (phase : Phase) : (s.newJob o periodic work plan phase).record.name = o.name :=
  congrArg (fun t => t.1) (s.label_newJob o periodic work plan phase)

theorem born_newJob (o : JobOrder) (periodic : Bool) (work : Work) (plan : Plan Action)
    (phase : Phase) (hphase : (∃ instant, phase = .spawned instant) ∧ periodic = false ∨
      phase = .looping ∧ periodic = true) (i : JobId) :
    ({ s.situate i (s.newJob o periodic work plan phase) with registered := true } :
      Situation).Born := by
  have halive : phase.alive = true := by
    rcases hphase with ⟨⟨instant, rfl⟩, -⟩ | ⟨rfl, -⟩ <;> rfl
  cases hout : o.outside with
  | false => exact .inside rfl (fresh_newJob o periodic work plan phase hout hphase)
  | true =>
      refine .outside (j := s.newJob { o with outside := false } periodic work plan phase) rfl
        (fresh_newJob _ periodic work plan phase rfl hphase) ?_
      simp only [situate, newJob, hout, Job.vanish, halive]
      rfl

theorem alive_newJob (o : JobOrder) (periodic : Bool) (work : Work) (plan : Plan Action)
    {phase : Phase} (hphase : phase.alive = true) (hout : o.outside = false) :
    (s.newJob o periodic work plan phase).phase.alive = true := by
  unfold newJob
  rw [hout]
  exact hphase

/-- What scheduling a job may come to: nothing, or one new job that is enrolled under a free
name, with a runner unless it is scheduled where none can live. -/
inductive Enrols (s : Scheduler) (a : Option JobId) (out : Bool) : Scheduler → Prop where
  | nothing : Enrols s a out s
  | one {s' : Scheduler} (job : Job) :
      s.registry.lookup job.record.name = none →
      (∀ i, ({ s.situate i job with registered := true } : Situation).Born) →
      (out = false → job.phase.alive = true) →
      (∀ i, s'.situation? i = (s.enrol a job).situation? i) →
      (∀ i, s'.marks i = (s.enrol a job).marks i) →
      (∃ new, s'.history = new ++ (s.enrol a job).history) → Enrols s a out s'

theorem history_log (s : Scheduler) (a : Option JobId) (e : LogEntry) :
    ∃ new, (s.log a e).history = new ++ s.history :=
  let ⟨new, hnew, _⟩ := (s.persists_log a e).events
  ⟨new, hnew⟩

theorem history_enrol (a : Option JobId) (job : Job) (hs : s.monitor = .recording) :
    ∃ new, (s.enrol a job).history =
      new ++ ⟨s.now, a, .reported s.jobs.length .scheduled job.record.cls⟩ :: s.history := by
  unfold enrol
  dsimp only
  obtain ⟨new, hnew⟩ := history_log (({ s with
    registry := s.registry ++ [(job.record.name, s.jobs.length)]
    jobs := s.jobs ++ [job] } : Scheduler).report a s.jobs.length job.record.cls .scheduled) a
      (.registered job.record.name job.record.cls job.record.periodic)
  refine ⟨new, hnew.trans ?_⟩
  simp only [report, hs]
  rfl

theorem enrols_schedule (a : Option JobId) (o : JobOrder) (work : Option Work)
    (runtime : Moment) : Enrols s a o.outside (s.schedule a o work runtime).1 := by
  cases hvet : s.vet o true work with
  | error e =>
      simp only [schedule, hvet]
      exact .nothing
  | ok w =>
      refine .one (s.newJob o false w .empty (.spawned (runtime.resolve s.now))) ?_
        (born_newJob o false w .empty _ (.inl ⟨⟨_, rfl⟩, rfl⟩))
        (alive_newJob o false w .empty rfl) ?_ ?_ ?_
      · rw [name_newJob]
        exact lookup_eq_none_of_vet hvet
      · simp only [schedule, hvet, launch, situation?_log, implies_true]
      · simp only [schedule, hvet, launch, marks_log, implies_true]
      · simp only [schedule, hvet, launch]
        obtain ⟨new, hnew⟩ := history_log (s.enrol a _) a (.oneOffScheduled o.name _)
        obtain ⟨new', hnew'⟩ :=
          history_log ((s.enrol a _).log a _) (some _) (.span o.name o.cls false)
        exact ⟨new' ++ new, by rw [hnew', hnew, List.append_assoc]⟩

theorem enrols_schedulePeriodic (a : Option JobId) (o : JobOrder) (work : Option Work)
    (plan : Option (Plan Action)) : Enrols s a o.outside (s.schedulePeriodic a o work plan).1 := by
  cases hvet : s.vet o plan.isSome work with
  | error e =>
      simp only [schedulePeriodic, hvet]
      exact .nothing
  | ok w =>
      refine .one (s.newJob o true w (plan.getD .empty) .looping) ?_
        (born_newJob o true w _ _ (.inr ⟨rfl, rfl⟩)) (alive_newJob o true w _ rfl) ?_ ?_ ?_
      · rw [name_newJob]
        exact lookup_eq_none_of_vet hvet
      · simp only [schedulePeriodic, hvet, launch, situation?_log, implies_true]
      · simp only [schedulePeriodic, hvet, launch, marks_log, implies_true]
      · simp only [schedulePeriodic, hvet, launch]
        exact history_log _ _ _

theorem scheduled_of_done {a : Option JobId} {o : JobOrder} {work : Option Work} {runtime : Moment}
    (h : (s.schedule a o work runtime).2 = .done) :
    ∃ job, (s.schedule a o work runtime).1.jobs[s.jobs.length]? = some job ∧
      job.record.label = (o.name, o.cls, false) := by
  cases hvet : s.vet o true work with
  | error e => simp [schedule, hvet] at h
  | ok w =>
      refine ⟨s.newJob o false w .empty (.spawned (runtime.resolve s.now)), ?_,
        s.label_newJob o false w _ _⟩
      simp [schedule, hvet, launch, jobs_enrol]

theorem scheduledPeriodic_of_done {a : Option JobId} {o : JobOrder} {work : Option Work}
    {plan : Option (Plan Action)} (h : (s.schedulePeriodic a o work plan).2 = .done) :
    ∃ job, (s.schedulePeriodic a o work plan).1.jobs[s.jobs.length]? = some job ∧
      job.record.label = (o.name, o.cls, true) := by
  cases hvet : s.vet o plan.isSome work with
  | error e => simp [schedulePeriodic, hvet] at h
  | ok w =>
      refine ⟨s.newJob o true w (plan.getD .empty) .looping, ?_, s.label_newJob o true w _ _⟩
      simp [schedulePeriodic, hvet, launch, jobs_enrol]

theorem marks_enrol_of_ne (a : Option JobId) (job : Job) (hi : i ≠ s.jobs.length) :
    (s.enrol a job).marks i = s.marks i := by
  unfold enrol
  dsimp only
  rw [marks_log, marks_report_of_ne _ _ _ _ hi.symm]
  rfl

theorem Enrols.old {a : Option JobId} {out : Bool} {s' : Scheduler} (h : Enrols s a out s')
    (hv : s.situation? i = some v) : s'.situation? i = some v ∧ s'.marks i = s.marks i := by
  have hlt : i < s.jobs.length := (List.getElem?_eq_some_iff.mp (situation?_eq_some.mp hv).1).1
  have hne : i ≠ s.jobs.length := Nat.ne_of_lt hlt
  cases h with
  | nothing => exact ⟨hv, rfl⟩
  | one job hfree hborn hin hsit hmarks hhist =>
      rw [hsit, hmarks, situation?_enrol a job i hfree, if_neg hne, marks_enrol_of_ne a job hne]
      exact ⟨hv, rfl⟩

/-- Job `i` is still missing after a call, if there was one, or the call added it and reported it as
scheduled. -/
def Adds (s : Scheduler) (c : Option Call) (s' : Scheduler) (i : JobId) : Prop :=
  s'.situation? i = none ∧ s'.marks i = s.marks i ∨
    ∃ v, s'.situation? i = some v ∧ v.Born ∧
      ((∀ c', c = some c' → c'.isOutside = false) → v.job.phase.alive = true) ∧
      i = s.jobs.length ∧
      (s.monitor = .recording → s'.marks i = .reported .scheduled :: s.marks i ∧
        ∃ new a cls, s'.history = new ++ ⟨s.now, a, .reported i .scheduled cls⟩ :: s.history)

theorem Enrols.new {a : Option JobId} {c : Call} {s' : Scheduler}
    (h : Enrols s a c.isOutside s') (hn : s.situation? i = none) : s.Adds (some c) s' i := by
  cases h with
  | nothing => exact .inl ⟨hn, rfl⟩
  | one job hfree hborn hin hsit hmarks hhist =>
      unfold Adds
      rw [hsit, hmarks, situation?_enrol a job i hfree]
      by_cases hi : i = s.jobs.length
      · rw [if_pos hi]
        refine .inr ⟨_, rfl, hborn i, fun hc => hin (hc c rfl), hi, fun hs => ⟨?_, ?_⟩⟩
        · rw [hi, marks_enrol a job hs]
        · obtain ⟨new, hnew⟩ := hhist
          obtain ⟨new', hnew'⟩ := history_enrol a job hs
          refine ⟨new ++ new', a, job.record.cls, ?_⟩
          rw [hnew, hnew', hi, List.append_assoc]
      · rw [if_neg hi, marks_enrol_of_ne a job hi]
        exact .inl ⟨hn, rfl⟩

theorem marks_run (a : Option JobId) (name : String) (i : JobId) :
    (s.run a name).1.marks i = s.marks i := by
  cases hfind : s.find? name with
  | none => rw [run, hfind]
  | some found => exact (run_of_find? a hfind).2.2

theorem marks_cancel (a : Option JobId) (name : String) (i : JobId) :
    (s.cancel a name).1.marks i = s.marks i := by
  unfold cancel
  split
  · rfl
  · dsimp only
    split <;> simp

theorem marks_cancelAll (a : Option JobId) (stem : String) (i : JobId) :
    (s.cancelAll a stem).marks i = s.marks i := by
  unfold cancelAll
  generalize s.matching stem = names
  induction names generalizing s with
  | nil => rfl
  | cons name rest ih =>
      rw [List.foldl_cons, ih]
      exact marks_cancel a name i

theorem runIfExists_eq (a : Option JobId) (name : String) (i : JobId) :
    (s.runIfExists a name).situation? i = (s.run a name).1.situation? i ∧
      (s.runIfExists a name).marks i = (s.run a name).1.marks i := by
  unfold runIfExists
  split
  · rename_i h
    rw [h]
    exact ⟨rfl, rfl⟩
  · rename_i h
    rw [h, situation?_log, marks_log]
    exact ⟨rfl, rfl⟩

theorem acceptedBy?_run (name : String) {job : Job}
    (h : s.find? name = some (k, job)) :
    s.acceptedBy? (.run name) = match job.record.triggerRun.2 with
      | .ok () => some k
      | .error _ => none := by
  have hresult := (run_of_find? (i := k) none h).1
  have hlookup := (find?_eq_some h).1
  cases hr : job.record.triggerRun.2 <;> simp [acceptedBy?, hresult, hlookup, hr]

theorem touch_of_run (hs : s.Named) (hv : s.situation? i = some v) (a : Option JobId)
    (name : String) :
    ∃ v', (s.run a name).1.situation? i = some v' ∧
      Touch v (if s.acceptedBy? (.run name) = some i then [.accepted] else []) v' := by
  refine ⟨_, situation?_run hs a name hv, ?_⟩
  cases hfind : s.find? name with
  | none =>
      have hl := (find?_eq_none_iff hs name).mp hfind
      have hno : s.acceptedBy? (.run name) = none := by
        rw [acceptedBy?, run, hfind]
      rw [hl, hno, if_neg (by simp), if_neg (by simp)]
      exact .none v
  | some found =>
      obtain ⟨k, job⟩ := found
      rw [acceptedBy?_run name hfind, (find?_eq_some hfind).1]
      by_cases hki : k = i
      · subst hki
        obtain ⟨hv', hr, -⟩ := situation?_of_find? hs hfind
        obtain rfl : s.situate k job = v := Option.some_inj.mp (hv'.symm.trans hv)
        rw [if_pos rfl]
        cases hres : job.record.triggerRun.2 with
        | ok _ =>
            rw [if_pos rfl]
            exact .accept hr hres
        | error e =>
            rw [if_neg (by simp)]
            exact .refuse hr hres
      · have hne : some k ≠ some i := fun h => hki (Option.some_inj.mp h)
        rw [if_neg hne]
        split
        · rw [if_neg hne]
          exact .none v
        · rw [if_neg (by simp)]
          exact .none v

theorem touch_unless_accepted {ms : List Mark} {v' : Situation} (h : Touch v [] v') :
    Touch v (if (none : Option JobId) = some i then ms else []) v' := by
  rwa [if_neg (by simp)]

/-- A call touches every job there is, and accepts a run of it if and only if the call says so. -/
theorem touch_of_call (hs : s.Named) (hv : s.situation? i = some v) (a : Option JobId) (c : Call) :
    ∃ v', (s.call a c).1.situation? i = some v' ∧
      Touch v (if s.acceptedBy? c = some i then [.accepted] else []) v' ∧
      (s.call a c).1.marks i = s.marks i := by
  cases c with
  | schedule o work runtime =>
      obtain ⟨hsit, hm⟩ := (enrols_schedule a o work runtime).old hv
      exact ⟨v, hsit, touch_unless_accepted (.none v), hm⟩
  | schedulePeriodic o work plan =>
      obtain ⟨hsit, hm⟩ := (enrols_schedulePeriodic a o work plan).old hv
      exact ⟨v, hsit, touch_unless_accepted (.none v), hm⟩
  | run name =>
      obtain ⟨v', hv', ht⟩ := touch_of_run hs hv a name
      exact ⟨v', hv', ht, marks_run a name i⟩
  | runIfExists name =>
      obtain ⟨v', hv', ht⟩ := touch_of_run hs hv a name
      obtain ⟨hsit, hm⟩ := runIfExists_eq (s := s) a name i
      exact ⟨v', hsit.trans hv', ht, hm.trans (marks_run a name i)⟩
  | cancel name =>
      refine ⟨_, situation?_cancel hs a name hv, touch_unless_accepted ?_, marks_cancel a name i⟩
      split
      · rename_i hl
        exact .stop ((lookup_eq_some_iff hs hv name).mp hl).1
      · exact .none v
  | cancelIfExists name =>
      refine ⟨_, situation?_cancel hs a name hv, touch_unless_accepted ?_, marks_cancel a name i⟩
      split
      · rename_i hl
        exact .stop ((lookup_eq_some_iff hs hv name).mp hl).1
      · exact .none v
  | cancelAll stem =>
      refine ⟨_, situation?_cancelAll hs a stem hv, touch_unless_accepted ?_,
        marks_cancelAll a stem i⟩
      split
      · rename_i h
        exact .stop h.1
      · exact .none v
  | newToken name above => exact ⟨v, hv, touch_unless_accepted (.none v), rfl⟩
  | cancelToken name =>
      exact ⟨_, situation?_cancelToken hv name, touch_unless_accepted (.orphan v _), rfl⟩
  | isRegistered name => exact ⟨v, hv, touch_unless_accepted (.none v), rfl⟩
  | isActive name => exact ⟨v, hv, touch_unless_accepted (.none v), rfl⟩
  | names => exact ⟨v, hv, touch_unless_accepted (.none v), rfl⟩
  | describe => exact ⟨v, hv, touch_unless_accepted (.none v), rfl⟩

theorem situation?_run_of_none (hn : s.situation? i = none) (a : Option JobId) (name : String) :
    (s.run a name).1.situation? i = none := by
  cases hfind : s.find? name with
  | none => rwa [run, hfind]
  | some found =>
      obtain ⟨k, job⟩ := found
      have hki : k ≠ i := by
        rintro rfl
        rw [situation?_of_getElem? (find?_eq_some hfind).2] at hn
        exact absurd hn (by simp)
      rw [(run_of_find? a hfind).2.1, situation?_updateRecord_of_ne _ hki]
      split
      · exact hn
      · rw [situation?_unregister, hn, Option.map_none]

theorem situation?_cancel_of_none (hn : s.situation? i = none) (a : Option JobId) (name : String) :
    (s.cancel a name).1.situation? i = none := by
  unfold cancel
  split
  · exact hn
  · rename_i k job hfind
    have hki : k ≠ i := by
      rintro rfl
      rw [situation?_of_getElem? (find?_eq_some hfind).2] at hn
      exact absurd hn (by simp)
    dsimp only
    split <;>
      rw [situation?_log, situation?_updateRecord_of_ne _ hki, situation?_unregister, hn,
        Option.map_none]

theorem situation?_cancelAll_of_none (hn : s.situation? i = none) (a : Option JobId)
    (stem : String) : (s.cancelAll a stem).situation? i = none := by
  unfold cancelAll
  generalize s.matching stem = names
  induction names generalizing s with
  | nil => exact hn
  | cons name rest ih => exact ih (situation?_cancel_of_none hn a name)

/-- A call adds at most one job, the next one, and reports it as scheduled. -/
theorem adds_of_call (hn : s.situation? i = none) (a : Option JobId) (c : Call) :
    s.Adds (some c) (s.call a c).1 i := by
  cases c with
  | schedule o work runtime => exact (enrols_schedule a o work runtime).new hn
  | schedulePeriodic o work plan => exact (enrols_schedulePeriodic a o work plan).new hn
  | run name => exact .inl ⟨situation?_run_of_none hn a name, marks_run a name i⟩
  | runIfExists name =>
      obtain ⟨hsit, hm⟩ := runIfExists_eq (s := s) a name i
      exact .inl ⟨hsit.trans (situation?_run_of_none hn a name), hm.trans (marks_run a name i)⟩
  | cancel name => exact .inl ⟨situation?_cancel_of_none hn a name, marks_cancel a name i⟩
  | cancelIfExists name => exact .inl ⟨situation?_cancel_of_none hn a name, marks_cancel a name i⟩
  | cancelAll stem => exact .inl ⟨situation?_cancelAll_of_none hn a stem, marks_cancelAll a stem i⟩
  | newToken name above => exact .inl ⟨hn, rfl⟩
  | cancelToken name =>
      have hlen : s.jobs.length ≤ i := situation?_eq_none.mp hn
      exact .inl ⟨situation?_eq_none.mpr hlen, rfl⟩
  | isRegistered name => exact .inl ⟨hn, rfl⟩
  | isActive name => exact .inl ⟨hn, rfl⟩
  | names => exact .inl ⟨hn, rfl⟩
  | describe => exact .inl ⟨hn, rfl⟩

end Scheduler

end JobScheduler
