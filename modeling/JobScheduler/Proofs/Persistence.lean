import JobScheduler.Scheduler.Playback

/-!
What holds of every call and every step of a runner: a job keeps what it was scheduled with, the
registry gets no entry except for new jobs, the clock stands still, a recording monitor goes on
recording, and the history grows by events about whoever acts or about jobs that are new, in which
every report names the class of its job.
-/

namespace JobScheduler

/-- The part of a record that is never written to. -/
def Record.label (r : Record) : String × String × Bool := (r.name, r.cls, r.periodic)

namespace Record

@[simp] theorem label_deactivate (r : Record) : r.deactivate.label = r.label := rfl

@[simp] theorem label_finalise (r : Record) : r.finalise.label = r.label := rfl

@[simp] theorem label_takeRun (r : Record) : r.takeRun.label = r.label := rfl

@[simp] theorem label_takeCancel (r : Record) : r.takeCancel.label = r.label := rfl

@[simp] theorem label_tryActivate (r : Record) : r.tryActivate.1.label = r.label := by
  unfold tryActivate
  split <;> rfl

theorem tryActivate_of_inactive {r : Record} (h : r.active = false) :
    r.tryActivate = ({ r with active := true }, true) := by
  rw [tryActivate, if_neg (Bool.eq_false_iff.mp h)]

@[simp] theorem label_triggerRun (r : Record) : r.triggerRun.1.label = r.label := by
  unfold triggerRun
  split
  · rfl
  · split
    · rfl
    · dsimp only
      split
      · exact r.label_tryActivate
      · exact r.label_tryActivate

@[simp] theorem label_cancel (r : Record) : r.cancel.1.label = r.label := by
  unfold cancel
  split <;> rfl

end Record

/-- What a job was scheduled with. -/
def Job.terms (j : Job) : (String × String × Bool) × String × Token × String × Work × Plan Action :=
  (j.record.label, j.tag, j.token, j.counter, j.work, j.plan)

namespace Job

@[simp] theorem terms_leave (j : Job) (phase : Phase) : (j.leave phase).terms = j.terms := rfl

@[simp] theorem terms_vanish (j : Job) : j.vanish.terms = j.terms := by
  unfold vanish
  split <;> rfl

theorem terms_record (j : Job) (f : Record → Record) (hf : ∀ r, (f r).label = r.label) :
    ({ j with record := f j.record } : Job).terms = j.terms := by
  simp only [terms, hf]

end Job

/-- Whether an event is about job `i`: written by its runner or reported of it. -/
def Event.concerns (i : JobId) (e : Event) : Prop :=
  e.actor = some i ∨ ∃ r cls, e.what = .reported i r cls

namespace Scheduler

/-- The class of job `i`, if there is such a job. -/
def class? (s : Scheduler) (i : JobId) : Option String := s.jobs[i]?.map (·.record.cls)

theorem class?_of_getElem? {s : Scheduler} {i : JobId} {job : Job} (h : s.jobs[i]? = some job) :
    s.class? i = some job.record.cls := by
  rw [class?, h, Option.map_some]

theorem lt_of_class? {s : Scheduler} {i : JobId} {cls : String} (h : s.class? i = some cls) :
    i < s.jobs.length := by
  obtain ⟨job, hj, -⟩ := Option.map_eq_some_iff.mp h
  exact (List.getElem?_eq_some_iff.mp hj).1

/-- Whether an event may be written while `actor` takes a scheduler from `s` to `s'`. -/
structure Allows (s : Scheduler) (actor : Option JobId) (s' : Scheduler) (e : Event) : Prop where
  about : ∀ i, e.concerns i → actor = some i ∨ s.jobs.length ≤ i ∧ i < s'.jobs.length
  cls : ∀ i r cls, e.what = .reported i r cls → s'.class? i = some cls

/-- How a scheduler may come out of what `actor` does. -/
structure Persists (s : Scheduler) (actor : Option JobId) (s' : Scheduler) : Prop where
  now : s'.now = s.now
  monitor : s.monitor = .recording → s'.monitor = .recording
  jobs : ∀ (i : JobId) (job : Job), s.jobs[i]? = some job →
    ∃ job', s'.jobs[i]? = some job' ∧ job'.terms = job.terms
  entries : ∀ (name : String) (i : JobId), s'.registry.lookup name = some i →
    s.registry.lookup name = some i ∨ ∃ job, s'.jobs[i]? = some job ∧ job.record.name = name
  events : ∃ new, s'.history = new ++ s.history ∧ ∀ e ∈ new, s.Allows actor s' e

/-- The registry maps every name to a job of that name. -/
def Named (s : Scheduler) : Prop :=
  ∀ (name : String) (i : JobId), s.registry.lookup name = some i →
    ∃ job, s.jobs[i]? = some job ∧ job.record.name = name

theorem name_eq_of_terms {j j' : Job} (h : j'.terms = j.terms) : j'.record.name = j.record.name :=
  congrArg (fun t => t.1.1) h

theorem cls_eq_of_terms {j j' : Job} (h : j'.terms = j.terms) : j'.record.cls = j.record.cls :=
  congrArg (fun t => t.1.2.1) h

theorem periodic_eq_of_terms {j j' : Job} (h : j'.terms = j.terms) :
    j'.record.periodic = j.record.periodic :=
  congrArg (fun t => t.1.2.2) h

namespace Persists

variable {s s' s'' : Scheduler} {a : Option JobId}

theorem refl (s : Scheduler) : s.Persists a s :=
  ⟨rfl, id, fun _ job h => ⟨job, h, rfl⟩, fun _ _ h => .inl h, [], rfl, by simp⟩

theorem length_le (h : s.Persists a s') : s.jobs.length ≤ s'.jobs.length := by
  cases hlast : s.jobs.getLast? with
  | none =>
      rw [List.getLast?_eq_none_iff.mp hlast]
      exact Nat.zero_le _
  | some job =>
      rw [List.getLast?_eq_getElem?] at hlast
      obtain ⟨job', hj', -⟩ := h.jobs _ job hlast
      have hlt := (List.getElem?_eq_some_iff.mp hj').1
      omega

theorem class? (h : s.Persists a s') {i : JobId} {cls : String} (hc : s.class? i = some cls) :
    s'.class? i = some cls := by
  obtain ⟨job, hj, rfl⟩ := Option.map_eq_some_iff.mp hc
  obtain ⟨job', hj', ht⟩ := h.jobs i job hj
  rw [class?_of_getElem? hj', cls_eq_of_terms ht]

theorem allows_trans (h : s.Persists a s') (h' : s'.Persists a s'') {e : Event}
    (he : s.Allows a s' e ∨ s'.Allows a s'' e) : s.Allows a s'' e := by
  rcases he with he | he
  · refine ⟨fun i hi => ?_, fun i r cls hw => h'.class? (he.cls i r cls hw)⟩
    exact (he.about i hi).imp_right fun hlt => ⟨hlt.1, Nat.lt_of_lt_of_le hlt.2 h'.length_le⟩
  · refine ⟨fun i hi => ?_, he.cls⟩
    exact (he.about i hi).imp_right fun hlt => ⟨Nat.le_trans h.length_le hlt.1, hlt.2⟩

theorem trans (h : s.Persists a s') (h' : s'.Persists a s'') : s.Persists a s'' where
  now := h'.now.trans h.now
  monitor hm := h'.monitor (h.monitor hm)
  jobs i job hj := by
    obtain ⟨job', hj', ht⟩ := h.jobs i job hj
    obtain ⟨job'', hj'', ht'⟩ := h'.jobs i job' hj'
    exact ⟨job'', hj'', ht'.trans ht⟩
  entries name i he := by
    rcases h'.entries name i he with he | he
    · rcases h.entries name i he with he | ⟨job, hj, hn⟩
      · exact .inl he
      · obtain ⟨job', hj', ht⟩ := h'.jobs i job hj
        exact .inr ⟨job', hj', (name_eq_of_terms ht).trans hn⟩
    · exact .inr he
  events := by
    obtain ⟨new, hnew, hold⟩ := h.events
    obtain ⟨new', hnew', hold'⟩ := h'.events
    refine ⟨new' ++ new, by rw [hnew', hnew, List.append_assoc], fun e he => ?_⟩
    rcases List.mem_append.mp he with he | he
    · exact h.allows_trans h' (.inr (hold' e he))
    · exact h.allows_trans h' (.inl (hold e he))

theorem named (h : s.Persists a s') (hs : s.Named) : s'.Named := by
  intro name i he
  rcases h.entries name i he with he | he
  · obtain ⟨job, hj, hn⟩ := hs name i he
    obtain ⟨job', hj', ht⟩ := h.jobs i job hj
    exact ⟨job', hj', (name_eq_of_terms ht).trans hn⟩
  · exact he

theorem of_eq (hnow : s'.now = s.now) (hm : s.monitor = .recording → s'.monitor = .recording)
    (hj : s'.jobs = s.jobs) (hr : s'.registry = s.registry) (hh : s'.history = s.history) :
    s.Persists a s' where
  now := hnow
  monitor := hm
  jobs _ job h := ⟨job, hj ▸ h, rfl⟩
  entries _ _ h := .inl (hr ▸ h)
  events := ⟨[], hh, by simp⟩

end Persists

theorem Persists.emit {s s' : Scheduler} {a b : Option JobId} {w : Happening} (h : s.Persists a s')
    (he : s.Allows a s' ⟨s'.now, b, w⟩) : s.Persists a (s'.emit b w) where
  now := h.now
  monitor := h.monitor
  jobs := h.jobs
  entries := h.entries
  events := by
    obtain ⟨new, hnew, hold⟩ := h.events
    refine ⟨⟨s'.now, b, w⟩ :: new, by rw [Scheduler.emit, hnew, List.cons_append], ?_⟩
    rw [List.forall_mem_cons]
    exact ⟨⟨he.about, he.cls⟩, fun e hmem => ⟨(hold e hmem).about, (hold e hmem).cls⟩⟩

theorem Persists.report {s s' : Scheduler} {a : Option JobId} {i : JobId} {cls : String}
    (h : s.Persists a s') (hc : s'.class? i = some cls) (hi : a = some i ∨ s.jobs.length ≤ i)
    (r : Report) : s.Persists a (s'.report a i cls r) := by
  unfold Scheduler.report
  split
  · have hold : ∀ k, a = some k → a = some k ∨ s.jobs.length ≤ k ∧ k < s'.jobs.length :=
      fun k hk => .inl hk
    refine h.emit ⟨fun k hk => ?_, fun k r' cls' hw => ?_⟩
    · rcases hk with hactor | ⟨_, _, hwhat⟩
      · exact hold k hactor
      · cases hwhat
        exact hi.imp_right fun hle => ⟨hle, lt_of_class? hc⟩
    · cases hw
      exact hc
  · rename_i hm
    exact h.trans (.of_eq rfl (fun h => absurd h (by simpa using hm)) rfl rfl rfl)

theorem persists_emit (s : Scheduler) (a : Option JobId) {w : Happening}
    (hw : ∀ i r cls, w ≠ .reported i r cls) : s.Persists a (s.emit a w) := by
  refine (Persists.refl s).emit ⟨fun i hi => .inl ?_, fun i r cls h => absurd h (hw i r cls)⟩
  rcases hi with hactor | ⟨r, cls, hwhat⟩
  · exact hactor
  · exact absurd hwhat (hw i r cls)

theorem persists_log (s : Scheduler) (a : Option JobId) (e : LogEntry) :
    s.Persists a (s.log a e) := by
  unfold log
  split
  · exact s.persists_emit a nofun
  · exact .refl s

variable {a : Option JobId}

theorem persists_setCount (s : Scheduler) (counter : String) (n : Nat) :
    s.Persists a (s.setCount counter n) :=
  .of_eq rfl id rfl rfl rfl

theorem persists_updateJob (s : Scheduler) (i : JobId) (f : Job → Job)
    (hf : ∀ j, (f j).terms = j.terms) : s.Persists a (s.updateJob i f) where
  now := rfl
  monitor := id
  jobs k job h := by
    by_cases hk : i = k
    · exact ⟨f job, by simp [updateJob, hk, h], hf job⟩
    · exact ⟨job, by simp [updateJob, hk, h], rfl⟩
  entries _ _ h := .inl h
  events := ⟨[], rfl, by simp⟩

theorem persists_updateRecord (s : Scheduler) (i : JobId) (f : Record → Record)
    (hf : ∀ r, (f r).label = r.label) : s.Persists a (s.updateRecord i f) :=
  s.persists_updateJob i _ fun j => j.terms_record f hf

theorem persists_setPhase (s : Scheduler) (i : JobId) (phase : Phase) :
    s.Persists a (s.setPhase i phase) :=
  s.persists_updateJob i _ fun _ => rfl

theorem lookup_unregister (s : Scheduler) (name n : String) :
    (s.unregister name).registry.lookup n =
      if n = name then none else s.registry.lookup n := by
  simp only [unregister]
  split
  · rename_i hn
    subst hn
    apply List.lookup_eq_none_iff.mpr
    intro entry he
    have hne := of_decide_eq_true (List.mem_filter.mp he).2
    exact bne_iff_ne.mpr (Ne.symm hne)
  · rename_i hn
    induction s.registry with
    | nil => rfl
    | cons entry rest ih =>
        obtain ⟨key, i⟩ := entry
        by_cases hkey : key = name
        · have hnk : (n == name) = false := beq_eq_false_iff_ne.mpr hn
          simpa [hkey, List.lookup_cons, hnk] using ih
        · simp only [ne_eq, hkey, not_false_eq_true, decide_true, List.filter_cons_of_pos,
            List.lookup_cons]
          split
          · rfl
          · exact ih

theorem persists_unregister (s : Scheduler) (name : String) :
    s.Persists a (s.unregister name) where
  now := rfl
  monitor := id
  jobs _ job h := ⟨job, h, rfl⟩
  entries n i h := by
    rw [lookup_unregister] at h
    split at h
    · exact absurd h (by simp)
    · exact .inl h
  events := ⟨[], rfl, by simp⟩

theorem persists_remove (s : Scheduler) (a : Option JobId) (i : JobId) (name : String) :
    s.Persists a (s.remove a i name) := by
  unfold remove
  split
  · exact (s.persists_unregister name).trans (persists_log _ _ _)
  · exact .refl s

theorem getElem?_added (jobs : List Job) (job : Job) (i : JobId) :
    (jobs ++ [job])[i]? = if i = jobs.length then some job else jobs[i]? := by
  split
  · rename_i h
    rw [h, List.getElem?_concat_length]
  · rename_i h
    rcases Nat.lt_or_gt_of_ne h with hlt | hlt
    · exact List.getElem?_append_left hlt
    · rw [List.getElem?_eq_none (Nat.le_of_lt hlt),
        List.getElem?_eq_none (by simpa using Nat.succ_le_of_lt hlt)]

theorem persists_enrol (s : Scheduler) (a : Option JobId) (job : Job) :
    s.Persists a (s.enrol a job) := by
  have hadd : s.Persists a { s with
      registry := s.registry ++ [(job.record.name, s.jobs.length)]
      jobs := s.jobs ++ [job] } := by
    refine ⟨rfl, id, fun i j h => ⟨j, ?_, rfl⟩, fun name i h => ?_, [], rfl, by simp⟩
    · rw [List.getElem?_append_left (List.getElem?_eq_some_iff.mp h).1]
      exact h
    · rw [List.lookup_append] at h
      rcases Option.or_eq_some_iff.mp h with h | ⟨-, h⟩
      · exact .inl h
      · rw [List.lookup_cons] at h
        split at h
        · rename_i hname
          cases h
          exact .inr ⟨job, by simp, (eq_of_beq hname).symm⟩
        · exact absurd h (by simp)
  have hc : Scheduler.class? { s with
      registry := s.registry ++ [(job.record.name, s.jobs.length)]
      jobs := s.jobs ++ [job] } s.jobs.length = some job.record.cls :=
    class?_of_getElem? (by simp)
  exact (hadd.report hc (.inr (Nat.le_refl _)) .scheduled).trans (persists_log _ _ _)

@[simp] theorem jobs_log (s : Scheduler) (a : Option JobId) (e : LogEntry) :
    (s.log a e).jobs = s.jobs := by
  unfold log
  split <;> rfl

@[simp] theorem jobs_report (s : Scheduler) (a : Option JobId) (i : JobId) (cls : String)
    (r : Report) : (s.report a i cls r).jobs = s.jobs := by
  unfold report
  split <;> rfl

theorem jobs_enrol (s : Scheduler) (a : Option JobId) (job : Job) :
    (s.enrol a job).jobs = s.jobs ++ [job] := by
  simp [enrol]

theorem length_enrol (s : Scheduler) (a : Option JobId) (job : Job) :
    s.jobs.length < (s.enrol a job).jobs.length := by
  simp [jobs_enrol]

theorem Persists.launch {s s' : Scheduler} (h : s.Persists a s') {i : JobId}
    (hi : s.jobs.length ≤ i ∧ i < s'.jobs.length) (o : JobOrder) (periodic : Bool) :
    s.Persists a (s'.launch i o periodic).1 := by
  unfold Scheduler.launch Scheduler.log
  split
  · refine h.emit ⟨fun k hk => .inr ?_, nofun⟩
    rcases hk with hactor | ⟨_, _, hwhat⟩
    · cases hactor
      exact hi
    · exact absurd hwhat nofun
  · exact h

theorem persists_schedule (s : Scheduler) (a : Option JobId) (o : JobOrder) (work : Option Work)
    (runtime : Moment) : s.Persists a (s.schedule a o work runtime).1 := by
  unfold schedule
  split
  · exact .refl s
  · refine ((s.persists_enrol a _).trans (persists_log _ _ _)).launch ⟨Nat.le_refl _, ?_⟩ _ _
    exact Nat.lt_of_lt_of_le (s.length_enrol a _) (persists_log _ a _).length_le

theorem persists_schedulePeriodic (s : Scheduler) (a : Option JobId) (o : JobOrder)
    (work : Option Work) (plan : Option (Plan Action)) :
    s.Persists a (s.schedulePeriodic a o work plan).1 := by
  unfold schedulePeriodic
  split
  · exact .refl s
  · exact (s.persists_enrol a _).launch ⟨Nat.le_refl _, s.length_enrol a _⟩ _ _

theorem updateRecord_const {s : Scheduler} {i : JobId} {job : Job} (h : s.jobs[i]? = some job)
    (f : Record → Record) :
    s.updateRecord i (fun _ => f job.record) = s.updateRecord i f := by
  simp only [updateRecord, updateJob]
  congr 1
  apply List.ext_getElem?
  intro k
  by_cases hk : i = k
  · subst hk
    simp [h]
  · simp [hk]

theorem find?_eq_some {s : Scheduler} {name : String} {i : JobId} {job : Job}
    (h : s.find? name = some (i, job)) :
    s.registry.lookup name = some i ∧ s.jobs[i]? = some job := by
  obtain ⟨k, hk, hm⟩ := Option.bind_eq_some_iff.mp h
  obtain ⟨j, hj, heq⟩ := Option.map_eq_some_iff.mp hm
  cases heq
  exact ⟨hk, hj⟩

theorem persists_run (s : Scheduler) (a : Option JobId) (name : String) :
    s.Persists a (s.run a name).1 := by
  unfold run
  split
  · exact .refl s
  · rename_i i job hfind
    obtain ⟨-, hj⟩ := find?_eq_some hfind
    have hfirst : s.Persists a (if job.record.periodic then s else s.unregister name) := by
      split
      · exact .refl s
      · exact s.persists_unregister name
    have hsame : (if job.record.periodic then s else s.unregister name).jobs[i]? = some job := by
      split <;> exact hj
    have hrecord := updateRecord_const hsame fun r => r.triggerRun.1
    dsimp only
    split
    · rename_i r h
      obtain rfl : r = job.record.triggerRun.1 := by rw [h]
      rw [hrecord]
      exact (hfirst.trans (persists_updateRecord _ _ _ Record.label_triggerRun)).trans
        (persists_log _ _ _)
    · rename_i r e h
      obtain rfl : r = job.record.triggerRun.1 := by rw [h]
      rw [hrecord]
      exact hfirst.trans (persists_updateRecord _ _ _ Record.label_triggerRun)

theorem persists_runIfExists (s : Scheduler) (a : Option JobId) (name : String) :
    s.Persists a (s.runIfExists a name) := by
  have hrun := s.persists_run a name
  unfold runIfExists
  split
  · rename_i s' h
    rw [h] at hrun
    exact hrun
  · rename_i s' e h
    rw [h] at hrun
    exact hrun.trans (persists_log _ _ _)

theorem persists_cancel (s : Scheduler) (a : Option JobId) (name : String) :
    s.Persists a (s.cancel a name).1 := by
  unfold cancel
  split
  · exact .refl s
  · rename_i i job hfind
    have hrecord := updateRecord_const (s := s.unregister name) (find?_eq_some hfind).2
      fun r => r.cancel.1
    have hstep : s.Persists a ((s.unregister name).updateRecord i fun r => r.cancel.1) :=
      (s.persists_unregister name).trans (persists_updateRecord _ _ _ Record.label_cancel)
    dsimp only
    split <;>
    · rename_i r h
      obtain rfl : r = job.record.cancel.1 := by rw [h]
      rw [hrecord]
      exact hstep.trans (persists_log _ _ _)

theorem persists_cancelAll (s : Scheduler) (a : Option JobId) (stem : String) :
    s.Persists a (s.cancelAll a stem) := by
  unfold cancelAll
  generalize s.matching stem = names
  induction names generalizing s with
  | nil => exact .refl s
  | cons name rest ih => exact (s.persists_cancel a name).trans (ih _)

theorem persists_call (s : Scheduler) (a : Option JobId) (c : Call) :
    s.Persists a (s.call a c).1 := by
  cases c with
  | schedule o work runtime => exact s.persists_schedule a o work runtime
  | schedulePeriodic o work plan => exact s.persists_schedulePeriodic a o work plan
  | run name => exact s.persists_run a name
  | runIfExists name => exact s.persists_runIfExists a name
  | cancel name => exact s.persists_cancel a name
  | cancelIfExists name => exact s.persists_cancel a name
  | cancelAll stem => exact s.persists_cancelAll a stem
  | newToken name above => exact .of_eq rfl id rfl rfl rfl
  | cancelToken name => exact .of_eq rfl id rfl rfl rfl
  | isRegistered name => exact .refl s
  | isActive name => exact .refl s
  | names => exact .refl s
  | describe => exact .refl s

variable (s : Scheduler) (i : JobId) (job : Job)

theorem persists_leave : s.Persists (some i) (s.leave i) :=
  s.persists_updateJob i _ fun j => j.terms_leave _

theorem persists_ask : s.Persists (some i) (s.ask i job) :=
  (s.persists_emit _ fun _ _ _ h => by cases h).trans (persists_updateJob _ _ _ fun _ => rfl)

theorem persists_await (instant : Int) : s.Persists (some i) (s.await i instant) := by
  unfold await
  split
  · exact s.persists_setPhase i _
  · exact s.persists_updateJob i _ Job.terms_vanish

theorem persists_complete (instant : Int) : s.Persists (some i) (s.complete i job instant) := by
  unfold complete
  dsimp only
  split
  · exact ((s.persists_log _ _).trans
      (persists_updateRecord _ _ _ Record.label_deactivate)).trans (persists_setPhase _ _ _)
  · exact ((s.persists_log _ _).trans
      (persists_updateRecord _ _ _ Record.label_finalise)).trans (persists_leave _ _)

theorem persists_act (action : Action) : s.Persists (some i) (s.act i job action).1 := by
  cases action with
  | call c => exact (s.persists_call _ c).trans (persists_emit _ _ fun _ _ _ h => by cases h)
  | context => exact s.persists_emit _ nofun
  | sleep ms => exact .refl s
  | awaitContext => exact .refl s
  | panic payload => exact .refl s
  | earlyPanic payload => exact .refl s

section

variable {s i job} (hc : s.class? i = some job.record.cls)
include hc

theorem persists_stop : s.Persists (some i) (s.stop i job) := by
  have hrecord := s.persists_updateRecord (a := some i) i _ Record.label_finalise
  exact (hrecord.report (hrecord.class? hc) (.inl rfl) .cancelled).trans (persists_leave _ _)

theorem persists_retire : s.Persists (some i) (s.retire i job) :=
  have hremove := s.persists_remove (some i) i job.record.name
  hremove.trans (persists_stop (hremove.class? hc))

theorem persists_start (instant : Int) (trigger : Trigger) :
    s.Persists (some i) (s.start i job instant trigger) :=
  ((((Persists.refl s).report hc (.inl rfl) _).trans (persists_setCount _ _ _)).trans
    (persists_emit _ _ fun _ _ _ h => by cases h)).trans (persists_updateJob _ _ _ fun _ => rfl)

theorem persists_planOn (result : Except RuntimeError Moment) (actions : List Action) :
    s.Persists (some i) (s.planOn i job result actions) := by
  have hretire : ∀ e : LogEntry, s.Persists (some i) ((s.log (some i) e).retire i job) := by
    intro e
    have hlog := s.persists_log (some i) e
    exact hlog.trans (persists_retire (hlog.class? hc))
  unfold planOn
  split
  · split
    · exact (s.persists_log _ _).trans (persists_await _ _ _)
    · exact hretire _
    · exact hretire _
  · exact hretire _
  · exact (s.persists_act i job _).trans (persists_setPhase _ _ _)

end

theorem persists_runOn (instant : Int) (actions : List Action) :
    s.Persists (some i) (s.runOn i job instant actions) := by
  unfold runOn
  split
  · exact (s.persists_emit _ fun _ _ _ h => by cases h).trans (persists_complete _ _ _ _)
  · exact (s.persists_log _ _).trans (persists_complete _ _ _ _)
  · exact (s.persists_act i job _).trans (persists_setPhase _ _ _)

variable {s i job} in
theorem persists_wake (hj : s.jobs[i]? = some job) (instant : Int) (w : Waking) :
    s.Persists (some i) (s.wake i job instant w) := by
  have hc := class?_of_getElem? hj
  cases w with
  | parent =>
      have hlog := s.persists_log (some i) (.parentDone instant)
      exact hlog.trans (persists_retire (hlog.class? hc))
  | cancel =>
      have htake := (s.persists_updateRecord (a := some i) i _ Record.label_takeCancel).trans
        (persists_log _ (some i) (.cancelTriggered instant))
      exact htake.trans (persists_stop (htake.class? hc))
  | signal =>
      have htake := (s.persists_updateRecord (a := some i) i _ Record.label_takeRun).trans
        (persists_log _ (some i) (.runTriggered instant))
      exact htake.trans (persists_start (htake.class? hc) _ _)
  | timer =>
      simp only [wake]
      split
      · exact (s.persists_log _ _).trans (persists_setPhase _ _ _)
      · rename_i r h
        obtain rfl : r = job.record.tryActivate.1 := by rw [h]
        rw [updateRecord_const hj fun r => r.tryActivate.1]
        have hclaim := s.persists_updateRecord (a := some i) i _ Record.label_tryActivate
        split
        · have hlog := hclaim.trans (persists_log _ (some i) (.timerTriggered instant))
          exact hlog.trans (persists_start (hlog.class? hc) _ _)
        · have hlog := (hclaim.trans (persists_remove _ (some i) i job.record.name)).trans
            (persists_log _ (some i) (.timerTriggered instant))
          exact hlog.trans (persists_start (hlog.class? hc) _ _)

variable {s i} in
theorem persists_step {s' : Scheduler} (h : s.step? i = some s') : s.Persists (some i) s' := by
  unfold step? at h
  split at h
  · exact absurd h (by simp)
  · rename_i job hj
    split at h
    · cases h
      exact s.persists_await i _
    · cases h
      exact s.persists_ask i job
    · obtain ⟨-, h⟩ := Option.ite_none_right_eq_some.mp h
      cases h
      exact persists_planOn (class?_of_getElem? hj) _ _
    · obtain ⟨w, -, rfl⟩ := Option.map_eq_some_iff.mp h
      exact persists_wake hj _ w
    · obtain ⟨-, h⟩ := Option.ite_none_right_eq_some.mp h
      cases h
      exact s.persists_runOn i job _ _
    · exact absurd h (by simp)
    · exact absurd h (by simp)

end Scheduler

end JobScheduler
