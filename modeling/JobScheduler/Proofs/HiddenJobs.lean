import JobScheduler.Proofs.Orders

/-!
Jobs left out of sight. A cover leaves the jobs of one name out of a scheduler, with what their
runners write and what is written about them, or only the minor part of it. What such a job does
without making a call changes nothing that can be seen beside the cover, and neither does a request
under its name.
-/

namespace JobScheduler

/-- The name of the job that a log entry is about, if it gives one. -/
def LogEntry.job? : LogEntry → Option String
  | registered job _ _ | unregistered job | span job _ _ | oneOffScheduled job _ | runSignalled job
  | runSkipped job _ | cancelSignalled job | alreadyFinalised job => some job
  | _ => none

/-- What goes on around the executions of a job: log entries, calls of the runtime function, and the
reports of its cancellation. -/
def Happening.isMinor : Happening → Bool
  | logged _ | asked _ | reported _ .cancelled _ => true
  | _ => false

/-- What a comparison of schedulers leaves out. -/
structure Cover where
  name : String
  /-- The jobs of that name. -/
  jobs : JobId → Bool
  /-- Whether all events by and about these jobs are left out, or only what is minor. -/
  whole : Bool
  /-- The counters that are left out. -/
  counters : String → Prop

/-- Whether the cover is of the jobs of its name. -/
def Cover.Fits (k : Cover) (s : Scheduler) : Prop :=
  ∀ (i : JobId) (job : Job), s.jobs[i]? = some job → k.jobs i = decide (job.record.name = k.name)

/-- The jobs that have a name. -/
def Scheduler.holders (s : Scheduler) (name : String) (i : JobId) : Bool :=
  s.jobs[i]?.any fun job => job.record.name = name

namespace Cover

theorem fits_holders {k : Cover} {s : Scheduler} (h : k.jobs = s.holders k.name) : k.Fits s := by
  intro i job hj
  rw [h, Scheduler.holders, hj]
  rfl

/-- Whether an event tells of a job that is covered. -/
def regards (k : Cover) : Happening → Bool
  | .reported about _ _ => k.jobs about
  | .logged entry => decide (entry.job? = some k.name)
  | _ => false

/-- Whether an event is left out. -/
def hides (k : Cover) (e : Event) : Bool :=
  (k.whole || e.what.isMinor) && (e.actor.any k.jobs || k.regards e.what)

end Cover

namespace Scheduler

/-- The entries of the registry that are not covered. -/
def kept (s : Scheduler) (name : String) : List (String × JobId) :=
  s.registry.filter fun entry => entry.1 ≠ name

/-- The events that are not covered. -/
def shown (s : Scheduler) (k : Cover) : List Event := s.history.filter fun e => !k.hides e

end Scheduler

/-- Whether two schedulers differ in nothing but what a cover leaves out. -/
structure Cover.Same (k : Cover) (s s' : Scheduler) : Prop where
  now : s'.now = s.now
  tokens : s'.tokens = s.tokens
  logging : s'.logging = s.logging
  recording : s'.monitor = .recording ↔ s.monitor = .recording
  registry : s'.kept k.name = s.kept k.name
  jobs : ∀ i, k.jobs i = false → s'.jobs[i]? = s.jobs[i]?
  length : s'.jobs.length = s.jobs.length
  counts : ∀ c, ¬k.counters c → s'.count c = s.count c
  shown : s'.shown k = s.shown k

namespace Scheduler

variable (s : Scheduler)

theorem recording_report (a : Option JobId) (i : JobId) (cls : String) (r : Report) :
    (s.report a i cls r).monitor = .recording ↔ s.monitor = .recording := by
  unfold report
  cases hm : s.monitor <;> simp [emit, Monitor.observe, hm]

theorem count_setCount (counter c : String) (n : Nat) :
    (s.setCount counter n).count c = if c = counter then n else s.count c := by
  unfold count setCount
  dsimp only
  rw [List.lookup_cons]
  by_cases hc : c = counter
  · simp [hc]
  · rw [beq_false_of_ne hc, if_neg hc]
    congr 1
    induction s.counters with
    | nil => rfl
    | cons entry rest ih =>
        obtain ⟨key, m⟩ := entry
        by_cases hkey : key = counter
        · have hck : (c == key) = false := beq_false_of_ne (hkey ▸ hc)
          simpa [hkey, List.lookup_cons, beq_false_of_ne hc] using ih
        · simp only [ne_eq, hkey, not_false_eq_true, decide_true, List.filter_cons_of_pos,
            List.lookup_cons, ih]

theorem kept_unregister (name n : String) :
    (s.unregister name).kept n = (s.kept n).filter fun entry => entry.1 ≠ name := by
  simp only [kept, unregister, List.filter_filter, Bool.and_comm]

theorem kept_unregister_self (name : String) : (s.unregister name).kept name = s.kept name := by
  rw [kept_unregister, List.filter_eq_self]
  intro entry he
  exact (List.mem_filter.mp he).2

end Scheduler

namespace Cover.Same

variable {k : Cover} {s s' s'' : Scheduler} {a : Option JobId} {i : JobId} {job : Job}

theorem refl (s : Scheduler) : k.Same s s :=
  ⟨rfl, rfl, rfl, .rfl, rfl, fun _ _ => rfl, rfl, fun _ _ => rfl, rfl⟩

theorem trans (h : k.Same s s') (h' : k.Same s' s'') : k.Same s s'' where
  now := h'.now.trans h.now
  tokens := h'.tokens.trans h.tokens
  logging := h'.logging.trans h.logging
  recording := h'.recording.trans h.recording
  registry := h'.registry.trans h.registry
  jobs i hi := (h'.jobs i hi).trans (h.jobs i hi)
  length := h'.length.trans h.length
  counts c hc := (h'.counts c hc).trans (h.counts c hc)
  shown := h'.shown.trans h.shown

theorem emit (h : k.Same s s') {w : Happening} (hw : k.hides ⟨s.now, a, w⟩ = true) :
    k.Same s (s'.emit a w) where
  now := h.now
  tokens := h.tokens
  logging := h.logging
  recording := h.recording
  registry := h.registry
  jobs := h.jobs
  length := h.length
  counts := h.counts
  shown := by
    rw [← h.shown, Scheduler.shown, Scheduler.emit, h.now, List.filter_cons_of_neg (by simp [hw])]
    rfl

theorem emit_own (h : k.Same s s') (hi : k.jobs i = true) {w : Happening}
    (hw : (k.whole || w.isMinor) = true) : k.Same s (s'.emit (some i) w) := by
  apply h.emit
  simp [hides, hw, hi]

theorem log_own (h : k.Same s s') (hi : k.jobs i = true) (e : LogEntry) :
    k.Same s (s'.log (some i) e) := by
  unfold Scheduler.log
  split
  · exact h.emit_own hi (by simp [Happening.isMinor])
  · exact h

theorem log_about (h : k.Same s s') {e : LogEntry} (he : e.job? = some k.name) :
    k.Same s (s'.log a e) := by
  unfold Scheduler.log
  split
  · apply h.emit
    simp [hides, regards, he, Happening.isMinor]
  · exact h

theorem report (h : k.Same s s') (hi : k.jobs i = true) {r : Report}
    (hr : k.whole = true ∨ r = .cancelled) (cls : String) : k.Same s (s'.report a i cls r) := by
  have hnew : k.hides ⟨s.now, a, .reported i r cls⟩ = true := by
    rcases hr with hwhole | rfl
    · simp [hides, regards, hwhole, hi]
    · simp [hides, regards, hi, Happening.isMinor]
  have hrec := (s'.recording_report a i cls r).trans h.recording
  unfold Scheduler.report at hrec ⊢
  split
  · exact h.emit hnew
  · rename_i hm
    simp only at hrec
    exact { h with recording := hrec }

theorem updateJob (h : k.Same s s') (hi : k.jobs i = true) (f : Job → Job) :
    k.Same s (s'.updateJob i f) :=
  { h with
    jobs := by
      intro n hn
      have hne : i ≠ n := by
        rintro rfl
        exact absurd (hn.symm.trans hi) Bool.false_ne_true
      rw [← h.jobs n hn]
      simp [Scheduler.updateJob, hne]
    length := by simp [Scheduler.updateJob, h.length] }

theorem updateRecord (h : k.Same s s') (hi : k.jobs i = true) (f : Record → Record) :
    k.Same s (s'.updateRecord i f) :=
  h.updateJob hi _

theorem setPhase (h : k.Same s s') (hi : k.jobs i = true) (phase : Phase) :
    k.Same s (s'.setPhase i phase) :=
  h.updateJob hi _

theorem leave (h : k.Same s s') (hi : k.jobs i = true) : k.Same s (s'.leave i) := h.updateJob hi _

theorem unregister (h : k.Same s s') : k.Same s (s'.unregister k.name) :=
  { h with registry := (s'.kept_unregister_self k.name).trans h.registry }

theorem setCount (h : k.Same s s') {counter : String} (hc : k.counters counter) (n : Nat) :
    k.Same s (s'.setCount counter n) :=
  { h with
    counts := by
      intro c hn
      rw [Scheduler.count_setCount, if_neg, h.counts c hn]
      rintro rfl
      exact hn hc }

theorem remove (h : k.Same s s') : k.Same s (s'.remove a i k.name) := by
  unfold Scheduler.remove
  split
  · exact h.unregister.log_about rfl
  · exact h

theorem run (hs : s.Named) (hk : k.Fits s) : k.Same s (s.run a k.name).1 := by
  unfold Scheduler.run
  split
  · exact refl s
  · rename_i i job hfind
    obtain ⟨-, -, hname⟩ := Scheduler.situation?_of_find? hs hfind
    have hi : k.jobs i = true := by
      rw [hk i job (Scheduler.find?_eq_some hfind).2, hname]
      simp
    have hleft : k.Same s (if job.record.periodic then s else s.unregister k.name) := by
      split
      · exact refl s
      · exact (refl s).unregister
    dsimp only
    split
    · exact (hleft.updateRecord hi _).log_about rfl
    · rename_i r e _
      exact hleft.updateRecord hi fun _ => r

theorem runIfExists (hs : s.Named) (hk : k.Fits s) : k.Same s (s.runIfExists a k.name) := by
  have hrun : k.Same s (s.run a k.name).1 := run hs hk
  unfold Scheduler.runIfExists
  split <;> rename_i hr <;> rw [hr] at hrun
  · exact hrun
  · exact hrun.log_about rfl

theorem cancel (hs : s.Named) (hk : k.Fits s) : k.Same s (s.cancel a k.name).1 := by
  unfold Scheduler.cancel
  split
  · exact refl s
  · rename_i i job hfind
    obtain ⟨-, -, hname⟩ := Scheduler.situation?_of_find? hs hfind
    have hi : k.jobs i = true := by
      rw [hk i job (Scheduler.find?_eq_some hfind).2, hname]
      simp
    dsimp only
    split <;> exact ((refl s).unregister.updateRecord hi _).log_about rfl

section

variable (h : k.Same s s') (hi : k.jobs i = true)
include h hi

theorem stop : k.Same s (s'.stop i job) :=
  ((h.updateRecord hi _).report hi (.inr rfl) _).leave hi

theorem retire (hname : job.record.name = k.name) : k.Same s (s'.retire i job) := by
  unfold Scheduler.retire
  rw [hname]
  exact h.remove.stop hi

theorem await (instant : Int) : k.Same s (s'.await i instant) := by
  unfold Scheduler.await
  split
  · exact h.setPhase hi _
  · exact h.updateJob hi _

theorem ask : k.Same s (s'.ask i job) :=
  (h.emit_own hi (by simp [Happening.isMinor])).updateJob hi _

theorem complete (instant : Int) : k.Same s (s'.complete i job instant) := by
  unfold Scheduler.complete
  dsimp only
  split
  · exact ((h.log_own hi _).updateRecord hi _).setPhase hi _
  · exact ((h.log_own hi _).updateRecord hi _).leave hi

end

section

variable (hwhole : k.whole = true) (h : k.Same s s') (hi : k.jobs i = true)
include hwhole h hi

theorem start (hc : k.counters job.counter) (instant : Int) (trigger : Trigger) :
    k.Same s (s'.start i job instant trigger) :=
  (((h.report hi (.inl hwhole) _).setCount hc _).emit_own hi (by simp [hwhole])).updateJob hi _

theorem act {action : Action} (hno : ∀ c, action ≠ .call c) :
    k.Same s (s'.act i job action).1 := by
  cases action with
  | call c => exact absurd rfl (hno c)
  | context => exact h.emit_own hi (by simp [hwhole])
  | sleep ms => exact h
  | awaitContext => exact h
  | panic payload => exact h
  | earlyPanic payload => exact h

theorem planOn (hname : job.record.name = k.name) {rest : List Action}
    (hno : ∀ c, .call c ∉ rest) (result : Except RuntimeError Moment) :
    k.Same s (s'.planOn i job result rest) := by
  unfold Scheduler.planOn
  split
  · split
    · exact (h.log_own hi _).await hi _
    · exact (h.log_own hi _).retire hi hname
    · exact (h.log_own hi _).retire hi hname
  · exact (h.log_own hi _).retire hi hname
  · refine (act hwhole h hi ?_).setPhase hi _
    rintro c rfl
    exact hno c List.mem_cons_self

theorem runOn {rest : List Action} (hno : ∀ c, .call c ∉ rest) (instant : Int) :
    k.Same s (s'.runOn i job instant rest) := by
  unfold Scheduler.runOn
  split
  · exact (h.emit_own hi (by simp [hwhole])).complete hi _
  · exact (h.log_own hi _).complete hi _
  · refine (act hwhole h hi ?_).setPhase hi _
    rintro c rfl
    exact hno c List.mem_cons_self

theorem wake (hname : job.record.name = k.name) (hc : k.counters job.counter) (instant : Int)
    (w : Waking) : k.Same s (s'.wake i job instant w) := by
  cases w with
  | parent => exact (h.log_own hi _).retire hi hname
  | cancel => exact ((h.updateRecord hi _).log_own hi _).stop hi
  | signal => exact start hwhole ((h.updateRecord hi _).log_own hi _) hi hc _ _
  | timer =>
      simp only [Scheduler.wake]
      split
      · exact (h.log_own hi _).setPhase hi _
      · rename_i r _
        have hactive : k.Same s (s'.updateRecord i fun _ => r) := h.updateRecord hi _
        split
        · exact start hwhole (hactive.log_own hi _) hi hc _ _
        · rw [hname]
          exact start hwhole (hactive.remove.log_own hi _) hi hc _ _

omit h in
/-- A step of a covered runner that makes no call changes nothing in sight. -/
theorem step (hj : s.jobs[i]? = some job) (hname : job.record.name = k.name)
    (hc : k.counters job.counter) (hno : ∀ c, .call c ∉ job.phase.rest)
    (hstep : s.step? i = some s') : k.Same s s' := by
  have h := refl (k := k) s
  unfold Scheduler.step? at hstep
  rw [hj] at hstep
  dsimp only at hstep
  split at hstep <;> rename_i hp
  · cases hstep
    exact h.await hi _
  · cases hstep
    exact h.ask hi
  · obtain ⟨-, hstep⟩ := Option.ite_none_right_eq_some.mp hstep
    cases hstep
    rw [hp] at hno
    exact planOn hwhole h hi hname hno _
  · obtain ⟨w, -, rfl⟩ := Option.map_eq_some_iff.mp hstep
    exact wake hwhole h hi hname hc _ w
  · obtain ⟨-, hstep⟩ := Option.ite_none_right_eq_some.mp hstep
    cases hstep
    rw [hp] at hno
    exact runOn hwhole h hi hno _
  · exact absurd hstep (by simp)
  · exact absurd hstep (by simp)

end

end Cover.Same

end JobScheduler
