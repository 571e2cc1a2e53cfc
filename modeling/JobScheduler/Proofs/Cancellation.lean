import JobScheduler.Proofs.NoFurtherRuns

/-!
Cancelling a job is final (`Run.cancel_is_final`). The job leaves the registry, finalised and, if
its runner lives, with a signal to stop; from then on it is never executed, whatever else is asked
of it or of its name, and it is reported as cancelled once, when its runner returns.
-/

namespace JobScheduler

/-- Whether a call cancels the job that is registered under a name. -/
def Call.cancels (name : String) : Call → Bool
  | cancel n | cancelIfExists n => n == name
  | cancelAll stem => stem.toList.isPrefixOf name.toList
  | _ => false

namespace Situation

theorem Sound.uncancelled {v : Situation} (hv : v.Sound) (hr : v.registered = true) :
    v.job.record.finalised = false ∧ v.job.record.cancelling.pending = false := by
  have hfree := (hv.open_of_registered hr).2.1
  refine ⟨hfree, ?_⟩
  cases hv with
  | tended _ hv => exact hv.stopping.symm.trans hfree
  | ended _ hv => exact congrArg Channel.pending hv.cancelling
  | abandoned _ hv => exact hv.cancelling.1

theorem Sound.idle_of_registered {v : Situation} (hv : v.Sound) (hr : v.registered = true)
    (hone : v.job.record.periodic = false) (ha : v.job.phase.alive = true) :
    v.job.phase.isRunning = false := by
  have hidle : v.job.record.active = false := by
    rcases (hv.open_of_registered hr).2.2 with hper | hidle
    · exact absurd (hone.symm.trans hper) Bool.false_ne_true
    · exact hidle
  rw [(hv.tended_of_alive ha).active, Bool.or_eq_false_iff] at hidle
  exact hidle.1

theorem Sound.signalled_of_cancel {v : Situation} (hv : v.Sound) (hr : v.registered = true)
    (ha : v.job.phase.alive = true) : v.job.record.cancel.1.cancelling.pending = true := by
  obtain ⟨hf, hempty⟩ := hv.uncancelled hr
  have hopen := (hv.tended_of_alive ha).cancelling
  rw [Record.cancel_of_listening hf hopen.1 hopen.2 hempty]

end Situation

namespace Scheduler

variable {s s' : Scheduler} {i : JobId} {v : Situation} {c : Call} {m : Move}

theorem situation?_of_cancels (hs : s.Named) (hv : s.situation? i = some v)
    (hr : v.registered = true) (hc : c.cancels v.job.record.name = true) (a : Option JobId) :
    (s.call a c).1.situation? i = some v.requestStop := by
  have hl := (registered_iff hv).mp hr
  have hone : ∀ name, (name == v.job.record.name) = true →
      (s.cancel a name).1.situation? i = some v.requestStop := by
    intro name hname
    rw [situation?_cancel hs a name hv, eq_of_beq hname, if_pos hl]
  cases c with
  | cancel name => exact hone name hc
  | cancelIfExists name => exact hone name hc
  | cancelAll stem =>
      rw [call, situation?_cancelAll hs a stem hv, if_pos ⟨hr, hc⟩]
  | _ => exact absurd hc Bool.false_ne_true

theorem cancelled_of_move (hs : s.Named) (hv : s.situation? i = some v)
    (hr : v.registered = true) (hc : s.callOf? m = some c)
    (hname : c.cancels v.job.record.name = true) (hm : s.move? m = some s') :
    ∃ phase, s'.situation? i = some (v.requestStop.withPhase phase) := by
  have hcall := situation?_of_cancels hs hv hr hname
  cases m with
  | call c' =>
      cases hm
      cases hc
      exact ⟨v.job.phase, hcall none⟩
  | turn k =>
      obtain ⟨answer, phase, rfl⟩ := step_of_call hm hc
      by_cases hki : k = i
      · subst hki
        refine ⟨phase, ?_⟩
        rw [situation?_setPhase, situation?_emit, hcall, Option.map_some]
      · refine ⟨v.job.phase, ?_⟩
        rw [situation?_setPhase_of_ne _ hki, situation?_emit, hcall]
        rfl
  | pass ms => exact absurd hc (by simp [callOf?])
  | shutdown => exact absurd hc (by simp [callOf?])

end Scheduler

namespace Run

variable {monitor : Monitor} {logging : Bool} {past past' : List (Scheduler × Move)}
  {s s' t : Scheduler} {i : JobId} {job : Job}

theorem runs_of_idle (run : Run (.initial monitor logging) past s) (hj : s.jobs[i]? = some job)
    (hone : job.record.periodic = false) (ha : job.phase.alive = true)
    (hidle : job.phase.isRunning = false) : job.runs = 0 := by
  obtain ⟨v₀, ms, hborn, hlife, -⟩ := run.life (Scheduler.situation?_of_getElem? hj)
  have hone₀ : v₀.job.record.periodic = false :=
    (Scheduler.periodic_eq_of_terms hlife.terms_eq).symm.trans hone
  have hnone := (hlife.outcomes hborn hone₀).of_alive ha
  have hruns : ms.countP Mark.isStart = job.runs := (hlife.runs hborn).1
  rw [show (s.situate i job).job.phase.isRunning = false from hidle, countP_isOutcome,
    hruns] at hnone
  simp only [Bool.false_eq_true, if_false] at hnone
  omega

theorem cancelled_of_returned (run : Run (.initial .recording logging) past s)
    (hj : s.jobs[i]? = some job) (hp : job.phase = .returned)
    (hnone : job.record.periodic = false → job.runs = 0) : s.reports i .cancelled = 1 := by
  cases hper : job.record.periodic with
  | true => exact run.cancelled_of_periodic hj hper hp
  | false =>
      have hstarts := (run.entries_eq (Scheduler.situation?_of_getElem? hj)).2
      rw [show (s.situate i job).job.runs = 0 from hnone hper] at hstarts
      have hone := (run.oneOutcome hj hper).exactlyOne hp
      omega

theorem alive_of_returned (run : Run (.initial monitor logging) past s)
    (hj : s.jobs[i]? = some job) (hopen : job.phase ≠ .returned) (after : Run s past' t)
    {job' : Job} (hj' : t.jobs[i]? = some job') (hp : job'.phase = .returned) :
    job.phase.alive = true := by
  cases ha : job.phase.alive with
  | true => rfl
  | false =>
      obtain ⟨job₁, hj₁, hp₁, -⟩ := run.gone hj ha after
      obtain rfl : job' = job₁ := Option.some_inj.mp (hj'.symm.trans hj₁)
      exact absurd (hp₁.symm.trans hp) hopen

/-- Whatever follows after a job was cancelled, it is not executed any more: neither a run signal
nor its timer nor a new job of its name starts an execution, and its runtime function is called once
at most, and not at all if its runner was in it or waited. An execution that was in progress goes on
to its own end. The job is reported as cancelled once, when its runner returns, and nothing is
written about it once the runner is gone. Before, it was not finalised and no signal to stop was in
its slot, so that its runner got one; no job is ever found to be finalised already. -/
theorem cancel_is_final (run : Run (.initial monitor logging) past s) {name : String}
    (hl : s.registry.lookup name = some i) {m : Move} {c : Call} (hc : s.callOf? m = some c)
    (hname : c.cancels name = true) (hm : s.move? m = some s') :
    ∃ job job', s.jobs[i]? = some job ∧ s'.jobs[i]? = some job' ∧ job.record.name = name ∧
      (job.record.finalised = false ∧ job.record.cancelling.pending = false ∧
        job.record.cancel.2 = true) ∧
      (¬s'.Holds i job' ∧ job'.record.finalised = true ∧
        (job.phase.alive = true → job'.record.cancelling.pending = true)) ∧
      ∀ past' t, Run s' past' t →
        (∀ e ∈ t.history, ∀ n, e.what ≠ .logged (.alreadyFinalised n)) ∧
        (∀ instant pause rest, job.phase = .running instant pause rest →
          (∀ e ∈ past', e.2 ≠ .shutdown) →
          t.GoesOn i instant pause rest (turns (past' ++ [(s, m)]) i)) ∧
        ∃ job'', t.jobs[i]? = some job'' ∧ job.WindsDown job'' ∧
          (job''.phase.alive = false → ∀ past'' t', Run t past'' t' →
            ∃ new, t'.history = new ++ t.history ∧ ∀ e ∈ new, ¬e.concerns i) ∧
          (∃ u, Recorded (past' ++ (s, m) :: past) u) ∧
          ∀ u, Recorded (past' ++ (s, m) :: past) u → u.entries i = job.runs ∧
            (job''.phase = .returned → u.reports i .cancelled = 1) ∧
            (job''.phase ≠ .returned → u.reports i .cancelled = 0) := by
  obtain ⟨job, hj, rfl⟩ := run.named name i hl
  have hv := Scheduler.situation?_of_getElem? hj
  have hr : (s.situate i job).registered = true := (Scheduler.registered_iff hv).mpr hl
  have hsound := run.sound hv
  obtain ⟨hfree, hempty⟩ := hsound.uncancelled hr
  obtain ⟨phase, hv'⟩ := Scheduler.cancelled_of_move run.named hv hr hc hname hm
  obtain ⟨hj', hsit'⟩ := Scheduler.situation?_eq_some.mp hv'
  have hfinal : job.record.cancel.1.finalised = true := job.record.finalised_cancel
  refine ⟨job, _, hj, hj', rfl, ⟨hfree, hempty, Record.cancel_first hfree⟩,
    ⟨?_, hfinal, hsound.signalled_of_cancel hr⟩, ?_⟩
  · intro hheld
    exact absurd ((Scheduler.registered_iff hv').mpr hheld) Bool.false_ne_true
  intro past' t after
  have run' := run.next m hm
  have after' := (single m hm).trans after
  refine ⟨?_, ?_, ?_⟩
  · intro e he n hagain
    have hnone := (run.trans after').unskipped e he
    rw [hagain] at hnone
    exact absurd hnone (by simp [Happening.isSkip])
  · intro instant pause rest hp hkept
    refine run.goesOn hj hp after' fun e he => ?_
    rcases List.mem_append.mp he with he | he
    · exact hkept e he
    · rw [List.mem_singleton.mp he]
      rintro rfl
      exact absurd hc (by simp [Scheduler.callOf?])
  · obtain ⟨job'', hj'', -, hterms, hruns⟩ := run'.barred hj' (.inl hfinal) after
    have hruns' : job''.runs = job.runs := hruns
    have hterms' : ((s.situate i job).requestStop.withPhase phase).job.terms = job.terms :=
      job.terms_record _ Record.label_cancel
    refine ⟨job'', hj'', run.windsDown hj after' hj'' hruns', ?_,
      (run'.trans after).exists_recorded, ?_⟩
    · intro hgone past'' t' after''
      exact (run'.trans after).silent hj'' hgone after''
    · intro u hu
      obtain ⟨logging', past₁, run₁, -, hjobs⟩ := (run'.trans after).of_recorded hu
      have hju : u.jobs[i]? = some job'' := by rw [hjobs, hj'']
      refine ⟨?_, ?_, run₁.not_cancelled hju⟩
      · exact (run₁.entries_eq (Scheduler.situation?_of_getElem? hju)).1.trans hruns'
      · intro hp
        refine run₁.cancelled_of_returned hju hp fun hone => hruns'.trans ?_
        have hone' : job.record.periodic = false :=
          (Scheduler.periodic_eq_of_terms (hterms.trans hterms')).symm.trans hone
        have ha : job.phase.alive = true :=
          run.alive_of_returned hj (hsound.open_of_registered hr).1 after' hj'' hp
        exact run.runs_of_idle hj hone' ha (hsound.idle_of_registered hr hone' ha)

/-- A periodic job that is cancelled with a run signal in its slot is not executed. -/
theorem cancelled_with_signal : ∃ past s job, Run (.initial .recording false) past s ∧
    s.jobs[0]? = some job ∧ job.phase = .returned ∧ job.runs = 0 ∧ accepts past 0 = 1 ∧
      s.entries 0 = 0 ∧ s.reports 0 .cancelled = 1 := by
  have run := (begun (.initial .recording false)).next
    (.call (.schedulePeriodic plainOrder (some []) (some ⟨[], some 1⟩))) rfl
    |>.next (.turn 0) rfl |>.next (.turn 0) rfl |>.next (.call (.run "a")) rfl
  have hname : (Call.cancel "a").cancels "a" = true := by decide
  have run' := (run.next (.call (.cancel "a")) rfl).next (.turn 0) rfl
  obtain ⟨job, job', hj, -, -, -, -, hafter⟩ :=
    run.cancel_is_final (i := 0) (m := .call (.cancel "a")) rfl rfl hname rfl
  obtain ⟨-, -, job'', hj'', hdown, -, -, htold⟩ := hafter _ _ (single (.turn 0) rfl)
  obtain ⟨hentries, hreturned, -⟩ := htold _ ⟨false, _, run', rfl⟩
  cases hj
  cases hj''
  exact ⟨_, _, _, run', rfl, rfl, hdown.runs, rfl, hentries, hreturned rfl⟩

end Run

end JobScheduler
