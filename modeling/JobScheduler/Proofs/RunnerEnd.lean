import JobScheduler.Proofs.Outcome
import JobScheduler.Proofs.Soundness

/-!
The end of a runner. No job is reported as cancelled before its runner returned. Once the runner is
gone, nothing is written by it or reported of its job any more (`Run.silent`), and the last that a
recording monitor is told of a periodic job whose runner returned is that it was cancelled
(`Run.cancelled_last`).
-/

namespace JobScheduler

theorem Touch.asks_eq {v v' : Situation} {ms : List Mark} (h : Touch v ms v') :
    v'.job.asks = v.job.asks := by
  cases h <;> rfl

theorem Change.of_gone {i : JobId} {m : Move} {v v' : Situation} {ms : List Mark}
    (h : Change i m v ms v') (hgone : v.job.phase.alive = false) :
    v'.job.phase = v.job.phase ∧ v'.job.runs = v.job.runs ∧ v'.job.asks = v.job.asks := by
  cases h with
  | touch _ ht => exact ⟨ht.phase_eq, ht.runs_eq, ht.asks_eq⟩
  | turn ht => exact absurd ht.alive (Bool.eq_false_iff.mp hgone)
  | pass => exact ⟨rfl, rfl, rfl⟩
  | vanish =>
      rw [Situation.update_job, Job.vanish, if_neg (Bool.eq_false_iff.mp hgone)]
      exact ⟨rfl, rfl, rfl⟩

theorem Change.turn_of_returned {i : JobId} {m : Move} {v v' : Situation} {ms : List Mark}
    (h : Change i m v ms v') (ha : v.job.phase.alive = true) (hp : v'.job.phase = .returned) :
    m = .turn i ∧ Turn v ms v' := by
  cases h with
  | touch _ ht =>
      rw [← ht.phase_eq, hp] at ha
      exact absurd ha Bool.false_ne_true
  | turn ht => exact ⟨rfl, ht⟩
  | pass =>
      have hpv : v.job.phase = .returned := hp
      rw [hpv] at ha
      exact absurd ha Bool.false_ne_true
  | vanish =>
      rw [Situation.update_job, Job.vanish, if_pos ha] at hp
      exact absurd hp (by simp [Job.leave])

theorem Situation.Born.not_returned {v : Situation} (h : v.Born) : v.job.phase ≠ .returned := by
  cases h with
  | inside _ hj =>
      rcases hj.phase with ⟨⟨instant, hp⟩, -⟩ | ⟨hp, -⟩
      · simp [hp]
      · simp [hp]
  | outside _ _ hjob => simp [hjob, Job.leave]

theorem Turn.not_running_of_returned {v v' : Situation} {ms : List Mark} (h : Turn v ms v')
    (hper : v.job.record.periodic = true) (hp : v'.job.phase = .returned) :
    v.job.phase.isRunning = false := by
  cases h with
  | act => cases hp
  | complete =>
      rw [Situation.complete, if_pos hper] at hp
      cases hp
  | begin hphase | ask hphase | plan hphase | arrange hphase | giveUp hphase | orphaned hphase
  | stopped hphase | signalled hphase | skipped hphase | timed hphase =>
      rw [hphase]
      rfl

theorem Turn.not_cancelled {v v' : Situation} {ms : List Mark} (h : Turn v ms v')
    (hp : v'.job.phase ≠ .returned) : ms.count (.reported .cancelled) = 0 := by
  cases h with
  | begin => exact v.unseen_awaitMarks.count (by simp)
  | plan _ _ ht _ => exact ht.countP rfl
  | arrange => exact v.unseen_awaitMarks.count (by simp)
  | giveUp => exact absurd rfl hp
  | orphaned => exact absurd rfl hp
  | stopped => exact absurd rfl hp
  | act _ _ ht _ => exact ht.countP rfl
  | complete =>
      split
      · rfl
      · exact v.unseen_leftover.count (by simp)
  | ask | signalled | skipped | timed => rfl

theorem Change.not_cancelled {i : JobId} {m : Move} {v v' : Situation} {ms : List Mark}
    (h : Change i m v ms v') (hp : v'.job.phase ≠ .returned) :
    ms.count (.reported .cancelled) = 0 := by
  cases h with
  | touch _ ht => exact ht.countP rfl
  | turn ht => exact ht.not_cancelled hp
  | pass => rfl
  | vanish => exact v.unseen_vanishMarks.count (by simp)

theorem Life.not_cancelled {i : JobId} {v₀ v : Situation} {ms : List Mark} (h : Life i v₀ ms v)
    (hp : v.job.phase ≠ .returned) : ms.count (.reported .cancelled) = 0 := by
  induction h with
  | start => rfl
  | next _ hc ih =>
      rw [List.count_append, hc.not_cancelled hp, ih fun hreturned => ?_]
      -- A runner that returned stays where it is.
      rw [(hc.of_gone (by rw [hreturned]; rfl)).1] at hp
      exact hp hreturned

namespace Scheduler

variable {s s' t : Scheduler} {i : JobId} {job : Job}

theorem quiet_of_move {m : Move} (hm : s.move? m = some s') (hj : s.jobs[i]? = some job)
    (hother : m ≠ .turn i) : ∃ new, s'.history = new ++ s.history ∧ ∀ e ∈ new, ¬e.concerns i := by
  obtain ⟨t, ht, hs'⟩ := persists_of_move hm
  have hsame : s'.history = t.history := by
    rcases hs' with rfl | ⟨now, -, rfl⟩ <;> rfl
  obtain ⟨new, hnew, hold⟩ := ht.events
  refine ⟨new, hsame.trans hnew, fun e he hi => ?_⟩
  rcases (hold e he).about i hi with hactor | ⟨hle, -⟩
  · cases m with
    | turn k =>
        cases hactor
        exact hother rfl
    | _ => exact absurd hactor nofun
  · have hlt := (List.getElem?_eq_some_iff.mp hj).1
    omega

theorem alive_updated {a : Option JobId} (h : s.Persists a t) (hj : s.jobs[i]? = some job)
    {f : Job → Job} (hf : ∀ j, (f j).phase.alive = true) :
    ∃ job', (t.updateJob i f).jobs[i]? = some job' ∧ job'.phase ≠ .returned := by
  obtain ⟨job', hj', -⟩ := h.jobs i job hj
  refine ⟨f job', by simp [updateJob, hj'], fun hp => ?_⟩
  have ha := hf job'
  rw [hp] at ha
  exact Bool.false_ne_true ha

theorem await_not_returned (hj : s.jobs[i]? = some job) (ha : job.phase.alive = true)
    (instant : Int) :
    ∃ job', (s.await i instant).jobs[i]? = some job' ∧ job'.phase ≠ .returned := by
  unfold await
  split
  · exact alive_updated (a := none) (.refl s) hj fun _ => rfl
  · refine ⟨job.vanish, by simp [updateJob, hj], ?_⟩
    rw [Job.vanish, if_pos ha]
    simp [Job.leave]

theorem start_not_returned {a : Option JobId} (h : s.Persists a t) (hj : s.jobs[i]? = some job)
    (instant : Int) (trigger : Trigger) :
    ∃ job', (t.start i job instant trigger).jobs[i]? = some job' ∧ job'.phase ≠ .returned := by
  obtain ⟨job', hj', -⟩ := h.jobs i job hj
  have hv := (situation?_start job instant trigger).trans
    (congrArg (Option.map (·.start instant)) (situation?_of_getElem? hj'))
  exact ⟨_, (situation?_eq_some.mp hv).1, by simp [Situation.start]⟩

theorem step_ends (h : s.step? i = some s') (hj : s.jobs[i]? = some job)
    (hrun : job.phase.isRunning = false) :
    (∃ t, s.Persists (some i) t ∧ s' = t.stop i job) ∨
      ∃ job', s'.jobs[i]? = some job' ∧ job'.phase ≠ .returned := by
  have hretire : ∀ e : LogEntry, ∃ t, s.Persists (some i) t ∧
      (s.log (some i) e).retire i job = t.stop i job := fun e =>
    ⟨_, (s.persists_log (some i) e).trans (persists_remove _ (some i) i job.record.name), rfl⟩
  unfold step? at h
  rw [hj] at h
  dsimp only at h
  split at h <;> rename_i hp
  · cases h
    exact .inr (await_not_returned hj (by rw [hp]; rfl) _)
  · cases h
    refine .inr (alive_updated (a := some i) (s.persists_emit (some i) ?_) hj fun _ => rfl)
    exact fun _ _ _ h => by cases h
  · obtain ⟨-, h⟩ := Option.ite_none_right_eq_some.mp h
    cases h
    unfold planOn
    split
    · split
      · refine .inr (await_not_returned ?_ (by rw [hp]; rfl) _)
        rw [jobs_log]
        exact hj
      · exact .inl (hretire _)
      · exact .inl (hretire _)
    · exact .inl (hretire _)
    · exact .inr (alive_updated (s.persists_act i job _) hj fun _ => rfl)
  · obtain ⟨w, -, rfl⟩ := Option.map_eq_some_iff.mp h
    have hc := class?_of_getElem? hj
    cases w with
    | parent => exact .inl (hretire _)
    | cancel =>
        exact .inl ⟨_, (s.persists_updateRecord i _ Record.label_takeCancel).trans
          (persists_log _ _ _), rfl⟩
    | signal =>
        exact .inr (start_not_returned ((s.persists_updateRecord i _ Record.label_takeRun).trans
          (persists_log _ (some i) _)) hj _ _)
    | timer =>
        simp only [wake]
        split
        · exact .inr (alive_updated (s.persists_log (some i) _) hj fun j => by
            dsimp only
            split <;> rfl)
        · rename_i r h
          obtain rfl : r = job.record.tryActivate.1 := by rw [h]
          rw [updateRecord_const hj fun r => r.tryActivate.1]
          have hclaim := s.persists_updateRecord (a := some i) i _ Record.label_tryActivate
          split
          · exact .inr (start_not_returned (hclaim.trans (persists_log _ _ _)) hj _ _)
          · exact .inr (start_not_returned ((hclaim.trans (persists_remove _ (some i) i _)).trans
              (persists_log _ _ _)) hj _ _)
  · rw [hp] at hrun
    exact absurd hrun (by simp [Phase.isRunning])
  · exact absurd h (by simp)
  · exact absurd h (by simp)

theorem history_stop (hs : s.monitor = .recording) (i : JobId) (job : Job) :
    (s.stop i job).history =
      ⟨s.now, some i, .reported i .cancelled job.record.cls⟩ :: s.history := by
  have hrecord : (s.updateRecord i Record.finalise).monitor = .recording := hs
  unfold stop report
  rw [hrecord]
  rfl

end Scheduler

namespace Run

variable {monitor : Monitor} {logging : Bool} {past past' : List (Scheduler × Move)}
  {s t : Scheduler} {i : JobId} {job : Job}

/-- Whatever follows, a job whose runner is gone stays as it ended. -/
theorem gone (run : Run (.initial monitor logging) past s) (hj : s.jobs[i]? = some job)
    (hgone : job.phase.alive = false) (after : Run s past' t) :
    ∃ job', t.jobs[i]? = some job' ∧ job'.phase = job.phase ∧ job'.runs = job.runs ∧
      job'.asks = job.asks := by
  refine run.kept (P := fun v => v.job.phase = job.phase ∧ v.job.runs = job.runs ∧
    v.job.asks = job.asks) ?_ hj ⟨rfl, rfl, rfl⟩ after
  rintro m ms v v' - hchange ⟨hphase, hruns, hasks⟩
  obtain ⟨hphase', hruns', hasks'⟩ := hchange.of_gone (by rw [hphase, hgone])
  exact ⟨hphase'.trans hphase, hruns'.trans hruns, hasks'.trans hasks⟩

/-- No event is written about a job whose runner is gone. -/
theorem silent (run : Run (.initial monitor logging) past s) (hj : s.jobs[i]? = some job)
    (hgone : job.phase.alive = false) (after : Run s past' t) :
    ∃ new, t.history = new ++ s.history ∧ ∀ e ∈ new, ¬e.concerns i := by
  induction after with
  | start => exact ⟨[], rfl, by simp⟩
  | @next past' t t' m after hm ih =>
      obtain ⟨new, hnew, hquiet⟩ := ih
      obtain ⟨job', hj', hphase, -⟩ := run.gone hj hgone after
      have hother : m ≠ .turn i := by
        rintro rfl
        obtain ⟨ms, job'', -, hchange⟩ :=
          Scheduler.change_of_job (run.trans after).named hj' hm
        cases hchange with
        | touch hne _ => exact hne rfl
        | turn ht =>
            have ha : job'.phase.alive = true := ht.alive
            have halive := (congrArg Phase.alive hphase).symm.trans ha
            exact Bool.false_ne_true (hgone.symm.trans halive)
      obtain ⟨new', hnew', hquiet'⟩ := Scheduler.quiet_of_move hm hj' hother
      refine ⟨new' ++ new, ?_, ?_⟩
      · rw [hnew', hnew, List.append_assoc]
      · intro e he
        rcases List.mem_append.mp he with he | he
        · exact hquiet' e he
        · exact hquiet e he

theorem not_cancelled (run : Run (.initial .recording logging) past s)
    (hj : s.jobs[i]? = some job) (hp : job.phase ≠ .returned) : s.reports i .cancelled = 0 := by
  obtain ⟨v₀, ms, -, hlife, -, hcount⟩ := run.shown (Scheduler.situation?_of_getElem? hj)
  rw [Scheduler.reports, hcount _ rfl (by simp)]
  exact hlife.not_cancelled hp

/-- A recording monitor is told that a periodic job whose runner returned was cancelled, and no
event after that is about the job. -/
theorem cancelled_last (run : Run (.initial .recording logging) past s)
    (hj : s.jobs[i]? = some job) (hper : job.record.periodic = true)
    (hp : job.phase = .returned) :
    ∃ later e earlier cls, s.history = later ++ e :: earlier ∧
      e.what = .reported i .cancelled cls ∧ ∀ e' ∈ later, ¬e'.concerns i := by
  induction run generalizing job with
  | start => exact absurd hj (by simp [Scheduler.initial])
  | @next past s s' m run hm ih =>
      have hv' := Scheduler.situation?_of_getElem? hj
      cases Scheduler.origin_of_move run.named hm hv' with
      | born _ hborn _ _ _ => exact absurd hp hborn.not_returned
      | @changed v ms hs hchange _ _ =>
          have hjv := (Scheduler.situation?_eq_some.mp hs).1
          have hper' : v.job.record.periodic = true :=
            (Scheduler.periodic_eq_of_terms hchange.terms_eq).symm.trans hper
          cases ha : v.job.phase.alive with
          | false =>
              -- The runner had returned before, and the move writes nothing about its job.
              obtain ⟨later, e, earlier, cls, hsplit, hwhat, hquiet⟩ :=
                ih hjv hper' ((hchange.of_gone ha).1.symm.trans hp)
              obtain ⟨new, hnew, hquiet'⟩ := run.silent hjv ha (single m hm)
              refine ⟨new ++ later, e, earlier, cls, ?_, hwhat, fun e' he' => ?_⟩
              · rw [hnew, hsplit, List.append_assoc]
              · rcases List.mem_append.mp he' with he' | he'
                · exact hquiet' e' he'
                · exact hquiet e' he'
          | true =>
              obtain ⟨rfl, ht⟩ := hchange.turn_of_returned ha hp
              have hrun := ht.not_running_of_returned hper' hp
              rcases Scheduler.step_ends hm hjv hrun with ⟨t, hpersists, rfl⟩ | ⟨job', hj', hne⟩
              · exact ⟨[], _, t.history, _,
                  Scheduler.history_stop (hpersists.monitor run.recording) i v.job, rfl, by simp⟩
              · obtain rfl : job = job' := Option.some_inj.mp (hj.symm.trans hj')
                exact absurd hp hne

end Run

end JobScheduler
