import JobScheduler.Proofs.Life

/-!
What the life of a job tells of its executions: each start is reported once, for each the job
function is entered once, and an execution is started on a run signal exactly where the runner finds
one. The terms on which the job was scheduled stay as they are.
-/

namespace JobScheduler

theorem Situation.count_signal_giveUp (v : Situation) :
    (.reported .cancelled :: v.leftover).count (.reported (.started .signal)) = 0 := by
  rw [List.count_cons_of_ne (by simp)]
  exact v.unseen_leftover.count (by simp)

theorem Touch.count_signal {v v' : Situation} {ms : List Mark} (h : Touch v ms v') :
    ms.count (.reported (.started .signal)) = 0 := by
  cases h <;> rfl

theorem Turn.count_signal {v v' : Situation} {ms : List Mark} (h : Turn v ms v') :
    ms.count (.reported (.started .signal)) = if v.isSignalled then 1 else 0 := by
  unfold Situation.isSignalled
  cases h with
  | begin hp => simp [hp, v.unseen_awaitMarks.count]
  | ask hp => simp [hp]
  | plan hp _ ht _ => simp [hp, ht.count_signal]
  | arrange hp _ => simp [hp, v.unseen_awaitMarks.count]
  | giveUp hp _ _ _ => rw [v.count_signal_giveUp, hp]; rfl
  | orphaned hp ho => rw [v.count_signal_giveUp, hp, ho]; rfl
  | stopped hp ho hc => rw [v.count_signal_giveUp, hp, hc]; simp
  | signalled hp ho hc hr => simp [hp, ho, hc, hr]
  | skipped hp hr _ => simp [hp, hr]
  | timed hp _ _ _ hr _ => simp [hp, hr]
  | act hp _ ht _ => simp [hp, ht.count_signal]
  | complete hp _ _ =>
      rw [hp]
      split
      · rfl
      · exact v.unseen_leftover.count (by simp)

theorem Change.count_signal {i : JobId} {m : Move} {v v' : Situation} {ms : List Mark}
    (h : Change i m v ms v') :
    ms.count (.reported (.started .signal)) = if m.isTurnOf i && v.isSignalled then 1 else 0 := by
  cases h with
  | touch hm ht =>
      have hother : m.isTurnOf i = false := by
        cases m with
        | turn k => simpa [Move.isTurnOf] using hm
        | _ => rfl
      rw [ht.count_signal, hother]
      rfl
  | turn ht => simp [ht.count_signal, Move.isTurnOf]
  | pass => rfl
  | vanish => exact v.unseen_vanishMarks.count (by simp)

namespace Mark

/-- Whether an execution was started. -/
def isStart : Mark → Bool
  | reported (.started _) => true
  | _ => false

/-- Whether an execution was started or the job was cancelled. -/
def isOutcome : Mark → Bool
  | reported (.started _) | reported .cancelled => true
  | _ => false

end Mark

namespace Touch

variable {v v' : Situation} {ms : List Mark}

theorem countP (h : Touch v ms v') {p : Mark → Bool} (hp : p .accepted = false) :
    ms.countP p = 0 := by
  cases h <;> simp [hp]

theorem not_scheduled (h : Touch v ms v') : .reported .scheduled ∉ ms := by
  cases h <;> simp

theorem runs_eq (h : Touch v ms v') : v'.job.runs = v.job.runs := by
  cases h <;> rfl

theorem terms_eq (h : Touch v ms v') : v'.job.terms = v.job.terms := by
  cases h with
  | accept => exact v.job.terms_record _ Record.label_triggerRun
  | refuse => exact v.job.terms_record _ Record.label_triggerRun
  | stop => exact v.job.terms_record _ Record.label_cancel
  | _ => rfl

end Touch

namespace Situation

theorem runs_await (v : Situation) (instant : Int) : (v.await instant).job.runs = v.job.runs := by
  unfold await
  split
  · rfl
  · rw [update_job, Job.vanish]
    split <;> rfl

theorem runs_complete (v : Situation) : v.complete.job.runs = v.job.runs := by
  unfold complete
  split <;> rfl

theorem terms_await (v : Situation) (instant : Int) :
    (v.await instant).job.terms = v.job.terms := by
  unfold await
  split
  · rfl
  · exact v.job.terms_vanish

theorem terms_complete (v : Situation) : v.complete.job.terms = v.job.terms := by
  unfold complete
  split <;> rfl

theorem countP_giveUp (v : Situation) {p : Mark → Bool} (hlost : p .lost = false)
    (hp : p (.reported .cancelled) = false) :
    (.reported .cancelled :: v.leftover).countP p = 0 := by
  rw [List.countP_cons_of_neg (by simp [hp])]
  exact v.unseen_leftover.countP hlost

end Situation

/-- Each start is reported once, and the job function entered once for it. -/
theorem Turn.runs {v v' : Situation} {ms : List Mark} (h : Turn v ms v') :
    ms.countP Mark.isStart = ms.count .entered ∧
      v'.job.runs = v.job.runs + ms.count .entered := by
  have hgive : ∀ w : Situation, w.job.runs = v.job.runs →
      (.reported .cancelled :: v.leftover).countP Mark.isStart =
        (.reported .cancelled :: v.leftover).count .entered ∧
      w.job.runs = v.job.runs + (.reported .cancelled :: v.leftover).count .entered := by
    intro w hw
    have hentered : (.reported .cancelled :: v.leftover).count .entered = 0 :=
      v.countP_giveUp rfl rfl
    rw [v.countP_giveUp rfl rfl, hentered]
    exact ⟨rfl, hw⟩
  cases h with
  | begin =>
      rw [v.unseen_awaitMarks.countP rfl, v.unseen_awaitMarks.count (by simp), v.runs_await]
      exact ⟨rfl, rfl⟩
  | ask => exact ⟨rfl, rfl⟩
  | plan _ _ ht _ =>
      have hentered : ms.count .entered = 0 := ht.countP rfl
      rw [ht.countP rfl, hentered]
      exact ⟨rfl, ht.runs_eq⟩
  | arrange =>
      rw [v.unseen_awaitMarks.countP rfl, v.unseen_awaitMarks.count (by simp), v.runs_await]
      exact ⟨rfl, rfl⟩
  | giveUp => exact hgive v.retire rfl
  | orphaned => exact hgive v.retire rfl
  | stopped => exact hgive (v.withRecord Record.takeCancel).stop rfl
  | signalled => exact ⟨rfl, rfl⟩
  | skipped => exact ⟨rfl, rfl⟩
  | timed => exact ⟨rfl, rfl⟩
  | act _ _ ht _ =>
      have hentered : ms.count .entered = 0 := ht.countP rfl
      rw [ht.countP rfl, hentered]
      exact ⟨rfl, ht.runs_eq⟩
  | complete =>
      rw [v.runs_complete]
      split
      · exact ⟨rfl, rfl⟩
      · rw [v.unseen_leftover.countP rfl, v.unseen_leftover.count (by simp)]
        exact ⟨rfl, rfl⟩

theorem Change.runs {i : JobId} {m : Move} {v v' : Situation} {ms : List Mark}
    (h : Change i m v ms v') :
    ms.countP Mark.isStart = ms.count .entered ∧
      v'.job.runs = v.job.runs + ms.count .entered := by
  cases h with
  | touch _ ht =>
      have hentered : ms.count .entered = 0 := ht.countP rfl
      rw [ht.countP rfl, hentered]
      exact ⟨rfl, ht.runs_eq⟩
  | turn ht => exact ht.runs
  | pass => exact ⟨rfl, rfl⟩
  | vanish =>
      rw [v.unseen_vanishMarks.countP rfl, v.unseen_vanishMarks.count (by simp)]
      refine ⟨rfl, ?_⟩
      rw [Situation.update_job, Job.vanish]
      split <;> rfl

theorem Turn.terms_eq {v v' : Situation} {ms : List Mark} (h : Turn v ms v') :
    v'.job.terms = v.job.terms := by
  cases h with
  | begin => exact v.terms_await _
  | plan _ _ ht _ => exact ht.terms_eq
  | arrange => exact v.terms_await _
  | timed => exact v.job.terms_record _ Record.label_tryActivate
  | act _ _ ht _ => exact ht.terms_eq
  | complete => exact v.terms_complete
  | _ => rfl

theorem Change.terms_eq {i : JobId} {m : Move} {v v' : Situation} {ms : List Mark}
    (h : Change i m v ms v') : v'.job.terms = v.job.terms := by
  cases h with
  | touch _ ht => exact ht.terms_eq
  | turn ht => exact ht.terms_eq
  | pass => rfl
  | vanish => exact v.job.terms_vanish

theorem Turn.not_scheduled {v v' : Situation} {ms : List Mark} (h : Turn v ms v') :
    .reported .scheduled ∉ ms := by
  have hunseen : ∀ ms : List Mark, Unseen ms → .reported .scheduled ∉ ms := by
    intro ms hms hm
    exact absurd (hms _ hm) (by simp)
  have hgive : .reported .scheduled ∉ .reported .cancelled :: v.leftover := by
    rw [List.mem_cons, not_or]
    exact ⟨by simp, hunseen _ v.unseen_leftover⟩
  cases h with
  | begin => exact hunseen _ v.unseen_awaitMarks
  | plan _ _ ht _ => exact ht.not_scheduled
  | arrange => exact hunseen _ v.unseen_awaitMarks
  | giveUp => exact hgive
  | orphaned => exact hgive
  | stopped => exact hgive
  | act _ _ ht _ => exact ht.not_scheduled
  | complete =>
      split
      · simp
      · exact hunseen _ v.unseen_leftover
  | _ => simp

theorem Change.not_scheduled {i : JobId} {m : Move} {v v' : Situation} {ms : List Mark}
    (h : Change i m v ms v') : .reported .scheduled ∉ ms := by
  cases h with
  | touch _ ht => exact ht.not_scheduled
  | turn ht => exact ht.not_scheduled
  | pass => simp
  | vanish =>
      intro hm
      exact absurd (v.unseen_vanishMarks _ hm) (by simp)

theorem Situation.Born.runs_eq {v : Situation} (h : v.Born) : v.job.runs = 0 := by
  cases h with
  | inside _ hj => exact hj.runs
  | outside _ hj hjob =>
      rw [hjob]
      exact hj.runs

namespace Life

variable {i : JobId} {v₀ v : Situation} {ms : List Mark}

theorem terms_eq (h : Life i v₀ ms v) : v.job.terms = v₀.job.terms := by
  induction h with
  | start => rfl
  | next _ hc ih => exact hc.terms_eq.trans ih

theorem not_scheduled (h : Life i v₀ ms v) : .reported .scheduled ∉ ms := by
  induction h with
  | start => simp
  | next _ hc ih =>
      rw [List.mem_append, not_or]
      exact ⟨hc.not_scheduled, ih⟩

theorem runs (h : Life i v₀ ms v) (hborn : v₀.Born) :
    ms.countP Mark.isStart = v.job.runs ∧ ms.count .entered = v.job.runs := by
  induction h with
  | start =>
      rw [hborn.runs_eq]
      exact ⟨rfl, rfl⟩
  | next _ hc ih =>
      obtain ⟨hstart, hruns⟩ := hc.runs
      rw [List.countP_append, List.count_append, hstart, ih.1, ih.2, hruns, Nat.add_comm]
      exact ⟨rfl, rfl⟩

end Life

end JobScheduler
