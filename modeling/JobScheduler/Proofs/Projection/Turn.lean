import JobScheduler.Proofs.Projection.Call

/-!
What a step of a runner does to each job: to its own job a turn (`turn_of_step`), to the others at
most what the call does that the step makes (`touch_of_step`).
-/

namespace JobScheduler

namespace Scheduler

variable {s s' : Scheduler} {i k : JobId} {v : Situation}

theorem now_of_situation? (hv : s.situation? i = some v) : v.now = s.now :=
  congrArg Situation.now (situation?_eq_some.mp hv).2

theorem orphaned_of_situation? (hv : s.situation? i = some v) :
    v.orphaned = s.tokens.isCancelled v.job.token :=
  congrArg Situation.orphaned (situation?_eq_some.mp hv).2

theorem isOver_eq (hv : s.situation? i = some v) (pause : Pause) :
    s.isOver v.job pause = v.isOver pause := by
  cases pause with
  | none => rfl
  | clock deadline => rw [isOver, Situation.isOver, now_of_situation? hv]
  | token => rw [isOver, Situation.isOver, orphaned_of_situation? hv]

theorem callOf?_turn (hv : s.situation? i = some v) :
    s.callOf? (.turn i) = v.job.nextCall? := by
  rw [callOf?, (situation?_eq_some.mp hv).1]
  rfl

theorem pause_act (s : Scheduler) (k : JobId) (job : Job) (action : Action) :
    (s.act k job action).2 = action.pause s.now := by
  cases action <;> rfl

theorem situation?_act (k : JobId) (job : Job) {action : Action} (h : ∀ c, action ≠ .call c)
    (i : JobId) :
    (s.act k job action).1.situation? i = s.situation? i ∧
      (s.act k job action).1.marks i = s.marks i := by
  cases action with
  | call c => exact absurd rfl (h c)
  | context =>
      refine ⟨rfl, ?_⟩
      simp [act, Event.mark?]
  | sleep ms => exact ⟨rfl, rfl⟩
  | awaitContext => exact ⟨rfl, rfl⟩
  | panic payload => exact ⟨rfl, rfl⟩
  | earlyPanic payload => exact ⟨rfl, rfl⟩

theorem situation?_act_call (k : JobId) (job : Job) (c : Call) (i : JobId) :
    (s.act k job (.call c)).1.situation? i = (s.call (some k) c).1.situation? i ∧
      (s.act k job (.call c)).1.marks i = (s.call (some k) c).1.marks i := by
  refine ⟨rfl, ?_⟩
  simp [act, Event.mark?]

theorem planOn_of_action {job : Job} {result : Except RuntimeError Moment} {action : Action}
    {rest : List Action} (h : Action.over (action :: rest) = false) :
    s.planOn i job result (action :: rest) =
      (s.act i job action).1.setPhase i (.planning (s.act i job action).2 rest result) := by
  cases action <;> first | rfl | exact absurd h (by simp [Action.over])

theorem runOn_of_action {job : Job} {instant : Int} {action : Action} {rest : List Action}
    (h : Action.over (action :: rest) = false) :
    s.runOn i job instant (action :: rest) =
      (s.act i job action).1.setPhase i (.running instant (s.act i job action).2 rest) := by
  cases action <;> first | rfl | exact absurd h (by simp [Action.over])

theorem act_eq_made (k : JobId) (job : Job) (action : Action) (rest : List Action) (i : JobId) :
    (s.act k job action).1.situation? i =
        (s.made (some k) (Action.call? (action :: rest))).situation? i ∧
      (s.act k job action).1.marks i =
        (s.made (some k) (Action.call? (action :: rest))).marks i := by
  by_cases h : ∃ c, action = .call c
  · obtain ⟨c, rfl⟩ := h
    exact situation?_act_call k job c i
  · have hno : ∀ c, action ≠ .call c := fun c hc => h ⟨c, hc⟩
    have hnone : Action.call? (action :: rest) = none := by
      cases action <;> first | rfl | exact absurd rfl (hno _)
    rw [hnone]
    exact situation?_act k job hno i

theorem call?_eq_some {rest : List Action} {c : Call} (h : Action.call? rest = some c) :
    ∃ tail, rest = .call c :: tail := by
  unfold Action.call? at h
  split at h
  · cases h
    exact ⟨_, rfl⟩
  · exact absurd h (by simp)

theorem step_of_call {c : Call} (h : s.step? k = some s') (hc : s.callOf? (.turn k) = some c) :
    ∃ answer phase, s' =
      ((s.call (some k) c).1.emit (some k) (.called c.verb answer)).setPhase k phase := by
  unfold step? at h
  split at h
  · exact absurd h (by simp)
  · rename_i job hj
    rw [callOf?, hj, Option.bind_some, Job.nextCall?] at hc
    split at h <;> rename_i hp <;> rw [hp] at hc
    · exact absurd hc (by simp)
    · exact absurd hc (by simp)
    · obtain ⟨-, h⟩ := Option.ite_none_right_eq_some.mp h
      obtain ⟨tail, rfl⟩ := call?_eq_some hc
      cases h
      exact ⟨_, _, rfl⟩
    · exact absurd hc (by simp)
    · obtain ⟨-, h⟩ := Option.ite_none_right_eq_some.mp h
      obtain ⟨tail, rfl⟩ := call?_eq_some hc
      cases h
      exact ⟨_, _, rfl⟩
    · exact absurd h (by simp)
    · exact absurd h (by simp)

theorem history_step (h : s.step? k = some s') :
    ∃ new, s'.history = new ++ (s.made (some k) (s.callOf? (.turn k))).history := by
  cases hc : s.callOf? (.turn k) with
  | none =>
      obtain ⟨new, hnew, -⟩ := (persists_step h).events
      exact ⟨new, hnew⟩
  | some c =>
      obtain ⟨answer, phase, rfl⟩ := step_of_call h hc
      exact ⟨[_], rfl⟩

section

variable (hki : k ≠ i)
include hki

theorem planOn_of_ne (job : Job) (result : Except RuntimeError Moment) (rest : List Action) :
    (s.planOn k job result rest).situation? i = (s.made (some k) (Action.call? rest)).situation? i ∧
      (s.planOn k job result rest).marks i = (s.made (some k) (Action.call? rest)).marks i := by
  have hretire : ∀ e : LogEntry,
      ((s.log (some k) e).retire k job).situation? i = s.situation? i ∧
        ((s.log (some k) e).retire k job).marks i = s.marks i := by
    intro e
    rw [situation?_retire_of_ne hki, situation?_log, marks_retire_of_ne job hki, marks_log]
    exact ⟨rfl, rfl⟩
  cases rest with
  | nil =>
      cases result with
      | ok moment =>
          simp only [planOn, Action.call?, made]
          rw [situation?_await_of_ne hki, situation?_log, marks_await, marks_log]
          exact ⟨rfl, rfl⟩
      | error e =>
          cases e with
          | noMoreInstances => exact hretire .noMoreInstances
          | failed reason => exact hretire (.runtimeFailed (.failed reason))
  | cons action rest =>
      cases hover : Action.over (action :: rest) with
      | true =>
          cases action with
          | panic payload => exact hretire (.runtimePanicked payload)
          | _ => exact absurd hover (by simp [Action.over])
      | false =>
          rw [planOn_of_action hover, situation?_setPhase_of_ne _ hki, marks_setPhase]
          exact act_eq_made k job action rest i

theorem runOn_of_ne (job : Job) (instant : Int) (rest : List Action) :
    (s.runOn k job instant rest).situation? i = (s.made (some k) (Action.call? rest)).situation? i ∧
      (s.runOn k job instant rest).marks i = (s.made (some k) (Action.call? rest)).marks i := by
  cases rest with
  | nil =>
      simp only [runOn, Action.call?, made]
      rw [situation?_complete_of_ne hki, situation?_emit, marks_complete, marks_emit]
      exact ⟨rfl, rfl⟩
  | cons action rest =>
      cases hover : Action.over (action :: rest) with
      | true =>
          cases action with
          | panic payload =>
              simp only [runOn, Action.call?, made]
              rw [situation?_complete_of_ne hki, situation?_log, marks_complete, marks_log]
              exact ⟨rfl, rfl⟩
          | _ => exact absurd hover (by simp [Action.over])
      | false =>
          rw [runOn_of_action hover, situation?_setPhase_of_ne _ hki, marks_setPhase]
          exact act_eq_made k job action rest i

theorem wake_of_ne (job : Job) (instant : Int) (w : Waking) :
    (s.wake k job instant w).situation? i = s.situation? i ∧
      (s.wake k job instant w).marks i = s.marks i := by
  cases w with
  | parent =>
      simp only [wake]
      rw [situation?_retire_of_ne hki, situation?_log, marks_retire_of_ne _ hki, marks_log]
      exact ⟨rfl, rfl⟩
  | cancel =>
      simp only [wake]
      rw [situation?_stop_of_ne hki, situation?_log, situation?_updateRecord_of_ne _ hki,
        marks_stop_of_ne _ hki, marks_log, marks_updateRecord]
      exact ⟨rfl, rfl⟩
  | signal =>
      simp only [wake]
      rw [situation?_start_of_ne hki, situation?_log, situation?_updateRecord_of_ne _ hki,
        marks_start_of_ne _ _ hki, marks_log, marks_updateRecord]
      exact ⟨rfl, rfl⟩
  | timer =>
      simp only [wake]
      split
      · rw [situation?_setPhase_of_ne _ hki, situation?_log, marks_setPhase, marks_log]
        exact ⟨rfl, rfl⟩
      · rw [situation?_start_of_ne hki, situation?_log, marks_start_of_ne _ _ hki, marks_log]
        split
        · rw [situation?_updateRecord_of_ne _ hki, marks_updateRecord]
          exact ⟨rfl, rfl⟩
        · rw [situation?_remove_of_ne _ hki, situation?_updateRecord_of_ne _ hki, marks_remove,
            marks_updateRecord]
          exact ⟨rfl, rfl⟩

/-- A step of another job's runner does to a job what the call does that the step makes. -/
theorem step_of_ne (h : s.step? k = some s') :
    s'.situation? i = (s.made (some k) (s.callOf? (.turn k))).situation? i ∧
      s'.marks i = (s.made (some k) (s.callOf? (.turn k))).marks i := by
  unfold step? at h
  split at h
  · exact absurd h (by simp)
  · rename_i job hj
    have hcall : s.callOf? (.turn k) = job.nextCall? := by
      rw [callOf?, hj]
      rfl
    rw [hcall, Job.nextCall?]
    split at h <;> rename_i hp
    · cases h
      rw [hp, situation?_await_of_ne hki, marks_await]
      exact ⟨rfl, rfl⟩
    · cases h
      rw [hp, situation?_ask_of_ne hki, marks_ask_of_ne job hki]
      exact ⟨rfl, rfl⟩
    · obtain ⟨-, h⟩ := Option.ite_none_right_eq_some.mp h
      cases h
      rw [hp]
      exact planOn_of_ne hki job _ _
    · obtain ⟨w, -, rfl⟩ := Option.map_eq_some_iff.mp h
      rw [hp]
      exact wake_of_ne hki job _ w
    · obtain ⟨-, h⟩ := Option.ite_none_right_eq_some.mp h
      cases h
      rw [hp]
      exact runOn_of_ne hki job _ _
    · exact absurd h (by simp)
    · exact absurd h (by simp)

end

/-- What is left to tell of job `i` after a move: its situation, and the marks that a recording
monitor shows. -/
structure Tells (s s' : Scheduler) (i : JobId) (ms : List Mark) (v' : Situation) : Prop where
  situation : s'.situation? i = some v'
  marks : s.monitor = .recording → s'.marks i = ms.filter Mark.visible ++ s.marks i

/-- The mark of a call that may accept a run of job `i`. -/
def acceptMarks (s : Scheduler) (i : JobId) (c : Option Call) : List Mark :=
  if c.bind s.acceptedBy? = some i then [.accepted] else []

theorem visible_acceptMarks (s : Scheduler) (i : JobId) (c : Option Call) :
    (s.acceptMarks i c).filter Mark.visible = [] := by
  unfold acceptMarks
  split <;> rfl

theorem count_accepted_giveUp (v : Situation) :
    (.reported .cancelled :: v.leftover).count .accepted = 0 := by
  rw [List.count_cons_of_ne (by simp)]
  exact v.unseen_leftover.count (by simp)

theorem act_own (hs : s.Named) (hv : s.situation? i = some v) (action : Action)
    (rest : List Action) :
    ∃ v', (s.act i v.job action).1.situation? i = some v' ∧
      Touch v (s.acceptMarks i (Action.call? (action :: rest))) v' ∧
      ((∀ c, action ≠ .call c) →
        s.acceptMarks i (Action.call? (action :: rest)) = [] ∧ v' = v) ∧
      (s.act i v.job action).1.marks i = s.marks i := by
  by_cases h : ∃ c, action = .call c
  · obtain ⟨c, rfl⟩ := h
    obtain ⟨v', hv', ht, hm⟩ := touch_of_call hs hv (some i) c
    obtain ⟨hsit, hmarks⟩ := situation?_act_call (s := s) i v.job c i
    exact ⟨v', hsit.trans hv', ht, fun hno => absurd rfl (hno c), hmarks.trans hm⟩
  · have hno : ∀ c, action ≠ .call c := fun c hc => h ⟨c, hc⟩
    have hnone : s.acceptMarks i (Action.call? (action :: rest)) = [] := by
      cases action <;> first | rfl | exact absurd rfl (hno _)
    obtain ⟨hsit, hm⟩ := situation?_act (s := s) i v.job hno i
    rw [hnone]
    exact ⟨v, hsit.trans hv, .none v, fun _ => ⟨rfl, rfl⟩, hm⟩

theorem retire_own (hv : s.situation? i = some v) (e : LogEntry) :
    s.Tells ((s.log (some i) e).retire i v.job) i (.reported .cancelled :: v.leftover)
      v.retire := by
  constructor
  · exact situation?_retire ((situation?_log s _ i e).trans hv)
  · intro hm
    rw [marks_retire v.job ((s.persists_log _ e).monitor hm), marks_log]
    rw [List.filter_cons_of_pos rfl, v.unseen_leftover.filter]
    rfl

theorem planOn_own (hs : s.Named) (hv : s.situation? i = some v) {pause : Pause}
    {rest : List Action} {result : Except RuntimeError Moment}
    (hp : v.job.phase = .planning pause rest result) (ho : v.isOver pause = true) :
    ∃ ms v', Turn v ms v' ∧ s.Tells (s.planOn i v.job result rest) i ms v' ∧
      ms.count .accepted = (s.acceptMarks i (Action.call? rest)).count .accepted := by
  have hnow := now_of_situation? hv
  have hnone : (s.acceptMarks i none).count .accepted = 0 := by
    rw [acceptMarks, if_neg (by simp)]
    rfl
  have hgive : ∀ e : LogEntry, Action.over rest = true →
      (rest = [] → ∃ e, result = .error e) →
      ∃ ms v', Turn v ms v' ∧ s.Tells ((s.log (some i) e).retire i v.job) i ms v' ∧
        ms.count .accepted = 0 := by
    intro e hover hend
    exact ⟨_, _, .giveUp hp ho hover hend, retire_own hv e, count_accepted_giveUp v⟩
  cases rest with
  | nil =>
      rw [show Action.call? [] = none from rfl, hnone]
      cases result with
      | ok moment =>
          refine ⟨_, _, .arrange hp ho, ⟨?_, fun hm => ?_⟩, ?_⟩
          · rw [hnow]
            exact situation?_await ((situation?_log s _ i _).trans hv) _
          · simp only [planOn]
            rw [marks_await, marks_log, v.unseen_awaitMarks.filter]
            rfl
          · exact v.unseen_awaitMarks.count (by simp)
      | error e =>
          cases e with
          | noMoreInstances => exact hgive .noMoreInstances rfl fun _ => ⟨_, rfl⟩
          | failed reason => exact hgive (.runtimeFailed (.failed reason)) rfl fun _ => ⟨_, rfl⟩
  | cons action rest =>
      cases hover : Action.over (action :: rest) with
      | true =>
          cases action with
          | panic payload =>
              rw [show Action.call? (.panic payload :: rest) = none from rfl, hnone]
              exact hgive (.runtimePanicked payload) rfl fun h => absurd h (by simp)
          | _ => exact absurd hover (by simp [Action.over])
      | false =>
          obtain ⟨v', hv', ht, hno, hm⟩ := act_own hs hv action rest
          refine ⟨_, _, .plan hp ho ht hno, ⟨?_, fun _ => ?_⟩, rfl⟩
          · rw [planOn_of_action hover, situation?_setPhase, hv', pause_act, hnow]
            rfl
          · rw [planOn_of_action hover, marks_setPhase, hm, visible_acceptMarks]
            rfl

theorem complete_own (hv : s.situation? i = some v) {instant : Int} {pause : Pause}
    {rest : List Action} (hp : v.job.phase = .running instant pause rest)
    (ho : v.isOver pause = true) (hover : Action.over rest = true) {t : Scheduler}
    (hsit : t.situation? i = s.situation? i) (hm : t.marks i = s.marks i) :
    ∃ ms v', Turn v ms v' ∧ s.Tells (t.complete i v.job instant) i ms v' ∧
      ms.count .accepted = 0 := by
  refine ⟨_, _, .complete hp ho hover, ⟨situation?_complete (hsit.trans hv) instant, ?_⟩, ?_⟩
  · intro _
    rw [marks_complete, hm]
    split
    · rfl
    · rw [v.unseen_leftover.filter]
      rfl
  · split
    · rfl
    · exact v.unseen_leftover.count (by simp)

theorem runOn_own (hs : s.Named) (hv : s.situation? i = some v) {instant : Int} {pause : Pause}
    {rest : List Action} (hp : v.job.phase = .running instant pause rest)
    (ho : v.isOver pause = true) :
    ∃ ms v', Turn v ms v' ∧ s.Tells (s.runOn i v.job instant rest) i ms v' ∧
      ms.count .accepted = (s.acceptMarks i (Action.call? rest)).count .accepted := by
  have hnone : (s.acceptMarks i none).count .accepted = 0 := by
    rw [acceptMarks, if_neg (by simp)]
    rfl
  cases rest with
  | nil =>
      rw [show Action.call? [] = none from rfl, hnone]
      exact complete_own hv hp ho rfl (s.situation?_emit _ i _) (s.marks_emit _ i _)
  | cons action rest =>
      cases hover : Action.over (action :: rest) with
      | true =>
          cases action with
          | panic payload =>
              rw [show Action.call? (.panic payload :: rest) = none from rfl, hnone]
              exact complete_own hv hp ho rfl (s.situation?_log _ i _) (s.marks_log _ i _)
          | _ => exact absurd hover (by simp [Action.over])
      | false =>
          obtain ⟨v', hv', ht, hno, hm⟩ := act_own hs hv action rest
          refine ⟨_, _, .act hp ho ht hno, ⟨?_, fun _ => ?_⟩, rfl⟩
          · rw [runOn_of_action hover, situation?_setPhase, hv', pause_act,
              now_of_situation? hv]
            rfl
          · rw [runOn_of_action hover, marks_setPhase, hm, visible_acceptMarks]
            rfl

theorem situation?_wake_parent (hv : s.situation? i = some v) (instant : Int) :
    (s.wake i v.job instant .parent).situation? i = some v.retire :=
  situation?_retire ((situation?_log s _ i _).trans hv)

theorem situation?_wake_cancel (hv : s.situation? i = some v) (instant : Int) :
    (s.wake i v.job instant .cancel).situation? i = some (v.withRecord Record.takeCancel).stop := by
  simp only [wake]
  rw [situation?_stop, situation?_log, situation?_updateRecord _ _ Record.label_takeCancel, hv]
  rfl

theorem situation?_wake_signal (hv : s.situation? i = some v) (instant : Int) :
    (s.wake i v.job instant .signal).situation? i =
      some ((v.withRecord Record.takeRun).start instant) := by
  simp only [wake]
  rw [situation?_start, situation?_log, situation?_updateRecord _ _ Record.label_takeRun, hv]
  rfl

theorem wake_timer_of_inactive {job : Job} (hj : s.jobs[i]? = some job)
    (ha : job.record.active = false) (instant : Int) :
    s.wake i job instant .timer =
      ((if job.record.periodic then s.updateRecord i (·.tryActivate.1)
        else (s.updateRecord i (·.tryActivate.1)).remove (some i) i job.record.name).log (some i)
          (.timerTriggered instant)).start i job instant .timer := by
  rw [← updateRecord_const hj, wake, Record.tryActivate_of_inactive ha]

theorem situation?_wake_timer (hv : s.situation? i = some v) (ha : v.job.record.active = false)
    (instant : Int) :
    (s.wake i v.job instant .timer).situation? i =
      some (({ v.withRecord (·.tryActivate.1) with
        registered := v.registered && v.job.record.periodic } : Situation).start instant) := by
  have hclaimed : (s.updateRecord i (·.tryActivate.1)).situation? i =
      some (v.withRecord (·.tryActivate.1)) := by
    rw [situation?_updateRecord _ _ Record.label_tryActivate, hv, Option.map_some]
  rw [wake_timer_of_inactive (situation?_eq_some.mp hv).1 ha, situation?_start, situation?_log]
  cases hper : v.job.record.periodic with
  | true =>
      rw [if_pos rfl, hclaimed, Bool.and_true]
      rfl
  | false =>
      have hname : v.job.record.name = (v.withRecord (·.tryActivate.1)).job.record.name :=
        (name_eq_of_terms (v.job.terms_record _ Record.label_tryActivate)).symm
      rw [if_neg Bool.false_ne_true, hname, situation?_remove _ _ hclaimed, Bool.and_false]
      rfl

theorem wake_timer_own (hv : s.situation? i = some v) {instant t : Int}
    (hp : v.job.phase = .waiting instant (some t)) (ht : t ≤ v.now) (horphan : v.orphaned = false)
    (hcancel : v.job.record.cancelling.pending = false)
    (hrun : v.job.record.running.pending = false) :
    ∃ ms v', Turn v ms v' ∧ s.Tells (s.wake i v.job instant .timer) i ms v' ∧
      ms.count .accepted = 0 := by
  cases hactive : v.job.record.active with
  | true =>
      have hskip : s.wake i v.job instant .timer =
          (s.log (some i) (.alreadyRunning instant)).setPhase i
            (if v.job.record.periodic then .looping else .waiting instant none) := by
        simp only [wake, Record.tryActivate, hactive, if_true]
      rw [hskip]
      refine ⟨_, _, .skipped hp hrun hactive, ⟨?_, fun _ => ?_⟩, rfl⟩
      · rw [situation?_setPhase, situation?_log, hv]
        rfl
      · rw [marks_setPhase, marks_log]
        rfl
  | false =>
      refine ⟨_, _, .timed hp ht horphan hcancel hrun hactive,
        ⟨situation?_wake_timer hv hactive instant, fun hm => ?_⟩, rfl⟩
      rw [wake_timer_of_inactive (situation?_eq_some.mp hv).1 hactive]
      split
      · rw [marks_start _ _ ((persists_log (s.updateRecord i _) _ _).monitor hm), marks_log,
          marks_updateRecord]
        rfl
      · rw [marks_start _ _ ((persists_log _ _ _).monitor
          (((s.updateRecord i _).persists_remove _ _ _).monitor hm)), marks_log, marks_remove,
          marks_updateRecord]
        rfl

theorem wake_own (hv : s.situation? i = some v) {instant : Int} {timer : Option Int}
    (hp : v.job.phase = .waiting instant timer) {w : Waking}
    (hw : s.waking? v.job timer = some w) :
    ∃ ms v', Turn v ms v' ∧ s.Tells (s.wake i v.job instant w) i ms v' ∧
      ms.count .accepted = 0 := by
  have hnow := now_of_situation? hv
  have horphan := orphaned_of_situation? hv
  unfold waking? at hw
  split at hw
  · rename_i ho
    cases hw
    exact ⟨_, _, .orphaned hp (horphan.trans ho), retire_own hv _, count_accepted_giveUp v⟩
  · rename_i ho
    have hno : v.orphaned = false := horphan.trans (Bool.eq_false_iff.mpr ho)
    split at hw
    · rename_i hc
      cases hw
      refine ⟨_, _, .stopped hp hno hc, ⟨situation?_wake_cancel hv instant, fun hm => ?_⟩,
        count_accepted_giveUp v⟩
      simp only [wake]
      rw [marks_stop _ ((persists_log (s.updateRecord i Record.takeCancel) _ _).monitor hm),
        marks_log, marks_updateRecord, List.filter_cons_of_pos rfl, v.unseen_leftover.filter]
      rfl
    · rename_i hc
      split at hw
      · rename_i hr
        cases hw
        refine ⟨_, _, .signalled hp hno (Bool.eq_false_iff.mpr hc) hr,
          ⟨situation?_wake_signal hv instant, fun hm => ?_⟩, rfl⟩
        simp only [wake]
        rw [marks_start _ _ ((persists_log (s.updateRecord i Record.takeRun) _ _).monitor hm),
          marks_log, marks_updateRecord]
        rfl
      · rename_i hr
        split at hw
        · rename_i ht
          cases hw
          cases timer with
          | none => exact absurd ht (by simp)
          | some t =>
              have hle : t ≤ v.now := hnow ▸ of_decide_eq_true ht
              exact wake_timer_own hv hp hle hno (Bool.eq_false_iff.mpr hc)
                (Bool.eq_false_iff.mpr hr)
        · exact absurd hw (by simp)

/-- A step of a runner is a turn of its own job. -/
theorem turn_of_step (hs : s.Named) (hv : s.situation? i = some v) (h : s.step? i = some s') :
    ∃ ms v', Turn v ms v' ∧ s.Tells s' i ms v' ∧
      ms.count .accepted = (s.acceptMarks i (s.callOf? (.turn i))).count .accepted := by
  have hnone : (s.acceptMarks i none).count .accepted = 0 := by
    rw [acceptMarks, if_neg (by simp)]
    rfl
  rw [callOf?_turn hv, Job.nextCall?]
  unfold step? at h
  rw [(situation?_eq_some.mp hv).1] at h
  dsimp only at h
  split at h <;> rename_i hp
  · cases h
    rw [hp, hnone]
    refine ⟨_, _, .begin hp, ⟨situation?_await hv _, fun _ => ?_⟩,
      v.unseen_awaitMarks.count (by simp)⟩
    rw [marks_await, v.unseen_awaitMarks.filter]
    rfl
  · cases h
    rw [hp, hnone]
    exact ⟨_, _, .ask hp, ⟨situation?_ask hv, fun _ => marks_ask v.job⟩, rfl⟩
  · obtain ⟨ho, h⟩ := Option.ite_none_right_eq_some.mp h
    cases h
    rw [hp]
    exact planOn_own hs hv hp (isOver_eq hv _ ▸ ho)
  · obtain ⟨w, hw, rfl⟩ := Option.map_eq_some_iff.mp h
    rw [hp, hnone]
    exact wake_own hv hp hw
  · obtain ⟨ho, h⟩ := Option.ite_none_right_eq_some.mp h
    cases h
    rw [hp]
    exact runOn_own hs hv hp (isOver_eq hv _ ▸ ho)
  · exact absurd h (by simp)
  · exact absurd h (by simp)

end Scheduler

end JobScheduler
