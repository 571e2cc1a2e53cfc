import JobScheduler.Proofs.Simulation.Call
import JobScheduler.Proofs.FunctionalSimulation

/-!
Akin schedulers take turns side by side. The same runners can go on, and a step of a runner keeps
schedulers akin, unless it is one that ends a function (`Scheduler.Akin.step?`).
-/

namespace JobScheduler

namespace Scheduler

variable {K : Kinship} {s t : Scheduler} {base base' : List Event} {i : JobId} {job job' : Job}

namespace AkinSince

theorem leave (h : s.AkinSince K base base' t) (i : JobId) :
    (s.leave i).AkinSince K base base' (t.leave i) :=
  h.updateJob i fun hj => hj.leave .returned

theorem await (h : s.AkinSince K base base' t) (i : JobId) (instant : Int) :
    (s.await i instant).AkinSince K base base' (t.await i instant) := by
  unfold Scheduler.await
  rw [h.now]
  split
  · exact h.setPhase i (.waiting _ _)
  · exact h.updateJob i Job.Akin.vanish

theorem planOn_ok (h : s.AkinSince K base base' t) (i : JobId) (moment : Moment) :
    (s.planOn i job (.ok moment) []).AkinSince K base base' (t.planOn i job' (.ok moment) []) := by
  simp only [Scheduler.planOn, h.now]
  exact (h.log _ _).await i _

variable (h : s.AkinSince K base base' t) (i : JobId) (hjob : job.Akin K job')
include h hjob

theorem stop : (s.stop i job).AkinSince K base base' (t.stop i job') := by
  unfold Scheduler.stop
  rw [hjob.record]
  exact ((h.updateRecord i _).report _ i _ _).leave i

theorem retire : (s.retire i job).AkinSince K base base' (t.retire i job') := by
  unfold Scheduler.retire
  rw [hjob.record]
  exact (h.remove _ i _).stop i hjob

theorem ask : (s.ask i job).AkinSince K base base' (t.ask i job') := by
  have hcourse := K.asked hjob.plan job.asks
  unfold Scheduler.ask
  dsimp only
  rw [hjob.asks]
  refine (h.emit _ _).updateJob i ?_
  intro j j' hj
  exact { hj with
    asks := congrArg (· + 1) hj.asks
    phase := .planning .none hcourse }

theorem start (instant : Int) (trigger : Trigger) :
    (s.start i job instant trigger).AkinSince K base base' (t.start i job' instant trigger) := by
  unfold Scheduler.start
  dsimp only
  rw [h.count, hjob.counter, hjob.record]
  refine (((h.report _ i _ _).setCount _ _).emit _ _).updateJob i ?_
  intro j j' hj
  exact { hj with
    runs := congrArg (· + 1) hj.runs
    phase := by
      rw [hj.runs]
      exact .running instant .none (K.entered hj.work j.runs) }

theorem complete (instant : Int) :
    (s.complete i job instant).AkinSince K base base' (t.complete i job' instant) := by
  unfold Scheduler.complete
  dsimp only
  rw [hjob.record]
  split
  · exact ((h.log _ _).updateRecord i _).setPhase i .looping
  · exact ((h.log _ _).updateRecord i _).leave i

theorem act {action action' : Action} (haction : Action.Akin K.call action action') :
    (s.act i job action).1.AkinSince K base base' (t.act i job' action').1 ∧
      (t.act i job' action').2 = (s.act i job action).2 := by
  have hcalls : ∀ {c c' : Call}, K.call c c' →
      (s.act i job (.call c)).1.AkinSince K base base' (t.act i job' (.call c')).1 ∧
        (t.act i job' (.call c')).2 = (s.act i job (.call c)).2 := by
    intro c c' hc
    obtain ⟨hcall, hanswer⟩ := h.call (some i) hc
    refine ⟨?_, rfl⟩
    unfold Scheduler.act
    dsimp only
    rw [hanswer, (K.called hc).verb]
    exact hcall.emit _ _
  cases haction with
  | call hc => exact hcalls hc
  | same =>
      cases action with
      | sleep ms => exact ⟨h, by rw [Scheduler.act, Scheduler.act, h.now]⟩
      | context =>
          refine ⟨?_, rfl⟩
          unfold Scheduler.act
          rw [h.tokens, hjob.token]
          exact h.emit _ _
      | awaitContext => exact ⟨h, rfl⟩
      | call c => exact hcalls (K.call_refl c)
      | panic payload => exact ⟨h, rfl⟩
      | earlyPanic payload => exact ⟨h, rfl⟩

theorem planOn_next {result result' : Except RuntimeError Moment} {action action' : Action}
    {rest rest' : List Action} (haction : Action.Akin K.call action action')
    (hover : Action.over (action :: rest) = false)
    (hcourse : K.course ⟨rest, result⟩ ⟨rest', result'⟩) :
    (s.planOn i job result (action :: rest)).AkinSince K base base'
      (t.planOn i job' result' (action' :: rest')) := by
  obtain ⟨hact, hpause⟩ := h.act i hjob haction
  rw [planOn_of_action hover, planOn_of_action ((haction.over _ _).trans hover), hpause]
  exact hact.setPhase i (.planning _ hcourse)

theorem runOn_next (instant : Int) {action action' : Action} {rest rest' : List Action}
    (haction : Action.Akin K.call action action') (hover : Action.over (action :: rest) = false)
    (hbody : K.body rest rest') :
    (s.runOn i job instant (action :: rest)).AkinSince K base base'
      (t.runOn i job' instant (action' :: rest')) := by
  obtain ⟨hact, hpause⟩ := h.act i hjob haction
  rw [runOn_of_action hover, runOn_of_action ((haction.over _ _).trans hover), hpause]
  exact hact.setPhase i (.running instant _ hbody)

theorem wake (instant : Int) (w : Waking) :
    (s.wake i job instant w).AkinSince K base base' (t.wake i job' instant w) := by
  cases w with
  | parent => exact (h.log _ _).retire i hjob
  | cancel => exact ((h.updateRecord i _).log _ _).stop i hjob
  | signal => exact ((h.updateRecord i _).log _ _).start i hjob instant .signal
  | timer =>
      simp only [Scheduler.wake, hjob.record]
      split
      · refine (h.log _ _).setPhase i ?_
        split
        · exact .looping
        · exact .waiting instant none
      · rename_i r _
        have hactive := h.updateRecord i fun _ => r
        split
        · exact (hactive.log _ _).start i hjob instant .timer
        · exact ((hactive.remove _ i _).log _ _).start i hjob instant .timer

end AkinSince

namespace Akin

theorem waking? (h : s.Akin K t) (hjob : job.Akin K job') (timer : Option Int) :
    t.waking? job' timer = s.waking? job timer := by
  rw [Scheduler.waking?, Scheduler.waking?, h.tokens, h.now, hjob.token, hjob.record]

theorem isOver (h : s.Akin K t) (hjob : job.Akin K job') (pause : Pause) :
    t.isOver job' pause = s.isOver job pause := by
  cases pause with
  | none => rfl
  | clock deadline => rw [Scheduler.isOver, Scheduler.isOver, h.now]
  | token => rw [Scheduler.isOver, Scheduler.isOver, h.tokens, hjob.token]

/-- The same runners can go on, and stay as close as they do within a function. -/
theorem step? (h : s.Akin K t) (i : JobId) {R : Scheduler → Scheduler → Prop}
    (hsame : ∀ {s' t'}, s'.AkinSince K s.history t.history t' → R s' t')
    (hplan : ∀ {job job' pause rest rest' result result'}, s.jobs[i]? = some job →
      job.phase = .planning pause rest result → t.jobs[i]? = some job' →
      job'.phase = .planning pause rest' result' → job.Akin K job' →
      K.course ⟨rest, result⟩ ⟨rest', result'⟩ →
      R (s.planOn i job result rest) (t.planOn i job' result' rest'))
    (hrun : ∀ {job job' instant pause rest rest'}, s.jobs[i]? = some job →
      job.phase = .running instant pause rest → t.jobs[i]? = some job' →
      job'.phase = .running instant pause rest' → job.Akin K job' → K.body rest rest' →
      R (s.runOn i job instant rest) (t.runOn i job' instant rest')) :
    Option.Rel R (s.step? i) (t.step? i) := by
  unfold Scheduler.step?
  rcases forall₂_getElem? h.jobs i with ⟨hs, ht⟩ | ⟨job, job', hs, ht, hjob⟩
  · rw [hs, ht]
    exact .none
  · rw [hs, ht]
    dsimp only
    have hphase := hjob.phase
    generalize hp : job.phase = p at hphase ⊢
    generalize hp' : job'.phase = p' at hphase ⊢
    cases hphase with
    | spawned instant => exact .some (hsame (h.since.await i instant))
    | looping => exact .some (hsame (h.since.ask i hjob))
    | planning pause hcourse =>
        dsimp only
        rw [h.isOver hjob]
        split
        · exact .some (hplan hs hp ht hp' hjob hcourse)
        · exact .none
    | waiting instant timer =>
        dsimp only
        rw [h.waking? hjob]
        cases s.waking? job timer with
        | none => exact .none
        | some w => exact .some (hsame (h.since.wake i hjob instant w))
    | running instant pause hbody =>
        dsimp only
        rw [h.isOver hjob]
        split
        · exact .some (hrun hs hp ht hp' hjob hbody)
        · exact .none
    | returned => exact .none
    | vanished => exact .none

theorem shutdown (h : s.Akin K t) : s.shutdown.AkinSince K s.history t.history t.shutdown :=
  { h.since with
    jobs := List.forall₂_map_left_iff.mpr
      (List.forall₂_map_right_iff.mpr (h.jobs.imp fun _ _ => Job.Akin.vanish)) }

theorem stall (h : s.Akin K t) (ms : Nat) :
    (s.stall ms).AkinSince K s.history t.history (t.stall ms) :=
  { h.since with now := congrArg (· + (ms : Int)) h.now }

/-- A move can be made if and only if a related one can, and they stay as close as runners do. -/
theorem move? (h : s.Akin K t) {m m' : Move} (hm : Move.Rel K.call m m')
    {R : Scheduler → Scheduler → Prop}
    (hsame : ∀ {s' t'}, s'.AkinSince K s.history t.history t' → R s' t')
    (hturn : ∀ i, m = .turn i → Option.Rel R (s.step? i) (t.step? i)) :
    Option.Rel R (s.move? m) (t.move? m') := by
  cases hm with
  | call hc => exact .some (hsame (h.since.call none hc).1)
  | turn i => exact hturn i rfl
  | pass ms => exact .some (hsame (h.stall ms))
  | shutdown => exact .some (hsame h.shutdown)

theorem callOf? (h : s.Akin K t) {m m' : Move} (hm : Move.Rel K.call m m') :
    Option.Rel K.call (s.callOf? m) (t.callOf? m') := by
  cases hm with
  | call hc => exact .some hc
  | turn i =>
      unfold Scheduler.callOf?
      dsimp only
      rcases forall₂_getElem? h.jobs i with ⟨hs, ht⟩ | ⟨job, job', hs, ht, hjob⟩
      · rw [hs, ht]
        exact .none
      · rw [hs, ht]
        exact hjob.nextCall?
  | pass ms => exact .none
  | shutdown => exact .none

theorem answer? (h : s.Akin K t) {m m' : Move} (hm : Move.Rel K.call m m') :
    t.answer? m' = s.answer? m := by
  have hactor : Scheduler.actorOf m' = Scheduler.actorOf m := by cases hm <;> rfl
  have hcall := h.callOf? hm
  unfold Scheduler.answer?
  rw [hactor]
  generalize s.callOf? m = c at hcall ⊢
  generalize t.callOf? m' = c' at hcall ⊢
  cases hcall with
  | none => rfl
  | some hc => exact congrArg some (h.since.call _ hc).2

theorem due_iff (h : s.Akin K t) (stop u : Int) : t.Due stop u ↔ s.Due stop u := by
  have hdeadline : ∀ j j' : Job, j.Akin K j' → Option.Rel (· = ·) j.deadline? j'.deadline? := by
    intro j j' hj
    rw [hj.deadline?]
    exact Option.rel_refl (fun _ => rfl) _
  have hdeadlines : s.jobs.filterMap Job.deadline? = t.jobs.filterMap Job.deadline? :=
    List.forall₂_eq_eq_eq ▸ List.rel_filterMap hdeadline h.jobs
  rw [← mem_deadlines, ← mem_deadlines, hdeadlines, h.now]

end Akin

end Scheduler

end JobScheduler
