import JobScheduler.Proofs.PanicContainment.State
import JobScheduler.Proofs.AfterPanic

/-!
A job function that panics is as good as one that ends there (`Performance.panics_contained`).
Where two scripts differ in panics of job functions that the second does without, related moves lead
from related states to related states (`Scheduler.Calmed.move?`), and the events that they write
differ in the log of a panic and the end of a function only.
-/

namespace JobScheduler

namespace Scheduler

/-- Whether a move led from `s` to `s'`, and a related one from `t` to `t'`, with the same events
written, except that where the one has the log of a panic, the other has the end of the function. -/
inductive Abreast (s t : Scheduler) (m : Move) (s' t' : Scheduler) : Prop where
  | same : s'.CalmedSince s.history t.history t' → Abreast s t m s' t'
  | cut {i : JobId} {job job' : Job} {instant : Int} {pause : Pause} {payload : Payload}
      {rest : List Action} : m = .turn i →
      s.jobs[i]? = some job → job.phase = .running instant pause (.panic payload :: rest) →
      t.jobs[i]? = some job' → job'.phase = .running instant pause [] →
      s'.CalmedSince (s.log (some i) (.jobPanicked payload)).history
        (t.emit (some i) .ended).history t' →
      Abreast s t m s' t'

variable {s t : Scheduler} {i : JobId} {job job' : Job}

theorem Abreast.calmed {m : Move} {s' t' : Scheduler} (h : Abreast s t m s' t') : s'.Calmed t' := by
  cases h with
  | same h => exact h.toCalmed
  | cut _ _ _ _ _ h => exact h.toCalmed

theorem Akin.log_emit {K : Kinship} (h : s.Akin K t) (a : Option JobId) (entry : LogEntry)
    (what : Happening) : (s.log a entry).Akin K (t.emit a what) := by
  unfold Scheduler.log
  split <;> exact { h with }

theorem Akin.planOn_calmed (h : s.Akin calmed t) (i : JobId) (hjob : job.Akin calmed job')
    {e e' : Entry Action} (hcourse : Entry.Calmed e e') :
    (s.planOn i job e.result e.actions).AkinSince calmed s.history t.history
      (t.planOn i job' e'.result e'.actions) := by
  obtain ⟨hactions, hresult⟩ := hcourse
  rw [hresult]
  generalize e.actions = actions at hactions ⊢
  generalize e'.actions = actions' at hactions ⊢
  cases hactions with
  | nil =>
      cases e.result with
      | ok runtime => exact h.since.planOn_ok i runtime
      | error error => cases error <;> exact (h.since.log _ _).retire i hjob
  | @cons action action' rest rest' haction hrest =>
      cases hover : Action.over (action :: rest) with
      | true =>
          cases action with
          | panic payload =>
              cases haction
              exact (h.since.log _ _).retire i hjob
          | _ => exact absurd hover (by simp [Action.over])
      | false => exact h.since.planOn_next i hjob haction.akin hover (.mk hrest rfl)

theorem Akin.runOn_abreast (h : s.Akin calmed t) {instant : Int} {pause : Pause}
    {rest rest' : List Action} (hj : s.jobs[i]? = some job)
    (hp : job.phase = .running instant pause rest) (hj' : t.jobs[i]? = some job')
    (hp' : job'.phase = .running instant pause rest') (hjob : job.Akin calmed job')
    (hrest : Body.Calmed rest rest') :
    Abreast s t (.turn i) (s.runOn i job instant rest) (t.runOn i job' instant rest') := by
  cases hrest with
  | done => exact .same ((h.since.emit _ _).complete i hjob instant).calmed
  | @next action action' rest rest' haction hrest =>
      refine .same (AkinSince.calmed ?_)
      cases hover : Action.over (action :: rest) with
      | true =>
          cases action with
          | panic payload =>
              cases haction
              exact (h.since.log _ _).complete i hjob instant
          | _ => exact absurd hover (by simp [Action.over])
      | false => exact h.since.runOn_next i hjob instant haction.akin hover hrest
  | cut payload rest =>
      -- The one place where the two write different events. What follows is the same.
      have hbegin := (h.log_emit (some i) (.jobPanicked payload) .ended).since
      exact .cut rfl hj hp hj' hp' (hbegin.complete i hjob instant).calmed

namespace Calmed

/-- A move can be made if and only if a related one can, and they stay abreast. -/
theorem move? (h : s.Calmed t) {m m' : Move} (hm : Move.Rel Call.Calmed m m') :
    Option.Rel (Abreast s t m) (s.move? m) (t.move? m') := by
  have hakin := calmed_iff.mp h
  refine hakin.move? hm (fun hsame => .same hsame.calmed) ?_
  rintro i rfl
  refine hakin.step? i (fun hsame => .same hsame.calmed) ?_ ?_
  · intro job job' pause rest rest' result result' _ _ _ _ hjob hcourse
    exact .same (hakin.planOn_calmed i hjob hcourse).calmed
  · intro job job' instant pause rest rest' hj hp hj' hp' hjob hbody
    exact hakin.runOn_abreast hj hp hj' hp' hjob hbody

theorem answer? (h : s.Calmed t) {m m' : Move} (hm : Move.Rel Call.Calmed m m') :
    t.answer? m' = s.answer? m := (calmed_iff.mp h).answer? hm

theorem due_iff (h : s.Calmed t) (stop u : Int) : t.Due stop u ↔ s.Due stop u :=
  (calmed_iff.mp h).due_iff stop u

end Calmed

end Scheduler

/-- Whether two entries of performances are related moves from related states, which have the same
answer and stay abreast. -/
structure Move.Abreast (e e' : Scheduler × Move) : Prop where
  calmed : e.1.Calmed e'.1
  move : Move.Rel Call.Calmed e.2 e'.2
  answer : e'.1.answer? e'.2 = e.1.answer? e.2
  after : Option.Rel (e.1.Abreast e'.1 e.2) (e.1.move? e.2) (e'.1.move? e'.2)

/-- Schedulers side by side, where the second does without some panics of job functions. -/
def calming : Bisimulation where
  state := Scheduler.Calmed
  call := Call.Calmed
  now h := h.now
  move h hm := by
    have hcalmed : ∀ {s t m} {x y : Option Scheduler}, Option.Rel (Scheduler.Abreast s t m) x y →
        Option.Rel Scheduler.Calmed x y := by
      rintro _ _ _ _ _ (h | _)
      · exact .some h.calmed
      · exact .none
    exact hcalmed (h.move? hm)
  due h := h.due_iff

theorem Move.abreast_of_matches {e e' : Scheduler × Move} (h : calming.Matches e e') :
    Move.Abreast e e' where
  calmed := h.state
  move := h.move
  answer := Scheduler.Calmed.answer? h.state h.move
  after := Scheduler.Calmed.move? h.state h.move

namespace Performance

variable {monitor : Monitor} {logging : Bool} {steps steps' : List Step}

theorem calming_initial (hscript : List.Forall₂ (Step.Rel Call.Calmed) steps steps') :
    calming.Stage ⟨.initial monitor logging, none, steps⟩
      ⟨.initial monitor logging, none, steps'⟩ where
  state := ⟨rfl, rfl, rfl, .nil, rfl, rfl, rfl⟩
  stop := rfl
  rest := hscript

/-- A job function that panics is as good as one that ends there. If a script comes out of another
by taking out panics of job functions, each performance of the one is matched by a performance of
the other, with the same turns. They are as far, agree in everything but their histories and what is
left to do of the functions, make the same calls with the same answers, and write the same events,
except that where the one has the log of a panic, the other has the end of the function. And a panic
takes no name away: a one-off job is finalised and inactive from then on, and a periodic one goes
back to its runtime function and can be run again. -/
theorem panics_contained (hscript : List.Forall₂ (Step.Rel Call.Calmed) steps steps') :
    (∀ past p, Performance ⟨.initial monitor logging, none, steps⟩ past p → ∃ past' p',
      Performance ⟨.initial monitor logging, none, steps'⟩ past' p' ∧ calming.Stage p p' ∧
        List.Forall₂ Move.Abreast past past') ∧
    (∀ past' p', Performance ⟨.initial monitor logging, none, steps'⟩ past' p' → ∃ past p,
      Performance ⟨.initial monitor logging, none, steps⟩ past p ∧ calming.Stage p p' ∧
        List.Forall₂ Move.Abreast past past') ∧
    ∀ past p, Performance ⟨.initial monitor logging, none, steps⟩ past p →
      ∀ i job instant pause payload rest, p.scheduler.jobs[i]? = some job →
        job.phase = .running instant pause (.panic payload :: rest) →
        p.scheduler.isOver job pause = true →
        ∃ s' job', p.scheduler.step? i = some s' ∧ s'.jobs[i]? = some job' ∧
          s'.registry = p.scheduler.registry ∧
          (job.record.periodic = false → ∀ past' t, Run s' past' t → t.Retired i) ∧
          (job.record.periodic = true → s'.StartsOver i job') := by
  have hfirst : calming.Stage ⟨.initial monitor logging, none, steps⟩
      ⟨.initial monitor logging, none, steps'⟩ :=
    calming_initial hscript
  refine ⟨?_, ?_, ?_⟩
  · intro past p h
    obtain ⟨past', p', h', hstage, hpast⟩ := h.matched hfirst
    exact ⟨past', p', h', hstage, hpast.imp fun _ _ => Move.abreast_of_matches⟩
  · intro past' p' h'
    obtain ⟨past, p, h, hstage, hpast⟩ := h'.matched hfirst.flip
    refine ⟨past, p, h, hstage.flip, ?_⟩
    exact hpast.flip.imp fun _ _ hmatch => Move.abreast_of_matches (.of_flip hmatch)
  · intro past p h i job instant pause payload rest hj hp hover
    exact h.run.recovers hj hp hover

theorem survived_of_panic : ∃ past past' p p' s' job',
    Performance ⟨.initial .recording true, none,
      [.call (.schedulePeriodic Run.plainOrder (some [[.context, .panic .other]])
        (some (.once 0))), .settle]⟩ past p ∧
    Performance ⟨.initial .recording true, none,
      [.call (.schedulePeriodic Run.plainOrder (some [[.context]]) (some (.once 0))),
        .settle]⟩ past' p' ∧
    p'.scheduler.registry = p.scheduler.registry ∧ p.scheduler.step? 0 = some s' ∧
    s'.registry = [("a", 0)] ∧ s'.StartsOver 0 job' ∧ (s'.run none "a").2 = .ok () := by
  have hwork : Option.Rel (List.Forall₂ Func.Calmed) (some [[.context, .panic .other]])
      (some [[.context]]) :=
    .some (.cons (.body (.cut_after [.context] .other [])) .nil)
  have hcall : Call.Calmed
      (.schedulePeriodic Run.plainOrder (some [[.context, .panic .other]]) (some (.once 0)))
      (.schedulePeriodic Run.plainOrder (some [[.context]]) (some (.once 0))) :=
    .schedulePeriodic _ hwork (.some (.refl _))
  obtain ⟨hforth, -, hsurvive⟩ :=
    @panics_contained .recording true _ _ (.cons (.call hcall) (.cons .settle .nil))
  have hbegin : Performance ⟨.initial .recording true, none,
      [.call (.schedulePeriodic Run.plainOrder (some [[.context, .panic .other]])
        (some (.once 0))), .settle]⟩ [] _ := .start
  have h := hbegin.call.settle.turn (i := 0) rfl |>.turn (i := 0) rfl |>.turn (i := 0) rfl
    |>.turn (i := 0) rfl
  obtain ⟨past', p', h', hstage, -⟩ := hforth _ _ h
  obtain ⟨s', job', hstep, -, hregistry, -, hover⟩ :=
    hsurvive _ _ h 0 _ _ _ _ _ rfl rfl rfl
  have hstarts := hover rfl
  refine ⟨_, past', _, p', s', job', h, h', hstage.state.registry, hstep, hregistry, hstarts, ?_⟩
  exact hstarts.accepts none "a" (by rw [hregistry]; rfl)

end Performance

end JobScheduler
