import JobScheduler.Proofs.Abandonment
import JobScheduler.Proofs.Simulation.Turn
import JobScheduler.Proofs.AfterPanic
import JobScheduler.Proofs.Rounds

/-!
It makes no difference how a runtime function gives up (`Performance.gives_up_alike`). It may say
that there are no more instances, fail, or panic: its runner ends with another entry in the log, and
nothing else is different. The job leaves the registry, is finalised and inactive, and is reported
as cancelled once and for all.
-/

namespace JobScheduler

/-- Whether a runtime function gives up here, and what its runner logs of it. -/
inductive Entry.GivesUp : Entry Action → LogEntry → Prop where
  | noMoreInstances : GivesUp ⟨[], .error .noMoreInstances⟩ .noMoreInstances
  | failed (reason : String) :
      GivesUp ⟨[], .error (.failed reason)⟩ (.runtimeFailed (.failed reason))
  /-- The failure that an error with contexts around it is taken for. -/
  | chained (causes : List String) :
      GivesUp ⟨[], .error (.ofChain causes)⟩ (.runtimeFailed (.ofChain causes))
  | panicked (payload : Payload) (rest : List Action) (result : Except RuntimeError Moment) :
      GivesUp ⟨.panic payload :: rest, result⟩ (.runtimePanicked payload)

mutual

/-- Whether two calls of a runtime function do the same, and then return the same or give up. -/
inductive Course.Rephrased : Entry Action → Entry Action → Prop where
  | quit {e e' : Entry Action} {entry entry' : LogEntry} :
      e.GivesUp entry → e'.GivesUp entry' → Course.Rephrased e e'
  | done (result : Except RuntimeError Moment) : Course.Rephrased ⟨[], result⟩ ⟨[], result⟩
  | next {action action' : Action} {rest rest' : List Action}
      {result result' : Except RuntimeError Moment} : Action.Akin Call.Rephrased action action' →
      Course.Rephrased ⟨rest, result⟩ ⟨rest', result'⟩ →
      Course.Rephrased ⟨action :: rest, result⟩ ⟨action' :: rest', result'⟩

inductive Plan.Rephrased : Plan Action → Plan Action → Prop where
  | mk {plan plan' : Plan Action} :
      (∀ k, Course.Rephrased (plan.entry k).opened (plan'.entry k).opened) →
      Plan.Rephrased plan plan'

/-- Whether two calls are the same, except for how runtime functions give up, at whatever depth. -/
inductive Call.Rephrased : Call → Call → Prop where
  | mk {c c' : Call} :
      Call.Akin (List.Forall₂ (List.Forall₂ (Action.Akin Call.Rephrased))) Plan.Rephrased c c' →
      Call.Rephrased c c'

end

theorem Entry.GivesUp.level {e : Entry Action} {entry : LogEntry} (h : e.GivesUp entry) :
    entry.level = if entry = .noMoreInstances then .trace else .error := by
  cases h <;> rfl

theorem Entry.GivesUp.over {e : Entry Action} {entry : LogEntry} (h : e.GivesUp entry) :
    Action.over e.actions = true ∧ (e.actions = [] → ∃ error, e.result = .error error) := by
  cases h with
  | panicked payload rest result => exact ⟨rfl, nofun⟩
  | _ => exact ⟨rfl, fun _ => ⟨_, rfl⟩⟩

theorem Entry.GivesUp.call? {e : Entry Action} {entry : LogEntry} (h : e.GivesUp entry) :
    Action.call? e.actions = none := by
  cases h <;> rfl

theorem Entry.GivesUp.opened {e : Entry Action} {entry : LogEntry} (h : e.GivesUp entry) :
    Action.opened e.actions = e.actions := by
  cases h <;> rfl

theorem Entry.gives_up_or (result : Except RuntimeError Moment) :
    (∃ moment, result = .ok moment) ∨ ∃ entry, Entry.GivesUp ⟨[], result⟩ entry := by
  cases result with
  | ok moment => exact .inl ⟨moment, rfl⟩
  | error e =>
      cases e with
      | noMoreInstances => exact .inr ⟨_, .noMoreInstances⟩
      | failed reason => exact .inr ⟨_, .failed reason⟩

theorem Call.Rephrased.refl (c : Call) : Call.Rephrased c c := .mk (.same c)

theorem Course.Rephrased.refl (actions : List Action) (result : Except RuntimeError Moment) :
    Course.Rephrased ⟨actions, result⟩ ⟨actions, result⟩ := by
  induction actions with
  | nil => exact .done result
  | cons action rest ih => exact .next (.same action) ih

theorem Course.Rephrased.quit_after {e e' : Entry Action} {entry entry' : LogEntry}
    (before : List Action) (h : e.GivesUp entry) (h' : e'.GivesUp entry') :
    Course.Rephrased ⟨before ++ e.actions, e.result⟩ ⟨before ++ e'.actions, e'.result⟩ := by
  induction before with
  | nil => exact .quit h h'
  | cons action before ih => exact .next (.same action) ih

theorem Plan.Rephrased.of_quit {plan plan' : Plan Action} {e e' : Entry Action}
    {entry entry' : LogEntry} (k : Nat) (before : List Action) (h : e.GivesUp entry)
    (h' : e'.GivesUp entry') (hk : plan.entry k = ⟨before ++ e.actions, e.result⟩)
    (hk' : plan'.entry k = ⟨before ++ e'.actions, e'.result⟩)
    (hothers : ∀ n, n ≠ k → plan'.entry n = plan.entry n) : Plan.Rephrased plan plan' := by
  refine .mk fun n => ?_
  by_cases hn : n = k
  · subst hn
    rw [hk, hk', Entry.opened, Entry.opened]
    cases before with
    | nil =>
        rw [List.nil_append, List.nil_append, h.opened, h'.opened]
        exact .quit h h'
    | cons action rest =>
        -- What is done before it gives up decides whether it panics early.
        cases action with
        | earlyPanic payload => exact .quit_after (.panic payload :: rest) h h'
        | _ => exact .quit_after (_ :: rest) h h'
  · rw [hothers n hn]
    exact .refl _ _

theorem Course.Rephrased.call? {e e' : Entry Action} (h : Course.Rephrased e e') :
    Option.Rel Call.Rephrased (Action.call? e.actions) (Action.call? e'.actions) := by
  cases h with
  | quit hq hq' =>
      rw [hq.call?, hq'.call?]
      exact .none
  | done result => exact .none
  | next haction _ => exact haction.call? Call.Rephrased.refl _ _

/-- Scripts that differ in how runtime functions give up. -/
def rephrased : Kinship where
  call := Call.Rephrased
  work := List.Forall₂ (List.Forall₂ (Action.Akin Call.Rephrased))
  plan := Plan.Rephrased
  body := List.Forall₂ (Action.Akin Call.Rephrased)
  course := Course.Rephrased
  call_refl := .refl
  work_refl work :=
    List.forall₂_same.mpr fun _ _ => List.forall₂_same.mpr fun action _ => .same action
  plan_refl plan := .mk fun k => .refl _ _
  called := fun ⟨h⟩ => h
  entered h k := Action.opened_akin (Work.body_rel .nil h k)
  asked := fun ⟨h⟩ => h
  body_call? h := by
    cases h with
    | nil => exact .none
    | cons haction _ => exact haction.call? Call.Rephrased.refl _ _
  course_call? := Course.Rephrased.call?

namespace Scheduler

/-- Whether a move led from `s` to `s'`, and a related one from `t` to `t'`, with the same events
written, except that where a runtime function gives up, the one may log it in another way. -/
inductive InStep (s t : Scheduler) (m : Move) (s' t' : Scheduler) : Prop where
  | same : s'.AkinSince rephrased s.history t.history t' → InStep s t m s' t'
  | quit {i : JobId} {job job' : Job} {pause : Pause} {e e' : Entry Action}
      {entry entry' : LogEntry} : m = .turn i →
      s.jobs[i]? = some job → job.phase = .planning pause e.actions e.result → e.GivesUp entry →
      t.jobs[i]? = some job' → job'.phase = .planning pause e'.actions e'.result →
      e'.GivesUp entry' →
      s'.AkinSince rephrased (s.log (some i) entry).history (t.log (some i) entry').history t' →
      InStep s t m s' t'

variable {s t s' : Scheduler} {i : JobId} {job job' : Job} {e e' : Entry Action}
  {entry entry' : LogEntry} {pause : Pause}

theorem InStep.akin {m : Move} {s' t' : Scheduler} (h : InStep s t m s' t') :
    s'.Akin rephrased t' := by
  cases h with
  | same h => exact h.toAkin
  | quit _ _ _ _ _ _ _ h => exact h.toAkin

theorem planOn_of_givesUp (s : Scheduler) (i : JobId) (job : Job) (h : e.GivesUp entry) :
    s.planOn i job e.result e.actions = (s.log (some i) entry).retire i job := by
  cases h <;> rfl

theorem Akin.planOn (h : s.Akin rephrased t) (hj : s.jobs[i]? = some job)
    (hp : job.phase = .planning pause e.actions e.result) (hj' : t.jobs[i]? = some job')
    (hp' : job'.phase = .planning pause e'.actions e'.result) (hjob : job.Akin rephrased job')
    (hcourse : Course.Rephrased e e') :
    InStep s t (.turn i) (s.planOn i job e.result e.actions)
      (t.planOn i job' e'.result e'.actions) := by
  have hquit : ∀ {entry entry'}, e.GivesUp entry → e'.GivesUp entry' →
      InStep s t (.turn i) (s.planOn i job e.result e.actions)
        (t.planOn i job' e'.result e'.actions) := by
    intro entry entry' hq hq'
    rw [s.planOn_of_givesUp i job hq, t.planOn_of_givesUp i job' hq']
    have hlogged := h.log (some i) entry entry'
    exact .quit rfl hj hp hq hj' hp' hq' (hlogged.since.retire i hjob)
  cases hcourse with
  | quit hq hq' => exact hquit hq hq'
  | done result =>
      rcases Entry.gives_up_or result with ⟨moment, rfl⟩ | ⟨entry, hq⟩
      · exact .same (h.since.planOn_ok i moment)
      · exact hquit hq hq
  | @next action action' rest rest' result result' haction hrest =>
      cases hover : Action.over (action :: rest) with
      | true =>
          cases action with
          | panic payload =>
              cases haction
              exact hquit (.panicked payload rest result) (.panicked payload rest' result')
          | _ => exact absurd hover (by simp [Action.over])
      | false => exact .same (h.since.planOn_next i hjob haction hover hrest)

theorem Akin.runOn (h : s.Akin rephrased t) (hjob : job.Akin rephrased job') (instant : Int)
    {rest rest' : List Action} (hrest : List.Forall₂ (Action.Akin Call.Rephrased) rest rest') :
    (s.runOn i job instant rest).AkinSince rephrased s.history t.history
      (t.runOn i job' instant rest') := by
  cases hrest with
  | nil => exact (h.since.emit _ _).complete i hjob instant
  | @cons action action' rest rest' haction hrest =>
      cases hover : Action.over (action :: rest) with
      | true =>
          cases action with
          | panic payload =>
              cases haction
              exact (h.since.log _ _).complete i hjob instant
          | _ => exact absurd hover (by simp [Action.over])
      | false => exact h.since.runOn_next i hjob instant haction hover hrest

/-- A move can be made if and only if a related one can, and they stay in step. -/
theorem Akin.move_in_step (h : s.Akin rephrased t) {m m' : Move}
    (hm : Move.Rel Call.Rephrased m m') : Option.Rel (InStep s t m) (s.move? m) (t.move? m') := by
  refine h.move? hm .same ?_
  rintro i rfl
  refine h.step? i .same ?_ ?_
  · intro job job' pause rest rest' result result' hj hp hj' hp' hjob hcourse
    exact h.planOn hj hp hj' hp' hjob hcourse
  · intro job job' instant pause rest rest' _ _ _ _ hjob hbody
    exact .same (h.runOn hjob instant hbody)

end Scheduler

/-- Whether two entries of performances are related moves from related states, which have the same
answer and stay in step. -/
structure Move.InStep (e e' : Scheduler × Move) : Prop where
  akin : e.1.Akin rephrased e'.1
  move : Move.Rel Call.Rephrased e.2 e'.2
  answer : e'.1.answer? e'.2 = e.1.answer? e.2
  after : Option.Rel (e.1.InStep e'.1 e.2) (e.1.move? e.2) (e'.1.move? e'.2)

/-- Schedulers side by side, whose runtime functions give up in different ways. -/
def rephrasing : Bisimulation where
  state := Scheduler.Akin rephrased
  call := Call.Rephrased
  now h := h.now
  move h hm := by
    have hakin : ∀ {s t m} {x y : Option Scheduler}, Option.Rel (Scheduler.InStep s t m) x y →
        Option.Rel (Scheduler.Akin rephrased) x y := by
      rintro _ _ _ _ _ (h | _)
      · exact .some h.akin
      · exact .none
    exact hakin (h.move_in_step hm)
  due h := h.due_iff

theorem Move.inStep_of_matches {e e' : Scheduler × Move} (h : rephrasing.Matches e e') :
    Move.InStep e e' where
  akin := h.state
  move := h.move
  answer := Scheduler.Akin.answer? h.state h.move
  after := Scheduler.Akin.move_in_step h.state h.move

namespace Scheduler

variable {s t : Scheduler} {i : JobId} {job : Job}

theorem registry_retire (s : Scheduler) (e : LogEntry) (i : JobId) (job : Job) :
    ((s.log (some i) e).retire i job).registry =
      if s.registry.lookup job.record.name = some i then
        (s.unregister job.record.name).registry
      else s.registry := by
  have hremove : ((s.log (some i) e).retire i job).registry =
      ((s.log (some i) e).remove (some i) i job.record.name).registry := registry_stop _ i job
  rw [hremove, remove, registry_log]
  split
  · rw [registry_log]
    simp only [unregister, registry_log]
  · exact registry_log _ _ _

/-- How the runner of job `i` took leave of it, in a step from `s` after `past` to `t`. -/
structure Dismisses (past : List (Scheduler × Move)) (s : Scheduler) (i : JobId) (job : Job)
    (t : Scheduler) : Prop where
  /-- The job leaves the registry if it is still in it. -/
  registry : t.registry = if s.registry.lookup job.record.name = some i then
    (s.unregister job.record.name).registry else s.registry
  retired : ∀ past' u, Run t past' u → u.Retired i
  /-- The job is reported as cancelled once and for all. -/
  told : ∀ past' u, Run t past' u → ∀ v, Run.Recorded (past' ++ (s, .turn i) :: past) v →
    v.reports i .cancelled = 1
  /-- The name can be scheduled at once, unless another job has taken it. -/
  free : (∀ k, s.registry.lookup job.record.name = some k → k = i) → t.Free job.record.name

end Scheduler

namespace Run

variable {monitor : Monitor} {logging : Bool} {past : List (Scheduler × Move)} {s : Scheduler}
  {i : JobId} {job : Job} {pause : Pause} {e : Entry Action} {entry : LogEntry}

theorem periodic_of_planning (run : Run (.initial monitor logging) past s)
    (hj : s.jobs[i]? = some job) (hp : job.phase = .planning pause e.actions e.result) :
    job.record.periodic = true := by
  have hv := Scheduler.situation?_of_getElem? hj
  have halive : (s.situate i job).job.phase.alive = true := by
    rw [show (s.situate i job).job.phase = _ from hp]
    rfl
  have hsuits := ((run.sound hv).tended_of_alive halive).suits
  rw [show (s.situate i job).job.phase = _ from hp] at hsuits
  exact hsuits

/-- The runner of a job whose runtime function gives up ends, whatever is in its slots. -/
theorem dismisses (run : Run (.initial monitor logging) past s) (hj : s.jobs[i]? = some job)
    (hp : job.phase = .planning pause e.actions e.result) (hgives : e.GivesUp entry)
    (hover : s.isOver job pause = true) :
    ∃ t, s.step? i = some t ∧ s.Dismisses past i job t := by
  have hstep : s.step? i = some ((s.log (some i) entry).retire i job) := by
    rw [← s.planOn_of_givesUp i job hgives]
    unfold Scheduler.step?
    rw [hj]
    dsimp only
    rw [hp]
    exact if_pos hover
  have hregistry := s.registry_retire entry i job
  have run' := run.next (.turn i) hstep
  obtain ⟨job', hj', hp', -⟩ :=
    Scheduler.returned_of_givesUp hj ⟨pause, _, _, hp, hgives.over⟩ hstep
  have hper : job'.record.periodic = true :=
    (Scheduler.periodic_eq_of_terms ((single (.turn i) hstep).terms_eq hj hj')).trans
      (run.periodic_of_planning hj hp)
  refine ⟨_, hstep, hregistry, fun past' u after => run'.retires hj' hp' after, ?_, ?_⟩
  · intro past' u after v hv
    -- The reports are those of a run with a recording monitor, which goes the same way.
    obtain ⟨logging', past₁, run₁, -, hjobs⟩ := (run'.trans after).of_recorded hv
    obtain ⟨job'', hj'', hphase, -⟩ := run'.gone hj' (by rw [hp']; rfl) after
    have hterms := after.terms_eq hj' hj''
    rw [← hjobs] at hj''
    exact run₁.cancelled_of_periodic hj'' ((Scheduler.periodic_eq_of_terms hterms).trans hper)
      (hphase.trans hp')
  · intro hown
    refine Scheduler.free_of_lookup (run.name_ne hj) ?_
    rw [hregistry]
    split
    · rw [Scheduler.lookup_unregister, if_pos rfl]
    · rename_i hnot
      cases hl : s.registry.lookup job.record.name with
      | none => rfl
      | some k => exact absurd (hl.trans (congrArg some (hown k hl))) hnot

end Run

namespace Performance

variable {monitor : Monitor} {logging : Bool} {steps steps' : List Step}

theorem rephrasing_initial (hscript : List.Forall₂ (Step.Rel Call.Rephrased) steps steps') :
    rephrasing.Stage ⟨.initial monitor logging, none, steps⟩
      ⟨.initial monitor logging, none, steps'⟩ where
  state := ⟨rfl, rfl, rfl, .nil, rfl, rfl, rfl⟩
  stop := rfl
  rest := hscript

/-- It makes no difference how a runtime function gives up. If two scripts differ in nothing else,
each performance of the one is matched by a performance of the other, with the same turns. They are
as far, agree in everything but their histories and what the functions have left to do, make the
same calls with the same answers, and write the same events, except that where a runtime function
gives up, each logs it in its own way: the end of the instances as a trace, and all else as an
error. Then the job leaves the registry if it is still in it, stays finalised and inactive, and is
reported as cancelled just once; and unless another job has its name, the name can be scheduled at
once. -/
theorem gives_up_alike (hscript : List.Forall₂ (Step.Rel Call.Rephrased) steps steps') :
    (∀ past p, Performance ⟨.initial monitor logging, none, steps⟩ past p → ∃ past' p',
      Performance ⟨.initial monitor logging, none, steps'⟩ past' p' ∧ rephrasing.Stage p p' ∧
        List.Forall₂ Move.InStep past past') ∧
    (∀ past' p', Performance ⟨.initial monitor logging, none, steps'⟩ past' p' → ∃ past p,
      Performance ⟨.initial monitor logging, none, steps⟩ past p ∧ rephrasing.Stage p p' ∧
        List.Forall₂ Move.InStep past past') ∧
    ∀ past p, Performance ⟨.initial monitor logging, none, steps⟩ past p →
      ∀ (i : JobId) (job : Job) (pause : Pause) (e : Entry Action) (entry : LogEntry),
        p.scheduler.jobs[i]? = some job → job.phase = .planning pause e.actions e.result →
        e.GivesUp entry → p.scheduler.isOver job pause = true →
        (entry.level = if entry = .noMoreInstances then .trace else .error) ∧
          ∃ t, p.scheduler.step? i = some t ∧ p.scheduler.Dismisses past i job t := by
  have hfirst : rephrasing.Stage ⟨.initial monitor logging, none, steps⟩
      ⟨.initial monitor logging, none, steps'⟩ :=
    rephrasing_initial hscript
  refine ⟨?_, ?_, ?_⟩
  · intro past p h
    obtain ⟨past', p', h', hstage, hpast⟩ := h.matched hfirst
    exact ⟨past', p', h', hstage, hpast.imp fun _ _ => Move.inStep_of_matches⟩
  · intro past' p' h'
    obtain ⟨past, p, h, hstage, hpast⟩ := h'.matched_back hfirst
    exact ⟨past, p, h, hstage, hpast.imp fun _ _ => Move.inStep_of_matches⟩
  · intro past p h i job pause e entry hj hp hgives hover
    exact ⟨hgives.level, h.run.dismisses hj hp hgives hover⟩

/-- A job whose runtime function sleeps for a millisecond and then gives up, which it is asked to
run meanwhile. -/
def quitter (e : Entry Action) : List Step :=
  [.call (.schedulePeriodic Run.plainOrder (some [])
      (some ⟨[⟨.sleep 1 :: e.actions, e.result⟩], none⟩)),
    .settle, .call (.run "a"), .advance 1]

theorem dismissed_of_quitter : ∃ past past' p p' job t,
    Performance ⟨.initial .recording true, none, quitter ⟨[], .error .noMoreInstances⟩⟩ past p ∧
    Performance ⟨.initial .recording true, none, quitter ⟨[.panic .other], .ok (.fixed 0)⟩⟩
      past' p' ∧
    p'.scheduler.registry = p.scheduler.registry ∧ p.scheduler.jobs[0]? = some job ∧
    job.record.running.pending = true ∧ p.scheduler.step? 0 = some t ∧ t.registry = [] ∧
    t.Retired 0 ∧ t.reports 0 .cancelled = 1 ∧ t.Free "a" := by
  have hplan : Plan.Rephrased ⟨[⟨[.sleep 1], .error .noMoreInstances⟩], none⟩
      ⟨[⟨[.sleep 1, .panic .other], .ok (.fixed 0)⟩], none⟩ := by
    refine .of_quit 0 [.sleep 1] .noMoreInstances (.panicked .other [] (.ok (.fixed 0))) rfl rfl ?_
    intro n hn
    obtain ⟨k, rfl⟩ := Nat.exists_eq_succ_of_ne_zero hn
    rfl
  have hscript : List.Forall₂ (Step.Rel Call.Rephrased) (quitter ⟨[], .error .noMoreInstances⟩)
      (quitter ⟨[.panic .other], .ok (.fixed 0)⟩) :=
    .cons (.call (.mk (.schedulePeriodic _ (.some .nil) (.some hplan))))
      (.cons .settle (.cons (.call (.refl _)) (.cons (.advance 1) .nil)))
  obtain ⟨hforth, -, hquit⟩ := @gives_up_alike .recording true _ _ hscript
  have hbegin : Performance
      ⟨.initial .recording true, none, quitter ⟨[], .error .noMoreInstances⟩⟩ [] _ := .start
  have hsleeps := hbegin.call.settle.turn (i := 0) rfl |>.turn (i := 0) rfl
  have hasked := (hsleeps.finish (Scheduler.settled_of_single rfl rfl) rfl).call.advance
  have h := hasked.wait (t := 1) (Scheduler.settled_of_single rfl rfl) rfl
  obtain ⟨past', p', h', hstage, -⟩ := hforth _ _ h
  obtain ⟨-, t, hstep, hdismisses⟩ := hquit _ _ h 0 _ _ _ _ rfl rfl .noMoreInstances rfl
  have run := h.run.next (.turn 0) hstep
  refine ⟨_, past', _, p', _, t, h, h', hstage.state.registry, rfl, rfl, hstep,
    hdismisses.registry, hdismisses.retired [] t .start,
    hdismisses.told [] t .start t ⟨true, _, run, rfl⟩, hdismisses.free ?_⟩
  intro k hk
  exact (Option.some_inj.mp hk).symm

end Performance

end JobScheduler
