import JobScheduler.Proofs.Projection.Turn

/-!
What a scheduler makes of its tokens: nothing but to look them up where a job is scheduled or a
token is made, and to ask whether a job's own token is cancelled. So every operation does the same
with other tokens (`Scheduler.withTokens_call`, `Scheduler.withTokens_step`), if only the names and
the token of the job at work stand for the same.
-/

namespace JobScheduler

namespace Tokens

/-- The tokens after a call. -/
def after (ts : Tokens) : Call → Tokens
  | .newToken name above => ts.bind name above
  | .cancelToken name => ts.cancel (ts.named name)
  | _ => ts

/-- The tokens after a call, if there is one to make. -/
def afterCall (ts : Tokens) : Option Call → Tokens
  | some c => ts.after c
  | none => ts

end Tokens

namespace Scheduler

/-- The scheduler with other tokens. -/
def withTokens (s : Scheduler) (ts : Tokens) : Scheduler := { s with tokens := ts }

variable (s t : Scheduler) (ts : Tokens) (a : Option JobId) (i : JobId) (job : Job)

theorem withTokens_ite (p : Prop) [Decidable p] :
    (if p then s.withTokens ts else t.withTokens ts) = (if p then s else t).withTokens ts := by
  split <;> rfl

theorem withTokens_emit (w : Happening) :
    (s.withTokens ts).emit a w = (s.emit a w).withTokens ts := rfl

theorem withTokens_log (e : LogEntry) :
    (s.withTokens ts).log a e = (s.log a e).withTokens ts := by
  unfold log
  rw [show (s.withTokens ts).logging = s.logging from rfl]
  split <;> rfl

theorem withTokens_report (cls : String) (r : Report) :
    (s.withTokens ts).report a i cls r = (s.report a i cls r).withTokens ts := by
  unfold report
  rw [show (s.withTokens ts).monitor = s.monitor from rfl]
  cases s.monitor <;> rfl

theorem withTokens_updateJob (f : Job → Job) :
    (s.withTokens ts).updateJob i f = (s.updateJob i f).withTokens ts := rfl

theorem withTokens_updateRecord (f : Record → Record) :
    (s.withTokens ts).updateRecord i f = (s.updateRecord i f).withTokens ts := rfl

theorem withTokens_setPhase (phase : Phase) :
    (s.withTokens ts).setPhase i phase = (s.setPhase i phase).withTokens ts := rfl

theorem withTokens_unregister (name : String) :
    (s.withTokens ts).unregister name = (s.unregister name).withTokens ts := rfl

theorem withTokens_remove (name : String) :
    (s.withTokens ts).remove a i name = (s.remove a i name).withTokens ts := by
  unfold remove
  rw [withTokens_unregister, withTokens_log]
  exact withTokens_ite _ _ _ _

theorem withTokens_enrol : (s.withTokens ts).enrol a job = (s.enrol a job).withTokens ts := by
  unfold enrol
  dsimp only
  rw [← withTokens_log, ← withTokens_report]
  rfl

theorem withTokens_run (name : String) :
    (s.withTokens ts).run a name = ((s.run a name).1.withTokens ts, (s.run a name).2) := by
  unfold run
  rw [show (s.withTokens ts).find? name = s.find? name from rfl]
  cases s.find? name with
  | none => rfl
  | some found =>
      obtain ⟨k, job⟩ := found
      dsimp only
      rw [withTokens_unregister, withTokens_ite]
      split
      · rw [withTokens_updateRecord, withTokens_log]
      · rw [withTokens_updateRecord]

theorem withTokens_runIfExists (name : String) :
    (s.withTokens ts).runIfExists a name = (s.runIfExists a name).withTokens ts := by
  unfold runIfExists
  rw [withTokens_run]
  rcases s.run a name with ⟨s', _ | _⟩
  · exact withTokens_log _ _ _ _
  · rfl

theorem withTokens_cancel (name : String) :
    (s.withTokens ts).cancel a name = ((s.cancel a name).1.withTokens ts, (s.cancel a name).2) := by
  unfold cancel
  rw [show (s.withTokens ts).find? name = s.find? name from rfl]
  cases s.find? name with
  | none => rfl
  | some found =>
      obtain ⟨k, job⟩ := found
      dsimp only
      rw [withTokens_unregister]
      split <;> rw [withTokens_updateRecord, withTokens_log]

theorem withTokens_cancelAll (stem : String) :
    (s.withTokens ts).cancelAll a stem = (s.cancelAll a stem).withTokens ts := by
  unfold cancelAll
  rw [show (s.withTokens ts).matching stem = s.matching stem from rfl]
  generalize s.matching stem = names
  induction names generalizing s with
  | nil => rfl
  | cons name rest ih =>
      rw [List.foldl_cons, List.foldl_cons, ← ih, cancelIfExists, withTokens_cancel]
      rfl

section

variable {s ts} (hnames : ts.names = s.tokens.names)
include hnames

theorem withTokens_newJob (o : JobOrder) (periodic : Bool) (work : Work) (plan : Plan Action)
    (phase : Phase) :
    (s.withTokens ts).newJob o periodic work plan phase = s.newJob o periodic work plan phase := by
  have hnamed : (s.withTokens ts).tokens.named o.parent = s.tokens.named o.parent := by
    rw [Tokens.named, Tokens.named, ← hnames]
    rfl
  unfold newJob
  rw [hnamed]

theorem withTokens_schedule (o : JobOrder) (work : Option Work) (runtime : Moment) :
    (s.withTokens ts).schedule a o work runtime =
      ((s.schedule a o work runtime).1.withTokens ts, (s.schedule a o work runtime).2) := by
  unfold schedule
  rw [show (s.withTokens ts).vet o true work = s.vet o true work from rfl]
  cases s.vet o true work with
  | error e => rfl
  | ok work =>
      simp only [withTokens_newJob hnames, withTokens_enrol, withTokens_log, launch]
      rfl

theorem withTokens_schedulePeriodic (o : JobOrder) (work : Option Work)
    (plan : Option (Plan Action)) :
    (s.withTokens ts).schedulePeriodic a o work plan =
      ((s.schedulePeriodic a o work plan).1.withTokens ts,
        (s.schedulePeriodic a o work plan).2) := by
  unfold schedulePeriodic
  rw [show (s.withTokens ts).vet o plan.isSome work = s.vet o plan.isSome work from rfl]
  cases s.vet o plan.isSome work with
  | error e => rfl
  | ok work =>
      simp only [withTokens_newJob hnames, withTokens_enrol, withTokens_log, launch]
      rfl

theorem withTokens_call (c : Call) :
    (s.withTokens ts).call a c = ((s.call a c).1.withTokens (ts.after c), (s.call a c).2) := by
  cases c with
  | schedule o work runtime => exact withTokens_schedule a hnames o work runtime
  | schedulePeriodic o work plan => exact withTokens_schedulePeriodic a hnames o work plan
  | run name => simp only [call, withTokens_run, Tokens.after]
  | runIfExists name => simp only [call, withTokens_runIfExists, Tokens.after]
  | cancel name => simp only [call, withTokens_cancel, Tokens.after]
  | cancelIfExists name => simp only [call, cancelIfExists, withTokens_cancel, Tokens.after]
  | cancelAll stem => simp only [call, withTokens_cancelAll, Tokens.after]
  | newToken name above => rfl
  | cancelToken name => rfl
  | isRegistered name => rfl
  | isActive name => rfl
  | names => rfl
  | describe => rfl

end

theorem withTokens_stop : (s.withTokens ts).stop i job = (s.stop i job).withTokens ts := by
  unfold stop leave
  rw [withTokens_updateRecord, withTokens_report, withTokens_updateJob]

theorem withTokens_retire : (s.withTokens ts).retire i job = (s.retire i job).withTokens ts := by
  unfold retire
  rw [withTokens_remove, withTokens_stop]

theorem withTokens_await (instant : Int) :
    (s.withTokens ts).await i instant = (s.await i instant).withTokens ts := by
  unfold await
  rw [show (s.withTokens ts).now = s.now from rfl]
  split <;> rfl

theorem withTokens_start (instant : Int) (trigger : Trigger) :
    (s.withTokens ts).start i job instant trigger =
      (s.start i job instant trigger).withTokens ts := by
  unfold start
  dsimp only
  rw [withTokens_report]
  rfl

theorem withTokens_complete (instant : Int) :
    (s.withTokens ts).complete i job instant = (s.complete i job instant).withTokens ts := by
  unfold complete leave
  dsimp only
  rw [withTokens_log, withTokens_updateRecord, withTokens_setPhase, withTokens_updateRecord,
    withTokens_updateJob]
  exact withTokens_ite _ _ _ _

theorem withTokens_wake (instant : Int) (w : Waking) :
    (s.withTokens ts).wake i job instant w = (s.wake i job instant w).withTokens ts := by
  cases w with
  | parent => simp only [wake, withTokens_log, withTokens_retire]
  | cancel => simp only [wake, withTokens_updateRecord, withTokens_log, withTokens_stop]
  | signal => simp only [wake, withTokens_updateRecord, withTokens_log, withTokens_start]
  | timer =>
      simp only [wake]
      split
      · rw [withTokens_log, withTokens_setPhase]
      · rw [withTokens_updateRecord, withTokens_remove, withTokens_ite, withTokens_log,
          withTokens_start]

theorem withTokens_isOver {job : Job}
    (hagree : ts.isCancelled job.token = s.tokens.isCancelled job.token) (pause : Pause) :
    (s.withTokens ts).isOver job pause = s.isOver job pause := by
  cases pause with
  | token => exact hagree
  | _ => rfl

theorem withTokens_waking? {job : Job}
    (hagree : ts.isCancelled job.token = s.tokens.isCancelled job.token) (timer : Option Int) :
    (s.withTokens ts).waking? job timer = s.waking? job timer := by
  unfold waking?
  rw [show (s.withTokens ts).tokens.isCancelled job.token = s.tokens.isCancelled job.token
    from hagree]
  rfl

section

variable {s ts} (hnames : ts.names = s.tokens.names)
  {job : Job} (hagree : ts.isCancelled job.token = s.tokens.isCancelled job.token)
include hnames hagree

theorem withTokens_act (action : Action) (rest : List Action) :
    (s.withTokens ts).act i job action =
      ((s.act i job action).1.withTokens (ts.afterCall (Action.call? (action :: rest))),
        (s.act i job action).2) := by
  cases action with
  | call c =>
      simp only [act, withTokens_call _ hnames, withTokens_emit]
      rfl
  | context =>
      simp only [act, withTokens_emit]
      rw [show (s.withTokens ts).tokens.isCancelled job.token = _ from hagree]
      rfl
  | _ => rfl

theorem withTokens_planOn (result : Except RuntimeError Moment) (rest : List Action) :
    (s.withTokens ts).planOn i job result rest =
      (s.planOn i job result rest).withTokens (ts.afterCall (Action.call? rest)) := by
  have hretire : ∀ e : LogEntry, ((s.withTokens ts).log (some i) e).retire i job =
      ((s.log (some i) e).retire i job).withTokens ts := by
    intro e
    rw [withTokens_log, withTokens_retire]
  cases rest with
  | nil =>
      cases result with
      | ok moment =>
          simp only [planOn, withTokens_log, withTokens_await]
          rfl
      | error e => cases e <;> exact hretire _
  | cons action rest =>
      cases hover : Action.over (action :: rest) with
      | true =>
          cases action with
          | panic payload => exact hretire _
          | _ => exact absurd hover (by simp [Action.over])
      | false =>
          rw [planOn_of_action hover, planOn_of_action hover,
            withTokens_act i hnames hagree action rest]
          rfl

theorem withTokens_runOn (instant : Int) (rest : List Action) :
    (s.withTokens ts).runOn i job instant rest =
      (s.runOn i job instant rest).withTokens (ts.afterCall (Action.call? rest)) := by
  cases rest with
  | nil =>
      simp only [runOn, withTokens_emit, withTokens_complete]
      rfl
  | cons action rest =>
      cases hover : Action.over (action :: rest) with
      | true =>
          cases action with
          | panic payload =>
              simp only [runOn, withTokens_log, withTokens_complete]
              rfl
          | _ => exact absurd hover (by simp [Action.over])
      | false =>
          rw [runOn_of_action hover, runOn_of_action hover,
            withTokens_act i hnames hagree action rest]
          rfl

/-- A runner takes the same step with other tokens that have the same names, if they agree on
whether its job's token is cancelled. -/
theorem withTokens_step (hj : s.jobs[i]? = some job) :
    (s.withTokens ts).step? i =
      (s.step? i).map (·.withTokens (ts.afterCall (s.callOf? (.turn i)))) := by
  rw [callOf?, hj, Option.bind_some, Job.nextCall?]
  unfold step?
  rw [show (s.withTokens ts).jobs[i]? = some job from hj, hj]
  dsimp only
  cases hp : job.phase with
  | spawned instant => exact congrArg some (withTokens_await s ts i instant)
  | looping => rfl
  | planning pause rest result =>
      dsimp only
      rw [withTokens_isOver _ _ hagree, withTokens_planOn i hnames hagree]
      split <;> rfl
  | waiting instant timer =>
      dsimp only
      rw [withTokens_waking? _ _ hagree, Option.map_map]
      congr 1
      funext w
      exact withTokens_wake s ts i job instant w
  | running instant pause rest =>
      dsimp only
      rw [withTokens_isOver _ _ hagree, withTokens_runOn i hnames hagree]
      split <;> rfl
  | returned => rfl
  | vanished => rfl

end

theorem tokens_of_call (c : Call) : (s.call a c).1.tokens = s.tokens.after c :=
  congrArg (fun r => r.1.tokens)
    (withTokens_call (s := s) a (show s.tokens.names = s.tokens.names from rfl) c)

theorem tokens_of_move {s s' : Scheduler} {m : Move} (hm : s.move? m = some s') :
    s'.tokens = s.tokens.afterCall (s.callOf? m) := by
  cases m with
  | call c =>
      cases hm
      exact s.tokens_of_call none c
  | turn k =>
      cases hj : s.jobs[k]? with
      | none => simp [move?, step?, hj] at hm
      | some job =>
          have hstep := withTokens_step (s := s) k
            (show s.tokens.names = s.tokens.names from rfl) rfl hj
          rw [show s.withTokens s.tokens = s from rfl, show s.step? k = some s' from hm] at hstep
          exact congrArg Scheduler.tokens (Option.some_inj.mp hstep)
  | pass ms =>
      cases hm
      rfl
  | shutdown =>
      cases hm
      rfl

end Scheduler

namespace Token

theorem below_refl (t : Token) : t.below t = true :=
  List.isSuffixOf_iff_suffix.mpr (List.suffix_refl t)

theorem below_trans {t u w : Token} (h : t.below u = true) (h' : u.below w = true) :
    t.below w = true := by
  rw [below, List.isSuffixOf_iff_suffix] at *
  exact h'.trans h

end Token

namespace Tokens

variable {ts ts' : Tokens} {T u : Token}

theorem isCancelled_of_below (h : ts.isCancelled T = true) (hu : u.below T = true) :
    ts.isCancelled u = true := by
  obtain ⟨w, hw, hT⟩ := List.any_eq_true.mp h
  exact List.any_eq_true.mpr ⟨w, hw, Token.below_trans hu hT⟩

theorem isCancelled_cancel (ts : Tokens) (w u : Token) :
    (ts.cancel w).isCancelled u = (u.below w || ts.isCancelled u) := rfl

theorem isCancelled_cancel_self (ts : Tokens) (w : Token) : (ts.cancel w).isCancelled w = true := by
  rw [isCancelled_cancel, w.below_refl, Bool.true_or]

theorem isCancelled_afterCall (h : ts.isCancelled u = true) (c : Option Call) :
    (ts.afterCall c).isCancelled u = true := by
  have hafter : ∀ c : Call, (ts.after c).isCancelled u = true := by
    intro c
    cases c with
    | cancelToken name =>
        rw [after, isCancelled_cancel, h, Bool.or_true]
    | _ => exact h
  cases c with
  | none => exact h
  | some c => exact hafter c

/-- Whether tokens are the same except for which of those below `T` are cancelled. -/
structure Besides (T : Token) (ts ts' : Tokens) : Prop where
  names : ts'.names = ts.names
  made : ts'.made = ts.made
  agree : ∀ u : Token, u.below T = false → ts'.isCancelled u = ts.isCancelled u

namespace Besides

theorem symm (h : Besides T ts ts') : Besides T ts' ts :=
  ⟨h.names.symm, h.made.symm, fun u hu => (h.agree u hu).symm⟩

theorem of_cancel (ts : Tokens) (T : Token) : Besides T ts (ts.cancel T) :=
  ⟨rfl, rfl, fun u hu => by rw [isCancelled_cancel, hu, Bool.false_or]⟩

theorem named (h : Besides T ts ts') (name : String) : ts'.named name = ts.named name := by
  rw [Tokens.named, Tokens.named, h.names]

theorem afterCall (h : Besides T ts ts') (c : Option Call) :
    Besides T (ts.afterCall c) (ts'.afterCall c) := by
  have hafter : ∀ c : Call, Besides T (ts.after c) (ts'.after c) := by
    intro c
    cases c with
    | newToken name above =>
        refine ⟨?_, ?_, h.agree⟩
        · cases above with
          | none => simp only [after, bind, h.names, h.made]
          | some parent => simp only [after, bind, h.names, h.made, h.named]
        · simp only [after, bind, h.made]
    | cancelToken name =>
        refine ⟨h.names, h.made, fun u hu => ?_⟩
        rw [after, after, isCancelled_cancel, isCancelled_cancel, h.named, h.agree u hu]
    | _ => exact h
  cases c with
  | none => exact h
  | some c => exact hafter c

end Besides

end Tokens

namespace Scheduler

/-- Whether schedulers are the same except for which of the tokens below `T` are cancelled. -/
structure Besides (T : Token) (s s' : Scheduler) : Prop where
  same : s' = s.withTokens s'.tokens
  tokens : s.tokens.Besides T s'.tokens

/-- Whether a move is no step of a runner whose token is `T` or below it. -/
def Spares (s : Scheduler) (T : Token) (m : Move) : Prop :=
  ∀ i job, m = .turn i → s.jobs[i]? = some job → job.token.below T = false

namespace Besides

variable {T : Token} {s s' t : Scheduler} {m : Move}

theorem symm (h : Besides T s s') : Besides T s' s := by
  refine ⟨?_, h.tokens.symm⟩
  rw [h.same]
  rfl

theorem move (h : Besides T s s') (hm : s.move? m = some t) (hspared : s.Spares T m) :
    ∃ t', s'.move? m = some t' ∧ Besides T t t' := by
  have hfind : s'.move? m = some (t.withTokens (s'.tokens.afterCall (s.callOf? m))) := by
    rw [h.same]
    cases m with
    | call c =>
        cases hm
        exact congrArg (fun r => some r.1) (withTokens_call none h.tokens.names c)
    | turn k =>
        cases hj : s.jobs[k]? with
        | none => simp [move?, step?, hj] at hm
        | some job =>
            have hagree := h.tokens.agree job.token (hspared k job rfl hj)
            have hstep := withTokens_step k h.tokens.names hagree hj
            rw [show s.step? k = some t from hm] at hstep
            exact hstep
    | pass ms =>
        cases hm
        rfl
    | shutdown =>
        cases hm
        rfl
  refine ⟨_, hfind, rfl, ?_⟩
  rw [tokens_of_move hm]
  exact h.tokens.afterCall _

end Besides

end Scheduler

end JobScheduler
