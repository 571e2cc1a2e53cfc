import JobScheduler.Proofs.Activity
import JobScheduler.Proofs.Requests
import JobScheduler.Proofs.RunnerEnd

/-!
The rounds of a periodic job. In each its runner calls the runtime function once, starts one
execution, on a run signal or by its timer, and comes to the end of it; the last round ends with the
runner's return instead. So a run shows whole rounds and the part of one that is underway
(`Run.rounded`), and the calls of the runtime function are as many as the executions, or one more.
-/

namespace JobScheduler

/-- What a periodic job's runner does in a round. -/
inductive Stage where
  /-- It called the runtime function. -/
  | asked
  /-- It reported a start and entered the job function. -/
  | started (trigger : Trigger)
  /-- The execution came to its end. -/
  | finished
  /-- It returned. -/
  | retired
deriving DecidableEq, Repr

namespace Stage

/-- A whole round. -/
def round (trigger : Trigger) : List Stage := [asked, started trigger, finished]

def isStart : Stage → Bool
  | started _ => true
  | _ => false

/-- The marks of a stage, in the order in which they are made. -/
def marks : Stage → List Mark
  | asked => [.asked]
  | started trigger => [.reported (.started trigger), .entered]
  | finished => []
  | retired => [.reported .cancelled]

end Stage

/-- The stage that a runner has behind it when it comes from one phase to another. -/
def Phase.stage? (signal : Bool) : Phase → Phase → Option Stage
  | looping, planning .. => some .asked
  | waiting .., running .. => some (.started (if signal then .signal else .timer))
  | running .., looping => some .finished
  | planning .., returned | waiting .., returned => some .retired
  | _, _ => none

/-- The stage that the runner of job `i` has behind it after a move, if the move is one. -/
def Scheduler.stage? (s : Scheduler) (m : Move) (i : JobId) : Option Stage :=
  match s.jobs[i]?, (s.move? m).bind (·.jobs[i]?) with
  | some job, some job' => job.phase.stage? (s.signals m i) job'.phase
  | _, _ => none

/-- The stages of the runner of job `i` in a run, the latest first. -/
def Run.stages (past : List (Scheduler × Move)) (i : JobId) : List Stage :=
  past.filterMap fun e => e.1.stage? e.2 i

/-- What a runner has done of the round underway, by what it is at. -/
inductive Underway : Phase → List Stage → Prop where
  | looping : Underway .looping []
  | planning {pause : Pause} {rest : List Action} {result : Except RuntimeError Moment} :
      Underway (.planning pause rest result) [.asked]
  | waiting {instant : Int} {timer : Option Int} : Underway (.waiting instant timer) [.asked]
  | running {instant : Int} {pause : Pause} {rest : List Action} (trigger : Trigger) :
      Underway (.running instant pause rest) [.asked, .started trigger]
  | returned : Underway .returned [.asked, .retired]
  | vanished {phase : Phase} {under : List Stage} :
      phase.alive = true → Underway phase under → Underway .vanished under

/-- Whether these are the stages of a job: a whole round for each trigger, and the part of a round
that is underway. -/
structure Job.Rounded (j : Job) (stages : List Stage) (triggers : List Trigger)
    (under : List Stage) : Prop where
  stages : stages = triggers.flatMap Stage.round ++ under
  underway : Underway j.phase under
  asks : j.asks = triggers.length + under.count .asked
  runs : j.runs = triggers.length + under.countP Stage.isStart

/-- Whether a job came so far by completing a stage, or none, after others, and by showing the marks
of that stage. -/
def Job.Advances (j : Job) (stages : List Stage) (ms : List Mark) (stage : Option Stage) : Prop :=
  (∃ triggers under, j.Rounded (stages ++ stage.toList) triggers under) ∧
    (ms.filter Mark.visible).reverse = stage.toList.flatMap Stage.marks

theorem Phase.stage?_self (signal : Bool) (phase : Phase) : phase.stage? signal phase = none := by
  cases phase <;> rfl

theorem Phase.stage?_vanished (signal : Bool) (phase : Phase) :
    phase.stage? signal .vanished = none := by
  cases phase <;> rfl

namespace Underway

variable {phase : Phase} {under : List Stage}

theorem of_waiting {instant : Int} {timer : Option Int} (h : Underway phase under)
    (hp : phase = .waiting instant timer) : under = [.asked] := by
  subst hp
  cases h
  rfl

theorem of_planning {pause : Pause} {rest : List Action} {result : Except RuntimeError Moment}
    (h : Underway phase under) (hp : phase = .planning pause rest result) : under = [.asked] := by
  subst hp
  cases h
  rfl

theorem asked_le (h : Underway phase under) :
    under.countP Stage.isStart ≤ under.count .asked ∧
      under.count .asked ≤ under.countP Stage.isStart + 1 := by
  induction h with
  | vanished _ _ ih => exact ih
  | running trigger => cases trigger <;> decide
  | _ => decide

end Underway

namespace Job.Rounded

variable {j j' : Job} {stages under : List Stage} {triggers : List Trigger}

theorem close (h : j.Rounded stages triggers under) (j' : Job) {instant : Int} {pause : Pause}
    {rest : List Action} (hp : j.phase = .running instant pause rest)
    (hp' : j'.phase = .looping) (hasks : j'.asks = j.asks) (hruns : j'.runs = j.runs) :
    ∃ triggers', j'.Rounded (stages ++ [.finished]) triggers' [] := by
  obtain ⟨hstages, hunder, ha, hr⟩ := h
  rw [hp] at hunder
  cases hunder with
  | running trigger =>
      refine ⟨triggers ++ [trigger], ?_, ?_, ?_, ?_⟩
      · rw [hstages]
        simp [Stage.round]
      · rw [hp']
        exact .looping
      · rw [hasks, ha]
        simp
      · rw [hruns, hr]
        simp [Stage.isStart]

theorem paced (h : j.Rounded stages triggers under) : j.runs ≤ j.asks ∧ j.asks ≤ j.runs + 1 := by
  have hle := h.underway.asked_le
  rw [h.asks, h.runs]
  omega

theorem completes (h : j.Rounded stages triggers under) (st : Stage) {ms : List Mark}
    (hu : Underway j'.phase (under ++ [st])) (hasks : j'.asks = j.asks + [st].count .asked)
    (hruns : j'.runs = j.runs + [st].countP Stage.isStart)
    (hshown : (ms.filter Mark.visible).reverse = st.marks) :
    j'.Advances stages ms (some st) := by
  refine ⟨⟨triggers, under ++ [st], ?_, hu, ?_, ?_⟩, ?_⟩
  · rw [h.stages, List.append_assoc]
    rfl
  · rw [hasks, h.asks, List.count_append, Nat.add_assoc]
  · rw [hruns, h.runs, List.countP_append, Nat.add_assoc]
  · rw [hshown]
    simp

theorem idle (h : j.Rounded stages triggers under) {ms : List Mark} (hu : Underway j'.phase under)
    (hasks : j'.asks = j.asks) (hruns : j'.runs = j.runs)
    (hshown : (ms.filter Mark.visible).reverse = []) : j'.Advances stages ms none := by
  refine ⟨⟨triggers, under, ?_, hu, hasks.trans h.asks, hruns.trans h.runs⟩, hshown⟩
  rw [Option.toList_none, List.append_nil]
  exact h.stages

theorem asks_of_asked (h : j.Rounded stages triggers [.asked]) : j.asks = j.runs + 1 := by
  rw [h.asks, h.runs]
  rfl

end Job.Rounded

namespace Situation

theorem asks_await (v : Situation) (instant : Int) : (v.await instant).job.asks = v.job.asks := by
  unfold await
  split
  · rfl
  · rw [update_job, Job.vanish]
    split <;> rfl

theorem underway_await {v : Situation} (ha : v.job.phase.alive = true)
    (hu : Underway v.job.phase [.asked]) (instant : Int) :
    Underway (v.await instant).job.phase [.asked] := by
  unfold await
  split
  · exact .waiting
  · rw [update_job, Job.vanish, if_pos ha]
    exact .vanished ha hu

theorem stage?_await (v : Situation) (signal : Bool) {pause : Pause} {rest : List Action}
    {result : Except RuntimeError Moment} (instant : Int) (ha : v.job.phase.alive = true) :
    Phase.stage? signal (.planning pause rest result) (v.await instant).job.phase = none := by
  unfold await
  split
  · rfl
  · rw [update_job, Job.vanish, if_pos ha]
    rfl

theorem shown_giveUp (v : Situation) :
    ((.reported .cancelled :: v.leftover).filter Mark.visible).reverse =
      [.reported .cancelled] := by
  rw [List.filter_cons_of_pos rfl, v.unseen_leftover.filter]
  rfl

end Situation

theorem Touch.shown {v v' : Situation} {ms : List Mark} (h : Touch v ms v') :
    (ms.filter Mark.visible).reverse = [] := by
  cases h <;> rfl

/-- A step of a periodic job's runner goes on with its round. -/
theorem Turn.advances {v v' : Situation} {ms : List Mark} (h : Turn v ms v') (hv : v.Sound)
    (hper : v.job.record.periodic = true) {stages under : List Stage} {triggers : List Trigger}
    (hr : v.job.Rounded stages triggers under) :
    v'.job.Advances stages ms (v.job.phase.stage? v.isSignalled v'.job.phase) := by
  have ht := hv.tended_of_alive h.alive
  have hu := hr.underway
  cases h with
  | begin hp =>
      have hsuits := ht.suits
      rw [hp, hper] at hsuits
      exact absurd hsuits (by simp [Phase.suits])
  | ask hp =>
      rw [hp] at hu ⊢
      cases hu
      exact hr.completes .asked .planning rfl rfl rfl
  | plan hp _ htouch _ =>
      obtain rfl := hu.of_planning hp
      rw [hp]
      exact hr.idle .planning htouch.asks_eq htouch.runs_eq htouch.shown
  | arrange hp _ =>
      obtain rfl := hu.of_planning hp
      have ha : v.job.phase.alive = true := by rw [hp]; rfl
      have hshown : (v.awaitMarks.filter Mark.visible).reverse = [] := by
        rw [v.unseen_awaitMarks.filter]
        rfl
      rw [hp, v.stage?_await _ _ ha]
      exact hr.idle (Situation.underway_await ha hu _) (v.asks_await _) (v.runs_await _) hshown
  | giveUp hp _ _ _ =>
      obtain rfl := hu.of_planning hp
      rw [hp]
      exact hr.completes .retired .returned rfl rfl v.shown_giveUp
  | orphaned hp _ =>
      obtain rfl := hu.of_waiting hp
      rw [hp]
      exact hr.completes .retired .returned rfl rfl v.shown_giveUp
  | stopped hp _ _ =>
      obtain rfl := hu.of_waiting hp
      rw [hp]
      exact hr.completes .retired .returned rfl rfl v.shown_giveUp
  | signalled hp ho hc hrun =>
      obtain rfl := hu.of_waiting hp
      have hsignal : v.isSignalled = true := by simp [Situation.isSignalled, hp, ho, hc, hrun]
      rw [hp, hsignal]
      exact hr.completes (.started .signal) (.running .signal) rfl rfl rfl
  | skipped hp hrun hactive =>
      exact absurd hactive (Bool.eq_false_iff.mp (hv.active_eq_false hp hrun))
  | timed hp _ _ _ hrun _ =>
      obtain rfl := hu.of_waiting hp
      have hsignal : v.isSignalled = false := by simp [Situation.isSignalled, hp, hrun]
      rw [hp, hsignal]
      exact hr.completes (.started .timer) (.running .timer) rfl rfl rfl
  | act hp _ htouch _ =>
      rw [hp] at hu ⊢
      cases hu
      exact hr.idle (.running _) htouch.asks_eq htouch.runs_eq htouch.shown
  | complete hp _ _ =>
      have hnew : v.complete = (v.withRecord Record.deactivate).withPhase .looping := if_pos hper
      rw [hnew, hp, if_pos hper]
      obtain ⟨triggers', hclose⟩ :=
        hr.close ((v.withRecord Record.deactivate).withPhase .looping).job hp rfl rfl rfl
      exact ⟨⟨triggers', [], hclose⟩, rfl⟩

theorem Change.advances {i : JobId} {m : Move} {v v' : Situation} {ms : List Mark}
    (h : Change i m v ms v') (hv : v.Sound) (hper : v.job.record.periodic = true)
    {stages under : List Stage} {triggers : List Trigger}
    (hr : v.job.Rounded stages triggers under) :
    v'.job.Advances stages ms
      (v.job.phase.stage? (m.isTurnOf i && v.isSignalled) v'.job.phase) := by
  cases h with
  | touch _ ht =>
      have hu := hr.underway
      rw [← ht.phase_eq] at hu
      rw [ht.phase_eq, Phase.stage?_self]
      exact hr.idle hu ht.asks_eq ht.runs_eq ht.shown
  | turn ht =>
      rw [Move.isTurnOf, beq_self_eq_true, Bool.true_and]
      exact ht.advances hv hper hr
  | pass =>
      rw [Phase.stage?_self]
      exact hr.idle hr.underway rfl rfl rfl
  | vanish =>
      have hshown : (v.vanishMarks.filter Mark.visible).reverse = [] := by
        rw [v.unseen_vanishMarks.filter]
        rfl
      rw [Situation.update_job, Job.vanish]
      split
      · rename_i ha
        have hstage := v.job.phase.stage?_vanished (Move.isTurnOf i .shutdown && v.isSignalled)
        rw [show (v.job.leave .vanished).phase = .vanished from rfl, hstage]
        exact hr.idle (.vanished ha hr.underway) rfl rfl hshown
      · rw [Phase.stage?_self]
        exact hr.idle hr.underway rfl rfl hshown

theorem Situation.Born.rounded {v : Situation} (h : v.Born) (hper : v.job.record.periodic = true) :
    v.job.Rounded [] [] [] := by
  cases h with
  | inside _ hj =>
      rcases hj.phase with ⟨-, hone⟩ | ⟨hp, -⟩
      · exact absurd (hone.symm.trans hper) Bool.false_ne_true
      · refine ⟨rfl, ?_, hj.asks, hj.runs⟩
        rw [hp]
        exact .looping
  | @outside j _ hj hjob =>
      rw [hjob] at hper ⊢
      rcases hj.phase with ⟨-, hone⟩ | ⟨hp, -⟩
      · exact absurd (hone.symm.trans hper) Bool.false_ne_true
      · exact ⟨rfl, .vanished (show Phase.looping.alive = true from rfl) .looping, hj.asks, hj.runs⟩

namespace Scheduler

variable {s s' t : Scheduler} {m : Move} {i : JobId} {v v' : Situation}

theorem stage?_eq (hv : s.situation? i = some v) (h : s.move? m = some s')
    (hv' : s'.situation? i = some v') :
    s.stage? m i = v.job.phase.stage? (m.isTurnOf i && v.isSignalled) v'.job.phase := by
  rw [stage?, (situation?_eq_some.mp hv).1, h, Option.bind_some, (situation?_eq_some.mp hv').1,
    signals_eq hv]

theorem stage?_of_none (hn : s.situation? i = none) (m : Move) : s.stage? m i = none := by
  rw [stage?, Option.map_eq_none_iff.mp hn]

theorem Alike.stage? (h : s.Alike t) (m : Move) (i : JobId) : s.stage? m i = t.stage? m i := by
  unfold Scheduler.stage?
  rw [h.jobs, h.signals]
  cases hs : s.move? m with
  | some s' =>
      obtain ⟨t', ht, halike⟩ := h.move hs
      rw [ht, Option.bind_some, Option.bind_some, halike.jobs]
  | none =>
      cases ht : t.move? m with
      | some t' =>
          obtain ⟨s', hs', -⟩ := h.symm.move ht
          exact absurd (hs.symm.trans hs') (by simp)
      | none => rfl

end Scheduler

namespace Run

variable {monitor : Monitor} {logging : Bool} {past past' : List (Scheduler × Move)}
  {s t : Scheduler} {i : JobId} {v : Situation} {job : Job}

theorem stages_cons (s : Scheduler) (m : Move) (past : List (Scheduler × Move)) (i : JobId) :
    (stages ((s, m) :: past) i).reverse = (stages past i).reverse ++ (s.stage? m i).toList := by
  rw [stages, List.filterMap_cons]
  cases s.stage? m i with
  | none => rw [Option.toList_none, List.append_nil, stages]
  | some st =>
      rw [Option.toList_some, List.reverse_cons, stages]

theorem stages_of_none (run : Run (.initial monitor logging) past s) (hn : s.situation? i = none) :
    stages past i = [] := by
  induction run with
  | start => rfl
  | @next past s s' m run hm ih =>
      cases hs : s.situation? i with
      | none =>
          have hnew := stages_cons s m past i
          rw [ih hs, Scheduler.stage?_of_none hs] at hnew
          exact List.reverse_eq_nil_iff.mp hnew
      | some v =>
          obtain ⟨ms, v', -, htells, -⟩ := Scheduler.change_of_move run.named hs hm
          exact absurd (hn.symm.trans htells.situation) (by simp)

/-- In every run a periodic job has whole rounds behind it and part of one underway, and a recording
monitor is shown, after the report that the job is scheduled, just the marks of these. -/
theorem rounded (run : Run (.initial monitor logging) past s) (hv : s.situation? i = some v)
    (hper : v.job.record.periodic = true) :
    (∃ triggers under, v.job.Rounded (stages past i).reverse triggers under) ∧
    (monitor = .recording → (s.marks i).reverse =
      .reported .scheduled :: (stages past i).reverse.flatMap Stage.marks) := by
  induction run generalizing v with
  | start => exact absurd hv (by simp [Scheduler.situation?, Scheduler.initial])
  | @next past s s' m run hm ih =>
      rw [stages_cons]
      cases Scheduler.origin_of_move run.named hm hv with
      | @changed v₁ ms hs hchange htells _ =>
          have hper₁ : v₁.job.record.periodic = true :=
            (Scheduler.periodic_eq_of_terms hchange.terms_eq).symm.trans hper
          obtain ⟨⟨triggers, under, hr⟩, hmarks⟩ := ih hs hper₁
          obtain ⟨hr', hshown⟩ := hchange.advances (run.sound hs) hper₁ hr
          rw [Scheduler.stage?_eq hs hm htells.situation]
          refine ⟨hr', fun hrec => ?_⟩
          subst hrec
          rw [htells.marks run.recording, List.reverse_append, hmarks rfl, hshown,
            List.flatMap_append, List.cons_append]
      | born hs hborn _ _ hrec =>
          obtain ⟨hmarks, -⟩ := run.unborn hs
          rw [run.stages_of_none hs, Scheduler.stage?_of_none hs]
          refine ⟨⟨[], [], hborn.rounded hper⟩, fun hmon => ?_⟩
          subst hmon
          rw [(hrec run.recording).1, hmarks]
          rfl

theorem stages_alike {a b : Scheduler} (run : Run a past s) (run' : Run b past' t)
    (h : a.Alike b) (hmoves : past'.map (·.2) = past.map (·.2)) (i : JobId) :
    stages past i = stages past' i := by
  have hmap := run.alike_map run' h hmoves (fun s m => s.stage? m i) fun h m => h.stage? m i
  have hstages : ∀ past : List (Scheduler × Move),
      stages past i = (past.map fun e => e.1.stage? e.2 i).filterMap id := by
    intro past
    rw [List.filterMap_map]
    rfl
  rw [hstages, hmap, ← hstages]

end Run

theorem count_cancelled_rounds (triggers : List Trigger) (under : List Stage) :
    ((triggers.flatMap Stage.round ++ under).flatMap Stage.marks).count (.reported .cancelled) =
      under.count .retired := by
  induction triggers with
  | nil =>
      rw [List.flatMap_nil, List.nil_append]
      induction under with
      | nil => rfl
      | cons st under ih =>
          rw [List.flatMap_cons, List.count_append, ih, List.count_cons, Nat.add_comm]
          congr 1
          cases st <;> rfl
  | cons trigger triggers ih =>
      rw [List.flatMap_cons, List.append_assoc, List.flatMap_append, List.count_append, ih]
      simp [Stage.round, Stage.marks]

namespace Scheduler

variable {s s' : Scheduler} {i : JobId} {job : Job}

theorem planOn_of_over (s : Scheduler) (i : JobId) (job : Job) {rest : List Action}
    {result : Except RuntimeError Moment} (hover : Action.over rest = true)
    (hend : rest = [] → ∃ e, result = .error e) :
    ∃ e, s.planOn i job result rest = (s.log (some i) e).retire i job := by
  cases rest with
  | nil =>
      obtain ⟨e, rfl⟩ := hend rfl
      cases e with
      | noMoreInstances => exact ⟨.noMoreInstances, rfl⟩
      | failed reason => exact ⟨.runtimeFailed (.failed reason), rfl⟩
  | cons action rest =>
      cases action with
      | panic payload => exact ⟨.runtimePanicked payload, rfl⟩
      | _ => exact absurd hover (by simp [Action.over])

theorem returned_of_givesUp (hj : s.jobs[i]? = some job) (hg : job.GivesUp)
    (hm : s.move? (.turn i) = some s') :
    ∃ job', s'.jobs[i]? = some job' ∧ job'.phase = .returned ∧ job'.runs = job.runs ∧
      job'.asks = job.asks := by
  obtain ⟨pause, rest, result, hp, hover, hend⟩ := hg
  obtain ⟨e, hretire⟩ := s.planOn_of_over i job hover hend
  simp only [move?, step?, hj, hp] at hm
  obtain ⟨-, hs'⟩ := Option.ite_none_right_eq_some.mp hm
  obtain rfl := Option.some_inj.mp hs'
  have hv := (retire_own (situation?_of_getElem? hj) e).situation
  rw [show s.planOn i job result rest = _ from hretire]
  exact ⟨_, (situation?_eq_some.mp hv).1, rfl, rfl, rfl⟩

/-- What the history tells of a periodic job with these stages behind it. -/
structure ToldRounds (s : Scheduler) (i : JobId) (job : Job) (stages : List Stage) : Prop where
  marks : (s.marks i).reverse = .reported .scheduled :: stages.flatMap Stage.marks
  entered : s.entries i = job.runs
  atMostOnce : s.reports i .cancelled ≤ 1
  once : job.phase = .returned → s.reports i .cancelled = 1
  last : job.phase = .returned → ∃ later e earlier cls, s.history = later ++ e :: earlier ∧
    e.what = .reported i .cancelled cls ∧ ∀ e' ∈ later, ¬e'.concerns i

end Scheduler

namespace Run

variable {monitor : Monitor} {logging : Bool} {past past' : List (Scheduler × Move)}
  {s s₂ t : Scheduler} {i : JobId} {job job₂ : Job}

theorem cancelled_of_periodic (run : Run (.initial .recording logging) past s)
    (hj : s.jobs[i]? = some job) (hper : job.record.periodic = true)
    (hp : job.phase = .returned) : s.reports i .cancelled = 1 := by
  obtain ⟨⟨triggers, under, hr⟩, hmarks⟩ :=
    run.rounded (Scheduler.situation?_of_getElem? hj) hper
  have hu := hr.underway
  rw [show (Scheduler.situate s i job).job.phase = .returned from hp] at hu
  rw [Scheduler.reports, ← List.count_reverse, hmarks rfl, hr.stages,
    List.count_cons_of_ne (by simp), count_cancelled_rounds]
  cases hu
  rfl

theorem toldRounds (run : Run (.initial .recording logging) past s) (hj : s.jobs[i]? = some job)
    (hper : job.record.periodic = true) : s.ToldRounds i job (stages past i).reverse := by
  have hv := Scheduler.situation?_of_getElem? hj
  have hreturned := run.cancelled_of_periodic hj hper
  refine ⟨(run.rounded hv hper).2 rfl, (run.entries_eq hv).1, ?_, hreturned,
    run.cancelled_last hj hper⟩
  by_cases hp : job.phase = .returned
  · exact Nat.le_of_eq (hreturned hp)
  · rw [run.not_cancelled hj hp]
    exact Nat.zero_le 1

theorem asks_of_givesUp (run : Run (.initial monitor logging) past s)
    (hmem : (s₂, .turn i) ∈ past) (hj₂ : s₂.jobs[i]? = some job₂) (hg : job₂.GivesUp)
    (hj : s.jobs[i]? = some job) (hper : job.record.periodic = true) :
    job.asks = job₂.asks ∧ job.runs + 1 = job₂.asks := by
  obtain ⟨past₂, s₃, past₃, before, hm, after⟩ := run.of_mem hmem
  obtain ⟨job₃, hj₃, hp₃, hruns₃, hasks₃⟩ := Scheduler.returned_of_givesUp hj₂ hg hm
  obtain ⟨job', hj', -, hruns, hasks⟩ := (before.next _ hm).gone hj₃ (by rw [hp₃]; rfl) after
  obtain rfl : job = job' := Option.some_inj.mp (hj.symm.trans hj')
  have hterms := ((single _ hm).trans after).terms_eq hj₂ hj
  have hper₂ : job₂.record.periodic = true :=
    (Scheduler.periodic_eq_of_terms hterms).symm.trans hper
  obtain ⟨⟨triggers, under, hr⟩, -⟩ :=
    before.rounded (Scheduler.situation?_of_getElem? hj₂) hper₂
  obtain ⟨pause, rest, result, hp, -⟩ := hg
  obtain rfl := hr.underway.of_planning hp
  have hpace : job₂.asks = job₂.runs + 1 := hr.asks_of_asked
  omega

/-- Every call that schedules a periodic job makes a job that has whole rounds behind it, and part
of one underway: a call of the runtime function, a start, and the end of the execution. So in every
state the runtime function was called as often as the job function was entered, or once more; and if
it gave up in its `k`-th call, the job function was entered `k - 1` times in all. The observer is
told of nothing except that the job is scheduled and then of these stages, at most once that it was
cancelled, and once if its runner returned; no event after that is about the job. -/
theorem periodic_rounds (run : Run (.initial monitor logging) past s) {s₁ : Scheduler} {m : Move}
    (hmem : (s₁, m) ∈ past) {o : JobOrder} {work : Option Work} {plan : Option (Plan Action)}
    (hcall : s₁.callOf? m = some (.schedulePeriodic o work plan))
    (hdone : (s₁.schedulePeriodic (Scheduler.actorOf m) o work plan).2 = .done) :
    ∃ job, s.jobs[s₁.jobs.length]? = some job ∧ job.record.label = (o.name, o.cls, true) ∧
      (∃ triggers under, job.Rounded (stages past s₁.jobs.length).reverse triggers under) ∧
      (job.runs ≤ job.asks ∧ job.asks ≤ job.runs + 1) ∧
      (∀ s₂ job₂, (s₂, .turn s₁.jobs.length) ∈ past → s₂.jobs[s₁.jobs.length]? = some job₂ →
        job₂.GivesUp → job.asks = job₂.asks ∧ job.runs + 1 = job₂.asks) ∧
      (∃ t, Recorded past t) ∧
      ∀ t, Recorded past t →
        t.ToldRounds s₁.jobs.length job (stages past s₁.jobs.length).reverse := by
  obtain ⟨past₁, s₂, past₂, -, hm, after⟩ := run.of_mem hmem
  obtain ⟨job₂, hadded, hlabel⟩ := Scheduler.scheduledPeriodic_of_done hdone
  obtain ⟨job, hj, hterms⟩ := after.terms (Scheduler.added_of_move hm hcall hadded)
  have hlabel' : job.record.label = (o.name, o.cls, true) :=
    (congrArg (fun t => t.1) hterms).trans hlabel
  have hper : job.record.periodic = true := congrArg (fun t => t.2.2) hlabel'
  obtain ⟨⟨triggers, under, hr⟩, -⟩ := run.rounded (Scheduler.situation?_of_getElem? hj) hper
  refine ⟨job, hj, hlabel', ⟨triggers, under, hr⟩, hr.paced, ?_, run.exists_recorded, ?_⟩
  · intro s₂ job₂ hmem₂ hj₂ hg
    exact run.asks_of_givesUp hmem₂ hj₂ hg hj hper
  · intro t ht
    obtain ⟨logging', past', run', hmoves, hjobs⟩ := run.of_recorded ht
    rw [run.stages_alike run' ⟨rfl, rfl, rfl, rfl, rfl⟩ hmoves]
    rw [← hjobs] at hj
    exact run'.toldRounds hj hper

theorem rounds_of_periodic : ∃ past s job, Run (.initial .recording false) past s ∧
    s.jobs[0]? = some job ∧ job.phase = .returned ∧ job.asks = 2 ∧
      (stages past 0).reverse = [.asked, .started .timer, .finished, .asked, .retired] ∧
      s.ToldRounds 0 job (stages past 0).reverse := by
  have run := (begun (.initial .recording false)).next
    (.call (.schedulePeriodic plainOrder (some []) (some ⟨[⟨[], .ok (.after 1)⟩], none⟩))) rfl
    |>.next (.turn 0) rfl |>.next (.turn 0) rfl |>.next (.pass 1) rfl |>.next (.turn 0) rfl
    |>.next (.turn 0) rfl |>.next (.turn 0) rfl |>.next (.turn 0) rfl
  obtain ⟨job, hj, -, -, -, -, -, htold⟩ :=
    run.periodic_rounds (List.mem_of_getElem? (i := 7) rfl) rfl rfl
  refine ⟨_, _, job, run, hj, ?_, ?_, rfl, htold _ ⟨false, _, run, rfl⟩⟩
  · cases hj
    rfl
  · cases hj
    rfl

end Run

end JobScheduler
