import Mathlib.Algebra.Ring.Int.Defs
import JobScheduler.Proofs.Timers

/-!
Executions are not interrupted (`Performance.uninterrupted`). Once a job function is entered that
does nothing but to sleep, to look at its token and to make calls, its runner's turns carry out its
actions one by one, whatever else happens except for the loss of all runners. The job is active
until the execution is over; and where nothing stalls, that is when it has slept as long as it says.
-/

namespace JobScheduler

namespace Action

/-- How long an action takes. -/
def span : Action → Int
  | sleep ms => min (max ms 0) longestWait
  | _ => 0

/-- Whether an action takes a time that is known before. -/
def isSteady : Action → Bool
  | sleep _ | context | call _ => true
  | _ => false

def spans (actions : List Action) : Int := (actions.map span).sum

theorem span_nonneg (action : Action) : 0 ≤ action.span := by
  cases action with
  | sleep ms =>
      simp only [span, longestWait]
      omega
  | _ => exact Int.le_refl _

theorem spans_nonneg (actions : List Action) : 0 ≤ spans actions := by
  induction actions with
  | nil => exact Int.le_refl _
  | cons action rest ih =>
      have hspan := action.span_nonneg
      simp only [spans, List.map_cons, List.sum_cons] at ih ⊢
      omega

theorem spans_append (actions rest : List Action) :
    spans (actions ++ rest) = spans actions + spans rest := by
  simp [spans]

theorem over_of_steady {actions : List Action} (hsteady : ∀ a ∈ actions, a.isSteady = true)
    (hover : Action.over actions = true) : actions = [] := by
  cases actions with
  | nil => rfl
  | cons action rest =>
      have hfirst := hsteady action List.mem_cons_self
      cases action <;>
        first | exact absurd hfirst Bool.false_ne_true | exact absurd hover Bool.false_ne_true

theorem opened_of_steady {actions : List Action} (hsteady : ∀ a ∈ actions, a.isSteady = true) :
    opened actions = actions := by
  unfold opened
  split
  · exact absurd (hsteady _ List.mem_cons_self) nofun
  · rfl

end Action

namespace Scheduler

/-- Whether job `i` is active. -/
def Active (s : Scheduler) (i : JobId) : Prop :=
  ∃ job, s.jobs[i]? = some job ∧ job.record.active = true

/-- Whether job `i` is in its job function, with some actions left to carry out. -/
def Executes (s : Scheduler) (i : JobId) (pause : Pause) (left : List Action) : Prop :=
  ∃ job instant, s.jobs[i]? = some job ∧ job.phase = .running instant pause left

/-- Whether the next step of the runner of job `i` carries out an action of the job function. -/
def CarriesOut (s : Scheduler) (i : JobId) (action : Action) : Prop :=
  ∃ job instant pause rest, s.jobs[i]? = some job ∧
    job.phase = .running instant pause (action :: rest) ∧
    s.step? i = some ((s.act i job action).1.setPhase i
      (.running instant (s.act i job action).2 rest))

/-- Whether the next step of the runner of job `i` writes that the execution ends, after which the
job is not active. -/
def Finishes (s : Scheduler) (i : JobId) : Prop :=
  ∃ s', s.step? i = some s' ∧ ¬s'.Active i ∧
    ∃ new, s'.history = new ++ ⟨s.now, some i, .ended⟩ :: s.history

/-- Whether a move makes job `i` active: it requests a run of it, or starts one. -/
def Activates (s : Scheduler) (m : Move) (i : JobId) : Prop :=
  s.accepted? m = some i ∨ ∃ trigger, s.stage? m i = some (.started trigger)

/-- Whether an execution that waits has come to a time `t`, or will have when the pause is over. -/
def Comes (s : Scheduler) (t : Int) : Pause → Prop
  | .none => s.now = t
  | .clock deadline => deadline = t
  | .token => False

end Scheduler

/-- Whether the turns of job `i`, the latest first, carry out these actions in order, and nothing
else. -/
inductive Run.CarriesOut (i : JobId) : List (Scheduler × Move) → List Action → Prop where
  | start : CarriesOut i [] []
  | other {past : List (Scheduler × Move)} {done : List Action} {s : Scheduler} {m : Move} :
      CarriesOut i past done → m ≠ .turn i → CarriesOut i ((s, m) :: past) done
  | action {past : List (Scheduler × Move)} {done : List Action} {s : Scheduler}
      {action : Action} : CarriesOut i past done → s.CarriesOut i action →
      CarriesOut i ((s, .turn i) :: past) (done ++ [action])

/-- Whether an execution of these actions is underway: some of them were carried out and the others
are left, and the job was active all the time. -/
def Run.InProgress (later : List (Scheduler × Move)) (i : JobId) (body : List Action)
    (s : Scheduler) : Prop :=
  ∃ done left pause, body = done ++ left ∧ CarriesOut i later done ∧ s.Executes i pause left ∧
    (∀ e ∈ later, e.1.Active i) ∧ s.Active i

/-- Whether an execution of these actions came to its end in the turn at `e`: all of them were
carried out and the job was active all the time, and if it is active now it was so made since. -/
def Run.Completed (later : List (Scheduler × Move)) (i : JobId) (body : List Action)
    (e s : Scheduler) : Prop :=
  ∃ after between, later = after ++ (e, .turn i) :: between ∧ CarriesOut i between body ∧
    (∀ x ∈ between, x.1.Active i) ∧ e.Active i ∧ e.Finishes i ∧
    (s.Active i → ∃ x ∈ after, x.1.Activates x.2 i)

theorem Change.executes {i : JobId} {m : Move} {v v' : Situation} {ms : List Mark}
    (h : Change i m v ms v') (hm : m ≠ .shutdown) {instant : Int} {pause : Pause}
    {left : List Action} (hp : v.job.phase = .running instant pause left) :
    m ≠ .turn i ∧ v'.job.phase = .running instant pause left ∨
      m = .turn i ∧ v.isOver pause = true ∧
        ((∃ action rest, left = action :: rest ∧
            v'.job.phase = .running instant (action.pause v.now) rest) ∨
          Action.over left = true ∧ v' = v.complete) := by
  cases h with
  | touch hother ht => exact .inl ⟨hother, ht.phase_eq.trans hp⟩
  | turn ht =>
      cases ht with
      | act hq ho =>
          obtain ⟨rfl, rfl, rfl⟩ := Phase.running.inj (hq.symm.trans hp)
          exact .inr ⟨rfl, ho, .inl ⟨_, _, rfl, rfl⟩⟩
      | complete hq ho hover =>
          obtain ⟨rfl, rfl, rfl⟩ := Phase.running.inj (hq.symm.trans hp)
          exact .inr ⟨rfl, ho, .inr ⟨hover, rfl⟩⟩
      | begin hq | ask hq | plan hq | arrange hq | giveUp hq | orphaned hq | stopped hq
      | signalled hq | skipped hq | timed hq => exact absurd (hq.symm.trans hp) nofun
  | pass => exact .inl ⟨nofun, hp⟩
  | vanish => exact absurd rfl hm

theorem Situation.inactive_complete (v : Situation) : v.complete.job.record.active = false := by
  unfold complete
  split <;> rfl

theorem Record.active_of_error {r : Record} {e : ServiceError} (h : r.triggerRun.2 = .error e) :
    r.triggerRun.1.active = r.active := by
  rcases r.triggerRun_cases with ⟨e', hrefused⟩ | ⟨-, -, -, haccepted⟩
  · rw [hrefused]
  · rw [haccepted] at h
    exact absurd h (by simp)

theorem Record.active_cancel (r : Record) : r.cancel.1.active = r.active := by
  unfold cancel
  split <;> rfl

theorem Job.active_vanish (j : Job) : j.vanish.record.active = j.record.active := by
  unfold vanish
  split <;> rfl

theorem Situation.active_await (v : Situation) (instant : Int) :
    (v.await instant).job.record.active = v.job.record.active := by
  unfold await
  split
  · rfl
  · exact v.job.active_vanish

theorem Touch.activates {v v' : Situation} {ms : List Mark} (h : Touch v ms v') :
    ms.count .accepted = 1 ∨ v'.job.record.active = v.job.record.active := by
  cases h with
  | accept => exact .inl rfl
  | refuse _ he => exact .inr (Record.active_of_error he)
  | stop => exact .inr (Record.active_cancel _)
  | _ => exact .inr rfl

theorem Turn.activates {v v' : Situation} {ms : List Mark} (h : Turn v ms v')
    (hv : v.job.record.active = false) (hv' : v'.job.record.active = true) :
    ms.count .accepted = 1 ∨
      ∀ signal, ∃ trigger, v.job.phase.stage? signal v'.job.phase = some (.started trigger) := by
  have hkept : v'.job.record.active ≠ v.job.record.active := by simp [hv, hv']
  cases h with
  | begin | arrange => exact absurd (v.active_await _) hkept
  | plan _ _ ht | act _ _ ht => exact .inl (ht.activates.resolve_right hkept)
  | signalled hp | timed hp =>
      refine .inr fun signal => ?_
      rw [hp]
      exact ⟨_, rfl⟩
  | complete => exact absurd (hv'.symm.trans v.inactive_complete) (by simp)
  | _ => exact absurd hv' (by simp [Situation.ask, Situation.update, Situation.withPhase,
      Situation.withRecord, Situation.retire, Situation.stop, Situation.leave, Situation.unlisted,
      Job.leave, Record.finalise, Record.abandon, hv])

namespace Scheduler

variable {s s' : Scheduler} {i : JobId} {job : Job} {m : Move}

theorem activates_of_change (hs : s.Named) (hj : s.jobs[i]? = some job) (hm : s.move? m = some s')
    (hidle : job.record.active = false) (hactive : s'.Active i) : s.Activates m i := by
  have hv := situation?_of_getElem? hj
  obtain ⟨ms, v', hchange, htells, hcount⟩ := change_of_move hs hv hm
  obtain ⟨hj', -⟩ := situation?_eq_some.mp htells.situation
  obtain ⟨job', hjob', hactive'⟩ := hactive
  obtain rfl : job' = v'.job := Option.some_inj.mp (hjob'.symm.trans hj')
  have haccepted : ms.count .accepted = 1 → s.accepted? m = some i := by
    intro hone
    rw [hone] at hcount
    by_cases hacc : s.accepted? m = some i
    · exact hacc
    · simp [hacc] at hcount
  have hkept : v'.job.record.active ≠ (s.situate i job).job.record.active := by
    rw [hactive', show (s.situate i job).job.record.active = false from hidle]
    simp
  have hstage := stage?_eq hv hm htells.situation
  cases hchange with
  | touch _ ht => exact .inl (haccepted (ht.activates.resolve_right hkept))
  | turn ht =>
      rcases ht.activates hidle hactive' with hone | hstarted
      · exact .inl (haccepted hone)
      · obtain ⟨trigger, htrigger⟩ := hstarted _
        exact .inr ⟨trigger, hstage.trans htrigger⟩
  | pass => exact absurd rfl hkept
  | vanish => exact absurd (Job.active_vanish _) hkept

theorem step?_of_executes {instant : Int} {pause : Pause} {left : List Action}
    (hj : s.jobs[i]? = some job) (hp : job.phase = .running instant pause left)
    (hover : s.isOver job pause = true) : s.step? i = some (s.runOn i job instant left) := by
  unfold step?
  rw [hj]
  dsimp only
  rw [hp]
  exact if_pos hover

theorem carriesOut_of_executes {instant : Int} {pause : Pause} {action : Action}
    {rest : List Action} (hj : s.jobs[i]? = some job)
    (hp : job.phase = .running instant pause (action :: rest))
    (hover : s.isOver job pause = true) (haction : action.isSteady = true) :
    s.CarriesOut i action := by
  have hgo : Action.over (action :: rest) = false := by
    cases action <;> first | rfl | exact absurd haction Bool.false_ne_true
  refine ⟨job, instant, pause, rest, hj, hp, ?_⟩
  rw [step?_of_executes hj hp hover, runOn_of_action hgo]

theorem comes_of_action {action : Action} (haction : action.isSteady = true) {now : Int}
    (hnow : s.now = now) : s.Comes (now + action.span) (action.pause now) := by
  cases action with
  | sleep n => exact rfl
  | context => exact hnow.trans (Int.add_zero _).symm
  | call c => exact hnow.trans (Int.add_zero _).symm
  | _ => exact absurd haction Bool.false_ne_true

theorem finishes_of_executes {instant : Int} {pause : Pause}
    (hj : s.jobs[i]? = some job) (hp : job.phase = .running instant pause [])
    (hover : s.isOver job pause = true) : s.Finishes i := by
  refine ⟨_, step?_of_executes hj hp hover, ?_, ?_⟩
  · rintro ⟨job', hj', hactive⟩
    have hv : (s.emit (some i) .ended).situation? i = some (s.situate i job) :=
      situation?_of_getElem? hj
    have hcomplete := (situation?_eq_some.mp (situation?_complete hv instant)).1
    obtain rfl : job' = _ := Option.some_inj.mp (hj'.symm.trans hcomplete)
    rw [Situation.inactive_complete] at hactive
    exact absurd hactive nofun
  · obtain ⟨new, hnew⟩ := history_log (s.emit (some i) .ended) (some i) (.completed instant)
    refine ⟨new, ?_⟩
    rw [← show (s.emit (some i) .ended).history = ⟨s.now, some i, .ended⟩ :: s.history from rfl,
      ← hnew]
    simp only [runOn, complete]
    split <;> rfl

end Scheduler

namespace Run

variable {monitor : Monitor} {logging : Bool} {past later : List (Scheduler × Move)}
  {s t : Scheduler} {i : JobId} {job : Job} {instant : Int} {body : List Action}

theorem active_of_executes (run : Run (.initial monitor logging) past s) {pause : Pause}
    {left : List Action} (h : s.Executes i pause left) : s.Active i := by
  obtain ⟨job, instant, hj, hp⟩ := h
  refine ⟨job, hj, ?_⟩
  have ha : job.phase.alive = true := by rw [hp]; rfl
  have hactive := ((run.sound (Scheduler.situation?_of_getElem? hj)).tended_of_alive ha).active
  rw [show (s.situate i job).job.phase = _ from hp] at hactive
  exact hactive

theorem activated (run : Run (.initial monitor logging) past s) (hj : s.jobs[i]? = some job)
    (hidle : ¬s.Active i) (after : Run s later t) (hactive : t.Active i) :
    ∃ e ∈ later, e.1.Activates e.2 i := by
  induction after with
  | start => exact absurd hactive hidle
  | @next later t t' m after hm ih =>
      by_cases hbefore : t.Active i
      · obtain ⟨e, he, hactivates⟩ := ih hbefore
        exact ⟨e, List.mem_cons_of_mem _ he, hactivates⟩
      · obtain ⟨job', hj', -⟩ := after.terms hj
        have hidle' : job'.record.active = false :=
          Bool.eq_false_iff.mpr fun h => hbefore ⟨job', hj', h⟩
        exact ⟨_, List.mem_cons_self,
          Scheduler.activates_of_change (run.trans after).named hj' hm hidle' hactive⟩

theorem now_of_comes (run : Run (.initial monitor logging) past s) (hprompt : Prompt past)
    (hj : s.jobs[i]? = some job) {pause : Pause} {left : List Action}
    (hp : job.phase = .running instant pause left) (hover : s.isOver job pause = true) {u : Int}
    (hcomes : s.Comes u pause) : s.now = u := by
  cases pause with
  | none => exact hcomes
  | clock d =>
      have hd := (Job.deadline?_of_running hp).mpr rfl
      have hle : s.now ≤ d := run.punctual hprompt i job d hj hd
      have hge : d ≤ s.now := by simpa [Scheduler.isOver] using hover
      have hu : d = u := hcomes
      omega
  | token => exact absurd hcomes id

theorem comes_of_other {t' : Scheduler} {m : Move} (hprompt : Prompt ((t, m) :: later))
    (hm : t.move? m = some t') (hj : t.jobs[i]? = some job) {pause : Pause} {left : List Action}
    (hp : job.phase = .running instant pause left) {u : Int} (hcomes : t.Comes u pause) :
    t'.Comes u pause := by
  cases pause with
  | none =>
      rcases Scheduler.now_of_move hm with ⟨n, rfl⟩ | hnow
      · have hpatient := hprompt t n List.mem_cons_self
        exact absurd (hpatient.settled.not_over_of_running hj hp) nofun
      · exact hnow.trans hcomes
  | clock d => exact hcomes
  | token => exact hcomes

/-- An execution goes on, action by action, until it is over; and where nothing stalls each action
takes the time that it says. -/
theorem executes (run : Run (.initial monitor logging) past s) (hj : s.jobs[i]? = some job)
    (hp : job.phase = .running instant .none body) (hsteady : ∀ a ∈ body, a.isSteady = true)
    (after : Run s later t) (hkept : ∀ e ∈ later, e.2 ≠ .shutdown) :
    (∃ done left pause, body = done ++ left ∧ CarriesOut i later done ∧ t.Executes i pause left ∧
      (∀ e ∈ later, e.1.Active i) ∧
      (Prompt (later ++ past) → t.Comes (s.now + Action.spans done) pause)) ∨
    ∃ recent e between, later = recent ++ (e, .turn i) :: between ∧ CarriesOut i between body ∧
      (∀ x ∈ between, x.1.Active i) ∧ e.Active i ∧ e.Finishes i ∧
      (Prompt (later ++ past) → e.now = s.now + Action.spans body) := by
  induction after with
  | start =>
      refine .inl ⟨[], body, .none, rfl, .start, ⟨job, instant, hj, hp⟩, by simp, fun _ => ?_⟩
      simp [Scheduler.Comes, Action.spans]
  | @next later t t' m after hm ih =>
      -- While it goes on, the time of its next turn is known: that at which it was entered and what
      -- the actions took since. It is what the pause says, or now.
      have hm' : m ≠ .shutdown := hkept _ List.mem_cons_self
      have run' := run.trans after
      rcases ih fun e he => hkept e (List.mem_cons_of_mem _ he) with
        ⟨done, left, pause, hbody, hdone, hexecutes, hactive, hcomes⟩ |
        ⟨recent, e, between, rfl, hdone, hactive, he, hfinishes, hnow⟩
      · have hnow := run'.active_of_executes hexecutes
        obtain ⟨job', instant', hj', hp'⟩ := hexecutes
        obtain ⟨ms, job'', hj'', hchange⟩ := Scheduler.change_of_job run'.named hj' hm
        rcases hchange.executes hm' hp' with ⟨hother, hphase⟩ | ⟨rfl, ho, hgoes⟩
        · exact .inl ⟨done, left, pause, hbody, .other hdone hother,
            ⟨job'', instant', hj'', hphase⟩, List.forall_mem_cons.mpr ⟨hnow, hactive⟩,
            fun hprompt => comes_of_other hprompt hm hj' hp' (hcomes hprompt.tail)⟩
        · have hover : t.isOver job' pause = true :=
            (Scheduler.isOver_eq (Scheduler.situation?_of_getElem? hj') pause).trans ho
          have htime : Prompt ((t, .turn i) :: later ++ past) →
              t.now = s.now + Action.spans done :=
            fun hprompt => run'.now_of_comes hprompt.tail hj' hp' hover (hcomes hprompt.tail)
          have hleft : ∀ a ∈ left, a.isSteady = true := fun a ha => hsteady a (by simp [hbody, ha])
          rcases hgoes with ⟨action, rest, rfl, hphase⟩ | ⟨hend, -⟩
          · have haction := hleft action List.mem_cons_self
            have hcarries := Scheduler.carriesOut_of_executes hj' hp' hover haction
            refine .inl ⟨done ++ [action], rest, _, by simp [hbody], .action hdone hcarries,
              ⟨job'', instant', hj'', hphase⟩, List.forall_mem_cons.mpr ⟨hnow, hactive⟩,
              fun hprompt => ?_⟩
            have hsame : t'.now = t.now := (Scheduler.now_of_move hm).resolve_left nofun
            have hspans : Action.spans [action] = action.span := by simp [Action.spans]
            rw [Action.spans_append, hspans, ← Int.add_assoc, ← htime hprompt]
            exact Scheduler.comes_of_action haction hsame
          · obtain rfl := Action.over_of_steady hleft hend
            rw [List.append_nil] at hbody
            subst hbody
            exact .inr ⟨[], t, later, rfl, hdone, hactive, hnow,
              Scheduler.finishes_of_executes hj' hp' hover, htime⟩
      · exact .inr ⟨(t, m) :: recent, e, between, rfl, hdone, hactive, he, hfinishes,
          fun hprompt => hnow hprompt.tail⟩

end Run

namespace Performance

variable {monitor : Monitor} {logging : Bool} {steps : List Step}
  {past later earlier : List (Scheduler × Move)} {p : Progress} {s : Scheduler} {i : JobId}
  {job : Job} {trigger : Trigger}

theorem not_shutdown (h : Performance ⟨.initial monitor logging, none, steps⟩ past p)
    (hsteps : .shutdown ∉ steps) : ∀ e ∈ past, e.2 ≠ .shutdown := by
  induction h with
  | start => simp
  | call _ ih => exact List.forall_mem_cons.mpr ⟨nofun, ih⟩
  | stall _ ih => exact List.forall_mem_cons.mpr ⟨nofun, ih⟩
  | shutdown h _ => exact absurd (h.rest_mem _ List.mem_cons_self) hsteps
  | settle _ ih => exact ih
  | advance _ ih => exact ih
  | turn _ _ ih => exact List.forall_mem_cons.mpr ⟨nofun, ih⟩
  | wait _ _ _ ih => exact List.forall_mem_cons.mpr ⟨nofun, ih⟩
  | finish _ _ _ ih => exact List.forall_mem_cons.mpr ⟨nofun, ih⟩

theorem now_le_of_comes (h : Performance ⟨.initial monitor logging, none, steps⟩ past p)
    (hsteps : ∀ ms, .stall ms ∉ steps) {pause : Pause} {left : List Action}
    (hexecutes : p.scheduler.Executes i pause left) {u : Int}
    (hcomes : p.scheduler.Comes u pause) :
    p.scheduler.now ≤ u ∧ (p.until? = none → p.scheduler.now < u) := by
  obtain ⟨job, instant, hj, hp⟩ := hexecutes
  cases pause with
  | none =>
      refine ⟨Int.le_of_eq hcomes, fun huntil => ?_⟩
      exact absurd rfl (h.rested hsteps huntil i job instant .none left hj hp).1
  | clock d =>
      obtain rfl : d = u := hcomes
      have hd : job.deadline? = some d := (Job.deadline?_of_running hp).mpr rfl
      refine ⟨h.run.punctual (h.prompt hsteps) i job d hj hd, fun huntil => ?_⟩
      exact (h.rested hsteps huntil i job instant _ left hj hp).2 d rfl
  | token => exact absurd hcomes id

/-- Executions are not interrupted, in a script that does not drop the runners. If the actions of an
execution are steady, then once it is started it is in progress until all of them are carried out
and its end is written, and the job is active all the time. If the script has no stalls, then the
end is written exactly when the time has passed that the actions say, and the execution is in
progress no longer once the clock has come to that time and the step of the script is over. -/
theorem uninterrupted (h : Performance ⟨.initial monitor logging, none, steps⟩ past p)
    (hkept : .shutdown ∉ steps) (later earlier : List (Scheduler × Move))
    (hpast : past = later ++ (s, .turn i) :: earlier)
    (hstage : s.stage? (.turn i) i = some (.started trigger)) (hj : s.jobs[i]? = some job)
    (hsteady : ∀ a ∈ job.work.body job.runs, a.isSteady = true) :
    (Run.InProgress later i (job.work.body job.runs) p.scheduler ∧
      ((∀ ms, .stall ms ∉ steps) →
        p.scheduler.now ≤ s.now + Action.spans (job.work.body job.runs) ∧
        (p.until? = none →
          p.scheduler.now < s.now + Action.spans (job.work.body job.runs)))) ∨
    ∃ e, Run.Completed later i (job.work.body job.runs) e p.scheduler ∧
      ((∀ ms, .stall ms ∉ steps) → e.now = s.now + Action.spans (job.work.body job.runs)) := by
  have run := h.run
  have hmoves := h.not_shutdown hkept
  rw [hpast] at run hmoves
  obtain ⟨before, s₁, hm, after⟩ := run.of_append
  obtain ⟨s₂, job₁, instant, -, hm', hj₁, -, hp₁, -⟩ := before.started_of_stage hj hstage
  obtain rfl : s₁ = s₂ := Option.some_inj.mp (hm.symm.trans hm')
  rw [Action.opened_of_steady hsteady] at hp₁
  have hstart : s₁.now = s.now := (Scheduler.now_of_move hm).resolve_left nofun
  have begun := before.next _ hm
  rw [← hstart]
  rcases begun.executes hj₁ hp₁ hsteady after
      fun e he => hmoves e (List.mem_append_left _ he) with
    ⟨done, left, pause, hbody, hdone, hexecutes, hactive, hcomes⟩ |
    ⟨recent, e, between, hlater, hdone, hactive, he, hfinishes, hnow⟩
  · refine .inl ⟨⟨done, left, pause, hbody, hdone, hexecutes, hactive,
      (begun.trans after).active_of_executes hexecutes⟩, fun hsteps => ?_⟩
    have hprompt := h.prompt hsteps
    rw [hpast] at hprompt
    obtain ⟨hle, hlt⟩ := h.now_le_of_comes hsteps hexecutes (hcomes hprompt)
    have hrest := Action.spans_nonneg left
    rw [hbody, Action.spans_append]
    exact ⟨by omega, fun huntil => by have := hlt huntil; omega⟩
  · have hprompt : (∀ ms, .stall ms ∉ steps) → Run.Prompt (later ++ (s, .turn i) :: earlier) := by
      intro hsteps
      rw [← hpast]
      exact h.prompt hsteps
    refine .inr ⟨e, ⟨recent, between, hlater, hdone, hactive, he, hfinishes, fun hagain => ?_⟩,
      fun hsteps => hnow (hprompt hsteps)⟩
    subst hlater
    obtain ⟨toEnd, e', hend, rest⟩ := after.of_append
    obtain ⟨e'', hstep, hidle, -⟩ := hfinishes
    obtain rfl : e' = e'' := Option.some_inj.mp (hend.symm.trans hstep)
    have toEnd' := (begun.trans toEnd).next _ hend
    obtain ⟨job₂, hj₂, -⟩ := (toEnd.next _ hend).terms hj₁
    exact toEnd'.activated hj₂ hidle rest hagain

/-- A job that sleeps, and looks at its token. -/
def napper : Call := .schedule Run.plainOrder (some [[.sleep 3, .context]]) (.fixed 0)

theorem completed_of_napper : ∃ past later s earlier p e,
    Performance ⟨.initial .recording false, none,
      [.call napper, .settle, .call (.cancelToken "root"), .advance 9]⟩ past p ∧
    past = later ++ (s, .turn 0) :: earlier ∧ s.now = 0 ∧
    Run.Completed later 0 [.sleep 3, .context] e p.scheduler ∧ e.now = 3 := by
  have hbegin : Performance ⟨.initial .recording false, none,
      [.call napper, .settle, .call (.cancelToken "root"), .advance 9]⟩ [] _ := .start
  have hsleeps := hbegin.call.settle.turn (i := 0) rfl |>.turn (i := 0) rfl |>.turn (i := 0) rfl
  have hcancelled := (hsleeps.finish (Scheduler.settled_of_single rfl rfl) rfl).call.advance
  have h := (hcancelled.wait (t := 3) (Scheduler.settled_of_single rfl rfl) rfl).turn (i := 0) rfl
    |>.turn (i := 0) rfl
  have hsteady : ∀ a ∈ [Action.sleep 3, .context], a.isSteady = true := by simp [Action.isSteady]
  rcases h.uninterrupted (by simp) [_, _, _, _, _, _] _ rfl rfl rfl hsteady with
    ⟨hgoes, -⟩ | ⟨e, hdone, hnow⟩
  · -- The runner has returned.
    obtain ⟨_, _, _, -, -, ⟨job, instant, hj, hp⟩, -⟩ := hgoes
    cases hj
    exact absurd hp nofun
  · exact ⟨_, _, _, _, _, e, h, rfl, rfl, hdone, hnow (by simp)⟩

/-- A sleep is cut short after thirty years. -/
theorem sleep_cut_short : ∃ past p, Performance ⟨.initial .recording false, none,
      [.call (.schedule Run.plainOrder (some [[.sleep 946080000001]]) (.fixed 0)),
        .advance 946080000000]⟩ past p ∧
    ⟨0, some 0, .started 1⟩ ∈ p.scheduler.history ∧
    ∃ t, ⟨t, some 0, .ended⟩ ∈ p.scheduler.history ∧ t ≠ 0 + max 946080000001 0 := by
  have hbegin : Performance ⟨.initial .recording false, none,
      [.call (.schedule Run.plainOrder (some [[.sleep 946080000001]]) (.fixed 0)),
        .advance 946080000000]⟩ [] _ := .start
  have hsleeps := hbegin.call.advance.turn (i := 0) rfl |>.turn (i := 0) rfl |>.turn (i := 0) rfl
  have h := (hsleeps.wait (t := 946080000000) (Scheduler.settled_of_single rfl rfl) rfl).turn
    (i := 0) rfl
  refine ⟨_, _, h, ?_, 946080000000, ?_, by decide⟩
  · exact .tail _ (.head _)
  · exact .head _

end Performance

end JobScheduler
