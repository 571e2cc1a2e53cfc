import Mathlib.Algebra.Ring.Nat
import JobScheduler.Proofs.Orders
import JobScheduler.Proofs.Ownership

/-!
Settling ends (`Performance.settles`), if no function makes calls. Before time passes, a job may be
executed for each entry of its runtime function that is left, for its run signal, and for an instant
that has come. A turn of its runner uses up one of these, or comes one step closer to the next
(`Turn.effort_lt`); and each stop of the clock is later than the one before.
-/

namespace JobScheduler

/-- Whether a phase leads to an execution by the timer before time passes. -/
def Phase.isDue (now : Int) : Phase → Bool
  | spawned instant => decide (instant ≤ now)
  | planning _ _ (.ok moment) => decide (moment.resolve now ≤ now)
  | waiting _ (some t) => decide (t ≤ now)
  | _ => false

/-- How many steps may be taken from a phase before the next execution, if a call of the runtime
function takes `n` actions at most. -/
def Phase.ahead (n : Nat) : Phase → Nat
  | spawned _ => 2
  | looping => n + 3
  | planning _ rest _ => rest.length + 2
  | waiting .. => 1
  | running _ _ rest => rest.length + n + 4
  | returned | vanished => 0

theorem Phase.ahead_pos (phase : Phase) (h : phase.alive = true) (n : Nat) : 0 < phase.ahead n := by
  cases phase with
  | returned | vanished => exact absurd h nofun
  | _ => simp only [ahead]; omega

theorem Phase.isDue_planning (now : Int) (pause pause' : Pause) (rest rest' : List Action)
    (result : Except RuntimeError Moment) :
    (planning pause rest result).isDue now = (planning pause' rest' result).isDue now := by
  cases result <;> rfl

namespace Job

/-- How often the job may be executed before time passes. -/
def credit (j : Job) (now : Int) : Nat :=
  (j.plan.entries.length - j.asks) + j.record.running.pending.toNat + (j.phase.isDue now).toNat

/-- How many steps an execution takes at most. -/
def cost (j : Job) : Nat := j.acts.length + 4

/-- How many steps the runner of the job takes at most before time passes. -/
def effort (j : Job) (now : Int) : Nat :=
  if j.phase.alive then j.credit now * j.cost + j.phase.ahead j.plan.acts.length else 0

theorem effort_of_gone {j : Job} (h : j.phase.alive = false) (now : Int) : j.effort now = 0 := by
  rw [effort, h]
  rfl

theorem cost_of_terms {j j' : Job} (h : j'.terms = j.terms) : j'.cost = j.cost := by
  rw [cost, cost, Job.acts_of_terms h]

theorem effort_le_add (j : Job) (now now' : Int) : j.effort now' ≤ j.effort now + j.cost := by
  unfold effort
  split
  · have hdue := Bool.toNat_le (j.phase.isDue now')
    have hcredit : j.credit now' ≤ j.credit now + 1 := by
      unfold credit
      omega
    have hmul := Nat.mul_le_mul_right j.cost hcredit
    rw [Nat.add_mul, Nat.one_mul] at hmul
    omega
  · exact Nat.zero_le _

theorem effort_lt {j j' : Job} {now : Int} (ha : j.phase.alive = true)
    (ht : j'.terms = j.terms) (h : j'.credit now ≤ j.credit now ∧
        j'.phase.ahead j.plan.acts.length < j.phase.ahead j.plan.acts.length ∨
      j'.credit now + 1 ≤ j.credit now ∧ j'.phase.ahead j.plan.acts.length ≤ j.cost) :
    j'.effort now < j.effort now := by
  have hahead := j.phase.ahead_pos ha j.plan.acts.length
  have hplan : j'.plan = j.plan := congrArg (fun t => t.2.2.2.2.2) ht
  unfold effort
  rw [ha, hplan, cost_of_terms ht]
  split
  · rcases h with ⟨hcredit, hlt⟩ | ⟨hcredit, hle⟩
    · have hmul := Nat.mul_le_mul_right j.cost hcredit
      simp only [if_true]
      omega
    · -- An execution is started: the credit that it takes is worth all the steps ahead.
      have hmul := Nat.mul_le_mul_right j.cost hcredit
      rw [Nat.add_mul, Nat.one_mul] at hmul
      simp only [if_true]
      omega
  · simp only [if_true]
    omega

theorem effort_lt_of_ahead {j j' : Job} {now : Int} (ha : j.phase.alive = true)
    (ht : j'.terms = j.terms) (hasks : j'.asks = j.asks)
    (hpending : j'.record.running.pending = j.record.running.pending)
    (hdue : j'.phase.isDue now = j.phase.isDue now)
    (hahead : j'.phase.ahead j.plan.acts.length < j.phase.ahead j.plan.acts.length) :
    j'.effort now < j.effort now := by
  have hplan : j'.plan = j.plan := congrArg (fun t => t.2.2.2.2.2) ht
  have hcredit : j'.credit now = j.credit now := by
    rw [credit, credit, hplan, hasks, hpending, hdue]
  exact effort_lt ha ht (.inl ⟨Nat.le_of_eq hcredit, hahead⟩)

theorem effort_lt_of_gone {j j' : Job} {now : Int} (ha : j.phase.alive = true)
    (hgone : j'.phase.alive = false) : j'.effort now < j.effort now := by
  have hahead := j.phase.ahead_pos ha j.plan.acts.length
  rw [effort_of_gone hgone, effort, if_pos ha]
  omega

end Job

theorem Action.length_opened (actions : List Action) :
    (opened actions).length = actions.length := by
  unfold opened
  split <;> rfl

theorem Action.not_call_of_quiet {action : Action} {rest : List Action}
    (h : call? (action :: rest) = none) (c : Call) : action ≠ call c := by
  rintro rfl
  exact absurd h nofun

theorem Work.length_body_le (w : Work) (k : Nat) : (w.body k).length ≤ w.flatten.length := by
  have hmem : ∀ b ∈ w, b.length ≤ w.flatten.length :=
    fun b hb => (List.sublist_flatten_of_mem hb).length_le
  unfold body
  split
  · rename_i b hb
    exact hmem b (List.mem_of_getElem? hb)
  · cases hlast : w.getLast? with
    | none => exact Nat.zero_le _
    | some b => exact hmem b (List.mem_of_getLast? hlast)

namespace Plan

variable {p : Plan Action} {k : Nat}

theorem length_entry_le (p : Plan Action) (k : Nat) :
    (p.entry k).actions.length ≤ p.acts.length := by
  unfold entry
  split
  · rename_i e he
    have hmem : e.actions ∈ p.entries.map (·.actions) :=
      List.mem_map.mpr ⟨e, List.mem_of_getElem? he, rfl⟩
    exact (List.sublist_flatten_of_mem hmem).length_le
  · split <;> exact Nat.zero_le _

theorem not_due_of_used (hk : p.entries.length ≤ k) (pause : Pause) (rest : List Action)
    (now : Int) : (Phase.planning pause rest (p.entry k).result).isDue now = false := by
  unfold entry
  rw [List.getElem?_eq_none hk]
  dsimp only
  split
  · rename_i ms _
    have hlater : ¬now + max ms 1 ≤ now := by omega
    exact decide_eq_false hlater
  · rfl

end Plan

theorem Phase.isDue_waiting (now instant : Int) :
    (waiting instant (some (waitUntil now (instant - now)))).isDue now =
      decide (instant ≤ now) := by
  have hiff : waitUntil now (instant - now) ≤ now ↔ instant ≤ now := by
    rw [waitUntil, longestWait]
    omega
  simp only [isDue, hiff]

namespace Situation

variable {v : Situation}

theorem effort_await {instant : Int} (ha : v.job.phase.alive = true)
    (hdue : v.job.phase.isDue v.now = decide (instant ≤ v.now))
    (hahead : 1 < v.job.phase.ahead v.job.plan.acts.length) :
    (v.await instant).job.effort v.now < v.job.effort v.now := by
  unfold await
  split
  · exact Job.effort_lt_of_ahead ha rfl rfl rfl ((Phase.isDue_waiting _ _).trans hdue.symm) hahead
  · exact Job.effort_lt_of_gone ha (alive_vanish v.job)

/-- The call of a listed entry makes up for the credit of the entry, and nothing is due after a call
that is not listed. -/
theorem credit_ask (hp : v.job.phase = .looping) : v.ask.job.credit v.now ≤ v.job.credit v.now := by
  have hidle : v.job.phase.isDue v.now = false := by rw [hp]; rfl
  have hdue := Bool.toNat_le (v.ask.job.phase.isDue v.now)
  have hnew : v.ask.job.credit v.now = (v.job.plan.entries.length - (v.job.asks + 1)) +
      v.job.record.running.pending.toNat + (v.ask.job.phase.isDue v.now).toNat := rfl
  rw [hnew, Job.credit, hidle]
  by_cases hk : v.job.plan.entries.length ≤ v.job.asks
  · have hlate : v.ask.job.phase.isDue v.now = false := Plan.not_due_of_used hk _ _ _
    rw [hlate]
    omega
  · simp only [Bool.toNat_false]
    omega

theorem effort_start {w : Situation} {instant : Int} (hw : w.job.terms = v.job.terms)
    (hruns : w.job.runs = v.job.runs) (hasks : w.job.asks = v.job.asks)
    (ha : v.job.phase.alive = true)
    (hless : w.job.record.running.pending.toNat + 1 ≤
      v.job.record.running.pending.toNat + (v.job.phase.isDue v.now).toNat) :
    (w.start instant).job.effort v.now < v.job.effort v.now := by
  have hwork : w.job.work = v.job.work := congrArg (fun t => t.2.2.2.2.1) hw
  have hplan : w.job.plan = v.job.plan := congrArg (fun t => t.2.2.2.2.2) hw
  refine Job.effort_lt ha hw (.inr ⟨?_, ?_⟩)
  · have hnew : (w.start instant).job.credit v.now = (w.job.plan.entries.length - w.job.asks) +
        w.job.record.running.pending.toNat := rfl
    rw [hnew, Job.credit, hplan, hasks]
    omega
  · have hnew : (w.start instant).job.phase.ahead v.job.plan.acts.length =
        (Action.opened (w.job.work.body w.job.runs)).length + v.job.plan.acts.length + 4 := rfl
    have hle := v.job.work.length_body_le v.job.runs
    rw [hnew, Action.length_opened, hwork, hruns, Job.cost, Job.acts, List.length_append]
    omega

theorem effort_start_timed {instant t : Int} (hp : v.job.phase = .waiting instant (some t))
    (ht : t ≤ v.now) (hr : v.job.record.running.pending = false)
    (hactive : v.job.record.active = false)
    {w : Situation} (hrecord : w.job.record = v.job.record.tryActivate.1)
    (hw : w.job.terms = v.job.terms) (hruns : w.job.runs = v.job.runs)
    (hasks : w.job.asks = v.job.asks) :
    (w.start instant).job.effort v.now < v.job.effort v.now := by
  refine effort_start hw hruns hasks (by rw [hp]; rfl) ?_
  have hdue : v.job.phase.isDue v.now = true := by
    rw [hp]
    exact decide_eq_true ht
  have hempty : w.job.record.running.pending = false := by
    rw [hrecord, Record.tryActivate_of_inactive hactive]
    exact hr
  rw [hdue, hempty]
  exact Nat.le_add_left 1 _

theorem effort_ask (hp : v.job.phase = .looping) :
    v.ask.job.effort v.now < v.job.effort v.now := by
  have hle := v.job.plan.length_entry_le v.job.asks
  refine Job.effort_lt (by rw [hp]; rfl) rfl (.inl ⟨credit_ask hp, ?_⟩)
  rw [hp]
  simp only [ask, update, Phase.ahead, Action.length_opened]
  omega

theorem effort_complete {instant : Int} {pause : Pause} {rest : List Action}
    (hp : v.job.phase = .running instant pause rest) :
    v.complete.job.effort v.now < v.job.effort v.now := by
  have ha : v.job.phase.alive = true := by rw [hp]; rfl
  unfold complete
  split
  · refine Job.effort_lt_of_ahead ha rfl rfl rfl ?_ ?_
    · rw [hp]
      rfl
    · rw [hp]
      simp only [withPhase, update, Phase.ahead]
      omega
  · exact Job.effort_lt_of_gone ha rfl

end Situation

/-- Every step of a runner that makes no call takes some of what is left to do. -/
theorem Turn.effort_lt {v v' : Situation} {ms : List Mark} (h : Turn v ms v') (hv : v.Sound)
    (hquiet : v.job.nextCall? = none) : v'.job.effort v.now < v.job.effort v.now := by
  have ha := h.alive
  have hterms := h.terms_eq
  cases h with
  | begin hp =>
      exact Situation.effort_await ha (by rw [hp]; rfl) (by rw [hp]; exact Nat.lt_succ_self 1)
  | ask hp => exact Situation.effort_ask hp
  | plan hp _ _ hno =>
      obtain ⟨-, rfl⟩ := hno (Action.not_call_of_quiet (by simpa [Job.nextCall?, hp] using hquiet))
      refine Job.effort_lt_of_ahead ha rfl rfl rfl ?_ ?_
      · rw [hp]
        exact Phase.isDue_planning _ _ _ _ _ _
      · rw [hp]
        exact Nat.lt_succ_self _
  | arrange hp =>
      exact Situation.effort_await ha (by rw [hp]; rfl) (by rw [hp]; exact Nat.lt_succ_self 1)
  | giveUp | orphaned | stopped => exact Job.effort_lt_of_gone ha rfl
  | signalled hp _ _ hr =>
      refine Situation.effort_start (w := v.withRecord Record.takeRun) rfl rfl rfl ha ?_
      rw [hr]
      exact Nat.le_add_right 1 _
  | skipped hp hr hactive =>
      -- What makes a job active that waits leaves a run signal.
      exact absurd hactive (Bool.eq_false_iff.mp (hv.active_eq_false hp hr))
  | timed hp ht _ _ hr hactive =>
      exact Situation.effort_start_timed hp ht hr hactive rfl hterms rfl rfl
  | act hp _ _ hno =>
      obtain ⟨-, rfl⟩ := hno (Action.not_call_of_quiet (by simpa [Job.nextCall?, hp] using hquiet))
      refine Job.effort_lt_of_ahead ha rfl rfl rfl ?_ ?_
      · rw [hp]
        rfl
      · rw [hp]
        simp [Situation.withPhase, Situation.update, Phase.ahead]
  | complete hp => exact Situation.effort_complete hp

theorem sum_map_set {α : Type} (f : α → Nat) {l : List α} {i : Nat} {x : α} (h : l[i]? = some x)
    (y : α) : ((l.set i y).map f).sum + f x = (l.map f).sum + f y := by
  induction l generalizing i with
  | nil => exact absurd h (by simp)
  | cons z l ih =>
      cases i with
      | zero =>
          obtain rfl : z = x := by simpa using h
          simp only [List.set_cons_zero, List.map_cons, List.sum_cons]
          omega
      | succ i =>
          have htail := ih (by simpa using h)
          simp only [List.set_cons_succ, List.map_cons, List.sum_cons]
          omega

namespace Scheduler

variable {s s' : Scheduler} {i : JobId}

/-- Whether no function of a job makes a call. -/
def Quiet (s : Scheduler) : Prop :=
  ∀ (i : JobId) (job : Job), s.jobs[i]? = some job → ∀ c, .call c ∉ job.acts

theorem Quiet.set (h : s.Quiet) {job job' : Job} (hj : s.jobs[i]? = some job)
    (hjobs : s'.jobs = s.jobs.set i job') (hterms : job'.terms = job.terms) : s'.Quiet := by
  intro k job'' hk
  rw [hjobs, List.getElem?_set] at hk
  split at hk
  · split at hk
    · obtain rfl := Option.some_inj.mp hk
      rw [Job.acts_of_terms hterms]
      exact h i job hj
    · cases hk
  · exact h k job'' hk

/-- How many steps the runners take at most before time passes. -/
def effort (s : Scheduler) : Nat := (s.jobs.map (·.effort s.now)).sum

/-- By how much the effort grows at most as time passes. -/
def cost (s : Scheduler) : Nat := (s.jobs.map Job.cost).sum

/-- How many steps of the runners and stops of the clock there are at most before `stop`. -/
def effortUntil (s : Scheduler) (stop : Int) : Nat :=
  s.effort + (stop - s.now).toNat * (s.cost + 1)

theorem effort_stall (s : Scheduler) (ms : Nat) : (s.stall ms).effort ≤ s.effort + s.cost := by
  unfold effort cost
  rw [show (s.stall ms).jobs = s.jobs from rfl]
  induction s.jobs with
  | nil => exact Nat.le_refl 0
  | cons job jobs ih =>
      have hjob := job.effort_le_add s.now (s.stall ms).now
      simp only [List.map_cons, List.sum_cons]
      omega

end Scheduler

namespace Run

variable {monitor : Monitor} {logging : Bool} {past later : List (Scheduler × Move)}
  {s s' t : Scheduler} {i : JobId}

theorem jobs_of_quiet_step (run : Run (.initial monitor logging) past s) (hs : s.Quiet)
    (hstep : s.step? i = some s') :
    ∃ job job', s.jobs[i]? = some job ∧ s'.jobs = s.jobs.set i job' ∧ job'.terms = job.terms ∧
      job'.effort s.now < job.effort s.now := by
  obtain ⟨job, hj⟩ := Scheduler.exists_job_of_step hstep
  have hquiet : job.nextCall? = none := by
    cases hc : job.nextCall? with
    | none => rfl
    | some c => exact absurd (run.nextCall_mem hj hc) (hs i job hj c)
  have hcall : s.callOf? (.turn i) = none := by simp [Scheduler.callOf?, hj, hquiet]
  have hv := Scheduler.situation?_of_getElem? hj
  obtain ⟨ms, v', hturn, htells, -⟩ := Scheduler.turn_of_step run.named hv hstep
  refine ⟨job, v'.job, hj, ?_, hturn.terms_eq, hturn.effort_lt (run.sound hv) hquiet⟩
  apply List.ext_getElem?
  intro k
  rw [List.getElem?_set]
  by_cases hki : i = k
  · subst hki
    have hi := (List.getElem?_eq_some_iff.mp hj).1
    rw [if_pos rfl, if_pos hi]
    exact (Scheduler.situation?_eq_some.mp htells.situation).1
  · have hsame := (Scheduler.step_of_ne hki hstep).1
    rw [hcall] at hsame
    rw [if_neg hki]
    exact Scheduler.jobs_of_situation? hsame

theorem effort_step (run : Run (.initial monitor logging) past s) (hs : s.Quiet)
    (hstep : s.step? i = some s') :
    s'.Quiet ∧ s'.cost = s.cost ∧ s'.now = s.now ∧ s'.effort < s.effort := by
  have hnow : s'.now = s.now := (Scheduler.persists_step hstep).now
  obtain ⟨job, job', hj, hjobs, hterms, hless⟩ := run.jobs_of_quiet_step hs hstep
  refine ⟨hs.set hj hjobs hterms, ?_, hnow, ?_⟩
  · have hsum := sum_map_set Job.cost hj job'
    rw [Job.cost_of_terms hterms] at hsum
    rw [Scheduler.cost, hjobs, Scheduler.cost]
    omega
  · have hsum := sum_map_set (·.effort s.now) hj job'
    rw [Scheduler.effort, hjobs, hnow, Scheduler.effort]
    omega

/-- Whether every move is a step of a runner. -/
def Turns (past : List (Scheduler × Move)) : Prop := ∀ e ∈ past, ∃ i, e.2 = .turn i

theorem length_le_effort (run : Run (.initial monitor logging) past s) (hs : s.Quiet)
    (after : Run s later t) (hturns : Turns later) :
    t.Quiet ∧ later.length + t.effort ≤ s.effort := by
  induction after with
  | start => exact ⟨hs, Nat.le_of_eq (Nat.zero_add _)⟩
  | @next later t t' m after hm ih =>
      obtain ⟨hquiet, hle⟩ := ih fun e he => hturns e (List.mem_cons_of_mem _ he)
      obtain ⟨i, rfl⟩ := hturns _ List.mem_cons_self
      obtain ⟨hquiet', -, -, hless⟩ := (run.trans after).effort_step hquiet hm
      refine ⟨hquiet', ?_⟩
      rw [List.length_cons]
      omega

theorem comes_to_rest (run : Run (.initial monitor logging) past s) (hs : s.Quiet) :
    ∃ later t, Run s later t ∧ Turns later ∧ t.Settled := by
  induction h : s.effort using Nat.strongRecOn generalizing s past with
  | ind n ih =>
      by_cases hsettled : s.Settled
      · exact ⟨[], s, .start, by simp [Turns], hsettled⟩
      · obtain ⟨i, hi⟩ := Classical.not_forall.mp hsettled
        obtain ⟨s', hstep⟩ := Option.ne_none_iff_exists'.mp hi
        obtain ⟨hquiet, -, -, hless⟩ := run.effort_step hs hstep
        obtain ⟨later, t, after, hturns, hrest⟩ :=
          ih s'.effort (by omega) (run.next (.turn i) hstep) hquiet rfl
        refine ⟨_, t, (single (.turn i) hstep).trans after, ?_, hrest⟩
        intro e he
        rcases List.mem_append.mp he with he | he
        · exact hturns e he
        · rw [List.mem_singleton.mp he]
          exact ⟨i, rfl⟩

end Run

namespace Scheduler

variable {s s' : Scheduler} {stop t : Int}

theorem effortUntil_of_step (hnow : s'.now = s.now) (hcost : s'.cost = s.cost)
    (hless : s'.effort < s.effort) (stop : Int) : s'.effortUntil stop < s.effortUntil stop := by
  rw [effortUntil, effortUntil, hnow, hcost]
  omega

/-- A stop of the clock makes up for what comes to be due. -/
theorem effortUntil_of_wait (hlt : s.now < t) (hle : t ≤ stop) :
    (s.stall (t - s.now).toNat).effortUntil stop < s.effortUntil stop := by
  have hgrows := s.effort_stall (t - s.now).toNat
  have hcost : (s.stall (t - s.now).toNat).cost = s.cost := rfl
  have hnow := now_stall (Int.le_of_lt hlt)
  have hsteps : (stop - t).toNat + 1 ≤ (stop - s.now).toNat := by omega
  have hmul := Nat.mul_le_mul_right (s.cost + 1) hsteps
  rw [Nat.add_mul, Nat.one_mul] at hmul
  rw [effortUntil, effortUntil, hcost, hnow]
  omega

end Scheduler

/-- How far a step that lets the runners go on until `stop` is after some moves, where no function
makes calls: the runners go on, or the step is over. -/
inductive Progress.Advancing (s : Scheduler) (stop : Int) (moves : Nat) : Progress → Prop where
  | begin {ms : Nat} : stop = waitUntil s.now ms → moves = 0 →
      Advancing s stop moves ⟨s, none, [.advance ms]⟩
  | on {t : Scheduler} : t.Quiet → t.now ≤ stop →
      moves + t.effortUntil stop ≤ s.effortUntil stop → Advancing s stop moves ⟨t, some stop, []⟩
  | ended {t : Scheduler} : t.now = stop → moves ≤ s.effortUntil stop + 1 →
      Advancing s stop moves ⟨t, none, []⟩

namespace Performance

variable {monitor : Monitor} {logging : Bool} {steps : List Step}
  {past later : List (Scheduler × Move)} {p q : Progress} {s t : Scheduler} {ms : Nat}
  {stop : Int}

theorem quiet (h : Performance ⟨.initial monitor logging, none, steps⟩ past p)
    (hquiet : ∀ c, .call c ∈ steps → ∀ c', .call c' ∉ c.acts) : p.scheduler.Quiet := by
  intro i job hj c hc
  obtain ⟨c₀, hmakes, hordered⟩ := h.ordered hj
  rw [hordered.acts] at hc
  exact hquiet c₀ (hmakes.mem hquiet) c hc

theorem advancing (run : Run (.initial monitor logging) past s) (hs : s.Quiet)
    (h : Performance ⟨s, none, [.advance ms]⟩ later q) :
    q.Advancing s (waitUntil s.now ms) later.length := by
  induction h with
  | start => exact .begin rfl rfl
  -- The script is this one step.
  | call _ ih => cases ih
  | stall _ ih => cases ih
  | shutdown _ ih => cases ih
  | settle _ ih => cases ih
  | advance _ ih =>
      cases ih with
      | begin hstop hmoves =>
          rw [hmoves, ← hstop]
          exact .on hs (le_waitUntil _ _) (Nat.le_of_eq (Nat.zero_add _))
  | turn h hstep ih =>
      cases ih with
      | on hquiet hnow hle =>
          obtain ⟨hquiet', hcost, hnow', hless⟩ := (run.trans h.run).effort_step hquiet hstep
          have hlt := Scheduler.effortUntil_of_step hnow' hcost hless (waitUntil s.now ms)
          dsimp only at hnow' hlt
          refine .on hquiet' (by omega) ?_
          rw [List.length_cons]
          omega
  | wait h _ hnext ih =>
      cases ih with
      | on hquiet hnow hle =>
          obtain ⟨hlt, hstop⟩ := Run.nextDeadline hnext
          have hless := Scheduler.effortUntil_of_wait hlt hstop
          refine .on hquiet ?_ ?_
          · rw [Scheduler.now_stall (Int.le_of_lt hlt)]
            exact hstop
          · rw [List.length_cons]
            omega
  | finish h _ _ ih =>
      cases ih with
      | on hquiet hnow hle =>
          refine .ended (Scheduler.now_stall hnow) ?_
          rw [List.length_cons]
          omega

theorem comes_to_end (run : Run (.initial monitor logging) past s) (hs : s.Quiet)
    (hstop : s.now ≤ stop) :
    ∃ later t, Performance ⟨s, some stop, []⟩ later ⟨t, none, []⟩ ∧ t.now = stop := by
  induction h : s.effortUntil stop using Nat.strongRecOn generalizing s past with
  | ind n ih =>
      have hbegin : Performance ⟨s, some stop, []⟩ [] _ := .start
      by_cases hsettled : s.Settled
      · cases hnext : s.nextDeadline? stop with
        | none => exact ⟨_, _, hbegin.finish hsettled hnext, Scheduler.now_stall hstop⟩
        | some t =>
            obtain ⟨hlt, hle⟩ := Run.nextDeadline hnext
            have hwait := hbegin.wait hsettled hnext
            have hless := Scheduler.effortUntil_of_wait hlt hle
            have hnow := Scheduler.now_stall (Int.le_of_lt hlt)
            have run' : Run _ _ (s.stall (t - s.now).toNat) := run.trans hwait.run
            obtain ⟨later, u, hrest, hu⟩ := ih _ (by omega) run' hs (by omega) rfl
            exact ⟨_, u, hwait.trans hrest, hu⟩
      · obtain ⟨i, hi⟩ := Classical.not_forall.mp hsettled
        obtain ⟨s', hstep⟩ := Option.ne_none_iff_exists'.mp hi
        have hturn := hbegin.turn hstep
        obtain ⟨hquiet, hcost, hnow, hless⟩ := run.effort_step hs hstep
        have hlt := Scheduler.effortUntil_of_step hnow hcost hless stop
        have run' : Run _ _ s' := run.trans hturn.run
        obtain ⟨later, u, hrest, hu⟩ := ih _ (by omega) run' hquiet (by omega) rfl
        exact ⟨_, u, hturn.trans hrest, hu⟩

theorem comes_to_end_of_advancing (run : Run (.initial monitor logging) past s) (hs : s.Quiet)
    (h : Performance ⟨s, none, [.advance ms]⟩ later q) :
    ∃ rest t, Performance q rest ⟨t, none, []⟩ ∧ t.now = waitUntil s.now ms := by
  have run' := run.trans h.run
  cases advancing run hs h with
  | begin hstop _ =>
      obtain ⟨rest, t, hrest, ht⟩ := comes_to_end run hs (le_waitUntil s.now ms)
      rw [hstop] at hrest
      exact ⟨_, t, (Performance.start.advance).trans hrest, ht⟩
  | on hquiet hnow _ => exact comes_to_end run' hquiet hnow
  | ended hnow _ => exact ⟨[], _, .start, hnow⟩

/-- Settling ends, in a script in which no function makes a call. From every state the runners take
finitely many turns before time passes, whichever of them go on, until none can; and an advance by
any time comes to its end, after finitely many turns and stops, whichever they are. -/
theorem settles (hquiet : ∀ c, .call c ∈ steps → ∀ c', .call c' ∉ c.acts)
    (h : Performance ⟨.initial monitor logging, none, steps⟩ past p) :
    (∃ n, ∀ later t, Run p.scheduler later t → Run.Turns later → later.length ≤ n ∧
      ∃ rest u, Run t rest u ∧ Run.Turns rest ∧ u.Settled) ∧
    ∀ ms, ∃ n, ∀ later q, Performance ⟨p.scheduler, none, [.advance ms]⟩ later q →
      later.length ≤ n ∧
      ∃ rest u, Performance q rest ⟨u, none, []⟩ ∧ u.now = waitUntil p.scheduler.now ms := by
  have hs := h.quiet hquiet
  constructor
  · refine ⟨p.scheduler.effort, fun later t after hturns => ?_⟩
    obtain ⟨ht, hle⟩ := h.run.length_le_effort hs after hturns
    exact ⟨by omega, (h.run.trans after).comes_to_rest ht⟩
  · intro ms
    refine ⟨p.scheduler.effortUntil (waitUntil p.scheduler.now ms) + 1, fun later q hadvance => ?_⟩
    refine ⟨?_, comes_to_end_of_advancing h.run hs hadvance⟩
    cases advancing h.run hs hadvance with
    | begin _ hmoves => omega
    | on _ _ hle => omega
    | ended _ hle => exact hle

/-- A job with an execution that is overdue, and one each millisecond from then on. -/
def overdue : Call := .schedulePeriodic Run.plainOrder (some [[.sleep (-1), .context]])
  (some ⟨[⟨[], .ok (.fixed (-1))⟩], some 0⟩)

theorem settles_of_overdue : ∃ past p,
    Performance ⟨.initial .recording false, none, [.call overdue, .advance 9]⟩ past p ∧
    past.length = 3 ∧
    (∃ rest u, Run p.scheduler rest u ∧ Run.Turns rest ∧ u.Settled) ∧
    ∃ rest u, Performance ⟨p.scheduler, none, [.advance 2]⟩ rest ⟨u, none, []⟩ ∧ u.now = 2 := by
  have hbegin : Performance ⟨.initial .recording false, none, [.call overdue, .advance 9]⟩ [] _ :=
    .start
  have h := hbegin.call.advance.turn (i := 0) rfl |>.turn (i := 0) rfl
  have hquiet : ∀ c, Step.call c ∈ [.call overdue, .advance 9] → ∀ c', .call c' ∉ c.acts := by
    simp [overdue, Call.acts, Plan.acts]
  obtain ⟨⟨n, hturns⟩, hadvances⟩ := h.settles hquiet
  obtain ⟨-, hrest⟩ := hturns [] _ .start (by simp [Run.Turns])
  obtain ⟨m, hadvance⟩ := hadvances 2
  exact ⟨_, _, h, rfl, hrest, (hadvance [] _ .start).2⟩

end Performance

end JobScheduler
