import JobScheduler.Proofs.Promptness
import JobScheduler.Proofs.Rounds

/-!
When timers start executions (`Performance.timers_on_time`). A runner waits for an instant from one
of its own turns on: a one-off job's from its first turn, for the instant it was scheduled for, and
a periodic job's from the turn in which its runtime function returned, for the instant it returned.
No wait is longer than `longestWait`. Where nothing stalls it ends on time.
-/

namespace JobScheduler

namespace Scheduler

/-- Whether a move schedules job `i` to run once, at a moment. -/
def Schedules (s : Scheduler) (m : Move) (i : JobId) (runtime : Moment) : Prop :=
  i = s.jobs.length ∧ ∃ o work, s.callOf? m = some (.schedule o work runtime) ∧
    (s.call (actorOf m) (.schedule o work runtime)).2 = .done

/-- Whether job `i` has a runtime function that is about to return a moment. -/
def Returns (s : Scheduler) (i : JobId) (moment : Moment) : Prop :=
  ∃ job pause, s.jobs[i]? = some job ∧ job.phase = .planning pause [] (.ok moment)

/-- What ends the wait of job `i`: a turn of its runner, or the loss of all runners. -/
inductive EndsWait (s : Scheduler) (i : JobId) : Move → Prop where
  | started (trigger : Trigger) :
      s.stage? (.turn i) i = some (.started trigger) → EndsWait s i (.turn i)
  /-- The parent token is cancelled. -/
  | orphaned {job : Job} : s.jobs[i]? = some job → s.tokens.isCancelled job.token = true →
      s.stage? (.turn i) i = some .retired → EndsWait s i (.turn i)
  /-- A cancel signal is there. -/
  | stopped {job : Job} : s.jobs[i]? = some job → job.record.cancelling.pending = true →
      s.stage? (.turn i) i = some .retired → EndsWait s i (.turn i)
  | dropped : EndsWait s i .shutdown

end Scheduler

/-- Whether a step of the script that lets the runners go on until `stop` ends here. -/
def Progress.Ends (p : Progress) (stop : Int) : Prop :=
  p.until? = some stop ∧ p.scheduler.Settled ∧ p.scheduler.nextDeadline? stop = none

/-- Whether the last turn of job `i` in a run was made at `b` and began a wait for an instant, and
the job was scheduled, or its runtime function returned, at the time `since`. -/
inductive Run.Awaits (past : List (Scheduler × Move)) (i : JobId) (b : Scheduler) :
    Int → Int → Prop where
  | once (recent idle earlier : List (Scheduler × Move)) {s : Scheduler} {m : Move}
      (runtime : Moment) :
      past = recent ++ (b, .turn i) :: (idle ++ (s, m) :: earlier) → s.Schedules m i runtime →
      (∀ e ∈ recent, e.2 ≠ .turn i) → (∀ e ∈ idle, e.2 ≠ .turn i) →
      Awaits past i b (runtime.resolve s.now) s.now
  | again (recent earlier : List (Scheduler × Move)) {moment : Moment} :
      past = recent ++ (b, .turn i) :: earlier → b.Returns i moment →
      (∀ e ∈ recent, e.2 ≠ .turn i) → Awaits past i b (moment.resolve b.now) b.now

namespace Scheduler

variable {s s' : Scheduler} {i : JobId} {job : Job} {m : Move}

theorem phase_newJob (s : Scheduler) (o : JobOrder) (periodic : Bool) (work : Work)
    (plan : Plan Action) {phase : Phase} (halive : phase.alive = true) :
    (s.newJob o periodic work plan phase).phase = if o.outside then .vanished else phase := by
  unfold newJob
  dsimp only
  split
  · rw [Job.vanish, if_pos halive]
    rfl
  · rfl

theorem schedule_of_spawned {a : Option JobId} {o : JobOrder} {work : Option Work}
    {runtime : Moment} {instant : Int} (hn : s.jobs[i]? = none)
    (hj : (s.schedule a o work runtime).1.jobs[i]? = some job)
    (hp : job.phase = .spawned instant) :
    (s.schedule a o work runtime).2 = .done ∧ instant = runtime.resolve s.now := by
  unfold schedule at hj ⊢
  split
  · rename_i hvet
    rw [hvet] at hj
    exact absurd (hn.symm.trans hj) (by simp)
  · rename_i w hvet
    rw [hvet] at hj
    simp only [launch, jobs_log, jobs_enrol] at hj
    obtain rfl := eq_of_appended hj hn
    rw [phase_newJob _ _ _ _ _ rfl] at hp
    cases hout : o.outside with
    | true => exact absurd hp (by simp [hout])
    | false =>
        rw [hout] at hp
        cases hp
        simp [launch, hout]

theorem not_spawned_of_schedulePeriodic {a : Option JobId} {o : JobOrder} {work : Option Work}
    {plan : Option (Plan Action)} (hn : s.jobs[i]? = none)
    (hj : (s.schedulePeriodic a o work plan).1.jobs[i]? = some job) (instant : Int) :
    job.phase ≠ .spawned instant := by
  unfold schedulePeriodic at hj
  split at hj
  · exact absurd (hn.symm.trans hj) (by simp)
  · simp only [launch, jobs_log, jobs_enrol] at hj
    obtain rfl := eq_of_appended hj hn
    rw [phase_newJob _ _ _ _ _ rfl]
    split <;> simp

theorem jobs_of_call (h : s.move? m = some s') {c : Call} (hc : s.callOf? m = some c)
    (hn : s.jobs[i]? = none) : s'.jobs[i]? = (s.call (actorOf m) c).1.jobs[i]? := by
  cases m with
  | call c' =>
      cases h
      cases hc
      rfl
  | turn k =>
      have hki : k ≠ i := by
        rintro rfl
        simp [callOf?, hn] at hc
      obtain ⟨answer, phase, rfl⟩ := step_of_call h hc
      simp only [setPhase, updateJob, emit, List.getElem?_modify, if_neg hki]
      simp [actorOf]
  | pass ms => exact absurd hc (by simp [callOf?])
  | shutdown => exact absurd hc (by simp [callOf?])

theorem schedules_of_spawned (h : s.move? m = some s') (hn : s.jobs[i]? = none)
    (hj : s'.jobs[i]? = some job) (hi : i = s.jobs.length) {instant : Int}
    (hp : job.phase = .spawned instant) :
    ∃ runtime, s.Schedules m i runtime ∧ instant = runtime.resolve s.now := by
  obtain ⟨c, hc, ⟨o, ho, -⟩, -⟩ := orderedBy_of_move h hn hj
  rw [jobs_of_call h hc hn] at hj
  cases c with
  | schedule o work runtime =>
      obtain ⟨hdone, hinstant⟩ := schedule_of_spawned hn hj hp
      exact ⟨runtime, ⟨hi, o, work, hc, hdone⟩, hinstant⟩
  | schedulePeriodic o work plan =>
      exact absurd hp (not_spawned_of_schedulePeriodic hn hj instant)
  | _ => exact absurd ho (by simp [Call.order?])

end Scheduler

theorem Change.turn_of_spawned {i : JobId} {m : Move} {v v' : Situation} {ms : List Mark}
    (h : Change i m v ms v') {instant : Int} (hp : v'.job.phase = .spawned instant) :
    v.job.phase = .spawned instant ∧ m ≠ .turn i := by
  cases h with
  | touch hm ht => exact ⟨ht.phase_eq.symm.trans hp, hm⟩
  | turn ht =>
      cases ht with
      | begin =>
          unfold Situation.await at hp
          split at hp
          · cases hp
          · simp [Situation.update, Job.vanish, *, Phase.alive, Job.leave] at hp
      | arrange =>
          unfold Situation.await at hp
          split at hp
          · cases hp
          · simp [Situation.update, Job.vanish, *, Phase.alive, Job.leave] at hp
      | skipped =>
          simp only [Situation.withPhase, Situation.update] at hp
          split at hp <;> cases hp
      | complete =>
          unfold Situation.complete at hp
          split at hp <;> cases hp
      | _ => cases hp
  | pass => exact ⟨hp, by simp⟩
  | vanish =>
      rw [Situation.update_job, Job.vanish] at hp
      split at hp
      · cases hp
      · exact ⟨hp, by simp⟩

theorem Situation.waiting_of_await {v : Situation} (ha : v.job.phase.alive = true) {i j : Int}
    {timer : Option Int} (hp : (v.await i).job.phase = .waiting j timer) :
    j = i ∧ timer = some (waitUntil v.now (i - v.now)) := by
  unfold await at hp
  split at hp
  · cases hp
    exact ⟨rfl, rfl⟩
  · rw [update_job, Job.vanish, if_pos ha] at hp
    cases hp

theorem Turn.waiting {v v' : Situation} {ms : List Mark} (h : Turn v ms v') (hv : v.Sound)
    {instant : Int} {timer : Option Int} (hp : v'.job.phase = .waiting instant timer) :
    timer = some (waitUntil v.now (instant - v.now)) ∧
      (v.job.phase = .spawned instant ∨ ∃ pause moment,
        v.job.phase = .planning pause [] (.ok moment) ∧ instant = moment.resolve v.now) := by
  have ha := h.alive
  cases h with
  | begin hbegin =>
      obtain ⟨rfl, htimer⟩ := Situation.waiting_of_await ha hp
      exact ⟨htimer, .inl hbegin⟩
  | arrange harrange =>
      obtain ⟨rfl, htimer⟩ := Situation.waiting_of_await ha hp
      exact ⟨htimer, .inr ⟨_, _, harrange, rfl⟩⟩
  | skipped hwait hr hactive =>
      exact absurd hactive (Bool.eq_false_iff.mp (hv.active_eq_false hwait hr))
  | complete =>
      unfold Situation.complete at hp
      split at hp <;> exact absurd hp nofun
  | _ => exact absurd hp nofun

theorem Phase.waiting_of_started {signal : Bool} {p p' : Phase} {trigger : Trigger}
    (h : p.stage? signal p' = some (.started trigger)) :
    (∃ instant timer, p = .waiting instant timer) ∧ p'.isRunning = true ∧
      trigger = if signal then .signal else .timer := by
  unfold stage? at h
  split at h
  · exact absurd h nofun
  · cases h
    exact ⟨⟨_, _, rfl⟩, rfl, rfl⟩
  · exact absurd h nofun
  · exact absurd h nofun
  · exact absurd h nofun
  · exact absurd h nofun

theorem Turn.of_started {v v' : Situation} {ms : List Mark} (h : Turn v ms v') {instant : Int}
    {timer : Option Int} (hp : v.job.phase = .waiting instant timer)
    (hrunning : v'.job.phase.isRunning = true) :
    v'.job.phase = .running instant .none (Action.opened (v.job.work.body v.job.runs)) ∧
      (v.isSignalled = true ∨ ∃ t, timer = some t ∧ t ≤ v.now) := by
  cases h with
  | signalled hq ho hc hr =>
      cases hq.symm.trans hp
      exact ⟨rfl, .inl (by simp [Situation.isSignalled, hq, ho, hc, hr])⟩
  | timed hq ht =>
      cases hq.symm.trans hp
      exact ⟨rfl, .inr ⟨_, rfl, ht⟩⟩
  | orphaned | stopped => exact absurd hrunning (by simp [Situation.retire, Situation.stop,
      Situation.leave, Job.leave, Phase.isRunning])
  | skipped =>
      simp only [Situation.withPhase, Situation.update] at hrunning
      split at hrunning <;> cases hrunning
  | begin hq | ask hq | plan hq | arrange hq | giveUp hq | act hq | complete hq =>
      cases hq.symm.trans hp

theorem Change.waits {s s' : Scheduler} {i : JobId} {m : Move} {v v' : Situation} {ms : List Mark}
    (h : Change i m v ms v') (hm : s.move? m = some s') (hs : s.situation? i = some v)
    (hs' : s'.situation? i = some v') (hv : v.Sound) {instant : Int} {timer : Option Int}
    (hp : v.job.phase = .waiting instant timer) :
    v'.job.phase = .waiting instant timer ∧ m ≠ .turn i ∨ s.EndsWait i m := by
  have hstage := Scheduler.stage?_eq hs hm hs'
  have hj := (Scheduler.situation?_eq_some.mp hs).1
  rw [hp] at hstage
  cases h with
  | touch hother ht => exact .inl ⟨ht.phase_eq.trans hp, hother⟩
  | turn ht =>
      cases ht with
      | orphaned _ ho =>
          rw [Scheduler.orphaned_of_situation? hs] at ho
          exact .inr (.orphaned hj ho hstage)
      | stopped _ _ hc => exact .inr (.stopped hj hc hstage)
      | signalled | timed => exact .inr (.started _ hstage)
      | skipped hwait hr hactive =>
          exact absurd hactive (Bool.eq_false_iff.mp (hv.active_eq_false hwait hr))
      | begin hq | ask hq | plan hq | arrange hq | giveUp hq | act hq | complete hq =>
          exact absurd (hq.symm.trans hp) nofun
  | pass => exact .inl ⟨hp, nofun⟩
  | vanish => exact .inr .dropped

namespace Run

variable {monitor : Monitor} {logging : Bool} {past later : List (Scheduler × Move)}
  {s t b : Scheduler} {i : JobId} {job : Job} {instant : Int}

theorem Awaits.next {since : Int} {m : Move} (h : Awaits past i b instant since)
    (hm : m ≠ .turn i) : Awaits ((s, m) :: past) i b instant since := by
  have hrecent : ∀ {recent : List (Scheduler × Move)}, (∀ e ∈ recent, e.2 ≠ .turn i) →
      ∀ e ∈ (s, m) :: recent, e.2 ≠ .turn i := by
    intro recent hold
    exact List.forall_mem_cons.mpr ⟨hm, hold⟩
  cases h with
  | once recent idle earlier runtime hpast hs hold hidle =>
      exact .once ((s, m) :: recent) idle earlier runtime (congrArg _ hpast) hs (hrecent hold) hidle
  | again recent earlier hpast hb hold =>
      exact .again ((s, m) :: recent) earlier (congrArg _ hpast) hb (hrecent hold)

theorem scheduled_since (run : Run (.initial monitor logging) past s)
    (hj : s.jobs[i]? = some job) (hp : job.phase = .spawned instant) :
    ∃ idle s₁ m earlier runtime, past = idle ++ (s₁, m) :: earlier ∧
      s₁.Schedules m i runtime ∧ (∀ e ∈ idle, e.2 ≠ .turn i) ∧
      instant = runtime.resolve s₁.now ∧ s₁.now ≤ s.now ∧ (Prompt past → s₁.now = s.now) := by
  induction run generalizing job with
  | start => exact absurd hj (by simp [Scheduler.initial])
  | @next past s s' m run hm ih =>
      have hle := Scheduler.now_le_of_move hm
      cases Scheduler.origin_of_move run.named hm (Scheduler.situation?_of_getElem? hj) with
      | born hnone _ _ hi _ =>
          have hn : s.jobs[i]? = none := Option.map_eq_none_iff.mp hnone
          obtain ⟨runtime, hs, hinstant⟩ := Scheduler.schedules_of_spawned hm hn hj hi hp
          refine ⟨[], s, m, past, runtime, rfl, hs, by simp, hinstant, hle, fun _ => ?_⟩
          rcases Scheduler.now_of_move hm with ⟨ms, rfl⟩ | hnow
          · cases hm
            exact absurd (hn.symm.trans hj) (by simp)
          · exact hnow.symm
      | @changed v ms hs hchange _ _ =>
          have hjob := (Scheduler.situation?_eq_some.mp hs).1
          obtain ⟨hold, hturn⟩ := hchange.turn_of_spawned hp
          obtain ⟨idle, s₁, m₁, earlier, runtime, hpast, hs₁, hidle, hinstant, hle₁, hprompt⟩ :=
            ih hjob hold
          refine ⟨(s, m) :: idle, s₁, m₁, earlier, runtime, congrArg _ hpast, hs₁,
            List.forall_mem_cons.mpr ⟨hturn, hidle⟩, hinstant, Int.le_trans hle₁ hle, fun h => ?_⟩
          rw [hprompt h.tail]
          -- No time passes before the runner has had its first turn: it can go on at once.
          rcases Scheduler.now_of_move hm with ⟨n, rfl⟩ | hnow
          · exact absurd hold ((h s n List.mem_cons_self).settled.not_spawned hjob)
          · exact hnow.symm

theorem awaits (run : Run (.initial monitor logging) past s) (hj : s.jobs[i]? = some job)
    {timer : Option Int} (hp : job.phase = .waiting instant timer) :
    ∃ b since, Awaits past i b instant since ∧
      timer = some (waitUntil b.now (instant - b.now)) ∧ b.now ≤ s.now ∧
      (Prompt past → since = b.now) := by
  induction run generalizing job with
  | start => exact absurd hj (by simp [Scheduler.initial])
  | @next past s s' m run hm ih =>
      have hle := Scheduler.now_le_of_move hm
      cases Scheduler.origin_of_move run.named hm (Scheduler.situation?_of_getElem? hj) with
      | born _ hborn =>
          rcases hborn.phase_cases with ⟨_, hq⟩ | hq | hq <;> cases hq.symm.trans hp
      | @changed v ms hs hchange _ _ =>
          obtain ⟨hjob, -⟩ := Scheduler.situation?_eq_some.mp hs
          have hv := Scheduler.now_of_situation? hs
          have hgoes : v.job.phase = .waiting instant timer → m ≠ .turn i →
              ∃ b since, Awaits ((s, m) :: past) i b instant since ∧
                timer = some (waitUntil b.now (instant - b.now)) ∧ b.now ≤ s'.now ∧
                (Prompt ((s, m) :: past) → since = b.now) := by
            intro hq hother
            obtain ⟨b, since, hwait, htimer, hb, hsince⟩ := ih hjob hq
            exact ⟨b, since, hwait.next hother, htimer, Int.le_trans hb hle,
              fun h => hsince h.tail⟩
          generalize hv' : s'.situate i job = v' at hchange
          have hp' : v'.job.phase = .waiting instant timer := by rw [← hv']; exact hp
          -- Only a turn of the runner itself can have begun the wait.
          cases hchange with
          | touch hother ht => exact hgoes (ht.phase_eq.symm.trans hp') hother
          | turn ht =>
              obtain ⟨htimer, hbegin⟩ := ht.waiting (run.sound hs) hp'
              rw [hv] at htimer
              rcases hbegin with hq | ⟨pause, moment, hq, hinstant⟩
              · obtain ⟨idle, s₁, m₁, earlier, runtime, hpast, hs₁, hidle, rfl, -, hprompt⟩ :=
                  run.scheduled_since hjob hq
                refine ⟨s, s₁.now, .once [] idle earlier runtime ?_ hs₁ (by simp) hidle, htimer,
                  hle, fun h => hprompt h.tail⟩
                rw [hpast]
                rfl
              · rw [hv] at hinstant
                subst hinstant
                exact ⟨s, s.now, .again [] past rfl ⟨v.job, pause, hjob, hq⟩ (by simp),
                  htimer, hle, fun _ => rfl⟩
          | pass => exact hgoes hp' (by simp)
          | vanish =>
              rw [Situation.update_job, Job.vanish] at hp'
              split at hp'
              · cases hp'
              · exact hgoes hp' (by simp)

theorem waits_until (run : Run (.initial monitor logging) past b) (hj : b.jobs[i]? = some job)
    {timer : Option Int} (hp : job.phase = .waiting instant timer) (after : Run b later s) :
    (∃ job', s.jobs[i]? = some job' ∧ job'.phase = .waiting instant timer ∧
      ∀ e ∈ later, e.2 ≠ .turn i) ∨
    ∃ recent s₁ m before, later = recent ++ (s₁, m) :: before ∧
      (∀ e ∈ before, e.2 ≠ .turn i) ∧ s₁.EndsWait i m := by
  induction after with
  | start => exact .inl ⟨job, hj, hp, by simp⟩
  | @next later t t' m after hm ih =>
      rcases ih with ⟨job', hj', hp', hidle⟩ | ⟨recent, s₁, m₁, before, rfl, hidle, hends⟩
      · have run' := run.trans after
        have hv := Scheduler.situation?_of_getElem? hj'
        obtain ⟨ms, v', hchange, htells, -⟩ := Scheduler.change_of_move run'.named hv hm
        obtain ⟨hj'', -⟩ := Scheduler.situation?_eq_some.mp htells.situation
        rcases hchange.waits hm hv htells.situation (run'.sound hv) hp' with ⟨hgoes, hother⟩ | hends
        · exact .inl ⟨v'.job, hj'', hgoes, List.forall_mem_cons.mpr ⟨hother, hidle⟩⟩
        · exact .inr ⟨[], t, m, later, rfl, hidle, hends⟩
      · exact .inr ⟨(t, m) :: recent, s₁, m₁, before, rfl, hidle, hends⟩

theorem started_of_stage (run : Run (.initial monitor logging) past s) {trigger : Trigger}
    (hj : s.jobs[i]? = some job) (hstage : s.stage? (.turn i) i = some (.started trigger)) :
    ∃ s' job' instant timer, s.step? i = some s' ∧ s'.jobs[i]? = some job' ∧
      job.phase = .waiting instant timer ∧
      job'.phase = .running instant .none (Action.opened (job.work.body job.runs)) ∧
      (trigger = .timer → ∃ t, timer = some t ∧ t ≤ s.now) := by
  cases hm : s.move? (.turn i) with
  | none => simp [Scheduler.stage?, hm] at hstage
  | some s' =>
      have hv := Scheduler.situation?_of_getElem? hj
      obtain ⟨ms, v', hturn, htells, -⟩ := Scheduler.turn_of_step run.named hv hm
      rw [Scheduler.stage?_eq hv hm htells.situation] at hstage
      obtain ⟨⟨instant, timer, hp⟩, hrunning, htrigger⟩ := Phase.waiting_of_started hstage
      obtain ⟨hphase, hstarted⟩ := hturn.of_started hp hrunning
      refine ⟨s', v'.job, instant, timer, hm, (Scheduler.situation?_eq_some.mp htells.situation).1,
        hp, hphase, ?_⟩
      rintro rfl
      refine hstarted.resolve_left fun hsignal => ?_
      simp [hsignal, Move.isTurnOf] at htrigger

end Run

namespace Performance

variable {monitor : Monitor} {logging : Bool} {steps : List Step}
  {past later earlier : List (Scheduler × Move)} {p : Progress} {s b : Scheduler} {i : JobId}
  {job : Job} {instant stop : Int}

/-- Where a timer starts an execution, the wait since the runner's last turn is over, and not
before; and where nothing stalls it is over exactly now. -/
theorem timer_of_append (h : Performance ⟨.initial monitor logging, none, steps⟩ past p)
    (hpast : past = later ++ (s, .turn i) :: earlier)
    (hstage : s.stage? (.turn i) i = some (.started .timer)) :
    ∃ b instant since, Run.Awaits earlier i b instant since ∧
      min instant (b.now + longestWait) ≤ s.now ∧
      ((∀ ms, .stall ms ∉ steps) →
        since = b.now ∧ s.now = max since (min instant (since + longestWait))) := by
  have run := h.run
  rw [hpast] at run
  obtain ⟨before, -⟩ := run.of_append
  obtain ⟨job, hj⟩ : ∃ job, s.jobs[i]? = some job := by
    cases hj : s.jobs[i]? with
    | none => simp [Scheduler.stage?, hj] at hstage
    | some job => exact ⟨job, rfl⟩
  obtain ⟨-, -, instant, timer, -, -, hp, -, hdue⟩ := before.started_of_stage hj hstage
  obtain ⟨t, rfl, hdue⟩ := hdue rfl
  obtain ⟨b, since, hwait, htimer, -, hsince⟩ := before.awaits hj hp
  have ht : t = max b.now (min instant (b.now + longestWait)) :=
    (Option.some_inj.mp htimer).trans (waitUntil_sub _ _)
  refine ⟨b, instant, since, hwait, by omega, fun hsteps => ?_⟩
  have hprompt := h.prompt hsteps
  rw [hpast] at hprompt
  have hprompt' : Run.Prompt earlier := hprompt.of_suffix.tail
  have hnow : s.now ≤ t := before.punctual hprompt' i job t hj (by rw [Job.deadline?, hp])
  have hb := hsince hprompt'
  rw [hb]
  exact ⟨rfl, by omega⟩

/-- Where a step of the script ends, no runner waits for an instant that has been reached. -/
theorem lt_of_ends (h : Performance ⟨.initial monitor logging, none, steps⟩ past p)
    (hends : p.Ends stop) (hj : p.scheduler.jobs[i]? = some job)
    (hp : job.phase = .spawned instant ∨ ∃ timer, job.phase = .waiting instant timer) :
    stop < instant := by
  obtain ⟨huntil, hsettled, hnone⟩ := hends
  have hnow : p.scheduler.now ≤ stop := h.now_le_until rfl (by rw [← huntil])
  rcases hp with hp | ⟨timer, hp⟩
  · exact absurd hp (hsettled.not_spawned hj)
  · obtain ⟨b, since, -, htimer, hb, -⟩ := h.run.awaits hj hp
    have ht : job.deadline? = some (waitUntil b.now (instant - b.now)) := by
      rw [Job.deadline?, hp]
      exact htimer
    have hlt := hsettled.stop_lt hnone hj ht
    rw [waitUntil_sub] at hlt
    omega

/-- Timers are on time. No execution is started by a timer before the instant that the runner waits
for, or before the longest wait is over; and if the script has no stalls, it is started exactly when
the one or the other is reached, or at once. Where a step that lets the runners go on ends, no
runner waits for an instant that has been reached: every wait for such an instant was ended by the
timer, a run signal, the parent, a cancel signal or the loss of the runners. -/
theorem timers_on_time (h : Performance ⟨.initial monitor logging, none, steps⟩ past p) :
    (∀ later s i earlier, past = later ++ (s, .turn i) :: earlier →
      s.stage? (.turn i) i = some (.started .timer) →
      ∃ b instant since, Run.Awaits earlier i b instant since ∧
        min instant (b.now + longestWait) ≤ s.now ∧
        ((∀ ms, .stall ms ∉ steps) →
          since = b.now ∧ s.now = max since (min instant (since + longestWait)))) ∧
    ∀ stop, p.Ends stop →
      (∀ (i : JobId) (job : Job) (instant : Int), p.scheduler.jobs[i]? = some job →
        (job.phase = .spawned instant ∨ ∃ timer, job.phase = .waiting instant timer) →
        stop < instant) ∧
      ∀ later b i earlier b' (job : Job) (instant : Int) (timer : Option Int),
        past = later ++ (b, .turn i) :: earlier → b.step? i = some b' → b'.jobs[i]? = some job →
        job.phase = .waiting instant timer → instant ≤ stop →
        ∃ recent s m between, later = recent ++ (s, m) :: between ∧
          (∀ e ∈ between, e.2 ≠ .turn i) ∧ s.EndsWait i m := by
  constructor
  · intro later s i earlier hpast hstage
    exact h.timer_of_append hpast hstage
  · intro stop hends
    constructor
    · intro i job instant hj hp
      exact h.lt_of_ends hends hj hp
    · intro later b i earlier b' job instant timer hpast hstep hj hp hle
      have run := h.run
      rw [hpast] at run
      obtain ⟨before, b'', hm, after⟩ := run.of_append
      obtain rfl : b' = b'' := Option.some_inj.mp (hstep.symm.trans hm)
      rcases (before.next _ hm).waits_until hj hp after with ⟨job', hj', hp', -⟩ | hended
      · have hlt := h.lt_of_ends hends hj' (.inr ⟨timer, hp'⟩)
        omega
      · exact hended

theorem timer_of_five : ∃ past later s earlier p,
    Performance ⟨.initial .recording false, none,
      [.call (.schedule Run.plainOrder (some []) (.after 5)), .advance 9]⟩ past p ∧
    past = later ++ (s, .turn 0) :: earlier ∧ s.now = 5 ∧
    s.stage? (.turn 0) 0 = some (.started .timer) ∧
    ∃ b instant since, Run.Awaits earlier 0 b instant since ∧ since = b.now ∧
      s.now = max since (min instant (since + longestWait)) := by
  have hbegin : Performance ⟨.initial .recording false, none,
      [.call (.schedule Run.plainOrder (some []) (.after 5)), .advance 9]⟩ [] _ := .start
  have hwait := hbegin.call.advance.turn (i := 0) rfl
  have h := (hwait.wait (t := 5) (Scheduler.settled_of_single rfl rfl) rfl).turn (i := 0) rfl
  obtain ⟨b, instant, since, hawaits, -, hexact⟩ := h.timers_on_time.1 [] _ 0 _ rfl rfl
  exact ⟨_, [], _, _, _, h, rfl, rfl, rfl, b, instant, since, hawaits, hexact (by simp)⟩

/-- A job that is due in more than thirty years is started by its timer after thirty years. -/
theorem early_timer : ∃ past later s earlier b p,
    Performance ⟨.initial .recording false, none,
      [.call (.schedule Run.plainOrder (some []) (.fixed 946080000001)),
        .advance 946080000000]⟩ past p ∧
    past = later ++ (s, .turn 0) :: earlier ∧ s.stage? (.turn 0) 0 = some (.started .timer) ∧
    Run.Awaits earlier 0 b 946080000001 0 ∧ s.now < 946080000001 := by
  have hbegin : Performance ⟨.initial .recording false, none,
      [.call (.schedule Run.plainOrder (some []) (.fixed 946080000001)),
        .advance 946080000000]⟩ [] _ := .start
  have hwait := hbegin.call.advance.turn (i := 0) rfl
  have h := (hwait.wait (t := 946080000000) (Scheduler.settled_of_single rfl rfl) rfl).turn
    (i := 0) rfl
  exact ⟨_, [], _, _, _, _, h, rfl, rfl, .once [_] [] [] (.fixed 946080000001) rfl
    ⟨rfl, _, _, rfl, rfl⟩ (by simp) (by simp), by decide⟩

end Performance

end JobScheduler
