import JobScheduler.Proofs.Outcome
import JobScheduler.Proofs.Soundness

/-!
What becomes of requests to run a job now. Each one that is accepted places a run signal, and each
signal is taken for one execution, is still in the slot, or was in the slot when the runner ended
(`Run.accepts_eq`).
-/

namespace JobScheduler

namespace Record

theorem pending_of_ok {r : Record} (h : r.triggerRun.2 = .ok ()) :
    r.running.pending = false ∧ r.triggerRun.1.running.pending = true := by
  rcases r.triggerRun_cases with ⟨e, hrefused⟩ | ⟨-, -, hempty, haccepted⟩
  · rw [hrefused] at h
    exact absurd h (by simp)
  · rw [haccepted]
    exact ⟨hempty, rfl⟩

theorem pending_of_error {r : Record} {e : ServiceError} (h : r.triggerRun.2 = .error e) :
    r.triggerRun.1.running.pending = r.running.pending := by
  rcases r.triggerRun_cases with ⟨e', hrefused⟩ | ⟨-, -, -, haccepted⟩
  · rw [hrefused]
  · rw [haccepted] at h
    exact absurd h (by simp)

theorem pending_cancel (r : Record) : r.cancel.1.running = r.running := by
  unfold cancel
  split <;> rfl

end Record

namespace Situation

/-- How many run signals are in the slot. -/
def slot (v : Situation) : Nat := if v.job.record.running.pending then 1 else 0

theorem slot_eq {v v' : Situation}
    (h : v'.job.record.running.pending = v.job.record.running.pending) : v'.slot = v.slot := by
  rw [slot, slot, h]

theorem slot_of_pending {v : Situation} (h : v.job.record.running.pending = true) : v.slot = 1 :=
  if_pos h

theorem slot_of_empty {v : Situation} (h : v.job.record.running.pending = false) : v.slot = 0 :=
  if_neg (Bool.eq_false_iff.mp h)

theorem slot_le_one (v : Situation) : v.slot ≤ 1 := by
  unfold slot
  split <;> omega

theorem slot_vanish {v : Situation} (ha : v.job.phase.alive = true) :
    (v.update Job.vanish).slot = 0 := by
  refine slot_of_empty ?_
  rw [update_job, Job.vanish, if_pos ha]
  rfl

end Situation

/-- What a change does to the signals of a job: the ones that come in are accepted, and the ones
that go are executed or lost. -/
def Balanced (v : Situation) (ms : List Mark) (v' : Situation) : Prop :=
  ms.count .accepted + v.slot =
    ms.count (.reported (.started .signal)) + v'.slot + ms.count .lost

theorem Balanced.of_unseen {v v' : Situation} {ms : List Mark} (hms : Unseen ms)
    (h : v.slot = v'.slot + ms.count .lost) : Balanced v ms v' := by
  unfold Balanced
  rw [hms.count (by simp), hms.count (by simp), h]
  omega

theorem Balanced.of_leftover {v v' : Situation} (h : v'.slot = 0) : Balanced v v.leftover v' := by
  refine .of_unseen v.unseen_leftover ?_
  rw [h, v.count_lost_leftover, Situation.slot, Nat.zero_add]

theorem Balanced.of_giveUp {v v' : Situation} (h : v'.slot = 0) :
    Balanced v (.reported .cancelled :: v.leftover) v' := by
  have hleft : Balanced v v.leftover v' := .of_leftover h
  unfold Balanced at hleft ⊢
  rw [List.count_cons_of_ne (by simp), List.count_cons_of_ne (by simp),
    List.count_cons_of_ne (by simp)]
  exact hleft

theorem Touch.balanced {v v' : Situation} {ms : List Mark} (h : Touch v ms v') :
    Balanced v ms v' := by
  cases h with
  | none => exact .of_unseen (by simp [Unseen]) rfl
  | accept _ hok =>
      obtain ⟨hempty, hfull⟩ := Record.pending_of_ok hok
      unfold Balanced
      rw [Situation.slot_of_empty hempty, Situation.slot_of_pending hfull]
      rfl
  | refuse _ herror =>
      exact .of_unseen (by simp [Unseen]) (Situation.slot_eq (Record.pending_of_error herror)).symm
  | stop =>
      refine .of_unseen (by simp [Unseen]) (Situation.slot_eq ?_).symm
      exact congrArg Channel.pending (Record.pending_cancel v.job.record)
  | orphan => exact .of_unseen (by simp [Unseen]) rfl

theorem Situation.balanced_await (v : Situation) (instant : Int)
    (ha : v.job.phase.alive = true) : Balanced v v.awaitMarks (v.await instant) := by
  unfold awaitMarks await
  split
  · exact .of_unseen (by simp [Unseen]) rfl
  · exact .of_leftover (slot_vanish ha)

theorem Turn.balanced {v v' : Situation} {ms : List Mark} (h : Turn v ms v') :
    Balanced v ms v' := by
  have ha := h.alive
  cases h with
  | begin => exact v.balanced_await _ ha
  | ask => rfl
  | plan _ _ ht _ => exact ht.balanced
  | arrange => exact v.balanced_await _ ha
  | giveUp => exact .of_giveUp rfl
  | orphaned => exact .of_giveUp rfl
  | stopped => exact .of_giveUp rfl
  | signalled _ _ _ hr =>
      unfold Balanced
      rw [Situation.slot_of_pending hr]
      rfl
  | skipped => rfl
  | @timed instant t _ _ _ _ hr hactive =>
      unfold Balanced
      rw [Situation.slot_of_empty hr, Situation.slot_of_empty]
      · rfl
      · show v.job.record.tryActivate.1.running.pending = false
        rw [Record.tryActivate_of_inactive hactive]
        exact hr
  | act _ _ ht _ => exact ht.balanced
  | complete =>
      unfold Situation.complete
      split
      · rfl
      · exact .of_leftover rfl

theorem Change.balanced {i : JobId} {m : Move} {v v' : Situation} {ms : List Mark}
    (h : Change i m v ms v') : Balanced v ms v' := by
  cases h with
  | touch _ ht => exact ht.balanced
  | turn ht => exact ht.balanced
  | pass => rfl
  | vanish =>
      unfold Situation.vanishMarks
      split
      · rename_i ha
        exact .of_leftover (Situation.slot_vanish ha)
      · rename_i ha
        have hsame : v.job.vanish = v.job := if_neg ha
        refine .of_unseen (by simp [Unseen]) ?_
        rw [Situation.slot, Situation.slot, Situation.update_job, hsame]
        rfl

theorem Life.balanced {i : JobId} {v₀ v : Situation} {ms : List Mark} (h : Life i v₀ ms v)
    (hempty : v₀.slot = 0) : ms.count .accepted =
      ms.count (.reported (.started .signal)) + v.slot + ms.count .lost := by
  induction h with
  | start => simp [hempty]
  | next _ hc ih =>
      have hbalance := hc.balanced
      unfold Balanced at hbalance
      rw [List.count_append, List.count_append, List.count_append]
      omega

theorem Change.alive {i : JobId} {m : Move} {v v' : Situation} {ms : List Mark}
    (h : Change i m v ms v') (ha : v'.job.phase.alive = true) : v.job.phase.alive = true := by
  cases h with
  | touch _ ht => rwa [ht.phase_eq] at ha
  | turn ht => exact ht.alive
  | pass => exact ha
  | vanish =>
      rw [Situation.update_job, Situation.alive_vanish] at ha
      exact absurd ha Bool.false_ne_true

theorem Life.count_lost {i : JobId} {v₀ v : Situation} {ms : List Mark} (h : Life i v₀ ms v) :
    (v.job.phase.alive = true → ms.count .lost = 0) ∧ ms.count .lost ≤ 1 := by
  induction h with
  | start => simp
  | @next past ms v v' m _ hc ih =>
      rw [List.count_append, hc.count_lost]
      refine ⟨fun ha => ?_, ?_⟩
      · rw [ih.1 (hc.alive ha), ha, Bool.not_true, Bool.and_false, if_neg Bool.false_ne_true]
      · split
        · rename_i hlost
          simp only [Bool.and_eq_true] at hlost
          have hnone := ih.1 hlost.1.1
          omega
        · omega

/-- What a change accepts, and what it does to the registration: a job comes back to no name, and a
one-off job whose run is accepted leaves its name. -/
def Admits (v : Situation) (ms : List Mark) (v' : Situation) : Prop :=
  ms.count .accepted = 0 ∧ (v'.registered = true → v.registered = true) ∨
    ms.count .accepted = 1 ∧ v.registered = true ∧ v'.registered = v.job.record.periodic ∧
      v'.job.record.running.pending = true

theorem Admits.of_unseen {v v' : Situation} {ms : List Mark} (hms : Unseen ms)
    (hr : v'.registered = true → v.registered = true) : Admits v ms v' :=
  .inl ⟨hms.count (by simp), hr⟩

theorem Admits.of_giveUp {v v' : Situation} (hr : v'.registered = true → v.registered = true) :
    Admits v (.reported .cancelled :: v.leftover) v' := by
  refine .inl ⟨?_, hr⟩
  rw [List.count_cons_of_ne (by simp)]
  exact v.unseen_leftover.count (by simp)

theorem Touch.admits {v v' : Situation} {ms : List Mark} (h : Touch v ms v') : Admits v ms v' := by
  cases h with
  | none => exact .of_unseen (by simp [Unseen]) id
  | accept hr hok => exact .inr ⟨rfl, hr, rfl, (Record.pending_of_ok hok).2⟩
  | refuse hr _ => exact .of_unseen (by simp [Unseen]) fun _ => hr
  | stop hr => exact .of_unseen (by simp [Unseen]) fun _ => hr
  | orphan => exact .of_unseen (by simp [Unseen]) id

theorem Situation.registered_await (v : Situation) (instant : Int) :
    (v.await instant).registered = v.registered := by
  unfold await
  split <;> rfl

theorem Turn.admits {v v' : Situation} {ms : List Mark} (h : Turn v ms v') : Admits v ms v' := by
  cases h with
  | begin =>
      refine .of_unseen v.unseen_awaitMarks ?_
      rw [v.registered_await]
      exact id
  | ask => exact .inl ⟨rfl, id⟩
  | plan _ _ ht _ => exact ht.admits
  | arrange =>
      refine .of_unseen v.unseen_awaitMarks ?_
      rw [v.registered_await]
      exact id
  | giveUp => exact .of_giveUp nofun
  | orphaned => exact .of_giveUp nofun
  | stopped => exact .of_giveUp id
  | signalled => exact .inl ⟨rfl, id⟩
  | skipped => exact .inl ⟨rfl, id⟩
  | timed => exact .inl ⟨rfl, fun hr => (Bool.and_eq_true_iff.mp hr).1⟩
  | act _ _ ht _ => exact ht.admits
  | complete =>
      unfold Situation.complete
      split
      · exact .inl ⟨rfl, id⟩
      · exact .of_unseen v.unseen_leftover id

theorem Change.admits {i : JobId} {m : Move} {v v' : Situation} {ms : List Mark}
    (h : Change i m v ms v') : Admits v ms v' := by
  cases h with
  | touch _ ht => exact ht.admits
  | turn ht => exact ht.admits
  | pass => exact .inl ⟨rfl, id⟩
  | vanish => exact .of_unseen v.unseen_vanishMarks id

theorem Life.accepts_le_one {i : JobId} {v₀ v : Situation} {ms : List Mark} (h : Life i v₀ ms v)
    (hone : v₀.job.record.periodic = false) :
    (v.registered = true → ms.count .accepted = 0) ∧ ms.count .accepted ≤ 1 := by
  induction h with
  | start => simp
  | next hl hc ih =>
      rw [List.count_append]
      rcases hc.admits with ⟨hnone, hr⟩ | ⟨hsome, hr, hr', -⟩
      · rw [hnone, Nat.zero_add]
        exact ⟨fun h => ih.1 (hr h), ih.2⟩
      · have hperiodic := (Scheduler.periodic_eq_of_terms hl.terms_eq).trans hone
        rw [hsome, ih.1 hr, hr', hperiodic]
        exact ⟨nofun, by omega⟩

namespace Situation

theorem Born.slot_eq_zero {v : Situation} (h : v.Born) : v.slot = 0 := by
  refine slot_of_empty ?_
  cases h with
  | inside _ hj => rw [hj.record]
  | outside _ _ hjob =>
      rw [hjob]
      rfl

theorem Sound.slot_eq_zero {v : Situation} (hv : v.Sound) (ha : v.job.phase.alive = false) :
    v.slot = 0 := by
  refine slot_of_empty ?_
  cases hv with
  | tended ha' _ => exact absurd (ha.symm.trans ha') Bool.false_ne_true
  | ended _ h => rw [h.running]
  | abandoned _ h => exact h.running.1

end Situation

namespace Run

variable {monitor : Monitor} {logging : Bool} {past : List (Scheduler × Move)} {s : Scheduler}
  {i : JobId} {v : Situation}

/-- Every accepted request is one execution that was started on a run signal, one signal that is in
the slot, or one that was in the slot when the runner ended; at most one is not the first. -/
theorem accepts_eq (run : Run (.initial monitor logging) past s) (hv : s.situation? i = some v) :
    accepts past i = signalled past i + v.slot + losses past i ∧ v.slot + losses past i ≤ 1 := by
  obtain ⟨v₀, ms, hborn, hlife, hacc, hlost, hsignal, -⟩ := run.life hv
  rw [← hacc, ← hlost, ← hsignal]
  refine ⟨hlife.balanced hborn.slot_eq_zero, ?_⟩
  cases ha : v.job.phase.alive with
  | true =>
      rw [hlife.count_lost.1 ha]
      exact v.slot_le_one
  | false =>
      rw [(run.sound hv).slot_eq_zero ha, Nat.zero_add]
      exact hlife.count_lost.2

theorem accepts_le_one (run : Run (.initial monitor logging) past s)
    (hv : s.situation? i = some v) (hone : v.job.record.periodic = false) :
    accepts past i ≤ 1 := by
  obtain ⟨v₀, ms, hborn, hlife, hacc, -⟩ := run.life hv
  rw [← hacc]
  have hone₀ := (Scheduler.periodic_eq_of_terms hlife.terms_eq).symm.trans hone
  exact (hlife.accepts_le_one hone₀).2

theorem reports_signal (run : Run (.initial .recording logging) past s)
    (hv : s.situation? i = some v) :
    s.reports i (.started .signal) = signalled past i := by
  obtain ⟨v₀, ms, -, -, -, -, hsignal, hmarks⟩ := run.life hv
  rw [Scheduler.reports, hmarks rfl, List.count_append, List.count_filter rfl, hsignal]
  rfl

end Run

/-- Whether the runtime function ends here without an instant: it returns an error or panics. -/
def Job.GivesUp (j : Job) : Prop :=
  ∃ pause rest result, j.phase = .planning pause rest result ∧ Action.over rest = true ∧
    (rest = [] → ∃ e, result = .error e)

/-- The moves by which job `i` can lose a signal that is in its slot. -/
inductive Scheduler.Loses (s : Scheduler) (i : JobId) (job : Job) : Move → Prop where
  | shutdown : Loses s i job .shutdown
  /-- The runner finds its parent token cancelled. -/
  | orphaned : s.tokens.isCancelled job.token = true → Loses s i job (.turn i)
  /-- The runner finds that the job was cancelled. -/
  | cancelled : job.record.periodic = true → job.record.finalised = true →
      Loses s i job (.turn i)
  | gaveUp : job.record.periodic = true → job.GivesUp → Loses s i job (.turn i)
  /-- The runner begins to wait where now has no date. -/
  | undated : job.BeginsToWait → lastDated < s.now → Loses s i job (.turn i)

theorem Turn.loses {v v' : Situation} {ms : List Mark} (h : Turn v ms v') (hv : v.Tended)
    (hr : v.job.record.running.pending = true) (hgone : v'.job.phase.alive = false) :
    v.orphaned = true ∨
      v.job.record.periodic = true ∧ (v.job.record.finalised = true ∨ v.job.GivesUp) ∨
      v.job.BeginsToWait ∧ lastDated < v.now := by
  have hfull : v.job.record.running.pending ≠ false := by simp [hr]
  cases h with
  | begin hp =>
      exact .inr (.inr ⟨.inl ⟨_, hp⟩, (Situation.await_of_gone hgone).1⟩)
  | arrange hp =>
      exact .inr (.inr ⟨.inr ⟨_, _, hp⟩, (Situation.await_of_gone hgone).1⟩)
  | giveUp hp _ hover hend =>
      have hperiodic := hv.suits
      rw [hp] at hperiodic
      exact .inr (.inl ⟨hperiodic, .inr ⟨_, _, _, hp, hover, hend⟩⟩)
  | orphaned _ ho => exact .inl ho
  | stopped hp _ hc =>
      -- A one-off job that is active is out of the registry, where no call can cancel it.
      have hfinalised : v.job.record.finalised = true := hv.stopping.trans hc
      have hactive : v.job.record.active = true := by rw [hv.active, hr, Bool.or_true]
      refine .inr (.inl ⟨?_, .inl hfinalised⟩)
      cases hone : v.job.record.periodic with
      | true => rfl
      | false => exact absurd hfinalised (by simp [hv.exclusive hone hactive])
  | complete hp _ _ => exact absurd (hv.once (by rw [hp]; rfl)) hfull
  | skipped _ hempty _ => exact absurd hempty hfull
  | timed _ _ _ _ hempty _ => exact absurd hempty hfull
  | _ =>
      exact absurd hgone
        (by simp [Situation.ask, Situation.start, Situation.withPhase, Phase.alive])

namespace Run

variable {monitor : Monitor} {logging : Bool} {past : List (Scheduler × Move)} {s s' : Scheduler}
  {i : JobId} {job : Job}

theorem loses_of_strands (run : Run (.initial monitor logging) past s)
    (hj : s.jobs[i]? = some job) {m : Move} (hm : s.move? m = some s')
    (hlost : s.strands m i = true) : s.Loses i job m := by
  have hv := Scheduler.situation?_of_getElem? hj
  obtain ⟨ms, v', hchange, htells, -⟩ := Scheduler.change_of_move run.named hv hm
  rw [Scheduler.strands_eq hv hm htells.situation] at hlost
  simp only [Bool.and_eq_true, Bool.not_eq_true'] at hlost
  obtain ⟨⟨ha, hr⟩, hgone⟩ := hlost
  cases hchange with
  | touch _ ht =>
      rw [ht.phase_eq, ha] at hgone
      exact absurd hgone (by simp)
  | turn ht =>
      rcases ht.loses ((run.sound hv).tended_of_alive ha) hr hgone with
        ho | ⟨hp, hf | hg⟩ | ⟨hbegins, hlate⟩
      · exact .orphaned ho
      · exact .cancelled hp hf
      · exact .gaveUp hp hg
      · exact .undated hbegins hlate
  | pass =>
      rw [ha] at hgone
      exact absurd hgone (by simp)
  | vanish => exact .shutdown

end Run

theorem Touch.pending {v v' : Situation} {ms : List Mark} (h : Touch v ms v')
    (hr : v.job.record.running.pending = true) : v'.job.record.running.pending = true := by
  cases h with
  | accept _ hok => exact (Record.pending_of_ok hok).2
  | refuse _ herror => exact (Record.pending_of_error herror).trans hr
  | stop => exact (congrArg Channel.pending (Record.pending_cancel v.job.record)).trans hr
  | _ => exact hr

theorem Change.pending {i : JobId} {m : Move} {v v' : Situation} {ms : List Mark}
    (h : Change i m v ms v') (hturn : m ≠ .turn i) (hdown : m ≠ .shutdown)
    (hr : v.job.record.running.pending = true) : v'.job.record.running.pending = true := by
  cases h with
  | touch _ ht => exact ht.pending hr
  | turn => exact absurd rfl hturn
  | pass => exact hr
  | vanish => exact absurd rfl hdown

theorem Turn.isRunning {v v' : Situation} {ms : List Mark} (h : Turn v ms v')
    (hs : v.isSignalled = true) : v'.job.phase.isRunning = true := by
  unfold Situation.isSignalled at hs
  cases h with
  | begin hp => simp [hp] at hs
  | ask hp => simp [hp] at hs
  | plan hp _ _ _ => simp [hp] at hs
  | arrange hp _ => simp [hp] at hs
  | giveUp hp _ _ _ => simp [hp] at hs
  | orphaned hp ho => simp [hp, ho] at hs
  | stopped hp _ hc => simp [hp, hc] at hs
  | signalled => rfl
  | skipped hp hr _ => simp [hp, hr] at hs
  | timed => rfl
  | act hp _ _ _ => simp [hp] at hs
  | complete hp _ _ => simp [hp] at hs

theorem Situation.Tended.awaited {v : Situation} (hv : v.Tended)
    (ha : v.job.phase.alive = true) (hone : v.job.record.periodic = false)
    (hr : v.job.record.running.pending = true) :
    v.job.record.cancelling.pending = false ∧
      ((∃ instant, v.job.phase = .spawned instant) ∨
        ∃ instant timer, v.job.phase = .waiting instant timer) := by
  have hactive : v.job.record.active = true := by rw [hv.active, hr, Bool.or_true]
  have honce := hv.once
  have hsuits := hv.suits
  rw [hone] at hsuits
  rw [hr] at honce
  refine ⟨hv.stopping.symm.trans (hv.exclusive hone hactive), ?_⟩
  cases hp : v.job.phase with
  | spawned instant => exact .inl ⟨instant, rfl⟩
  | waiting instant timer => exact .inr ⟨instant, timer, rfl⟩
  | running => exact absurd (honce (by rw [hp]; rfl)) (by simp)
  | returned => exact absurd ha (by simp [hp, Phase.alive])
  | vanished => exact absurd ha (by simp [hp, Phase.alive])
  | _ => exact absurd hsuits (by simp [hp, Phase.suits])

/-- The next step of the runner of job `i` starts an execution on a run signal. -/
def Scheduler.Starts (s : Scheduler) (i : JobId) : Prop :=
  s.signals (.turn i) i = true ∧ ∃ s' job, s.move? (.turn i) = some s' ∧
    s'.jobs[i]? = some job ∧ job.phase.isRunning = true

/-- The runner of job `i` starts an execution on a run signal in its next turn: at once, or as soon
as it began to wait. -/
def Scheduler.StartsNext (s : Scheduler) (i : JobId) : Prop :=
  s.Starts i ∨ ∃ s', s.move? (.turn i) = some s' ∧ s'.Starts i

namespace Run

variable {monitor : Monitor} {logging : Bool} {past past' : List (Scheduler × Move)}
  {s s' t : Scheduler} {i : JobId} {v : Situation} {job : Job}

theorem starts_of_signalled (run : Run (.initial monitor logging) past s)
    (hv : s.situation? i = some v) (hs : v.isSignalled = true) : s.Starts i := by
  have hsignals : s.signals (.turn i) i = true := by
    rw [Scheduler.signals_eq hv, hs, Move.isTurnOf, beq_self_eq_true]
    rfl
  have hstep : ∃ s', s.step? i = some s' := by
    have hjob := (Scheduler.situation?_eq_some.mp hv).1
    have hwaits := hs
    unfold Situation.isSignalled at hwaits
    split at hwaits
    · rename_i instant timer hp
      rw [← Scheduler.waking?_eq_signal hv timer, decide_eq_true_eq] at hwaits
      refine ⟨s.wake i v.job instant .signal, ?_⟩
      simp only [Scheduler.step?, hjob, hp, hwaits, Option.map_some]
    · exact absurd hwaits Bool.false_ne_true
  obtain ⟨s', hstep⟩ := hstep
  obtain ⟨ms, v', ht, htells, -⟩ := Scheduler.turn_of_step run.named hv hstep
  exact ⟨hsignals, s', v'.job, hstep, (Scheduler.situation?_eq_some.mp htells.situation).1,
    ht.isRunning hs⟩

/-- A run signal of a one-off job is taken in the runner's next turn, unless the parent token is
cancelled or the runner has yet to begin to wait and now has no date. -/
theorem startsNext_of_pending (run : Run (.initial monitor logging) past s)
    (hj : s.jobs[i]? = some job) (hone : job.record.periodic = false)
    (hr : job.record.running.pending = true) (ho : s.tokens.isCancelled job.token = false)
    (hnow : ∀ instant, job.phase = .spawned instant → s.now ≤ lastDated) : s.StartsNext i := by
  have hv := Scheduler.situation?_of_getElem? hj
  have hsound := run.sound hv
  have ha : job.phase.alive = true := by
    cases ha : job.phase.alive with
    | true => rfl
    | false =>
        have hempty := hsound.slot_eq_zero ha
        rw [Situation.slot_of_pending hr] at hempty
        exact absurd hempty (by simp)
  have hsignalled : ∀ instant timer,
      ((s.situate i job).withPhase (.waiting instant timer)).isSignalled = true := by
    intro instant timer
    have hc := ((hsound.tended_of_alive ha).awaited ha hone hr).1
    have horphan : (s.situate i job).orphaned = false := ho
    unfold Situation.isSignalled
    simp only [Situation.withPhase, Situation.update, horphan]
    rw [show (s.situate i job).job.record.running.pending = true from hr, hc]
    rfl
  obtain ⟨-, ⟨instant, hp⟩ | ⟨instant, timer, hp⟩⟩ :=
    (hsound.tended_of_alive ha).awaited ha hone hr
  · -- The runner begins to wait first, and finds the signal in the step after that.
    have hstep : s.move? (.turn i) = some (s.await i instant) := by
      simp only [Scheduler.move?, Scheduler.step?, hj, show job.phase = .spawned instant from hp]
    refine .inr ⟨s.await i instant, hstep, ?_⟩
    refine (run.next _ hstep).starts_of_signalled (Scheduler.situation?_await hv instant) ?_
    have hwait : (s.situate i job).now ≤ lastDated := hnow instant hp
    rw [Situation.await, if_pos hwait]
    exact hsignalled _ _
  · refine .inl (run.starts_of_signalled hv ?_)
    have hsame : (s.situate i job).withPhase (.waiting instant timer) = s.situate i job := by
      rw [← hp]
      rfl
    rw [← hsame]
    exact hsignalled instant timer

theorem pending_of_run (run : Run (.initial monitor logging) past s) (hj : s.jobs[i]? = some job)
    (hr : job.record.running.pending = true) (after : Run s past' t)
    (hfree : ∀ e ∈ past', e.2 ≠ .turn i ∧ e.2 ≠ .shutdown) :
    ∃ job', t.jobs[i]? = some job' ∧ job'.terms = job.terms ∧
      job'.record.running.pending = true := by
  induction after with
  | start => exact ⟨job, hj, rfl, hr⟩
  | @next past' t t' m after hm ih =>
      obtain ⟨job', hj', hterms, hr'⟩ := ih fun e he => hfree e (List.mem_cons_of_mem _ he)
      obtain ⟨hturn, hdown⟩ := hfree (t, m) List.mem_cons_self
      have hv := Scheduler.situation?_of_getElem? hj'
      obtain ⟨ms, v', hchange, htells, -⟩ :=
        Scheduler.change_of_move (run.trans after).named hv hm
      exact ⟨v'.job, (Scheduler.situation?_eq_some.mp htells.situation).1,
        hchange.terms_eq.trans hterms, hchange.pending hturn hdown hr'⟩

/-- In every run, each accepted request of a job is one execution that was started on a run signal,
the signal that is in the slot, or one that was in the slot when the runner ended, and at most one
is not the first. A one-off job accepts one request at most, and whatever happens after it except
for the loss of all runners, the runner's next turn starts the execution, unless by then the parent
token is cancelled, or the runner has yet to begin to wait and now has no date. A signal is lost by
nothing but what `Loses` lists. -/
theorem requests_accounted (run : Run (.initial monitor logging) past s)
    (hj : s.jobs[i]? = some job) :
    (accepts past i = signalled past i + (if job.record.running.pending then 1 else 0) +
        losses past i ∧
      accepts past i ≤ signalled past i + 1) ∧
    (∀ t, Recorded past t → t.reports i (.started .signal) = signalled past i) ∧
    (job.record.periodic = false → accepts past i ≤ 1 ∧
      ∀ m s', s.move? m = some s' → s.accepted? m = some i →
        ∀ past' t, Run s' past' t → (∀ e ∈ past', e.2 ≠ .turn i ∧ e.2 ≠ .shutdown) →
          ∃ job', t.jobs[i]? = some job' ∧
            (t.tokens.isCancelled job'.token = false →
              (∀ instant, job'.phase = .spawned instant → t.now ≤ lastDated) →
              t.StartsNext i)) ∧
    ∀ m s', s.move? m = some s' → s.strands m i = true → s.Loses i job m := by
  have hv := Scheduler.situation?_of_getElem? hj
  obtain ⟨haccepts, hle⟩ := run.accepts_eq hv
  refine ⟨⟨haccepts, by omega⟩, ?_, fun hone => ⟨run.accepts_le_one hv hone, ?_⟩,
    fun m s' hm => run.loses_of_strands hj hm⟩
  · rintro t ⟨logging', past', run', hmoves⟩
    obtain ⟨halike, hsignalled⟩ := run.alike run' ⟨rfl, rfl, rfl, rfl, rfl⟩ hmoves
    rw [halike.jobs] at hj
    rw [run'.reports_signal (Scheduler.situation?_of_getElem? hj), hsignalled]
  · intro m s' hm hacc past' t after hfree
    obtain ⟨ms, v', hchange, htells, hcount⟩ := Scheduler.change_of_move run.named hv hm
    rw [if_pos hacc] at hcount
    have hr : v'.job.record.running.pending = true := by
      rcases hchange.admits with ⟨hnone, -⟩ | ⟨-, -, -, hr⟩
      · exact absurd (hnone.symm.trans hcount) (by simp)
      · exact hr
    have hj' := (Scheduler.situation?_eq_some.mp htells.situation).1
    obtain ⟨job', hjob', hterms, hr'⟩ := (run.next m hm).pending_of_run hj' hr after hfree
    have hone' : job'.record.periodic = false :=
      (Scheduler.periodic_eq_of_terms (hterms.trans hchange.terms_eq)).trans hone
    refine ⟨job', hjob', fun ho hnow => ?_⟩
    exact ((run.next m hm).trans after).startsNext_of_pending hjob' hone' hr' ho hnow

theorem requests_executed : ∃ past s job, Run (.initial .recording false) past s ∧
    s.jobs[0]? = some job ∧ accepts past 0 = 1 ∧ signalled past 0 = 1 ∧ losses past 0 = 0 ∧
      s.reports 0 (.started .signal) = 1 := by
  have run := (begun (.initial .recording false)).next
    (.call (.schedule plainOrder (some []) (.after 1))) rfl |>.next (.call (.run "a")) rfl |>.next
    (.turn 0) rfl |>.next (.turn 0) rfl
  obtain ⟨⟨haccepts, -⟩, hreports, -⟩ := run.requests_accounted (i := 0) rfl
  exact ⟨_, _, _, run, rfl, haccepts, rfl, rfl, hreports _ ⟨false, _, run, rfl⟩⟩

/-- Where the runner has yet to begin to wait and now has no date, an accepted run of a one-off job
is never executed. -/
theorem not_startsNext_undated : ∃ past s s' job, Run (.initial .recording false) past s ∧
    s.jobs[0]? = some job ∧ job.record.periodic = false ∧
      s.move? (.call (.run "a")) = some s' ∧ s.accepted? (.call (.run "a")) = some 0 ∧
      s'.tokens.isCancelled job.token = false ∧ ¬s'.StartsNext 0 := by
  have run := (begun (.initial .recording false)).next
    (.call (.schedule plainOrder (some []) (.after 1))) rfl |>.next
    (.pass 8208566876800000) rfl
  refine ⟨_, _, _, _, run, rfl, rfl, rfl, rfl, rfl, ?_⟩
  rintro (⟨hs, -⟩ | ⟨s', hm, hs, -⟩)
  · exact absurd hs (by decide)
  · cases hm
    exact absurd hs (by decide)

end Run

end JobScheduler
