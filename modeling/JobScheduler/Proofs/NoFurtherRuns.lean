import JobScheduler.Proofs.Rounds

/-!
Jobs that are not executed any more. A job that is finalised or whose parent token is cancelled is
barred: it stays so, and no step of its runner starts an execution (`Run.barred`). An execution that
is in progress goes on all the same, action by action, to its own end (`Run.advances`).
-/

namespace JobScheduler

theorem Record.finalised_triggerRun (r : Record) : r.triggerRun.1.finalised = r.finalised := by
  rcases r.triggerRun_cases with ⟨e, h⟩ | ⟨-, -, -, h⟩ <;> rw [h]

theorem Record.finalised_cancel (r : Record) : r.cancel.1.finalised = true := by
  unfold cancel
  split
  · assumption
  · rfl

namespace Situation

/-- Whether a job is not to be executed any more: it is finalised, or its parent token is
cancelled. -/
def Barred (v : Situation) : Prop := v.job.record.finalised = true ∨ v.orphaned = true

variable {v v' : Situation}

theorem Barred.of_eq (h : v.Barred) (hf : v'.job.record.finalised = v.job.record.finalised)
    (ho : v'.orphaned = v.orphaned) : v'.Barred := by
  rw [Barred, hf, ho]
  exact h

theorem Barred.vanish (h : v.Barred) : (v.update Job.vanish).Barred := by
  refine h.of_eq ?_ rfl
  rw [update_job, Job.vanish]
  split <;> rfl

theorem Barred.await (h : v.Barred) (instant : Int) : (v.await instant).Barred := by
  unfold Situation.await
  split
  · exact h
  · exact h.vanish

end Situation

theorem Touch.barred {v v' : Situation} {ms : List Mark} (h : Touch v ms v') (hb : v.Barred) :
    v'.Barred := by
  cases h with
  | none => exact hb
  | accept => exact hb.of_eq v.job.record.finalised_triggerRun rfl
  | refuse => exact hb.of_eq v.job.record.finalised_triggerRun rfl
  | stop => exact .inl v.job.record.finalised_cancel
  | orphan => exact hb.imp_right fun ho => by simp [ho]

theorem Turn.barred {v v' : Situation} {ms : List Mark} (h : Turn v ms v') (hb : v.Barred) :
    v'.Barred := by
  cases h with
  | begin => exact hb.await _
  | plan _ _ ht _ => exact ht.barred hb
  | arrange => exact hb.await _
  | giveUp => exact .inl rfl
  | orphaned => exact .inl rfl
  | stopped => exact .inl rfl
  | timed =>
      refine hb.of_eq ?_ rfl
      show v.job.record.tryActivate.1.finalised = _
      unfold Record.tryActivate
      split <;> rfl
  | act _ _ ht _ => exact ht.barred hb
  | complete =>
      unfold Situation.complete
      split
      · exact hb
      · exact .inl rfl
  | ask | signalled | skipped => exact hb

theorem Change.barred {i : JobId} {m : Move} {v v' : Situation} {ms : List Mark}
    (h : Change i m v ms v') (hb : v.Barred) : v'.Barred := by
  cases h with
  | touch _ ht => exact ht.barred hb
  | turn ht => exact ht.barred hb
  | pass => exact hb
  | vanish => exact hb.vanish

/-- The two steps that start an execution find the parent token alive and no signal to stop, but a
job that is finalised has one. -/
theorem Turn.runs_of_barred {v v' : Situation} {ms : List Mark} (h : Turn v ms v') (hv : v.Sound)
    (hb : v.Barred) : v'.job.runs = v.job.runs := by
  have ht := hv.tended_of_alive h.alive
  have hnone : v.orphaned = false → v.job.record.cancelling.pending = false → False := by
    intro ho hc
    rcases hb with hf | horphan
    · exact Bool.false_ne_true (hc.symm.trans (ht.stopping.symm.trans hf))
    · exact Bool.false_ne_true (ho.symm.trans horphan)
  cases h with
  | begin => exact v.runs_await _
  | plan _ _ htouch _ => exact htouch.runs_eq
  | arrange => exact v.runs_await _
  | signalled _ ho hc _ => exact absurd hc fun hc => hnone ho hc
  | timed _ _ ho hc _ _ => exact absurd hc fun hc => hnone ho hc
  | act _ _ htouch _ => exact htouch.runs_eq
  | complete => exact v.runs_complete
  | ask | giveUp | orphaned | stopped | skipped => rfl

theorem Change.runs_of_barred {i : JobId} {m : Move} {v v' : Situation} {ms : List Mark}
    (h : Change i m v ms v') (hv : v.Sound) (hb : v.Barred) : v'.job.runs = v.job.runs := by
  cases h with
  | touch _ ht => exact ht.runs_eq
  | turn ht => exact ht.runs_of_barred hv hb
  | pass => rfl
  | vanish =>
      rw [Situation.update_job, Job.vanish]
      split <;> rfl

theorem Turn.asks {v v' : Situation} {ms : List Mark} (h : Turn v ms v') :
    v'.job.asks = v.job.asks ∨ v.job.phase = .looping ∧ v'.job.asks = v.job.asks + 1 := by
  cases h with
  | begin => exact .inl (v.asks_await _)
  | ask hp => exact .inr ⟨hp, rfl⟩
  | plan _ _ ht _ => exact .inl ht.asks_eq
  | arrange => exact .inl (v.asks_await _)
  | act _ _ ht _ => exact .inl ht.asks_eq
  | complete =>
      unfold Situation.complete
      split
      · exact .inl rfl
      · exact .inl rfl
  | giveUp | orphaned | stopped | signalled | skipped | timed => exact .inl rfl

theorem Change.asks {i : JobId} {m : Move} {v v' : Situation} {ms : List Mark}
    (h : Change i m v ms v') :
    v'.job.asks = v.job.asks ∨ v.job.phase = .looping ∧ v'.job.asks = v.job.asks + 1 := by
  cases h with
  | touch _ ht => exact .inl ht.asks_eq
  | turn ht => exact ht.asks
  | pass => exact .inl rfl
  | vanish =>
      rw [Situation.update_job, Job.vanish]
      split
      · exact .inl rfl
      · exact .inl rfl

theorem Situation.Born.asks_eq {v : Situation} (h : v.Born) : v.job.asks = 0 := by
  cases h with
  | inside _ hj => exact hj.asks
  | outside _ hj hjob =>
      rw [hjob]
      exact hj.asks

theorem Life.asks_of_one_off {i : JobId} {v₀ v : Situation} {ms : List Mark} (h : Life i v₀ ms v)
    (hb : v₀.Born) (hone : v.job.record.periodic = false) : v.job.asks = 0 := by
  induction h with
  | start => exact hb.asks_eq
  | @next past ms v v' m hlife hchange ih =>
      have hone' : v.job.record.periodic = false :=
        (Scheduler.periodic_eq_of_terms hchange.terms_eq).symm.trans hone
      rcases hchange.asks with hsame | ⟨hp, -⟩
      · exact hsame.trans (ih hone')
      · have hsuits := ((hlife.sound hb.sound).tended_of_alive (by rw [hp]; rfl)).suits
        rw [hp, hone'] at hsuits
        exact absurd hsuits (by simp [Phase.suits])

/-- Whether a job comes from `j` to `j'` without being executed: its job function is not entered,
and its runtime function is called once at most, and not at all if the runner is in it or waits. -/
structure Job.WindsDown (j j' : Job) : Prop where
  runs : j'.runs = j.runs
  asks : j.asks ≤ j'.asks ∧ j'.asks ≤ j.asks + 1
  asked : ((∃ pause rest result, j.phase = .planning pause rest result) ∨
    ∃ instant timer, j.phase = .waiting instant timer) → j'.asks = j.asks

/-- How far an execution has come after some more of its actions, whatever else happened. -/
inductive Phase.Advanced (instant : Int) (pause : Pause) (rest : List Action) :
    Nat → Phase → Prop where
  | start : Advanced instant pause rest 0 (.running instant pause rest)
  /-- One more action was carried out, and the runner waits for what that one waits for. -/
  | next {n : Nat} {pause' : Pause} {action : Action} {rest' : List Action} (now : Int) :
      Advanced instant pause rest n (.running instant pause' (action :: rest')) →
      Advanced instant pause rest (n + 1) (.running instant (action.pause now) rest')

theorem Phase.Advanced.drop {instant : Int} {pause : Pause} {rest : List Action} {n : Nat}
    {phase : Phase} (h : Phase.Advanced instant pause rest n phase) :
    ∃ pause', phase = .running instant pause' (rest.drop n) := by
  induction h with
  | start => exact ⟨pause, rfl⟩
  | @next n pause' action rest' now _ ih =>
      obtain ⟨_, hphase⟩ := ih
      have hrest : action :: rest' = rest.drop n := (Phase.running.inj hphase).2.2
      refine ⟨action.pause now, ?_⟩
      rw [← List.tail_drop, ← hrest, List.tail_cons]

theorem Turn.advanced {v v' : Situation} {ms : List Mark} (h : Turn v ms v') {instant : Int}
    {pause : Pause} {rest : List Action} {n : Nat}
    (ha : v.job.phase.Advanced instant pause rest n) :
    Action.over (rest.drop n) = true ∨ v'.job.phase.Advanced instant pause rest (n + 1) := by
  obtain ⟨pause', hphase⟩ := ha.drop
  cases h with
  | act hp _ _ _ =>
      rw [hp] at ha
      obtain ⟨rfl, -⟩ := Phase.running.inj (hp.symm.trans hphase)
      exact .inr (.next _ ha)
  | complete hp _ hover =>
      obtain ⟨-, -, rfl⟩ := Phase.running.inj (hp.symm.trans hphase)
      exact .inl hover
  | begin hp | ask hp | plan hp | arrange hp | giveUp hp | orphaned hp | stopped hp | signalled hp
  | skipped hp | timed hp => exact absurd (hp.symm.trans hphase) (by simp)

theorem Change.advanced {i : JobId} {m : Move} {v v' : Situation} {ms : List Mark}
    (h : Change i m v ms v') (hm : m ≠ .shutdown) {instant : Int} {pause : Pause}
    {rest : List Action} {n : Nat} (ha : v.job.phase.Advanced instant pause rest n) :
    (m.isTurnOf i = true ∧ Action.over (rest.drop n) = true) ∨
      v'.job.phase.Advanced instant pause rest (n + if m.isTurnOf i then 1 else 0) := by
  cases h with
  | touch hne ht =>
      have hother : m.isTurnOf i = false := by
        cases m with
        | turn k => simpa [Move.isTurnOf] using hne
        | _ => rfl
      rw [hother, ht.phase_eq]
      exact .inr ha
  | turn ht =>
      have hturn : (Move.turn i).isTurnOf i = true := by simp [Move.isTurnOf]
      rw [if_pos hturn]
      exact (ht.advanced ha).imp_left fun hover => ⟨hturn, hover⟩
  | pass => exact .inr ha
  | vanish => exact absurd rfl hm

/-- Whether the execution that job `i` was in has come on by `n` actions, and its runner goes on as
soon as its pause is over, unless the execution came to its own end before. -/
def Scheduler.GoesOn (s : Scheduler) (i : JobId) (instant : Int) (pause : Pause)
    (rest : List Action) (n : Nat) : Prop :=
  (∃ k < n, Action.over (rest.drop k) = true) ∨
    ∃ job, s.jobs[i]? = some job ∧ job.phase.Advanced instant pause rest n ∧
      ∀ pause' rest', job.phase = .running instant pause' rest' → s.isOver job pause' = true →
        ∃ s', s.move? (.turn i) = some s'

namespace Run

/-- How many turns the runner of job `i` took. -/
def turns (past : List (Scheduler × Move)) (i : JobId) : Nat :=
  past.countP fun e => e.2.isTurnOf i

theorem turns_cons (s : Scheduler) (m : Move) (past : List (Scheduler × Move)) (i : JobId) :
    turns ((s, m) :: past) i = turns past i + if m.isTurnOf i then 1 else 0 := by
  simp [turns, List.countP_cons]

variable {monitor : Monitor} {logging : Bool} {past past' : List (Scheduler × Move)}
  {s t : Scheduler} {i : JobId} {job : Job}

/-- A job that is barred stays so whatever follows, and its job function is not entered again. -/
theorem barred (run : Run (.initial monitor logging) past s) (hj : s.jobs[i]? = some job)
    (hb : (s.situate i job).Barred) (after : Run s past' t) :
    ∃ job', t.jobs[i]? = some job' ∧ (t.situate i job').Barred ∧ job'.terms = job.terms ∧
      job'.runs = job.runs := by
  refine run.kept (P := fun v => v.Barred ∧ v.job.terms = job.terms ∧ v.job.runs = job.runs) ?_
    hj ⟨hb, rfl, rfl⟩ after
  rintro m ms v v' hv hchange ⟨hb, hterms, hruns⟩
  exact ⟨hchange.barred hb, hchange.terms_eq.trans hterms,
    (hchange.runs_of_barred hv hb).trans hruns⟩

theorem asks_le (run : Run (.initial monitor logging) past s) (hj : s.jobs[i]? = some job)
    (after : Run s past' t) {job' : Job} (hj' : t.jobs[i]? = some job') : job.asks ≤ job'.asks := by
  obtain ⟨job₁, hj₁, hle⟩ : ∃ job₁, t.jobs[i]? = some job₁ ∧ job.asks ≤ job₁.asks := by
    refine run.kept (P := fun v => job.asks ≤ v.job.asks) ?_ hj (Nat.le_refl _) after
    intro m ms v v' _ hchange hle
    have hnext := hchange.asks
    omega
  obtain rfl : job' = job₁ := Option.some_inj.mp (hj'.symm.trans hj₁)
  exact hle

theorem asks_of_one_off (run : Run (.initial monitor logging) past s)
    (hj : s.jobs[i]? = some job) (hone : job.record.periodic = false) : job.asks = 0 := by
  obtain ⟨v₀, ms, hborn, hlife, -⟩ := run.life (Scheduler.situation?_of_getElem? hj)
  exact hlife.asks_of_one_off hborn hone

theorem asks_le_succ (run : Run (.initial monitor logging) past s) (hj : s.jobs[i]? = some job) :
    job.asks ≤ job.runs + 1 := by
  cases hper : job.record.periodic with
  | true =>
      obtain ⟨⟨triggers, under, hr⟩, -⟩ := run.rounded (Scheduler.situation?_of_getElem? hj) hper
      exact hr.paced.2
  | false =>
      rw [run.asks_of_one_off hj hper]
      exact Nat.zero_le _

theorem windsDown (run : Run (.initial monitor logging) past s) (hj : s.jobs[i]? = some job)
    (after : Run s past' t) {job' : Job} (hj' : t.jobs[i]? = some job')
    (hruns : job'.runs = job.runs) : job.WindsDown job' := by
  have hle := run.asks_le hj after hj'
  have hsame : job'.record.periodic = job.record.periodic :=
    Scheduler.periodic_eq_of_terms (after.terms_eq hj hj')
  cases hper : job.record.periodic with
  | false =>
      have hper' := hsame.trans hper
      have hzero := run.asks_of_one_off hj hper
      have hzero' := (run.trans after).asks_of_one_off hj' hper'
      exact ⟨hruns, by omega, fun _ => by omega⟩
  | true =>
      have hper' := hsame.trans hper
      obtain ⟨⟨triggers, under, hr⟩, -⟩ := run.rounded (Scheduler.situation?_of_getElem? hj) hper
      obtain ⟨⟨triggers', under', hr'⟩, -⟩ :=
        (run.trans after).rounded (Scheduler.situation?_of_getElem? hj') hper'
      have hpace : job.runs ≤ job.asks ∧ job.asks ≤ job.runs + 1 := hr.paced
      have hpace' : job'.runs ≤ job'.asks ∧ job'.asks ≤ job'.runs + 1 := hr'.paced
      refine ⟨hruns, by omega, fun hphase => ?_⟩
      have hunder : under = [.asked] := by
        rcases hphase with ⟨pause, rest, result, hp⟩ | ⟨instant, timer, hp⟩
        · exact hr.underway.of_planning hp
        · exact hr.underway.of_waiting hp
      subst hunder
      have hasked : job.asks = job.runs + 1 := hr.asks_of_asked
      omega

/-- While the runners are not dropped, an execution goes on by one action for each turn of its
runner, until it is over. -/
theorem goesOn (run : Run (.initial monitor logging) past s) (hj : s.jobs[i]? = some job)
    {instant : Int} {pause : Pause} {rest : List Action}
    (hp : job.phase = .running instant pause rest) (after : Run s past' t)
    (hkept : ∀ e ∈ past', e.2 ≠ .shutdown) : t.GoesOn i instant pause rest (turns past' i) := by
  have hadvanced : (∃ k < turns past' i, Action.over (rest.drop k) = true) ∨
      ∃ job', t.jobs[i]? = some job' ∧
        job'.phase.Advanced instant pause rest (turns past' i) := by
    induction after with
    | start =>
        refine .inr ⟨job, hj, ?_⟩
        rw [hp]
        exact .start
    | @next past' t t' m after hm ih =>
        rw [turns_cons]
        rcases ih fun e he => hkept e (List.mem_cons_of_mem _ he) with
          ⟨k, hk, hover⟩ | ⟨job', hj', ha⟩
        · exact .inl ⟨k, by omega, hover⟩
        · obtain ⟨ms, job'', hj'', hchange⟩ :=
            Scheduler.change_of_job (run.trans after).named hj' hm
          rcases hchange.advanced (hkept _ List.mem_cons_self) ha with ⟨hturn, hover⟩ | ha'
          · rw [if_pos hturn]
            exact .inl ⟨_, Nat.lt_succ_self _, hover⟩
          · exact .inr ⟨job'', hj'', ha'⟩
  refine hadvanced.imp_right ?_
  rintro ⟨job', hj', ha⟩
  refine ⟨job', hj', ha, ?_⟩
  intro pause' rest' hp' hover
  exact ⟨t.runOn i job' instant rest', by simp [Scheduler.move?, Scheduler.step?, hj', hp', hover]⟩

end Run

end JobScheduler
