import JobScheduler.Proofs.Projection

/-!
What holds of a job throughout its life. While its runner lives the job is active if and only if it
is executing or has an unconsumed run signal, and registered if and only if it was not cancelled and
is periodic or not active; each change of a job preserves this.
-/

namespace JobScheduler

/-- Whether a job of a kind can be at a phase. -/
def Phase.suits (periodic : Bool) : Phase → Bool
  | spawned _ => !periodic
  | looping | planning .. => periodic
  | waiting _ timer => timer.isSome
  | _ => true

namespace Record

theorem triggerRun_of_active {r : Record} (h : r.active = true) :
    r.triggerRun = (r, .error (.jobRunning r.name)) := by
  rw [triggerRun, if_pos h]

theorem triggerRun_of_finalised {r : Record} (ha : r.active = false) (hf : r.finalised = true) :
    r.triggerRun = (r, .error (.jobFinalised r.name)) := by
  rw [triggerRun, if_neg (Bool.eq_false_iff.mp ha), if_pos hf]

theorem triggerRun_of_listening {r : Record} (ha : r.active = false) (hf : r.finalised = false)
    (hs : r.running.sending = true) (hl : r.running.listening = true)
    (hp : r.running.pending = false) :
    r.triggerRun =
      ({ r with active := true, running := { r.running with pending := true } }, .ok ()) := by
  simp [triggerRun, tryActivate, Channel.send?, ha, hf, hs, hl, hp]

theorem triggerRun_of_send?_eq_none {r : Record} (ha : r.active = false)
    (hsend : r.running.send? = none) : r.triggerRun = (r, .error (.jobFinalised r.name)) := by
  have hnone : r.tryActivate.1.running.send? = none := by
    simpa [tryActivate, ha] using hsend
  have hsame : r.tryActivate.1.deactivate = r := by
    cases r
    cases ha
    rfl
  rw [triggerRun, if_neg (Bool.eq_false_iff.mp ha)]
  simp [hnone, hsame]

/-- A request to run is refused and changes nothing, or it makes the record active and places a
signal into the slot, which was empty. -/
theorem triggerRun_cases (r : Record) :
    (∃ e, r.triggerRun = (r, .error e)) ∨
      r.active = false ∧ r.finalised = false ∧ r.running.pending = false ∧
        r.triggerRun =
          ({ r with active := true, running := { r.running with pending := true } }, .ok ()) := by
  rcases Bool.eq_false_or_eq_true r.active with ha | ha
  · exact .inl ⟨_, triggerRun_of_active ha⟩
  · rcases Bool.eq_false_or_eq_true r.finalised with hf | hf
    · exact .inl ⟨_, triggerRun_of_finalised ha hf⟩
    · cases hsend : r.running.send? with
      | none => exact .inl ⟨_, triggerRun_of_send?_eq_none ha hsend⟩
      | some channel =>
          unfold Channel.send? at hsend
          split at hsend
          · rename_i hopen
            simp only [Bool.and_eq_true, Bool.not_eq_true'] at hopen
            obtain ⟨⟨hs, hl⟩, hp⟩ := hopen
            exact .inr ⟨ha, hf, hp, triggerRun_of_listening ha hf hs hl hp⟩
          · exact absurd hsend (by simp)

theorem cancel_of_listening {r : Record} (hf : r.finalised = false)
    (hs : r.cancelling.sending = true) (hl : r.cancelling.listening = true)
    (hp : r.cancelling.pending = false) :
    r.cancel = ({ r with
      finalised := true, cancelling := { r.cancelling with pending := true } }, true) := by
  simp [cancel, Channel.send?, hf, hs, hl, hp]

end Record

namespace Situation

/-- What holds of a job whose runner lives. -/
structure Tended (v : Situation) : Prop where
  running : v.job.record.running.sending = true ∧ v.job.record.running.listening = true
  cancelling : v.job.record.cancelling.sending = true ∧ v.job.record.cancelling.listening = true
  active : v.job.record.active = (v.job.phase.isRunning || v.job.record.running.pending)
  once : v.job.phase.isRunning = true → v.job.record.running.pending = false
  stopping : v.job.record.finalised = v.job.record.cancelling.pending
  registered : v.registered =
    (!v.job.record.finalised && (v.job.record.periodic || !v.job.record.active))
  exclusive : v.job.record.periodic = false → v.job.record.active = true →
    v.job.record.finalised = false
  suits : v.job.phase.suits v.job.record.periodic = true

/-- What holds of a job whose runner ended by itself. -/
structure Ended (v : Situation) : Prop where
  active : v.job.record.active = false
  finalised : v.job.record.finalised = true
  running : v.job.record.running = { sending := false, pending := false, listening := false }
  cancelling : v.job.record.cancelling = { sending := false, pending := false, listening := false }
  registered : v.registered = false

/-- What holds of a job whose runner is gone without having ended. -/
structure Abandoned (v : Situation) : Prop where
  running : v.job.record.running.pending = false ∧ v.job.record.running.listening = false
  cancelling : v.job.record.cancelling.pending = false ∧ v.job.record.cancelling.listening = false
  registered : v.registered = true →
    v.job.record.finalised = false ∧ (v.job.record.periodic = true ∨ v.job.record.active = false)

/-- What holds of every job. -/
inductive Sound (v : Situation) : Prop where
  | tended : v.job.phase.alive = true → v.Tended → Sound v
  | ended : v.job.phase = .returned → v.Ended → Sound v
  | abandoned : v.job.phase = .vanished → v.Abandoned → Sound v

theorem Tended.requestRun {v : Situation} (hv : v.Tended) (hr : v.registered = true) :
    v.requestRun.Tended := by
  have hfree : v.job.record.finalised = false ∧
      (v.job.record.periodic = true ∨ v.job.record.active = false) := by
    simpa [hv.registered] using hr
  cases ha : v.job.record.active with
  | true =>
      have hperiodic : v.job.record.periodic = true := by simpa [ha] using hfree.2
      have hsame : v.requestRun = v := by
        rw [Situation.requestRun, withRecord, update, Record.triggerRun_of_active ha, hperiodic,
          ← hr]
      rw [hsame]
      exact hv
  | false =>
      have hidle : v.job.phase.isRunning = false ∧ v.job.record.running.pending = false := by
        simpa [ha] using hv.active.symm
      have htrigger := Record.triggerRun_of_listening ha hfree.1 hv.running.1 hv.running.2 hidle.2
      have hnew : v.requestRun.job.record = { v.job.record with
          active := true, running := { v.job.record.running with pending := true } } := by
        show v.job.record.triggerRun.1 = _
        rw [htrigger]
      have hphase : v.requestRun.job.phase = v.job.phase := rfl
      constructor
      · simp [hnew, hv.running]
      · simp [hnew, hv.cancelling]
      · simp [hnew]
      · simp [hphase, hidle.1]
      · simp [hnew, hv.stopping]
      · show v.job.record.periodic = _
        rw [hnew]
        simp [hfree.1]
      · simp [hnew, hfree.1]
      · simpa [hnew, hphase] using hv.suits

theorem Tended.requestStop {v : Situation} (hv : v.Tended) (hr : v.registered = true) :
    v.requestStop.Tended := by
  have hfree : v.job.record.finalised = false ∧
      (v.job.record.periodic = true ∨ v.job.record.active = false) := by
    simpa [hv.registered] using hr
  have hempty : v.job.record.cancelling.pending = false := by rw [← hv.stopping, hfree.1]
  have hnew : v.requestStop.job.record = { v.job.record with
      finalised := true, cancelling := { v.job.record.cancelling with pending := true } } := by
    show v.job.record.cancel.1 = _
    rw [Record.cancel_of_listening hfree.1 hv.cancelling.1 hv.cancelling.2 hempty]
  have hphase : v.requestStop.job.phase = v.job.phase := rfl
  constructor
  · simp [hnew, hv.running]
  · simp [hnew, hv.cancelling]
  · simp [hnew, hphase, hv.active]
  · simpa [hnew, hphase] using hv.once
  · simp [hnew]
  · show false = _
    rw [hnew]
    simp
  · rw [hnew]
    intro hkind hactive
    rcases hfree.2 with hperiodic | hidle
    · exact absurd (hkind.symm.trans hperiodic) Bool.false_ne_true
    · exact absurd (hidle.symm.trans hactive) Bool.false_ne_true
  · simpa [hnew, hphase] using hv.suits

theorem Abandoned.triggerRun_eq {v : Situation} (hv : v.Abandoned) :
    v.job.record.triggerRun = (v.job.record, .error (if v.job.record.active
      then .jobRunning v.job.record.name else .jobFinalised v.job.record.name)) := by
  cases ha : v.job.record.active with
  | true =>
      rw [Record.triggerRun_of_active ha]
      rfl
  | false =>
      have hdeaf : v.job.record.running.send? = none := by
        simp [Channel.send?, hv.running.2]
      rw [Record.triggerRun_of_send?_eq_none ha hdeaf]
      rfl

theorem Abandoned.requestRun {v : Situation} (hv : v.Abandoned) (hr : v.registered = true) :
    v.requestRun.Abandoned := by
  obtain ⟨hf, hkind⟩ := hv.registered hr
  have hnew : v.requestRun.job.record = v.job.record := congrArg Prod.fst hv.triggerRun_eq
  constructor
  · rw [hnew]
    exact hv.running
  · rw [hnew]
    exact hv.cancelling
  · intro _
    rw [hnew]
    exact ⟨hf, hkind⟩

theorem Abandoned.requestStop {v : Situation} (hv : v.Abandoned) : v.requestStop.Abandoned := by
  have hdeaf : v.job.record.cancelling.send? = none := by
    simp [Channel.send?, hv.cancelling.2]
  have hrunning : v.requestStop.job.record.running = v.job.record.running := by
    show v.job.record.cancel.1.running = _
    unfold Record.cancel
    split <;> rfl
  have hcancelling : v.requestStop.job.record.cancelling = v.job.record.cancelling := by
    show v.job.record.cancel.1.cancelling = _
    unfold Record.cancel
    split
    · rfl
    · simp [hdeaf]
  constructor
  · rw [hrunning]
    exact hv.running
  · rw [hcancelling]
    exact hv.cancelling
  · intro h
    exact absurd h (by simp [Situation.requestStop, unlisted])

theorem ended_stop {v : Situation} (hr : v.registered = false) : v.stop.Ended where
  active := rfl
  finalised := rfl
  running := rfl
  cancelling := rfl
  registered := hr

theorem ended_retire (v : Situation) : v.retire.Ended := ended_stop rfl

theorem Tended.abandoned {v : Situation} (hv : v.Tended) (ha : v.job.phase.alive = true) :
    (v.update Job.vanish).Abandoned := by
  have hnew : v.job.vanish = v.job.leave .vanished := if_pos ha
  constructor
  · rw [update_job, hnew]
    exact ⟨rfl, rfl⟩
  · rw [update_job, hnew]
    exact ⟨rfl, rfl⟩
  · intro hr
    rw [update_registered, hv.registered] at hr
    rw [update_job, hnew]
    simpa [Job.leave, Record.abandon] using hr

theorem sound_stop {v : Situation} (hr : v.registered = false) : v.stop.Sound :=
  .ended rfl (ended_stop hr)

theorem sound_retire (v : Situation) : v.retire.Sound := .ended rfl v.ended_retire

theorem Tended.sound_vanish {v : Situation} (hv : v.Tended) (ha : v.job.phase.alive = true) :
    (v.update Job.vanish).Sound := by
  refine .abandoned ?_ (hv.abandoned ha)
  rw [update_job, Job.vanish, if_pos ha]
  rfl

theorem Tended.withPhase {v : Situation} (hv : v.Tended) {phase : Phase}
    (hrun : phase.isRunning = v.job.phase.isRunning)
    (hs : phase.suits v.job.record.periodic = true) : (v.withPhase phase).Tended where
  running := hv.running
  cancelling := hv.cancelling
  active := by
    show v.job.record.active = (phase.isRunning || v.job.record.running.pending)
    rw [hrun]
    exact hv.active
  once := by
    intro h
    exact hv.once (hrun.symm.trans h)
  stopping := hv.stopping
  registered := hv.registered
  exclusive := hv.exclusive
  suits := hs

theorem Tended.sound_await {v : Situation} (hv : v.Tended) (ha : v.job.phase.alive = true)
    (hrun : v.job.phase.isRunning = false) (instant : Int) : (v.await instant).Sound := by
  unfold await
  split
  · exact .tended rfl (hv.withPhase hrun.symm rfl)
  · exact hv.sound_vanish ha

theorem Tended.ask {v : Situation} (hv : v.Tended) (hp : v.job.phase = .looping) :
    v.ask.Tended := by
  have hrun : v.job.phase.isRunning = false := by rw [hp]; rfl
  have hs : v.job.record.periodic = true := by simpa [hp, Phase.suits] using hv.suits
  exact
    { running := hv.running
      cancelling := hv.cancelling
      active := by
        have hactive := hv.active
        rw [hrun] at hactive
        exact hactive
      once := by
        intro h
        exact absurd h (by simp [Situation.ask, Phase.isRunning])
      stopping := hv.stopping
      registered := hv.registered
      exclusive := hv.exclusive
      suits := hs }

theorem Tended.start_signal {v : Situation} (hv : v.Tended)
    (hr : v.job.record.running.pending = true) (instant : Int) :
    ((v.withRecord Record.takeRun).start instant).Tended where
  running := hv.running
  cancelling := hv.cancelling
  active := by
    have hactive : v.job.record.active = true := by rw [hv.active, hr, Bool.or_true]
    exact hactive
  once _ := rfl
  stopping := hv.stopping
  registered := hv.registered
  exclusive := hv.exclusive
  suits := rfl

theorem Tended.start_timer {v : Situation} (hv : v.Tended)
    (hc : v.job.record.cancelling.pending = false)
    (hr : v.job.record.running.pending = false) (ha : v.job.record.active = false)
    (instant : Int) :
    ({ v.withRecord (·.tryActivate.1) with
      registered := v.registered && v.job.record.periodic }.start instant).Tended := by
  have hnew : ({ v.withRecord (·.tryActivate.1) with
      registered := v.registered && v.job.record.periodic }.start instant).job.record =
      { v.job.record with active := true } := by
    show v.job.record.tryActivate.1 = _
    rw [Record.tryActivate_of_inactive ha]
  constructor
  · rw [hnew]
    exact hv.running
  · rw [hnew]
    exact hv.cancelling
  · rw [hnew]
    rfl
  · rw [hnew]
    exact fun _ => hr
  · rw [hnew]
    exact hv.stopping
  · show (v.registered && v.job.record.periodic) = _
    rw [hnew, hv.registered, ha]
    simp
  · rw [hnew]
    exact fun _ _ => hv.stopping.trans hc
  · rfl

theorem Tended.sound_complete {v : Situation} (hv : v.Tended)
    (hrun : v.job.phase.isRunning = true) : v.complete.Sound := by
  have hactive : v.job.record.active = true := by rw [hv.active, hrun, Bool.true_or]
  have hempty := hv.once hrun
  unfold complete
  split
  · rename_i hperiodic
    refine .tended rfl
      ⟨hv.running, hv.cancelling, ?_, fun _ => hempty, hv.stopping, ?_, nofun, hperiodic⟩
    · exact hempty.symm
    · have hr := hv.registered
      rw [hperiodic, Bool.true_or] at hr
      show v.registered = (!v.job.record.finalised && (v.job.record.periodic || !false))
      rw [hr, Bool.not_false, Bool.or_true]
  · rename_i hperiodic
    refine sound_stop ?_
    rw [hv.registered, hactive, Bool.eq_false_iff.mpr hperiodic]
    simp

theorem Sound.tended_of_alive {v : Situation} (hv : v.Sound) (ha : v.job.phase.alive = true) :
    v.Tended := by
  cases hv with
  | tended _ h => exact h
  | ended hp _ => exact absurd ha (by simp [hp, Phase.alive])
  | abandoned hp _ => exact absurd ha (by simp [hp, Phase.alive])

theorem Sound.ended_of_returned {v : Situation} (hv : v.Sound) (hp : v.job.phase = .returned) :
    v.Ended := by
  cases hv with
  | tended ha _ => exact absurd ha (by simp [hp, Phase.alive])
  | ended _ h => exact h
  | abandoned hp' _ => exact absurd (hp.symm.trans hp') (by simp)

theorem Sound.abandoned_of_vanished {v : Situation} (hv : v.Sound)
    (hp : v.job.phase = .vanished) : v.Abandoned := by
  cases hv with
  | tended ha _ => exact absurd ha (by simp [hp, Phase.alive])
  | ended hp' _ => exact absurd (hp.symm.trans hp') (by simp)
  | abandoned _ h => exact h

end Situation

namespace Touch

variable {v v' : Situation} {ms : List Mark}

theorem tended (h : Touch v ms v') (hv : v.Tended) : v'.Tended := by
  cases h with
  | none => exact hv
  | accept hr _ => exact hv.requestRun hr
  | refuse hr _ => exact hv.requestRun hr
  | stop hr => exact hv.requestStop hr
  | orphan => exact { hv with }

theorem ended (h : Touch v ms v') (hv : v.Ended) : v'.Ended := by
  have hfree : v.registered ≠ true := Bool.eq_false_iff.mp hv.registered
  cases h with
  | none => exact hv
  | accept hr _ => exact absurd hr hfree
  | refuse hr _ => exact absurd hr hfree
  | stop hr => exact absurd hr hfree
  | orphan => exact { hv with }

theorem abandoned (h : Touch v ms v') (hv : v.Abandoned) : v'.Abandoned := by
  cases h with
  | none => exact hv
  | accept hr _ => exact hv.requestRun hr
  | refuse hr _ => exact hv.requestRun hr
  | stop _ => exact hv.requestStop
  | orphan => exact { hv with }

theorem sound (h : Touch v ms v') (hv : v.Sound) : v'.Sound := by
  have hphase := h.phase_eq
  cases hv with
  | tended ha hv => exact .tended (by rw [hphase, ha]) (h.tended hv)
  | ended hp hv => exact .ended (hphase.trans hp) (h.ended hv)
  | abandoned hp hv => exact .abandoned (hphase.trans hp) (h.abandoned hv)

end Touch

theorem Turn.sound {v v' : Situation} {ms : List Mark} (h : Turn v ms v') (hv : v.Sound) :
    v'.Sound := by
  have ha := h.alive
  have ht := hv.tended_of_alive ha
  cases h with
  | begin hp => exact ht.sound_await ha (by rw [hp]; rfl) _
  | ask hp => exact .tended rfl (ht.ask hp)
  | plan hp _ htouch _ =>
      have hsame := htouch.phase_eq.trans hp
      have ht' := htouch.tended ht
      have hs := ht'.suits
      rw [hsame] at hs
      exact .tended rfl (ht'.withPhase (by rw [hsame]; rfl) hs)
  | arrange hp _ => exact ht.sound_await ha (by rw [hp]; rfl) _
  | giveUp => exact v.sound_retire
  | orphaned => exact v.sound_retire
  | stopped _ _ hc =>
      -- Who told the runner to stop took the job out of the registry.
      refine Situation.sound_stop ?_
      show v.registered = false
      rw [ht.registered, ht.stopping, hc]
      rfl
  | signalled _ _ _ hr => exact .tended rfl (ht.start_signal hr _)
  | skipped hp hr hactive =>
      -- No timer finds its job active.
      have hidle : v.job.record.active = false := by
        rw [ht.active, hp, hr]
        rfl
      exact absurd hactive (Bool.eq_false_iff.mp hidle)
  | timed _ _ _ hc hr hactive => exact .tended rfl (ht.start_timer hc hr hactive _)
  | act hp _ htouch _ =>
      have hsame := htouch.phase_eq.trans hp
      exact .tended rfl ((htouch.tended ht).withPhase (by rw [hsame]; rfl) rfl)
  | complete hp _ _ => exact ht.sound_complete (by rw [hp]; rfl)

theorem Change.sound {i : JobId} {m : Move} {v v' : Situation} {ms : List Mark}
    (h : Change i m v ms v') (hv : v.Sound) : v'.Sound := by
  cases h with
  | touch _ ht => exact ht.sound hv
  | turn ht => exact ht.sound hv
  | pass =>
      cases hv with
      | tended ha hv => exact .tended ha { hv with }
      | ended hp hv => exact .ended hp { hv with }
      | abandoned hp hv => exact .abandoned hp { hv with }
  | vanish =>
      cases ha : v.job.phase.alive with
      | true => exact (hv.tended_of_alive ha).sound_vanish ha
      | false =>
          have hsame : v.update Job.vanish = v := by
            rw [Situation.update, Job.vanish, if_neg (Bool.eq_false_iff.mp ha)]
          rw [hsame]
          exact hv

theorem Life.sound {i : JobId} {v₀ v : Situation} {ms : List Mark} (h : Life i v₀ ms v)
    (hv : v₀.Sound) : v.Sound := by
  induction h with
  | start => exact hv
  | next _ hc ih => exact hc.sound ih

theorem Situation.Born.sound {v : Situation} (h : v.Born) : v.Sound := by
  have htended : ∀ w : Situation, w.registered = true → w.job.Fresh → w.Tended ∧
      w.job.phase.alive = true := by
    intro w hr hj
    have hrecord := hj.record
    rcases hj.phase with ⟨⟨instant, hp⟩, hperiodic⟩ | ⟨hp, hperiodic⟩
    all_goals
      refine ⟨?_, by rw [hp]; rfl⟩
      constructor <;> rw [hrecord]
      · exact ⟨rfl, rfl⟩
      · exact ⟨rfl, rfl⟩
      · rw [hp]
        rfl
      · exact fun _ => rfl
      · simp [hr]
      · exact nofun
      · simp [hp, hperiodic, Phase.suits]
  cases h with
  | inside hr hj =>
      obtain ⟨ht, ha⟩ := htended v hr hj
      exact .tended ha ht
  | @outside j hr hj hjob =>
      obtain ⟨ht, ha⟩ := htended { v with job := j } hr hj
      have hgone : v = ({ v with job := j } : Situation).update Job.vanish := by
        rw [Situation.update, Job.vanish, if_pos ha, ← hjob]
      rw [hgone]
      exact ht.sound_vanish ha

namespace Run

variable {monitor : Monitor} {logging : Bool} {past past' : List (Scheduler × Move)}
  {s t : Scheduler} {i : JobId} {v : Situation} {job : Job}

theorem sound (run : Run (.initial monitor logging) past s) (hv : s.situation? i = some v) :
    v.Sound := by
  obtain ⟨v₀, ms, hborn, hlife, -⟩ := run.life hv
  exact hlife.sound hborn.sound

/-- What every change of a job keeps holds of it in the rest of the run. -/
theorem kept (run : Run (.initial monitor logging) past s) {P : Situation → Prop}
    (hstep : ∀ m ms v v', v.Sound → Change i m v ms v' → P v → P v')
    (hj : s.jobs[i]? = some job) (hP : P (s.situate i job)) (after : Run s past' t) :
    ∃ job', t.jobs[i]? = some job' ∧ P (t.situate i job') := by
  induction after with
  | start => exact ⟨job, hj, hP⟩
  | @next past' t t' m after hm ih =>
      obtain ⟨job', hj', hP'⟩ := ih
      have run' := run.trans after
      have hsound := run'.sound (Scheduler.situation?_of_getElem? hj')
      obtain ⟨ms, job'', hj'', hchange⟩ := Scheduler.change_of_job run'.named hj' hm
      exact ⟨job'', hj'', hstep m ms _ _ hsound hchange hP'⟩

end Run

end JobScheduler
