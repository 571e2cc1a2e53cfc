import JobScheduler.Proofs.Run

/-!
The observer changes nothing. Two schedulers are alike if they differ in nothing but their monitor,
their log and their history; every move keeps them alike (`Scheduler.Alike.move`), so each run can
be made before a recording monitor (`Run.recorded`).
-/

namespace JobScheduler

namespace Scheduler

/-- Whether two schedulers differ in nothing but what is observed of them. -/
structure Alike (s t : Scheduler) : Prop where
  now : s.now = t.now
  tokens : s.tokens = t.tokens
  registry : s.registry = t.registry
  jobs : s.jobs = t.jobs
  counters : s.counters = t.counters

namespace Alike

variable {s t u : Scheduler} {a b : Option JobId} {i : JobId} {job : Job}

theorem refl (s : Scheduler) : Alike s s := ⟨rfl, rfl, rfl, rfl, rfl⟩

theorem symm (h : Alike s t) : Alike t s :=
  ⟨h.now.symm, h.tokens.symm, h.registry.symm, h.jobs.symm, h.counters.symm⟩

theorem trans (h : Alike s t) (h' : Alike t u) : Alike s u :=
  ⟨h.now.trans h'.now, h.tokens.trans h'.tokens, h.registry.trans h'.registry,
    h.jobs.trans h'.jobs, h.counters.trans h'.counters⟩

theorem emit (h : Alike s t) (w w' : Happening) : Alike (s.emit a w) (t.emit b w') := { h with }

theorem logged (s : Scheduler) (a : Option JobId) (e : LogEntry) : Alike (s.log a e) s := by
  unfold Scheduler.log
  split
  · exact { refl s with }
  · exact refl s

theorem log (h : Alike s t) (e e' : LogEntry) : Alike (s.log a e) (t.log b e') :=
  (logged s a e).trans (h.trans (logged t b e').symm)

theorem reported (s : Scheduler) (a : Option JobId) (i : JobId) (cls : String) (r : Report) :
    Alike (s.report a i cls r) s := by
  unfold Scheduler.report
  split <;> exact { refl s with }

theorem report (h : Alike s t) (cls : String) (r : Report) :
    Alike (s.report a i cls r) (t.report b i cls r) :=
  (reported s a i cls r).trans (h.trans (reported t b i cls r).symm)

theorem updateJob (h : Alike s t) (f : Job → Job) : Alike (s.updateJob i f) (t.updateJob i f) :=
  { h with jobs := by simp only [Scheduler.updateJob, h.jobs] }

theorem updateRecord (h : Alike s t) (f : Record → Record) :
    Alike (s.updateRecord i f) (t.updateRecord i f) :=
  h.updateJob _

theorem setPhase (h : Alike s t) (phase : Phase) :
    Alike (s.setPhase i phase) (t.setPhase i phase) :=
  h.updateJob _

theorem unregister (h : Alike s t) (name : String) :
    Alike (s.unregister name) (t.unregister name) :=
  { h with registry := by simp only [Scheduler.unregister, h.registry] }

theorem setCount (h : Alike s t) (counter : String) (n : Nat) :
    Alike (s.setCount counter n) (t.setCount counter n) :=
  { h with counters := by simp only [Scheduler.setCount, h.counters] }

theorem remove (h : Alike s t) (name : String) : Alike (s.remove a i name) (t.remove b i name) := by
  unfold Scheduler.remove
  rw [h.registry]
  split
  · exact (h.unregister name).log _ _
  · exact h

theorem find? (h : Alike s t) (name : String) : s.find? name = t.find? name := by
  rw [Scheduler.find?, Scheduler.find?, h.registry, h.jobs]

theorem vet (h : Alike s t) (o : JobOrder) (planned : Bool) (work : Option Work) :
    s.vet o planned work = t.vet o planned work := by
  unfold Scheduler.vet Scheduler.isRegistered
  rw [h.registry]

theorem newJob (h : Alike s t) (o : JobOrder) (periodic : Bool) (work : Work)
    (plan : Plan Action) (phase : Phase) :
    s.newJob o periodic work plan phase = t.newJob o periodic work plan phase := by
  rw [Scheduler.newJob, Scheduler.newJob, h.tokens]

theorem enrol (h : Alike s t) (job : Job) : Alike (s.enrol a job) (t.enrol b job) := by
  have hlength : s.jobs.length = t.jobs.length := congrArg List.length h.jobs
  have hadd : Alike
      { s with
        registry := s.registry ++ [(job.record.name, t.jobs.length)]
        jobs := s.jobs ++ [job] }
      { t with
        registry := t.registry ++ [(job.record.name, t.jobs.length)]
        jobs := t.jobs ++ [job] } :=
    { h with
      registry := by rw [h.registry]
      jobs := by rw [h.jobs] }
  unfold Scheduler.enrol
  dsimp only
  rw [hlength]
  exact (hadd.report _ _).log _ _

theorem schedule (h : Alike s t) (o : JobOrder) (work : Option Work) (runtime : Moment) :
    Alike (s.schedule a o work runtime).1 (t.schedule b o work runtime).1 ∧
      (s.schedule a o work runtime).2 = (t.schedule b o work runtime).2 := by
  unfold Scheduler.schedule
  rw [h.vet, h.now, h.jobs]
  split
  · exact ⟨h, rfl⟩
  · dsimp only
    rw [h.newJob]
    exact ⟨((h.enrol _).log _ _).log _ _, rfl⟩

theorem schedulePeriodic (h : Alike s t) (o : JobOrder) (work : Option Work)
    (plan : Option (Plan Action)) :
    Alike (s.schedulePeriodic a o work plan).1 (t.schedulePeriodic b o work plan).1 ∧
      (s.schedulePeriodic a o work plan).2 = (t.schedulePeriodic b o work plan).2 := by
  unfold Scheduler.schedulePeriodic
  rw [h.vet, h.jobs]
  split
  · exact ⟨h, rfl⟩
  · dsimp only
    rw [h.newJob]
    exact ⟨(h.enrol _).log _ _, rfl⟩

theorem run (h : Alike s t) (name : String) :
    Alike (s.run a name).1 (t.run b name).1 ∧ (s.run a name).2 = (t.run b name).2 := by
  unfold Scheduler.run
  rw [h.find?]
  split
  · exact ⟨h, rfl⟩
  · rename_i i job _
    have hleft : Alike (if job.record.periodic then s else s.unregister name)
        (if job.record.periodic then t else t.unregister name) := by
      split
      · exact h
      · exact h.unregister name
    dsimp only
    split
    · exact ⟨(hleft.updateRecord _).log _ _, rfl⟩
    · rename_i r e _
      exact ⟨hleft.updateRecord fun _ => r, rfl⟩

theorem runIfExists (h : Alike s t) (name : String) :
    Alike (s.runIfExists a name) (t.runIfExists b name) := by
  obtain ⟨hrun, hanswer⟩ := h.run (a := a) (b := b) name
  unfold Scheduler.runIfExists
  split <;> rename_i hs <;> split <;> rename_i ht <;> rw [hs, ht] at hrun hanswer
  · exact hrun
  · exact absurd hanswer (by simp)
  · exact absurd hanswer (by simp)
  · exact hrun.log _ _

theorem cancel (h : Alike s t) (name : String) :
    Alike (s.cancel a name).1 (t.cancel b name).1 ∧ (s.cancel a name).2 = (t.cancel b name).2 := by
  unfold Scheduler.cancel
  rw [h.find?]
  split
  · exact ⟨h, rfl⟩
  · dsimp only
    split <;> exact ⟨((h.unregister name).updateRecord _).log _ _, rfl⟩

theorem cancelAll (h : Alike s t) (stem : String) :
    Alike (s.cancelAll a stem) (t.cancelAll b stem) := by
  unfold Scheduler.cancelAll matching
  rw [h.registry]
  generalize (t.registry.map (·.1)).filter _ = names
  induction names generalizing s t with
  | nil => exact h
  | cons name rest ih => exact ih (h.cancel name).1

theorem isRegistered (h : Alike s t) (name : String) :
    s.isRegistered name = t.isRegistered name := by
  rw [Scheduler.isRegistered, Scheduler.isRegistered, h.registry]

theorem isActive (h : Alike s t) (name : String) : s.isActive name = t.isActive name := by
  rw [Scheduler.isActive, Scheduler.isActive, h.find?]

theorem names (h : Alike s t) : s.names = t.names := by
  rw [Scheduler.names, Scheduler.names, h.registry]

theorem describe (h : Alike s t) : s.describe = t.describe := by
  delta Scheduler.describe
  rw [h.registry]

theorem newToken (h : Alike s t) (name : String) (above : Option String) :
    Alike (s.newToken name above) (t.newToken name above) :=
  { h with tokens := by simp only [Scheduler.newToken, h.tokens] }

theorem cancelToken (h : Alike s t) (name : String) :
    Alike (s.cancelToken name) (t.cancelToken name) :=
  { h with tokens := by simp only [Scheduler.cancelToken, h.tokens] }

theorem call (h : Alike s t) (c : Call) :
    Alike (s.call a c).1 (t.call b c).1 ∧ (s.call a c).2 = (t.call b c).2 := by
  cases c with
  | schedule o work runtime => exact h.schedule o work runtime
  | schedulePeriodic o work plan => exact h.schedulePeriodic o work plan
  | run name => exact ⟨(h.run name).1, congrArg Answer.ofResult (h.run name).2⟩
  | runIfExists name => exact ⟨h.runIfExists name, rfl⟩
  | cancel name => exact ⟨(h.cancel name).1, congrArg Answer.ofResult (h.cancel name).2⟩
  | cancelIfExists name => exact ⟨(h.cancel name).1, rfl⟩
  | cancelAll stem => exact ⟨h.cancelAll stem, rfl⟩
  | isRegistered name => exact ⟨h, congrArg Answer.flag (h.isRegistered name)⟩
  | isActive name => exact ⟨h, congrArg Answer.maybeFlag (h.isActive name)⟩
  | names => exact ⟨h, congrArg Answer.list h.names⟩
  | describe => exact ⟨h, congrArg Answer.text h.describe⟩
  | newToken name above => exact ⟨h.newToken name above, rfl⟩
  | cancelToken name => exact ⟨h.cancelToken name, rfl⟩

theorem waking? (h : Alike s t) (job : Job) (timer : Option Int) :
    s.waking? job timer = t.waking? job timer := by
  rw [Scheduler.waking?, Scheduler.waking?, h.tokens, h.now]

theorem isOver (h : Alike s t) (job : Job) (pause : Pause) :
    s.isOver job pause = t.isOver job pause := by
  cases pause with
  | none => rfl
  | clock deadline => rw [Scheduler.isOver, Scheduler.isOver, h.now]
  | token => rw [Scheduler.isOver, Scheduler.isOver, h.tokens]

theorem leave (h : Alike s t) : Alike (s.leave i) (t.leave i) := h.updateJob _

theorem stop (h : Alike s t) : Alike (s.stop i job) (t.stop i job) :=
  ((h.updateRecord _).report _ _).leave

theorem retire (h : Alike s t) : Alike (s.retire i job) (t.retire i job) := (h.remove _).stop

theorem await (h : Alike s t) (instant : Int) : Alike (s.await i instant) (t.await i instant) := by
  unfold Scheduler.await
  rw [h.now]
  split
  · exact h.setPhase _
  · exact h.updateJob _

theorem ask (h : Alike s t) : Alike (s.ask i job) (t.ask i job) := (h.emit _ _).updateJob _

theorem start (h : Alike s t) (instant : Int) (trigger : Trigger) :
    Alike (s.start i job instant trigger) (t.start i job instant trigger) := by
  unfold Scheduler.start count
  rw [h.counters]
  exact (((h.report _ _).setCount _ _).emit _ _).updateJob _

theorem complete (h : Alike s t) (instant : Int) :
    Alike (s.complete i job instant) (t.complete i job instant) := by
  unfold Scheduler.complete
  dsimp only
  split
  · exact ((h.log _ _).updateRecord _).setPhase _
  · exact ((h.log _ _).updateRecord _).leave

theorem act (h : Alike s t) (i : JobId) (job : Job) (action : Action) :
    Alike (s.act i job action).1 (t.act i job action).1 ∧
      (s.act i job action).2 = (t.act i job action).2 := by
  cases action with
  | sleep ms => exact ⟨h, by rw [Scheduler.act, Scheduler.act, h.now]⟩
  | context => exact ⟨h.emit _ _, rfl⟩
  | awaitContext => exact ⟨h, rfl⟩
  | call c => exact ⟨(h.call c).1.emit _ _, rfl⟩
  | panic payload => exact ⟨h, rfl⟩
  | earlyPanic payload => exact ⟨h, rfl⟩

theorem planOn (h : Alike s t) (result : Except RuntimeError Moment) (rest : List Action) :
    Alike (s.planOn i job result rest) (t.planOn i job result rest) := by
  unfold Scheduler.planOn
  rw [h.now]
  split
  · split
    · exact (h.log _ _).await _
    · exact (h.log _ _).retire
    · exact (h.log _ _).retire
  · exact (h.log _ _).retire
  · rename_i action rest _
    obtain ⟨hact, hpause⟩ := h.act i job action
    dsimp only
    rw [hpause]
    exact hact.setPhase _

theorem runOn (h : Alike s t) (instant : Int) (rest : List Action) :
    Alike (s.runOn i job instant rest) (t.runOn i job instant rest) := by
  unfold Scheduler.runOn
  split
  · exact (h.emit _ _).complete _
  · exact (h.log _ _).complete _
  · rename_i action rest _
    obtain ⟨hact, hpause⟩ := h.act i job action
    dsimp only
    rw [hpause]
    exact hact.setPhase _

theorem wake (h : Alike s t) (instant : Int) (w : Waking) :
    Alike (s.wake i job instant w) (t.wake i job instant w) := by
  cases w with
  | parent => exact (h.log _ _).retire
  | cancel => exact ((h.updateRecord _).log _ _).stop
  | signal => exact ((h.updateRecord _).log _ _).start _ _
  | timer =>
      simp only [Scheduler.wake]
      split
      · exact (h.log _ _).setPhase _
      · rename_i r _
        have hactive : Alike (s.updateRecord i fun _ => r) (t.updateRecord i fun _ => r) :=
          h.updateRecord _
        split
        · exact (hactive.log _ _).start _ _
        · exact ((hactive.remove _).log _ _).start _ _

theorem step (h : Alike s t) {s' : Scheduler} (hstep : s.step? i = some s') :
    ∃ t', t.step? i = some t' ∧ Alike s' t' := by
  unfold Scheduler.step? at hstep ⊢
  rw [← h.jobs]
  split at hstep
  · exact absurd hstep (by simp)
  · rename_i job _
    split at hstep
    · cases hstep
      exact ⟨_, rfl, h.await _⟩
    · cases hstep
      exact ⟨_, rfl, h.ask⟩
    · obtain ⟨hover, hstep⟩ := Option.ite_none_right_eq_some.mp hstep
      cases hstep
      rw [← h.isOver, if_pos hover]
      exact ⟨_, rfl, h.planOn _ _⟩
    · obtain ⟨w, hw, rfl⟩ := Option.map_eq_some_iff.mp hstep
      rw [← h.waking?, hw]
      exact ⟨_, rfl, h.wake _ w⟩
    · obtain ⟨hover, hstep⟩ := Option.ite_none_right_eq_some.mp hstep
      cases hstep
      rw [← h.isOver, if_pos hover]
      exact ⟨_, rfl, h.runOn _ _⟩
    · exact absurd hstep (by simp)
    · exact absurd hstep (by simp)

theorem move (h : Alike s t) {m : Move} {s' : Scheduler} (hm : s.move? m = some s') :
    ∃ t', t.move? m = some t' ∧ Alike s' t' := by
  cases m with
  | call c =>
      cases hm
      exact ⟨_, rfl, (h.call c).1⟩
  | turn i => exact h.step hm
  | pass ms =>
      cases hm
      exact ⟨_, rfl, { h with now := by simp only [stall, h.now] }⟩
  | shutdown =>
      cases hm
      exact ⟨_, rfl, { h with jobs := by simp only [shutdown, h.jobs] }⟩

end Alike

end Scheduler

namespace Scheduler.Alike

variable {s t : Scheduler}

theorem signals (h : Alike s t) (m : Move) (i : JobId) : s.signals m i = t.signals m i := by
  have hwaking : ∀ job timer, s.waking? job timer = t.waking? job timer := h.waking?
  unfold Scheduler.signals
  rw [h.jobs]
  split
  · simp only [hwaking]
  · rfl

end Scheduler.Alike

namespace Run

variable {monitor : Monitor} {logging : Bool} {past past' : List (Scheduler × Move)}
  {a b s t : Scheduler}

/-- Every run can be made before any observer. -/
theorem exists_alike (run : Run a past s) (h : a.Alike b) :
    ∃ past' t, Run b past' t ∧ past'.map (·.2) = past.map (·.2) := by
  have hlike : ∃ past' t, Run b past' t ∧ past'.map (·.2) = past.map (·.2) ∧ s.Alike t := by
    induction run with
    | start => exact ⟨[], b, .start, rfl, h⟩
    | next m _ hm ih =>
        obtain ⟨past', t, run', hmoves, halike⟩ := ih
        obtain ⟨t', hm', halike'⟩ := halike.move hm
        refine ⟨_, t', run'.next m hm', ?_, halike'⟩
        rw [List.map_cons, List.map_cons, hmoves]
  obtain ⟨past', t, run', hmoves, -⟩ := hlike
  exact ⟨past', t, run', hmoves⟩

/-- Runs that make the same moves pass alike states. -/
theorem alike (run : Run a past s) (run' : Run b past' t) (h : a.Alike b)
    (hmoves : past'.map (·.2) = past.map (·.2)) :
    s.Alike t ∧ ∀ i, signalled past i = signalled past' i := by
  induction run generalizing past' t with
  | start =>
      cases run' with
      | start => exact ⟨h, fun _ => rfl⟩
      | next => exact absurd hmoves (by simp)
  | @next past s s' m _ hm ih =>
      cases run' with
      | start => exact absurd hmoves (by simp)
      | @next past' t _ m' run' hm' =>
          obtain ⟨hmove, hrest⟩ := List.cons_eq_cons.mp hmoves
          obtain rfl : m' = m := hmove
          obtain ⟨halike, hsignalled⟩ := ih run' hrest
          obtain ⟨t', ht, halike'⟩ := halike.move hm
          obtain rfl : _ = t' := Option.some_inj.mp (hm'.symm.trans ht)
          refine ⟨halike', fun i => ?_⟩
          rw [signalled_cons, signalled_cons, hsignalled, halike.signals]

theorem alike_map {α : Type} (run : Run a past s) (run' : Run b past' t) (h : a.Alike b)
    (hmoves : past'.map (·.2) = past.map (·.2)) (f : Scheduler → Move → α)
    (hf : ∀ {s t : Scheduler}, s.Alike t → ∀ m, f s m = f t m) :
    past.map (fun e => f e.1 e.2) = past'.map fun e => f e.1 e.2 := by
  induction run generalizing past' t with
  | start =>
      cases run' with
      | start => rfl
      | next => exact absurd hmoves (by simp)
  | @next past s s' m run hm ih =>
      cases run' with
      | start => exact absurd hmoves (by simp)
      | next m' run' hm' =>
          obtain ⟨hmove, hrest⟩ := List.cons_eq_cons.mp hmoves
          obtain rfl : m' = m := hmove
          rw [List.map_cons, List.map_cons, ih run' hrest, hf (run.alike run' h hrest).1]

/-- Whether the moves of a run, made before a recording monitor, lead to `t`. -/
def Recorded (past : List (Scheduler × Move)) (t : Scheduler) : Prop :=
  ∃ logging past', Run (.initial .recording logging) past' t ∧ past'.map (·.2) = past.map (·.2)

theorem exists_recorded (run : Run (.initial monitor logging) past s) : ∃ t, Recorded past t := by
  obtain ⟨past', t, run', hmoves⟩ :=
    run.exists_alike (b := .initial .recording logging) ⟨rfl, rfl, rfl, rfl, rfl⟩
  exact ⟨t, logging, past', run', hmoves⟩

theorem of_recorded (run : Run (.initial monitor logging) past s) (h : Recorded past t) :
    ∃ logging' past', Run (.initial .recording logging') past' t ∧
      past'.map (·.2) = past.map (·.2) ∧ t.jobs = s.jobs := by
  obtain ⟨logging', past', run', hmoves⟩ := h
  have halike := (run.alike run' ⟨rfl, rfl, rfl, rfl, rfl⟩ hmoves).1
  exact ⟨logging', past', run', hmoves, halike.jobs.symm⟩

end Run

end JobScheduler
