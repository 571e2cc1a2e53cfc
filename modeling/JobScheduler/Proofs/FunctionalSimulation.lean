import JobScheduler.Proofs.Answers
import JobScheduler.Proofs.Simulation

/-!
Retellings of a scheduler: maps that keep what calls and runners read, and keep up with what they
write. Where two schedulers have a retelling in common, calls have the same answers and the same
runners can go on, and what is retold stays the same, over every run (`Run.retold`) and every
performance (`Performance.retold`). A retelling may change what is observed, and jobs that are out
of reach: those that hold no name and whose runners are gone.
-/

namespace JobScheduler

/-- What the call of a move answers, if the move makes one. -/
def Scheduler.answer? (s : Scheduler) (m : Move) : Option Answer :=
  (s.callOf? m).map fun c => (s.call (Scheduler.actorOf m) c).2

/-- Whether an event belongs to what is done, and not to what is reported or logged of it. -/
def Happening.plain : Happening → Bool
  | .reported .. | .logged _ => false
  | _ => true

/-- A map of schedulers that no call and no runner can tell from the scheduler itself. -/
structure Retelling where
  tell : Scheduler → Scheduler
  /-- The jobs that it changes. -/
  hidden : JobId → Prop
  core : ∀ s now tokens registry counters,
    tell { s with now := now, tokens := tokens, registry := registry, counters := counters } =
      { tell s with now := now, tokens := tokens, registry := registry, counters := counters }
  length : ∀ s, (tell s).jobs.length = s.jobs.length
  jobs : ∀ s i, ¬hidden i → (tell s).jobs[i]? = s.jobs[i]?
  gone : ∀ s i job, hidden i → (tell s).jobs[i]? = some job → job.phase.alive = false
  updateJob : ∀ s i f, ¬hidden i → tell (s.updateJob i f) = (tell s).updateJob i f
  addJob : ∀ s job, ¬hidden s.jobs.length →
    tell { s with jobs := s.jobs ++ [job] } = { tell s with jobs := (tell s).jobs ++ [job] }
  shutdown : ∀ s, tell s.shutdown = (tell s).shutdown
  emit : ∀ s a w, w.plain = true → tell (s.emit a w) = (tell s).emit a w
  log : ∀ s a e, tell (s.log a e) = (tell s).log a e
  report : ∀ s a i cls r, tell (s.report a i cls r) = (tell s).report a i cls r

theorem Scheduler.step?_of_gone {s : Scheduler} {i : JobId}
    (h : ∀ job, s.jobs[i]? = some job → job.phase.alive = false) : s.step? i = none := by
  unfold step?
  cases hj : s.jobs[i]? with
  | none => rfl
  | some job =>
      have hgone := h job hj
      cases hp : job.phase with
      | returned => simp only [hp]
      | vanished => simp only [hp]
      | _ => exact absurd hgone (by simp [hp, Phase.alive])

theorem Job.nextCall?_of_gone {j : Job} (h : j.phase.alive = false) : j.nextCall? = none := by
  unfold nextCall?
  cases hp : j.phase with
  | planning pause rest result => exact absurd h (by simp [hp, Phase.alive])
  | running instant pause rest => exact absurd h (by simp [hp, Phase.alive])
  | _ => rfl

theorem Job.deadline?_of_gone {j : Job} (h : j.phase.alive = false) : j.deadline? = none := by
  unfold deadline?
  cases hp : j.phase with
  | returned => rfl
  | vanished => rfl
  | _ => exact absurd h (by simp [hp, Phase.alive])

namespace Retelling

/-- Whether the jobs that a retelling changes are out of reach. -/
structure Clear (R : Retelling) (s : Scheduler) : Prop where
  free : ∀ name i, s.registry.lookup name = some i → ¬R.hidden i
  gone : ∀ i, R.hidden i → ∃ job, s.jobs[i]? = some job ∧ job.phase.alive = false

variable {R : Retelling} {s s' t : Scheduler} {a : Option JobId} {i : JobId} {job : Job}

namespace Clear

theorem new (h : R.Clear s) : ¬R.hidden s.jobs.length := by
  intro hhidden
  obtain ⟨job, hj, -⟩ := h.gone _ hhidden
  exact absurd (List.getElem?_eq_some_iff.mp hj).1 (Nat.lt_irrefl _)

theorem visible (h : R.Clear s) {name : String} (hfind : s.find? name = some (i, job)) :
    ¬R.hidden i :=
  h.free name i (Scheduler.find?_eq_some hfind).1

theorem at_rest (h : R.Clear s) (hi : R.hidden i) (job : Job) (hj : s.jobs[i]? = some job) :
    job.phase.alive = false := by
  obtain ⟨job', hj', hgone⟩ := h.gone i hi
  obtain rfl : job = job' := Option.some_inj.mp (hj.symm.trans hj')
  exact hgone

theorem cancel (h : R.Clear s) (a : Option JobId) (name : String) :
    R.Clear (s.cancel a name).1 := by
  cases hfind : s.find? name with
  | none =>
      rw [Scheduler.cancel, hfind]
      exact h
  | some found =>
      obtain ⟨k, job⟩ := found
      have hk := h.visible hfind
      have hleft : ∀ r e, R.Clear (((s.unregister name).updateRecord k fun _ => r).log a e) := by
        intro r e
        constructor
        · intro n i hl
          rw [Scheduler.registry_log] at hl
          have hl' : (s.unregister name).registry.lookup n = some i := hl
          rw [Scheduler.lookup_unregister] at hl'
          split at hl'
          · exact absurd hl' (by simp)
          · exact h.free n i hl'
        · intro i hi
          obtain ⟨job', hj', hgone⟩ := h.gone i hi
          refine ⟨job', ?_, hgone⟩
          have hki : k ≠ i := fun hki => hk (hki ▸ hi)
          rw [Scheduler.jobs_log]
          exact (List.getElem?_modify_ne _ _ hki).trans hj'
      simp only [Scheduler.cancel, hfind]
      split <;> exact hleft _ _

end Clear

variable (R) (s)

theorem same : R.tell s =
    { R.tell s with
      now := s.now, tokens := s.tokens, registry := s.registry, counters := s.counters } :=
  R.core s s.now s.tokens s.registry s.counters

theorem now : (R.tell s).now = s.now := by rw [R.same]

theorem tokens : (R.tell s).tokens = s.tokens := by rw [R.same]

theorem registry : (R.tell s).registry = s.registry := by rw [R.same]

theorem counters : (R.tell s).counters = s.counters := by rw [R.same]

theorem setNow (n : Int) : R.tell { s with now := n } = { R.tell s with now := n } := by
  rw [R.core s n s.tokens s.registry s.counters, ← R.tokens s, ← R.registry s, ← R.counters s]

theorem setTokens (ts : Tokens) :
    R.tell { s with tokens := ts } = { R.tell s with tokens := ts } := by
  rw [R.core s s.now ts s.registry s.counters, ← R.now s, ← R.registry s, ← R.counters s]

theorem setRegistry (entries : List (String × JobId)) :
    R.tell { s with registry := entries } = { R.tell s with registry := entries } := by
  rw [R.core s s.now s.tokens entries s.counters, ← R.now s, ← R.tokens s, ← R.counters s]

theorem setCounters (counters : List (String × Nat)) :
    R.tell { s with counters := counters } = { R.tell s with counters := counters } := by
  rw [R.core s s.now s.tokens s.registry counters, ← R.now s, ← R.tokens s, ← R.registry s]

theorem stall (ms : Nat) : R.tell (s.stall ms) = (R.tell s).stall ms := by
  rw [Scheduler.stall, Scheduler.stall, R.now]
  exact R.setNow s _

theorem unregister (name : String) :
    R.tell (s.unregister name) = (R.tell s).unregister name := by
  unfold Scheduler.unregister
  rw [R.setRegistry, R.registry]

theorem setCount (counter : String) (n : Nat) :
    R.tell (s.setCount counter n) = (R.tell s).setCount counter n := by
  unfold Scheduler.setCount
  rw [R.setCounters, R.counters]

theorem updateRecord (hi : ¬R.hidden i) (f : Record → Record) :
    R.tell (s.updateRecord i f) = (R.tell s).updateRecord i f :=
  R.updateJob s i _ hi

theorem setPhase (hi : ¬R.hidden i) (phase : Phase) :
    R.tell (s.setPhase i phase) = (R.tell s).setPhase i phase :=
  R.updateJob s i _ hi

theorem count (counter : String) : (R.tell s).count counter = s.count counter := by
  rw [Scheduler.count, Scheduler.count, R.counters]

theorem remove (a : Option JobId) (i : JobId) (name : String) :
    R.tell (s.remove a i name) = (R.tell s).remove a i name := by
  unfold Scheduler.remove
  rw [R.registry]
  split
  · rw [R.log, R.unregister]
  · rfl

theorem isRegistered (name : String) : (R.tell s).isRegistered name = s.isRegistered name := by
  rw [Scheduler.isRegistered, Scheduler.isRegistered, R.registry]

theorem vet (o : JobOrder) (planned : Bool) (work : Option Work) :
    (R.tell s).vet o planned work = s.vet o planned work := by
  unfold Scheduler.vet
  rw [R.isRegistered]

theorem newJob (o : JobOrder) (periodic : Bool) (work : Work) (plan : Plan Action)
    (phase : Phase) :
    (R.tell s).newJob o periodic work plan phase = s.newJob o periodic work plan phase := by
  rw [Scheduler.newJob, Scheduler.newJob, R.tokens]

theorem names : (R.tell s).names = s.names := by
  rw [Scheduler.names, Scheduler.names, R.registry]

theorem describe : (R.tell s).describe = s.describe := by
  delta Scheduler.describe
  rw [R.registry]

theorem newToken (name : String) (above : Option String) :
    R.tell (s.newToken name above) = (R.tell s).newToken name above := by
  unfold Scheduler.newToken
  rw [R.setTokens, R.tokens]

theorem cancelToken (name : String) :
    R.tell (s.cancelToken name) = (R.tell s).cancelToken name := by
  unfold Scheduler.cancelToken
  rw [R.setTokens, R.tokens]

section

variable {R s} (h : R.Clear s)
include h

theorem enrol (a : Option JobId) (job : Job) :
    R.tell (s.enrol a job) = (R.tell s).enrol a job := by
  have hadd : R.tell
      { s with
        registry := s.registry ++ [(job.record.name, s.jobs.length)]
        jobs := s.jobs ++ [job] } =
      { R.tell s with
        registry := s.registry ++ [(job.record.name, s.jobs.length)]
        jobs := (R.tell s).jobs ++ [job] } :=
    (R.setRegistry { s with jobs := s.jobs ++ [job] } _).trans (by rw [R.addJob s job h.new])
  unfold Scheduler.enrol
  dsimp only
  rw [R.log, R.report, R.length, R.registry, hadd]

theorem schedule (a : Option JobId) (o : JobOrder) (work : Option Work) (runtime : Moment) :
    (R.tell s).schedule a o work runtime =
      (R.tell (s.schedule a o work runtime).1, (s.schedule a o work runtime).2) := by
  unfold Scheduler.schedule
  rw [R.vet, R.now, R.length]
  split
  · rfl
  · simp only [Scheduler.launch, R.newJob, R.log, enrol h]

theorem schedulePeriodic (a : Option JobId) (o : JobOrder) (work : Option Work)
    (plan : Option (Plan Action)) :
    (R.tell s).schedulePeriodic a o work plan =
      (R.tell (s.schedulePeriodic a o work plan).1, (s.schedulePeriodic a o work plan).2) := by
  unfold Scheduler.schedulePeriodic
  rw [R.vet, R.length]
  split
  · rfl
  · simp only [Scheduler.launch, R.newJob, R.log, enrol h]

theorem find? (name : String) : (R.tell s).find? name = s.find? name := by
  unfold Scheduler.find?
  rw [R.registry]
  cases hl : s.registry.lookup name with
  | none => rfl
  | some i => rw [Option.bind_some, Option.bind_some, R.jobs s i (h.free name i hl)]

theorem isActive (name : String) : (R.tell s).isActive name = s.isActive name := by
  rw [Scheduler.isActive, Scheduler.isActive, find? h]

theorem run (a : Option JobId) (name : String) :
    (R.tell s).run a name = (R.tell (s.run a name).1, (s.run a name).2) := by
  unfold Scheduler.run
  rw [find? h]
  cases hfind : s.find? name with
  | none => rfl
  | some found =>
      obtain ⟨i, job⟩ := found
      have hi := h.visible hfind
      have hleft : R.tell (if job.record.periodic then s else s.unregister name) =
          if job.record.periodic then R.tell s else (R.tell s).unregister name := by
        rw [apply_ite R.tell, R.unregister]
      dsimp only
      split
      · rw [R.log, R.updateRecord _ hi, hleft]
      · rw [R.updateRecord _ hi, hleft]

theorem runIfExists (a : Option JobId) (name : String) :
    (R.tell s).runIfExists a name = R.tell (s.runIfExists a name) := by
  unfold Scheduler.runIfExists
  rw [run h]
  rcases s.run a name with ⟨s', _ | _⟩
  · exact (R.log _ _ _).symm
  · rfl

theorem cancel (a : Option JobId) (name : String) :
    (R.tell s).cancel a name = (R.tell (s.cancel a name).1, (s.cancel a name).2) := by
  unfold Scheduler.cancel
  rw [find? h]
  cases hfind : s.find? name with
  | none => rfl
  | some found =>
      obtain ⟨i, job⟩ := found
      have hi := h.visible hfind
      dsimp only
      split <;> rw [R.log, R.updateRecord _ hi, R.unregister]

theorem cancelAll (a : Option JobId) (stem : String) :
    (R.tell s).cancelAll a stem = R.tell (s.cancelAll a stem) := by
  unfold Scheduler.cancelAll Scheduler.matching
  rw [R.registry]
  generalize (s.registry.map (·.1)).filter _ = names
  induction names generalizing s with
  | nil => rfl
  | cons name rest ih =>
      rw [List.foldl_cons, List.foldl_cons, Scheduler.cancelIfExists, cancel h]
      exact ih (h.cancel a name)

theorem call (a : Option JobId) (c : Call) :
    (R.tell s).call a c = (R.tell (s.call a c).1, (s.call a c).2) := by
  cases c with
  | schedule o work runtime => exact schedule h a o work runtime
  | schedulePeriodic o work plan => exact schedulePeriodic h a o work plan
  | run name => simp only [Scheduler.call, run h]
  | runIfExists name => simp only [Scheduler.call, runIfExists h]
  | cancel name => simp only [Scheduler.call, cancel h]
  | cancelIfExists name => simp only [Scheduler.call, Scheduler.cancelIfExists, cancel h]
  | cancelAll stem => simp only [Scheduler.call, cancelAll h]
  | isRegistered name => simp only [Scheduler.call, R.isRegistered]
  | isActive name => simp only [Scheduler.call, isActive h]
  | names => simp only [Scheduler.call, R.names]
  | describe => simp only [Scheduler.call, R.describe]
  | newToken name above => simp only [Scheduler.call, R.newToken]
  | cancelToken name => simp only [Scheduler.call, R.cancelToken]

end

theorem waking? (job : Job) (timer : Option Int) :
    (R.tell s).waking? job timer = s.waking? job timer := by
  rw [Scheduler.waking?, Scheduler.waking?, R.tokens, R.now]

theorem isOver (job : Job) (pause : Pause) : (R.tell s).isOver job pause = s.isOver job pause := by
  cases pause with
  | none => rfl
  | clock deadline => rw [Scheduler.isOver, Scheduler.isOver, R.now]
  | token => rw [Scheduler.isOver, Scheduler.isOver, R.tokens]

section

variable {R} (hi : ¬R.hidden i) (job : Job) (instant : Int)
include hi

theorem stop : R.tell (s.stop i job) = (R.tell s).stop i job := by
  unfold Scheduler.stop Scheduler.leave
  rw [R.updateJob _ i _ hi, R.report, R.updateRecord _ hi]

theorem retire : R.tell (s.retire i job) = (R.tell s).retire i job := by
  unfold Scheduler.retire
  rw [stop _ hi, R.remove]

theorem await : R.tell (s.await i instant) = (R.tell s).await i instant := by
  unfold Scheduler.await
  rw [R.now]
  split
  · exact R.setPhase s hi _
  · exact R.updateJob s i _ hi

theorem ask : R.tell (s.ask i job) = (R.tell s).ask i job := by
  unfold Scheduler.ask
  dsimp only
  rw [R.updateJob _ i _ hi, R.emit _ _ _ rfl]

theorem start (trigger : Trigger) :
    R.tell (s.start i job instant trigger) = (R.tell s).start i job instant trigger := by
  unfold Scheduler.start
  dsimp only
  rw [R.updateJob _ i _ hi, R.emit _ _ _ rfl, R.setCount, R.report, R.count]

theorem complete : R.tell (s.complete i job instant) = (R.tell s).complete i job instant := by
  unfold Scheduler.complete Scheduler.leave
  dsimp only
  split
  · rw [R.setPhase _ hi, R.updateRecord _ hi, R.log]
  · rw [R.updateJob _ i _ hi, R.updateRecord _ hi, R.log]

theorem wake (w : Waking) : R.tell (s.wake i job instant w) = (R.tell s).wake i job instant w := by
  cases w with
  | parent => simp only [Scheduler.wake, retire _ hi, R.log]
  | cancel => simp only [Scheduler.wake, stop _ hi, R.log, R.updateRecord _ hi]
  | signal => simp only [Scheduler.wake, start _ hi, R.log, R.updateRecord _ hi]
  | timer =>
      simp only [Scheduler.wake]
      split
      · rw [R.setPhase _ hi, R.log]
      · rw [start _ hi, R.log, apply_ite R.tell, R.remove, R.updateRecord _ hi]

variable (h : R.Clear s)
include h

omit hi in
theorem act (i : JobId) (action : Action) :
    (R.tell s).act i job action = (R.tell (s.act i job action).1, (s.act i job action).2) := by
  cases action with
  | sleep ms => simp only [Scheduler.act, R.now]
  | context =>
      simp only [Scheduler.act, R.tokens]
      rw [R.emit _ _ _ rfl]
  | call c =>
      simp only [Scheduler.act, call h]
      rw [R.emit _ _ _ rfl]
  | _ => rfl

theorem planOn (result : Except RuntimeError Moment) (rest : List Action) :
    R.tell (s.planOn i job result rest) = (R.tell s).planOn i job result rest := by
  unfold Scheduler.planOn
  rw [R.now]
  split
  · split
    · rw [await _ hi, R.log]
    · rw [retire _ hi, R.log]
    · rw [retire _ hi, R.log]
  · rw [retire _ hi, R.log]
  · rw [act _ job h]
    exact R.setPhase _ hi _

theorem runOn (rest : List Action) :
    R.tell (s.runOn i job instant rest) = (R.tell s).runOn i job instant rest := by
  unfold Scheduler.runOn
  split
  · rw [complete _ hi, R.emit _ _ _ rfl]
  · rw [complete _ hi, R.log]
  · rw [act _ job h]
    exact R.setPhase _ hi _

end

section

variable {R s} (h : R.Clear s)
include h

/-- The same runners can go on, and what their steps leave behind is retold. -/
theorem step? (i : JobId) : (R.tell s).step? i = (s.step? i).map R.tell := by
  by_cases hi : R.hidden i
  · have hgone : ∀ job, (R.tell s).jobs[i]? = some job → job.phase.alive = false := fun job =>
      R.gone s i job hi
    rw [Scheduler.step?_of_gone hgone, Scheduler.step?_of_gone (h.at_rest hi)]
    rfl
  · unfold Scheduler.step?
    rw [R.jobs s i hi]
    cases hj : s.jobs[i]? with
    | none => rfl
    | some job =>
        dsimp only
        cases hp : job.phase with
        | spawned instant => exact congrArg some (await s hi instant).symm
        | looping => exact congrArg some (ask s hi job).symm
        | planning pause rest result =>
            dsimp only
            rw [R.isOver, apply_ite (Option.map R.tell), Option.map_some, planOn s hi job h]
            rfl
        | waiting instant timer =>
            dsimp only
            rw [R.waking?, Option.map_map]
            congr 1
            funext w
            exact (wake s hi job instant w).symm
        | running instant pause rest =>
            dsimp only
            rw [R.isOver, apply_ite (Option.map R.tell), Option.map_some, runOn s hi job instant h]
            rfl
        | returned => rfl
        | vanished => rfl

theorem callOf? (m : Move) : (R.tell s).callOf? m = s.callOf? m := by
  cases m with
  | turn i =>
      simp only [Scheduler.callOf?]
      by_cases hi : R.hidden i
      · have hnone : ∀ t : Scheduler, (∀ job, t.jobs[i]? = some job → job.phase.alive = false) →
            t.jobs[i]?.bind Job.nextCall? = none := fun t ht =>
          Option.bind_eq_none_iff.mpr fun job hj => Job.nextCall?_of_gone (ht job hj)
        rw [hnone _ fun job => R.gone s i job hi, hnone _ (h.at_rest hi)]
      · rw [R.jobs s i hi]
  | _ => rfl

theorem answer? (m : Move) : (R.tell s).answer? m = s.answer? m := by
  simp only [Scheduler.answer?, callOf? h, call h]

theorem move? (m : Move) : (R.tell s).move? m = (s.move? m).map R.tell := by
  cases m with
  | call c => exact congrArg (fun r => some r.1) (call h none c)
  | turn i => exact step? h i
  | pass ms => exact congrArg some (R.stall s ms).symm
  | shutdown => exact congrArg some (R.shutdown s).symm

theorem due_iff (stop t : Int) : (R.tell s).Due stop t ↔ s.Due stop t := by
  have hjobs : (∃ job ∈ (R.tell s).jobs, job.deadline? = some t) ↔
      ∃ job ∈ s.jobs, job.deadline? = some t := by
    simp only [List.mem_iff_getElem?]
    -- A job with a deadline has a runner, so that it is not among those that are changed.
    constructor <;> rintro ⟨job, ⟨i, hj⟩, ht⟩ <;> by_cases hi : R.hidden i
    · exact absurd ht (by rw [Job.deadline?_of_gone (R.gone s i job hi hj)]; nofun)
    · exact ⟨job, ⟨i, (R.jobs s i hi).symm.trans hj⟩, ht⟩
    · exact absurd ht (by rw [Job.deadline?_of_gone (h.at_rest hi job hj)]; nofun)
    · exact ⟨job, ⟨i, (R.jobs s i hi).trans hj⟩, ht⟩
  rw [Scheduler.Due, Scheduler.Due, hjobs, R.now]

end

/-- Whether the jobs that a retelling changes stay out of reach, whatever follows. -/
def Lasts (R : Retelling) (s : Scheduler) : Prop := ∀ past t, Run s past t → R.Clear t

/-- Whether two entries of runs are the same move with the same answer, from states that have a
retelling in common. -/
structure Matches (R R' : Retelling) (e e' : Scheduler × Move) : Prop where
  move : e'.2 = e.2
  tell : R'.tell e'.1 = R.tell e.1
  answer : e'.1.answer? e'.2 = e.1.answer? e.2

variable {R s} {R' : Retelling}

theorem Lasts.clear (h : R.Lasts s) : R.Clear s := h [] s .start

theorem Lasts.next (h : R.Lasts s) {m : Move} (hm : s.move? m = some s') : R.Lasts s' := by
  intro past t run
  exact h _ t ((Run.single m hm).trans run)

/-- Schedulers that have a retelling in common, as long as what it changes stays out of reach. -/
def common (R R' : Retelling) : Bisimulation where
  state s t := R.Lasts s ∧ R'.Lasts t ∧ R'.tell t = R.tell s
  call := (· = ·)
  now := by
    rintro s t ⟨-, -, hst⟩
    rw [← R'.now t, hst, R.now s]
  move := by
    rintro s t m m' ⟨hs, ht, hst⟩ hm
    obtain rfl := hm.eq
    have htell : (t.move? m).map R'.tell = (s.move? m).map R.tell := by
      rw [← move? ht.clear, hst, move? hs.clear]
    cases hs' : s.move? m with
    | none =>
        rw [hs', Option.map_none, Option.map_eq_none_iff] at htell
        rw [htell]
        exact .none
    | some s' =>
        rw [hs', Option.map_some] at htell
        obtain ⟨t', ht', hst'⟩ := Option.map_eq_some_iff.mp htell
        rw [ht']
        exact .some ⟨hs.next hs', ht.next ht', hst'⟩
  due := by
    rintro s t ⟨hs, ht, hst⟩ stop u
    rw [← due_iff hs.clear, ← due_iff ht.clear, hst]

theorem matches_of_common {e e' : Scheduler × Move} (h : (common R R').Matches e e') :
    R.Matches R' e e' := by
  obtain ⟨⟨hs, ht, hst⟩, hm⟩ := h
  have hmove := hm.eq
  refine ⟨hmove.symm, hst, ?_⟩
  rw [← hmove, ← answer? hs.clear, ← answer? ht.clear, hst]

end Retelling

section

variable {R R' : Retelling} {a b s : Scheduler} {past : List (Scheduler × Move)}

/-- From states that have a retelling in common the same moves can be made, with the same
answers. -/
theorem Run.retold (ha : R.Lasts a) (hb : R'.Lasts b) (hab : R'.tell b = R.tell a)
    (run : Run a past s) :
    ∃ past' t, Run b past' t ∧ R'.tell t = R.tell s ∧ List.Forall₂ (R.Matches R') past past' := by
  obtain ⟨past', t, run', ⟨-, -, hst⟩, hpast⟩ :=
    run.matched (B := R.common R') (fun _ => rfl) ⟨ha, hb, hab⟩
  exact ⟨past', t, run', hst, hpast.imp fun _ _ => Retelling.matches_of_common⟩

theorem Performance.retold {first p : Progress} (ha : R.Lasts first.scheduler) (hb : R'.Lasts b)
    (hab : R'.tell b = R.tell first.scheduler) (h : Performance first past p) :
    ∃ past' t, Performance { first with scheduler := b } past' { p with scheduler := t } ∧
      R'.tell t = R.tell p.scheduler ∧ List.Forall₂ (R.Matches R') past past' := by
  have hsteps : List.Forall₂ (Step.Rel (· = ·)) first.rest first.rest :=
    List.forall₂_same.mpr fun step _ => .refl (fun _ => rfl) step
  have hfirst : (R.common R').Stage first { first with scheduler := b } :=
    ⟨⟨ha, hb, hab⟩, rfl, hsteps⟩
  obtain ⟨past', ⟨t, _, rest⟩, h', ⟨⟨-, -, hst⟩, rfl, hrest⟩, hpast⟩ := h.matched hfirst
  have hsame : p.rest = rest :=
    List.forall₂_eq_eq_eq ▸ hrest.imp fun _ _ => Step.Rel.eq
  subst hsame
  exact ⟨past', t, h', hst, hpast.imp fun _ _ => Retelling.matches_of_common⟩

end

end JobScheduler
