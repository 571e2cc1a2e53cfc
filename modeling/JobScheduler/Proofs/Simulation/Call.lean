import JobScheduler.Proofs.Simulation

/-!
Two schedulers side by side that differ in the functions of their jobs. A kinship says which
functions are taken for each other. Akin schedulers agree in everything but what is left to do of
the functions and what the events told before, and related calls keep it that way
(`Scheduler.AkinSince.call`).
-/

namespace JobScheduler

/-- Whether two calls are the same, except for functions that are related. -/
inductive Call.Akin (work : Work → Work → Prop) (plan : Plan Action → Plan Action → Prop) :
    Call → Call → Prop where
  | same (c : Call) : Call.Akin work plan c c
  | schedule {w w' : Option Work} (order : JobOrder) (instant : Moment) : Option.Rel work w w' →
      Call.Akin work plan (.schedule order w instant) (.schedule order w' instant)
  | schedulePeriodic {w w' : Option Work} {p p' : Option (Plan Action)} (order : JobOrder) :
      Option.Rel work w w' → Option.Rel plan p p' →
      Call.Akin work plan (.schedulePeriodic order w p) (.schedulePeriodic order w' p')

theorem Call.Akin.verb {work : Work → Work → Prop} {plan : Plan Action → Plan Action → Prop}
    {c c' : Call} (h : Call.Akin work plan c c') : c'.verb = c.verb := by
  cases h <;> rfl

/-- Whether two actions are the same, except for calls that `call` relates. -/
inductive Action.Akin (call : Call → Call → Prop) : Action → Action → Prop where
  | same (action : Action) : Action.Akin call action action
  | call {c c' : Call} : call c c' → Action.Akin call (.call c) (.call c')

theorem Action.Akin.over {call : Call → Call → Prop} {action action' : Action}
    (h : Action.Akin call action action') (rest rest' : List Action) :
    Action.over (action' :: rest') = Action.over (action :: rest) := by
  cases h with
  | call hc => rfl
  | same => cases action <;> rfl

theorem Action.Akin.call? {call : Call → Call → Prop} (hrefl : ∀ c, call c c)
    {action action' : Action} (h : Action.Akin call action action') (rest rest' : List Action) :
    Option.Rel call (Action.call? (action :: rest)) (Action.call? (action' :: rest')) := by
  cases h with
  | call hc => exact .some hc
  | same =>
      cases action with
      | call c => exact .some (hrefl c)
      | _ => exact .none

theorem Action.opened_akin {call : Call → Call → Prop} {actions actions' : List Action}
    (h : List.Forall₂ (Action.Akin call) actions actions') :
    List.Forall₂ (Action.Akin call) (Action.opened actions) (Action.opened actions') := by
  cases h with
  | nil => exact .nil
  | @cons action _ _ _ haction hrest =>
      cases haction with
      | call hc => exact .cons (.call hc) hrest
      | same => cases action <;> exact .cons (.same _) hrest

theorem Work.body_rel {R : List Action → List Action → Prop} (hnil : R [] []) {work work' : Work}
    (h : List.Forall₂ R work work') (k : Nat) : R (Work.body work k) (Work.body work' k) := by
  unfold Work.body
  rcases forall₂_getElem? h k with ⟨hnone, hnone'⟩ | ⟨body, body', hbody, hbody', hrel⟩
  · rw [hnone, hnone', List.getLast?_eq_getElem?, List.getLast?_eq_getElem?, ← h.length_eq]
    rcases forall₂_getElem? h (work.length - 1) with
      ⟨hlast, hlast'⟩ | ⟨last, last', hlast, hlast', hrel⟩
    · rw [hlast, hlast']
      exact hnil
    · rw [hlast, hlast']
      exact hrel
  · rw [hbody, hbody']
    exact hrel

/-- The call of a runtime function as it is carried out. -/
def Entry.opened (e : Entry Action) : Entry Action := { e with actions := Action.opened e.actions }

/-- Which functions are taken for each other, before they are entered and on the way. -/
structure Kinship where
  call : Call → Call → Prop
  work : Work → Work → Prop
  plan : Plan Action → Plan Action → Prop
  /-- What is left to do in a job function. -/
  body : List Action → List Action → Prop
  /-- What is left to do in a runtime function, and what it returns. -/
  course : Entry Action → Entry Action → Prop
  call_refl : ∀ c, call c c
  work_refl : ∀ w, work w w
  plan_refl : ∀ p, plan p p
  called : ∀ {c c'}, call c c' → Call.Akin work plan c c'
  entered : ∀ {w w'}, work w w' → ∀ k, body (Action.opened (w.body k)) (Action.opened (w'.body k))
  asked : ∀ {p p'}, plan p p' → ∀ k, course (p.entry k).opened (p'.entry k).opened
  body_call? : ∀ {b b'}, body b b' → Option.Rel call (Action.call? b) (Action.call? b')
  course_call? : ∀ {e e'}, course e e' →
    Option.Rel call (Action.call? e.actions) (Action.call? e'.actions)

section

variable (K : Kinship)

inductive Phase.Akin : Phase → Phase → Prop where
  | spawned (instant : Int) : Phase.Akin (.spawned instant) (.spawned instant)
  | looping : Phase.Akin .looping .looping
  | planning {rest rest' : List Action} {result result' : Except RuntimeError Moment}
      (pause : Pause) : K.course ⟨rest, result⟩ ⟨rest', result'⟩ →
      Phase.Akin (.planning pause rest result) (.planning pause rest' result')
  | waiting (instant : Int) (timer : Option Int) :
      Phase.Akin (.waiting instant timer) (.waiting instant timer)
  | running {rest rest' : List Action} (instant : Int) (pause : Pause) : K.body rest rest' →
      Phase.Akin (.running instant pause rest) (.running instant pause rest')
  | returned : Phase.Akin .returned .returned
  | vanished : Phase.Akin .vanished .vanished

/-- Whether two jobs agree in everything but their functions, which are related. -/
structure Job.Akin (j j' : Job) : Prop where
  record : j'.record = j.record
  tag : j'.tag = j.tag
  token : j'.token = j.token
  counter : j'.counter = j.counter
  work : K.work j.work j'.work
  plan : K.plan j.plan j'.plan
  runs : j'.runs = j.runs
  asks : j'.asks = j.asks
  phase : Phase.Akin K j.phase j'.phase

/-- Whether two schedulers agree in everything but their histories and the functions of their jobs,
which are related. -/
structure Scheduler.Akin (s t : Scheduler) : Prop where
  now : t.now = s.now
  tokens : t.tokens = s.tokens
  registry : t.registry = s.registry
  jobs : List.Forall₂ (Job.Akin K) s.jobs t.jobs
  counters : t.counters = s.counters
  monitor : t.monitor = s.monitor
  logging : t.logging = s.logging

/-- Whether besides the same events were written since the histories were `base` and `base'`. -/
structure Scheduler.AkinSince (s : Scheduler) (base base' : List Event) (t : Scheduler) : Prop
    extends Scheduler.Akin K s t where
  events : ∃ events, s.history = events ++ base ∧ t.history = events ++ base'

end

section

variable {K : Kinship} {j j' : Job}

theorem Phase.Akin.alive {p p' : Phase} (h : Phase.Akin K p p') : p'.alive = p.alive := by
  cases h <;> rfl

theorem Job.Akin.withRecord (h : j.Akin K j') {r r' : Record} (hr : r' = r) :
    Job.Akin K { j with record := r } { j' with record := r' } := { h with record := hr }

theorem Job.Akin.withPhase (h : j.Akin K j') {p p' : Phase} (hp : Phase.Akin K p p') :
    Job.Akin K { j with phase := p } { j' with phase := p' } := { h with phase := hp }

theorem Job.Akin.leave (h : j.Akin K j') {p p' : Phase} (hp : Phase.Akin K p p') :
    (j.leave p).Akin K (j'.leave p') :=
  { h with record := congrArg Record.abandon h.record, phase := hp }

theorem Job.Akin.vanish (h : j.Akin K j') : j.vanish.Akin K j'.vanish := by
  unfold Job.vanish
  rw [h.phase.alive]
  split
  · exact h.leave .vanished
  · exact h

theorem Job.Akin.deadline? (h : j.Akin K j') : j'.deadline? = j.deadline? := by
  obtain ⟨-, -, -, -, -, -, -, -, hphase⟩ := h
  unfold Job.deadline?
  generalize j.phase = p at hphase ⊢
  generalize j'.phase = p' at hphase ⊢
  cases hphase with
  | planning pause => cases pause <;> rfl
  | running instant pause => cases pause <;> rfl
  | _ => rfl

theorem Job.Akin.nextCall? (h : j.Akin K j') :
    Option.Rel K.call j.nextCall? j'.nextCall? := by
  obtain ⟨-, -, -, -, -, -, -, -, hphase⟩ := h
  unfold Job.nextCall?
  generalize j.phase = p at hphase ⊢
  generalize j'.phase = p' at hphase ⊢
  cases hphase with
  | planning pause hrest => exact K.course_call? hrest
  | running instant pause hrest => exact K.body_call? hrest
  | _ => exact .none

end

namespace Scheduler

variable {K : Kinship} {s t : Scheduler} {base base' : List Event} {i : JobId} {job job' : Job}

namespace Akin

theorem since (h : s.Akin K t) : s.AkinSince K s.history t.history t :=
  { h with events := ⟨[], rfl, rfl⟩ }

theorem length_jobs (h : s.Akin K t) : t.jobs.length = s.jobs.length := h.jobs.length_eq.symm

theorem find?_cases (h : s.Akin K t) (name : String) :
    s.find? name = none ∧ t.find? name = none ∨
      ∃ i job job', s.find? name = some (i, job) ∧ t.find? name = some (i, job') ∧
        job.Akin K job' := by
  unfold Scheduler.find?
  rw [h.registry]
  cases s.registry.lookup name with
  | none => exact .inl ⟨rfl, rfl⟩
  | some i =>
      rw [Option.bind_some, Option.bind_some]
      rcases forall₂_getElem? h.jobs i with ⟨hs, ht⟩ | ⟨job, job', hs, ht, hjob⟩
      · rw [hs, ht]
        exact .inl ⟨rfl, rfl⟩
      · rw [hs, ht]
        exact .inr ⟨i, job, job', rfl, rfl, hjob⟩

theorem isRegistered (h : s.Akin K t) (name : String) :
    t.isRegistered name = s.isRegistered name := by
  rw [Scheduler.isRegistered, Scheduler.isRegistered, h.registry]

theorem isActive (h : s.Akin K t) (name : String) : t.isActive name = s.isActive name := by
  unfold Scheduler.isActive
  rcases h.find?_cases name with ⟨hs, ht⟩ | ⟨i, job, job', hs, ht, hjob⟩
  · rw [hs, ht]
  · rw [hs, ht, Option.map_some, Option.map_some, hjob.record]

theorem names (h : s.Akin K t) : t.names = s.names := by
  rw [Scheduler.names, Scheduler.names, h.registry]

theorem describe (h : s.Akin K t) : t.describe = s.describe := by
  delta Scheduler.describe
  rw [h.registry]

theorem count (h : s.Akin K t) (counter : String) : t.count counter = s.count counter := by
  rw [Scheduler.count, Scheduler.count, h.counters]

theorem vet_cases (h : s.Akin K t) (o : JobOrder) (planned : Bool) {work work' : Option Work}
    (hwork : Option.Rel K.work work work') :
    (∃ e, s.vet o planned work = .error e ∧ t.vet o planned work' = .error e) ∨
      ∃ w w', s.vet o planned work = .ok w ∧ t.vet o planned work' = .ok w' ∧
        K.work w w' := by
  unfold Scheduler.vet
  rw [h.isRegistered]
  split
  · exact .inl ⟨_, rfl, rfl⟩
  · split
    · exact .inl ⟨_, rfl, rfl⟩
    · cases hwork with
      | none => exact .inl ⟨_, rfl, rfl⟩
      | some hw =>
          dsimp only
          split
          · exact .inl ⟨_, rfl, rfl⟩
          · exact .inr ⟨_, _, rfl, rfl, hw⟩

theorem newJob (h : s.Akin K t) (o : JobOrder) (periodic : Bool) {work work' : Work}
    {plan plan' : Plan Action} {phase phase' : Phase} (hwork : K.work work work')
    (hplan : K.plan plan plan') (hphase : Phase.Akin K phase phase') :
    (s.newJob o periodic work plan phase).Akin K (t.newJob o periodic work' plan' phase') := by
  have hnew : Job.Akin K
      { record := { name := o.name, cls := o.cls, periodic := periodic }
        tag := o.tag, token := s.tokens.named o.parent, counter := o.counter, work := work
        plan := plan, phase := phase }
      { record := { name := o.name, cls := o.cls, periodic := periodic }
        tag := o.tag, token := t.tokens.named o.parent, counter := o.counter, work := work'
        plan := plan', phase := phase' } :=
    ⟨rfl, rfl, by rw [h.tokens], rfl, hwork, hplan, rfl, rfl, hphase⟩
  unfold Scheduler.newJob
  dsimp only
  split
  · exact hnew.vanish
  · exact hnew

theorem log (h : s.Akin K t) (a : Option JobId) (e e' : LogEntry) :
    (s.log a e).Akin K (t.log a e') := by
  unfold Scheduler.log
  rw [h.logging]
  split
  · exact { h with }
  · exact h

end Akin

namespace AkinSince

theorem emit (h : s.AkinSince K base base' t) (a : Option JobId) (what : Happening) :
    (s.emit a what).AkinSince K base base' (t.emit a what) := by
  obtain ⟨events, hs, ht⟩ := h.events
  refine { h with events := ⟨⟨s.now, a, what⟩ :: events, ?_, ?_⟩ }
  · rw [Scheduler.emit, hs, List.cons_append]
  · rw [Scheduler.emit, ht, h.now, List.cons_append]

theorem log (h : s.AkinSince K base base' t) (a : Option JobId) (entry : LogEntry) :
    (s.log a entry).AkinSince K base base' (t.log a entry) := by
  unfold Scheduler.log
  rw [h.logging]
  split
  · exact h.emit a _
  · exact h

theorem report (h : s.AkinSince K base base' t) (a : Option JobId) (i : JobId) (cls : String)
    (r : Report) : (s.report a i cls r).AkinSince K base base' (t.report a i cls r) := by
  unfold Scheduler.report
  rw [h.monitor]
  split
  · exact h.emit a _
  · exact { h with monitor := rfl }

theorem updateJob (h : s.AkinSince K base base' t) (i : JobId) {f f' : Job → Job}
    (hf : ∀ {j j' : Job}, j.Akin K j' → (f j).Akin K (f' j')) :
    (s.updateJob i f).AkinSince K base base' (t.updateJob i f') :=
  { h with jobs := forall₂_modify h.jobs i hf }

theorem updateRecord (h : s.AkinSince K base base' t) (i : JobId) (f : Record → Record) :
    (s.updateRecord i f).AkinSince K base base' (t.updateRecord i f) :=
  h.updateJob i fun hj => hj.withRecord (congrArg f hj.record)

theorem setPhase (h : s.AkinSince K base base' t) (i : JobId) {p p' : Phase}
    (hp : Phase.Akin K p p') : (s.setPhase i p).AkinSince K base base' (t.setPhase i p') :=
  h.updateJob i fun hj => hj.withPhase hp

theorem unregister (h : s.AkinSince K base base' t) (name : String) :
    (s.unregister name).AkinSince K base base' (t.unregister name) :=
  { h with registry := by simp only [Scheduler.unregister, h.registry] }

theorem setCount (h : s.AkinSince K base base' t) (counter : String) (n : Nat) :
    (s.setCount counter n).AkinSince K base base' (t.setCount counter n) :=
  { h with counters := by simp only [Scheduler.setCount, h.counters] }

theorem remove (h : s.AkinSince K base base' t) (a : Option JobId) (i : JobId) (name : String) :
    (s.remove a i name).AkinSince K base base' (t.remove a i name) := by
  unfold Scheduler.remove
  rw [h.registry]
  split
  · exact (h.unregister name).log a _
  · exact h

theorem enrol (h : s.AkinSince K base base' t) (a : Option JobId) (hjob : job.Akin K job') :
    (s.enrol a job).AkinSince K base base' (t.enrol a job') := by
  have hadd : AkinSince K
      { s with
        registry := s.registry ++ [(job.record.name, s.jobs.length)]
        jobs := s.jobs ++ [job] }
      base base'
      { t with
        registry := t.registry ++ [(job'.record.name, t.jobs.length)]
        jobs := t.jobs ++ [job'] } :=
    { h with
      registry := by rw [h.registry, h.length_jobs, hjob.record]
      jobs := List.rel_append h.jobs (.cons hjob .nil) }
  unfold Scheduler.enrol
  dsimp only
  rw [h.length_jobs] at hadd ⊢
  rw [hjob.record] at hadd ⊢
  exact (hadd.report a _ _ _).log a _

theorem schedule (h : s.AkinSince K base base' t) (a : Option JobId) (o : JobOrder)
    {work work' : Option Work} (runtime : Moment)
    (hwork : Option.Rel K.work work work') :
    (s.schedule a o work runtime).1.AkinSince K base base' (t.schedule a o work' runtime).1 ∧
      (t.schedule a o work' runtime).2 = (s.schedule a o work runtime).2 := by
  unfold Scheduler.schedule
  rw [h.now, h.length_jobs]
  rcases h.vet_cases o true hwork with ⟨e, hs, ht⟩ | ⟨w, w', hs, ht, hw⟩
  · rw [hs, ht]
    exact ⟨h, rfl⟩
  · rw [hs, ht]
    have hjob := h.newJob o false hw (K.plan_refl .empty) (.spawned (runtime.resolve s.now))
    exact ⟨((h.enrol a hjob).log a _).log _ _, rfl⟩

theorem schedulePeriodic (h : s.AkinSince K base base' t) (a : Option JobId) (o : JobOrder)
    {work work' : Option Work} {plan plan' : Option (Plan Action)}
    (hwork : Option.Rel K.work work work')
    (hplan : Option.Rel K.plan plan plan') :
    (s.schedulePeriodic a o work plan).1.AkinSince K base base'
        (t.schedulePeriodic a o work' plan').1 ∧
      (t.schedulePeriodic a o work' plan').2 = (s.schedulePeriodic a o work plan).2 := by
  have hplanned : plan'.isSome = plan.isSome := by cases hplan <;> rfl
  have hgiven : K.plan (plan.getD .empty) (plan'.getD .empty) := by
    cases hplan with
    | none => exact K.plan_refl _
    | some hp => exact hp
  unfold Scheduler.schedulePeriodic
  rw [hplanned, h.length_jobs]
  rcases h.vet_cases o plan.isSome hwork with ⟨e, hs, ht⟩ | ⟨w, w', hs, ht, hw⟩
  · rw [hs, ht]
    exact ⟨h, rfl⟩
  · rw [hs, ht]
    exact ⟨(h.enrol a (h.newJob o true hw hgiven .looping)).log _ _, rfl⟩

theorem run (h : s.AkinSince K base base' t) (a : Option JobId) (name : String) :
    (s.run a name).1.AkinSince K base base' (t.run a name).1 ∧
      (t.run a name).2 = (s.run a name).2 := by
  unfold Scheduler.run
  rcases h.find?_cases name with ⟨hs, ht⟩ | ⟨i, job, job', hs, ht, hjob⟩
  · rw [hs, ht]
    exact ⟨h, rfl⟩
  · rw [hs, ht]
    dsimp only
    rw [hjob.record]
    have hleft : (if job.record.periodic then s else s.unregister name).AkinSince K base base'
        (if job.record.periodic then t else t.unregister name) := by
      split
      · exact h
      · exact h.unregister name
    split
    · exact ⟨(hleft.updateRecord i _).log a _, rfl⟩
    · rename_i r _ _
      exact ⟨hleft.updateRecord i fun _ => r, rfl⟩

theorem runIfExists (h : s.AkinSince K base base' t) (a : Option JobId) (name : String) :
    (s.runIfExists a name).AkinSince K base base' (t.runIfExists a name) := by
  obtain ⟨hrun, hanswer⟩ := h.run a name
  unfold Scheduler.runIfExists
  rcases hs : s.run a name with ⟨s', _ | _⟩ <;> rcases ht : t.run a name with ⟨t', _ | _⟩ <;>
    rw [hs, ht] at hrun hanswer <;> cases hanswer
  · exact hrun.log a _
  · exact hrun

theorem cancel (h : s.AkinSince K base base' t) (a : Option JobId) (name : String) :
    (s.cancel a name).1.AkinSince K base base' (t.cancel a name).1 ∧
      (t.cancel a name).2 = (s.cancel a name).2 := by
  unfold Scheduler.cancel
  rcases h.find?_cases name with ⟨hs, ht⟩ | ⟨i, job, job', hs, ht, hjob⟩
  · rw [hs, ht]
    exact ⟨h, rfl⟩
  · rw [hs, ht]
    dsimp only
    rw [hjob.record]
    split <;> exact ⟨((h.unregister name).updateRecord i _).log a _, rfl⟩

theorem cancelAll (h : s.AkinSince K base base' t) (a : Option JobId) (stem : String) :
    (s.cancelAll a stem).AkinSince K base base' (t.cancelAll a stem) := by
  unfold Scheduler.cancelAll matching
  rw [h.registry]
  generalize (s.registry.map (·.1)).filter _ = names
  induction names generalizing s t with
  | nil => exact h
  | cons name rest ih => exact ih (h.cancel a name).1

theorem newToken (h : s.AkinSince K base base' t) (name : String) (above : Option String) :
    (s.newToken name above).AkinSince K base base' (t.newToken name above) :=
  { h with tokens := by simp only [Scheduler.newToken, h.tokens] }

theorem cancelToken (h : s.AkinSince K base base' t) (name : String) :
    (s.cancelToken name).AkinSince K base base' (t.cancelToken name) :=
  { h with tokens := by simp only [Scheduler.cancelToken, h.tokens] }

theorem call (h : s.AkinSince K base base' t) (a : Option JobId) {c c' : Call}
    (hc : K.call c c') :
    (s.call a c).1.AkinSince K base base' (t.call a c').1 ∧ (t.call a c').2 = (s.call a c).2 := by
  cases K.called hc with
  | schedule o instant hwork => exact h.schedule a o instant hwork
  | schedulePeriodic o hwork hplan => exact h.schedulePeriodic a o hwork hplan
  | same =>
      cases c with
      | schedule o work runtime =>
          exact h.schedule a o runtime (Option.rel_refl K.work_refl work)
      | schedulePeriodic o work plan =>
          exact h.schedulePeriodic a o (Option.rel_refl K.work_refl work)
            (Option.rel_refl K.plan_refl plan)
      | run name => exact ⟨(h.run a name).1, congrArg Answer.ofResult (h.run a name).2⟩
      | runIfExists name => exact ⟨h.runIfExists a name, rfl⟩
      | cancel name => exact ⟨(h.cancel a name).1, congrArg Answer.ofResult (h.cancel a name).2⟩
      | cancelIfExists name => exact ⟨(h.cancel a name).1, rfl⟩
      | cancelAll stem => exact ⟨h.cancelAll a stem, rfl⟩
      | isRegistered name => exact ⟨h, congrArg Answer.flag (h.isRegistered name)⟩
      | isActive name => exact ⟨h, congrArg Answer.maybeFlag (h.isActive name)⟩
      | names => exact ⟨h, congrArg Answer.list h.names⟩
      | describe => exact ⟨h, congrArg Answer.text h.describe⟩
      | newToken name above => exact ⟨h.newToken name above, rfl⟩
      | cancelToken name => exact ⟨h.cancelToken name, rfl⟩

end AkinSince

end Scheduler

end JobScheduler
