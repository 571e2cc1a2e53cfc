import JobScheduler.Proofs.Executions
import JobScheduler.Proofs.Performance

/-!
Where jobs and calls come from. Every job of a run was ordered by a call of the run (`Run.ordered`),
and its runner makes no calls but those among the actions that it was ordered with. So every call of
a performance is one that the script makes, as a step or in what a function does
(`Performance.makes`).
-/

namespace JobScheduler

/-- The order of a call that schedules a job. -/
def Call.order? : Call → Option JobOrder
  | .schedule order _ _ | .schedulePeriodic order _ _ => some order
  | _ => none

/-- What the calls of a runtime function do before they return. -/
def Plan.acts (p : Plan Action) : List Action := p.entries.flatMap (·.actions)

/-- What the functions of the job do that a call schedules. -/
def Call.acts : Call → List Action
  | .schedule _ work _ => (work.getD []).flatten
  | .schedulePeriodic _ work plan => (work.getD []).flatten ++ (plan.getD .empty).acts
  | _ => []

/-- What the functions of a job do. -/
def Job.acts (j : Job) : List Action := j.work.flatten ++ j.plan.acts

/-- What is left to do in the function that the runner is in. -/
def Phase.rest : Phase → List Action
  | planning _ rest _ | running _ _ rest => rest
  | _ => []

/-- Whether a job is as a call ordered it. -/
structure Job.OrderedBy (j : Job) (c : Call) : Prop where
  order : ∃ o, c.order? = some o ∧ j.record.name = o.name ∧ j.counter = o.counter
  acts : j.acts = c.acts

/-- Whether the calls that are left to make are among those of the job's functions. -/
def Job.Keeps (j : Job) : Prop := ∀ c, .call c ∈ j.phase.rest → .call c ∈ j.acts

/-- A call that a script makes: as a step, or in a function of a job that it schedules. -/
inductive Makes (steps : List Step) : Call → Prop where
  | step {c : Call} : .call c ∈ steps → Makes steps c
  | inner {c c' : Call} : Makes steps c → .call c' ∈ c.acts → Makes steps c'

theorem Makes.mem {steps : List Step} {c : Call} (h : Makes steps c)
    (hquiet : ∀ c, .call c ∈ steps → ∀ c', .call c' ∉ c.acts) : .call c ∈ steps := by
  induction h with
  | step hmem => exact hmem
  | inner _ hacts ih => exact absurd hacts (hquiet _ ih _)

theorem Job.OrderedBy.of_terms {j j' : Job} {c : Call} (h : j.OrderedBy c)
    (ht : j'.terms = j.terms) : j'.OrderedBy c := by
  have hname : j'.record.name = j.record.name := Scheduler.name_eq_of_terms ht
  have hcounter : j'.counter = j.counter := congrArg (fun t => t.2.2.2.1) ht
  have hwork : j'.work = j.work := congrArg (fun t => t.2.2.2.2.1) ht
  have hplan : j'.plan = j.plan := congrArg (fun t => t.2.2.2.2.2) ht
  obtain ⟨⟨o, ho, hn, hc⟩, hacts⟩ := h
  refine ⟨⟨o, ho, hname.trans hn, hcounter.trans hc⟩, ?_⟩
  rw [← hacts, Job.acts, Job.acts, hwork, hplan]

theorem Call.acts_eq_nil {c : Call} (h : c.order? = none) : c.acts = [] := by
  cases c <;> first | rfl | exact absurd h nofun

theorem Action.call_mem_opened {c : Call} {actions : List Action}
    (h : .call c ∈ Action.opened actions) : .call c ∈ actions := by
  unfold Action.opened at h
  split at h
  · rcases List.mem_cons.mp h with heq | hmem
    · exact absurd heq (by simp)
    · exact List.mem_cons_of_mem _ hmem
  · exact h

theorem Plan.mem_acts {p : Plan Action} {k : Nat} {a : Action} (h : a ∈ (p.entry k).actions) :
    a ∈ p.acts := by
  unfold Plan.entry at h
  split at h
  · rename_i e he
    exact List.mem_flatMap.mpr ⟨e, List.mem_of_getElem? he, h⟩
  · split at h <;> exact absurd h (by simp)

theorem Work.mem_flatten {w : Work} {k : Nat} {a : Action} (h : a ∈ w.body k) : a ∈ w.flatten := by
  unfold Work.body at h
  split at h
  · rename_i b hb
    exact List.mem_flatten.mpr ⟨b, List.mem_of_getElem? hb, h⟩
  · cases hlast : w.getLast? with
    | none => exact absurd h (by simp [hlast])
    | some b =>
        rw [hlast] at h
        exact List.mem_flatten.mpr ⟨b, List.mem_of_getLast? hlast, h⟩

theorem Job.acts_of_terms {j j' : Job} (h : j'.terms = j.terms) : j'.acts = j.acts := by
  have hwork : j'.work = j.work := congrArg (fun t => t.2.2.2.2.1) h
  have hplan : j'.plan = j.plan := congrArg (fun t => t.2.2.2.2.2) h
  rw [Job.acts, Job.acts, hwork, hplan]

theorem Job.Keeps.of_rest {j j' : Job} (h : j.Keeps) (ht : j'.terms = j.terms)
    (hrest : ∀ c, .call c ∈ j'.phase.rest → .call c ∈ j.phase.rest) : j'.Keeps := by
  intro c hc
  rw [Job.acts_of_terms ht]
  exact h c (hrest c hc)

theorem Job.keeps_of_idle {j : Job} (h : j.phase.rest = []) : j.Keeps := by
  intro c hc
  rw [h] at hc
  exact absurd hc (by simp)

theorem Job.rest_vanish {j : Job} {c : Call} (h : .call c ∈ j.vanish.phase.rest) :
    .call c ∈ j.phase.rest := by
  unfold Job.vanish at h
  split at h
  · exact absurd h (by simp [Job.leave, Phase.rest])
  · exact h

theorem Situation.keeps_await {v : Situation} (h : v.job.Keeps) (instant : Int) :
    (v.await instant).job.Keeps := by
  unfold Situation.await
  split
  · exact Job.keeps_of_idle rfl
  · exact h.of_rest (Job.terms_vanish _) fun _ => Job.rest_vanish

theorem Turn.keeps {v v' : Situation} {ms : List Mark} (h : Turn v ms v') (hv : v.job.Keeps) :
    v'.job.Keeps := by
  have hterms := h.terms_eq
  cases h with
  | begin => exact v.keeps_await hv _
  | ask =>
      intro c hc
      exact List.mem_append_right _ (Plan.mem_acts (Action.call_mem_opened hc))
  | plan hp =>
      refine hv.of_rest hterms fun c hc => ?_
      rw [hp]
      exact List.mem_cons_of_mem _ hc
  | arrange => exact v.keeps_await hv _
  | signalled =>
      intro c hc
      exact List.mem_append_left _ (Work.mem_flatten (Action.call_mem_opened hc))
  | skipped =>
      refine Job.keeps_of_idle ?_
      show Phase.rest (if v.job.record.periodic then .looping else .waiting _ .none) = []
      split <;> rfl
  | timed =>
      intro c hc
      exact List.mem_append_left _ (Work.mem_flatten (Action.call_mem_opened hc))
  | act hp =>
      refine hv.of_rest hterms fun c hc => ?_
      rw [hp]
      exact List.mem_cons_of_mem _ hc
  | complete =>
      refine Job.keeps_of_idle ?_
      unfold Situation.complete
      split <;> rfl
  | _ => exact Job.keeps_of_idle rfl

theorem Change.keeps {i : JobId} {m : Move} {v v' : Situation} {ms : List Mark}
    (h : Change i m v ms v') (hv : v.job.Keeps) : v'.job.Keeps := by
  cases h with
  | touch _ ht => exact hv.of_rest ht.terms_eq fun c hc => ht.phase_eq ▸ hc
  | turn ht => exact ht.keeps hv
  | pass => exact hv
  | vanish => exact hv.of_rest (Job.terms_vanish _) fun _ => Job.rest_vanish

theorem Situation.Born.keeps {v : Situation} (h : v.Born) : v.job.Keeps := by
  cases h with
  | inside _ hj =>
      rcases hj.phase with ⟨⟨instant, hp⟩, -⟩ | ⟨hp, -⟩ <;>
        exact Job.keeps_of_idle (by rw [hp]; rfl)
  | outside _ _ hjob =>
      rw [hjob]
      exact Job.keeps_of_idle rfl

namespace Scheduler

variable {s s' : Scheduler} {i : JobId} {job : Job}

theorem terms_newJob (s : Scheduler) (o : JobOrder) (periodic : Bool) (work : Work)
    (plan : Plan Action) (phase : Phase) :
    (s.newJob o periodic work plan phase).terms =
      ((o.name, o.cls, periodic), o.tag, s.tokens.named o.parent, o.counter, work, plan) := by
  unfold newJob
  dsimp only
  split
  · exact Job.terms_vanish _
  · rfl

theorem eq_of_appended {jobs : List Job} {job' : Job} (h : (jobs ++ [job'])[i]? = some job)
    (hn : jobs[i]? = none) : job = job' := by
  rw [getElem?_added, hn] at h
  split at h
  · exact (Option.some_inj.mp h).symm
  · exact absurd h (by simp)

theorem orderedBy_of_newJob {o : JobOrder} {periodic : Bool} {work : Work} {plan : Plan Action}
    {phase : Phase} {c : Call} (ho : c.order? = some o)
    (hacts : c.acts = work.flatten ++ plan.acts) :
    (s.newJob o periodic work plan phase).OrderedBy c := by
  have ht := s.terms_newJob o periodic work plan phase
  refine ⟨⟨o, ho, congrArg (fun t => t.1.1) ht, congrArg (fun t => t.2.2.2.1) ht⟩, ?_⟩
  have hwork : (s.newJob o periodic work plan phase).work = work :=
    congrArg (fun t => t.2.2.2.2.1) ht
  have hplan : (s.newJob o periodic work plan phase).plan = plan :=
    congrArg (fun t => t.2.2.2.2.2) ht
  rw [hacts, Job.acts, hwork, hplan]

theorem work_of_vet {o : JobOrder} {planned : Bool} {work : Option Work} {w : Work}
    (h : s.vet o planned work = .ok w) : work = some w := by
  unfold vet at h
  split at h
  · exact absurd h (by simp)
  · split at h
    · exact absurd h (by simp)
    · split at h
      · exact absurd h (by simp)
      · split at h
        · exact absurd h (by simp)
        · cases h
          rfl

theorem orderedBy_of_call (a : Option JobId) {c : Call} (hn : s.jobs[i]? = none)
    (hj : (s.call a c).1.jobs[i]? = some job) : job.OrderedBy c := by
  have hnone : s.situation? i = none := Option.map_eq_none_iff.mpr hn
  have hsome := situation?_of_getElem? hj
  cases c with
  | schedule o work runtime =>
      simp only [call, schedule] at hj
      split at hj
      · exact absurd (hn.symm.trans hj) (by simp)
      · rename_i w hw
        obtain rfl := work_of_vet hw
        simp only [launch, jobs_log, jobs_enrol] at hj
        obtain rfl := eq_of_appended hj hn
        exact orderedBy_of_newJob rfl (by simp [Call.acts, Plan.acts, Plan.empty])
  | schedulePeriodic o work plan =>
      simp only [call, schedulePeriodic] at hj
      split at hj
      · exact absurd (hn.symm.trans hj) (by simp)
      · rename_i w hw
        obtain rfl := work_of_vet hw
        simp only [launch, jobs_log, jobs_enrol] at hj
        obtain rfl := eq_of_appended hj hn
        exact orderedBy_of_newJob rfl rfl
  | run name => exact absurd ((situation?_run_of_none hnone a name).symm.trans hsome) (by simp)
  | runIfExists name =>
      have hsame := (runIfExists_eq (s := s) a name i).1.trans (situation?_run_of_none hnone a name)
      exact absurd (hsame.symm.trans hsome) (by simp)
  | cancel name =>
      exact absurd ((situation?_cancel_of_none hnone a name).symm.trans hsome) (by simp)
  | cancelIfExists name =>
      exact absurd ((situation?_cancel_of_none hnone a name).symm.trans hsome) (by simp)
  | cancelAll stem =>
      exact absurd ((situation?_cancelAll_of_none hnone a stem).symm.trans hsome) (by simp)
  | newToken name above => exact absurd (hn.symm.trans hj) (by simp)
  | cancelToken name => exact absurd (hn.symm.trans hj) (by simp)
  | isRegistered name => exact absurd (hn.symm.trans hj) (by simp)
  | isActive name => exact absurd (hn.symm.trans hj) (by simp)
  | names => exact absurd (hn.symm.trans hj) (by simp)
  | describe => exact absurd (hn.symm.trans hj) (by simp)

theorem orderedBy_of_move {m : Move} (h : s.move? m = some s') (hn : s.jobs[i]? = none)
    (hj : s'.jobs[i]? = some job) : ∃ c, s.callOf? m = some c ∧ job.OrderedBy c := by
  cases m with
  | call c =>
      cases h
      exact ⟨c, rfl, orderedBy_of_call none hn hj⟩
  | turn k =>
      have hnone : s.situation? i = none := Option.map_eq_none_iff.mpr hn
      have hki : k ≠ i := by
        rintro rfl
        simp [move?, step?, hn] at h
      cases hc : s.callOf? (.turn k) with
      | none =>
          have hsame := (step_of_ne hki h).1
          rw [hc] at hsame
          exact absurd ((situation?_of_getElem? hj).symm.trans (hsame.trans hnone)) (by simp)
      | some c =>
          obtain ⟨answer, phase, rfl⟩ := step_of_call h hc
          simp only [setPhase, updateJob, emit, List.getElem?_modify, if_neg hki,
            Option.map_eq_map] at hj
          exact ⟨c, rfl, orderedBy_of_call (some k) hn (by simpa using hj)⟩
  | pass ms =>
      cases h
      exact absurd (hn.symm.trans hj) (by simp)
  | shutdown =>
      cases h
      simp only [shutdown, List.getElem?_map, hn] at hj
      exact absurd hj (by simp)

end Scheduler

namespace Run

variable {monitor : Monitor} {logging : Bool} {past : List (Scheduler × Move)} {s : Scheduler}
  {i : JobId} {job : Job}

theorem ordered (run : Run (.initial monitor logging) past s) (hj : s.jobs[i]? = some job) :
    ∃ e ∈ past, ∃ c, e.1.callOf? e.2 = some c ∧ job.OrderedBy c := by
  induction run generalizing job with
  | start => exact absurd hj (by simp [Scheduler.initial])
  | @next past s s' m run hm ih =>
      cases hjob : s.jobs[i]? with
      | none =>
          obtain ⟨c, hc, hordered⟩ := Scheduler.orderedBy_of_move hm hjob hj
          exact ⟨(s, m), by simp, c, hc, hordered⟩
      | some job₀ =>
          obtain ⟨e, he, c, hc, hordered⟩ := ih hjob
          obtain ⟨job', hj', hterms⟩ := Scheduler.terms_of_move hm hjob
          obtain rfl : job = job' := Option.some_inj.mp (hj.symm.trans hj')
          exact ⟨e, List.mem_cons_of_mem _ he, c, hc, hordered.of_terms hterms⟩

theorem keeps (run : Run (.initial monitor logging) past s) (hj : s.jobs[i]? = some job) :
    job.Keeps := by
  obtain ⟨v₀, ms, hborn, hlife, -⟩ := run.life (Scheduler.situation?_of_getElem? hj)
  have hkept : ∀ {ms v}, Life i v₀ ms v → v.job.Keeps := by
    intro ms v h
    induction h with
    | start => exact hborn.keeps
    | next _ hc ih => exact hc.keeps ih
  exact hkept hlife

theorem nextCall_mem (run : Run (.initial monitor logging) past s) (hj : s.jobs[i]? = some job)
    {c : Call} (hc : job.nextCall? = some c) : .call c ∈ job.acts := by
  refine run.keeps hj c ?_
  unfold Job.nextCall? at hc
  split at hc
  · rename_i hp
    obtain ⟨tail, rfl⟩ := Scheduler.call?_eq_some hc
    rw [hp]
    exact List.mem_cons_self
  · rename_i hp
    obtain ⟨tail, rfl⟩ := Scheduler.call?_eq_some hc
    rw [hp]
    exact List.mem_cons_self
  · exact absurd hc (by simp)

end Run

namespace Performance

variable {monitor : Monitor} {logging : Bool} {steps : List Step}
  {past : List (Scheduler × Move)} {p : Progress}

theorem rest_mem (h : Performance ⟨.initial monitor logging, none, steps⟩ past p) :
    ∀ step ∈ p.rest, step ∈ steps := by
  induction h with
  | start => exact fun _ hmem => hmem
  | call _ ih => exact fun step hmem => ih step (List.mem_cons_of_mem _ hmem)
  | stall _ ih => exact fun step hmem => ih step (List.mem_cons_of_mem _ hmem)
  | shutdown _ ih => exact fun step hmem => ih step (List.mem_cons_of_mem _ hmem)
  | settle _ ih => exact fun step hmem => ih step (List.mem_cons_of_mem _ hmem)
  | advance _ ih => exact fun step hmem => ih step (List.mem_cons_of_mem _ hmem)
  | turn _ _ ih => exact ih
  | wait _ _ _ ih => exact ih
  | finish _ _ _ ih => exact ih

/-- Every call of a performance is one that the script makes. -/
theorem makes (h : Performance ⟨.initial monitor logging, none, steps⟩ past p) :
    ∀ e ∈ past, ∀ c, e.1.callOf? e.2 = some c → Makes steps c := by
  have hcons : ∀ {past : List (Scheduler × Move)} {s m},
      (∀ c, s.callOf? m = some c → Makes steps c) →
      (∀ e ∈ past, ∀ c, e.1.callOf? e.2 = some c → Makes steps c) →
      ∀ e ∈ (s, m) :: past, ∀ c, e.1.callOf? e.2 = some c → Makes steps c := by
    intro past s m hnew hold
    exact List.forall_mem_cons.mpr ⟨hnew, hold⟩
  induction h with
  | start => exact fun e he => absurd he (by simp)
  | call h ih =>
      refine hcons ?_ ih
      rintro c ⟨⟩
      exact .step (h.rest_mem _ List.mem_cons_self)
  | stall _ ih => exact hcons nofun ih
  | shutdown _ ih => exact hcons nofun ih
  | settle _ ih => exact ih
  | advance _ ih => exact ih
  | turn h _ ih =>
      refine hcons ?_ ih
      intro c hc
      obtain ⟨job, hj, hnext⟩ := Option.bind_eq_some_iff.mp hc
      obtain ⟨e, he, c₀, hc₀, hordered⟩ := h.run.ordered hj
      refine .inner (ih e he c₀ hc₀) ?_
      rw [← hordered.acts]
      exact h.run.nextCall_mem hj hnext
  | wait _ _ _ ih => exact hcons nofun ih
  | finish _ _ _ ih => exact hcons nofun ih

theorem ordered (h : Performance ⟨.initial monitor logging, none, steps⟩ past p) {i : JobId}
    {job : Job} (hj : p.scheduler.jobs[i]? = some job) : ∃ c, Makes steps c ∧ job.OrderedBy c := by
  obtain ⟨e, he, c, hc, hordered⟩ := h.run.ordered hj
  exact ⟨c, h.makes e he c hc, hordered⟩

end Performance

end JobScheduler
