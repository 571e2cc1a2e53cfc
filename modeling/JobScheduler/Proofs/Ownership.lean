import JobScheduler.Proofs.Answers
import JobScheduler.Proofs.KindAgreement.Turn

/-!
A runner touches only its own job. A step of a runner that makes no service call writes to no other
job, and takes nothing out of the registry but the entry of its own job (`Scheduler.frees_step`). So
a job that holds a name is left alone by the runners of the jobs that held the name before it, of
which any number may still execute or wait (`Run.own_job_only`).
-/

namespace JobScheduler

namespace Scheduler

/-- Whether a move is a step of the runner of job `k` that makes no service call. -/
structure OwnStep (s : Scheduler) (k : JobId) (m : Move) : Prop where
  turn : m = .turn k
  quiet : ∀ c, s.callOf? m = some c → c.isService = false

/-- Whether a move is nothing that job `i` has to expect: no step of its own runner, no service
call, and no loss of the runners. -/
structure Bystands (s : Scheduler) (i : JobId) (m : Move) : Prop where
  other : m ≠ .turn i
  kept : m ≠ .shutdown
  quiet : ∀ c, s.callOf? m = some c → c.isService = false

/-- Whether two schedulers have the same registry, except that the entry for `name` may be lost if
it is job `k`'s. -/
def Frees (k : JobId) (name : String) (s t : Scheduler) : Prop :=
  t.registry = s.registry ∨
    s.registry.lookup name = some k ∧ t.registry = (s.unregister name).registry

variable {s s' t u : Scheduler} {i k : JobId} {name n : String} {job : Job}

namespace Frees

theorem refl (s : Scheduler) : Frees k name s s := .inl rfl

theorem congr (h : Frees k name s t) (hs : s.registry = s'.registry)
    (ht : u.registry = t.registry) :
    Frees k name s' u := by
  unfold Frees unregister at *
  rw [ht, ← hs]
  exact h

theorem trans (h : Frees k name s t) (h' : Frees k name t u) : Frees k name s u := by
  rcases h with hsame | ⟨hheld, hlost⟩
  · exact h'.congr hsame rfl
  · rcases h' with hsame | ⟨hheld', -⟩
    · exact .inr ⟨hheld, hsame.trans hlost⟩
    · rw [hlost, lookup_unregister, if_pos rfl] at hheld'
      exact absurd hheld' nofun

theorem lookup (h : Frees k name s t) (hl : s.registry.lookup n = some i) (hik : i ≠ k) :
    t.registry.lookup n = some i := by
  rcases h with hsame | ⟨hheld, hlost⟩
  · rw [hsame, hl]
  · have hne : n ≠ name := by
      rintro rfl
      exact hik (Option.some_inj.mp (hl.symm.trans hheld))
    rw [hlost, lookup_unregister, if_neg hne, hl]

end Frees

theorem registry_report (s : Scheduler) (a : Option JobId) (i : JobId) (cls : String) (r : Report) :
    (s.report a i cls r).registry = s.registry := by
  unfold report
  split <;> rfl

theorem registry_stop (s : Scheduler) (k : JobId) (job : Job) :
    (s.stop k job).registry = s.registry :=
  registry_report _ _ _ _ _

theorem registry_await (s : Scheduler) (k : JobId) (instant : Int) :
    (s.await k instant).registry = s.registry := by
  unfold await
  split <;> rfl

theorem registry_start (s : Scheduler) (k : JobId) (job : Job) (instant : Int) (trigger : Trigger) :
    (s.start k job instant trigger).registry = s.registry :=
  registry_report _ _ _ _ _

theorem registry_complete (s : Scheduler) (k : JobId) (job : Job) (instant : Int) :
    (s.complete k job instant).registry = s.registry := by
  unfold complete
  dsimp only
  split <;> exact registry_log _ _ _

theorem registry_token (a : Option JobId) {c : Call} (hc : c.isService = false) :
    (s.call a c).1.registry = s.registry := by
  cases c <;> first | rfl | exact absurd hc (by simp [Call.isService])

theorem registry_act (s : Scheduler) (k : JobId) (job : Job) {action : Action}
    (hquiet : ∀ c, action = .call c → c.isService = false) :
    (s.act k job action).1.registry = s.registry := by
  cases action with
  | call c => exact registry_token (some k) (hquiet c rfl)
  | _ => rfl

theorem frees_remove (s : Scheduler) (a : Option JobId) (k : JobId) (name : String) :
    Frees k name s (s.remove a k name) := by
  unfold remove
  split
  · rename_i hheld
    exact .inr ⟨hheld, registry_log _ _ _⟩
  · exact .refl s

theorem frees_retire (s : Scheduler) (a : Option JobId) (e : LogEntry) (k : JobId) (job : Job) :
    Frees k job.record.name s ((s.log a e).retire k job) :=
  (frees_remove (s.log a e) (some k) k job.record.name).congr (registry_log s a e)
    (registry_stop _ k job)

theorem frees_planOn (s : Scheduler) (k : JobId) (job : Job) (result : Except RuntimeError Moment)
    {rest : List Action} (hquiet : ∀ c, Action.call? rest = some c → c.isService = false) :
    Frees k job.record.name s (s.planOn k job result rest) := by
  unfold planOn
  split
  · split
    · exact .inl ((registry_await _ _ _).trans (registry_log _ _ _))
    · exact s.frees_retire _ _ k job
    · exact s.frees_retire _ _ k job
  · exact s.frees_retire _ _ k job
  · exact .inl (s.registry_act k job fun c hc => hquiet c (by rw [hc]; rfl))

theorem frees_runOn (s : Scheduler) (k : JobId) (job : Job) (instant : Int)
    {rest : List Action} (hquiet : ∀ c, Action.call? rest = some c → c.isService = false) :
    Frees k job.record.name s (s.runOn k job instant rest) := by
  unfold runOn
  split
  · exact .inl (registry_complete _ _ _ _)
  · exact .inl ((registry_complete _ _ _ _).trans (registry_log _ _ _))
  · exact .inl (s.registry_act k job fun c hc => hquiet c (by rw [hc]; rfl))

theorem frees_wake (s : Scheduler) (k : JobId) (job : Job) (instant : Int) (w : Waking) :
    Frees k job.record.name s (s.wake k job instant w) := by
  cases w with
  | parent => exact s.frees_retire _ _ k job
  | cancel => exact .inl ((registry_stop _ _ _).trans (registry_log _ _ _))
  | signal => exact .inl ((registry_start _ _ _ _ _).trans (registry_log _ _ _))
  | timer =>
      simp only [wake]
      split
      · exact .inl (registry_log _ _ _)
      · rename_i r _
        have hstart : ∀ t : Scheduler,
            ((t.log (some k) (.timerTriggered instant)).start k job instant .timer).registry =
              t.registry := fun t => (registry_start _ _ _ _ _).trans (registry_log _ _ _)
        split
        · exact .inl (hstart _)
        · exact (frees_remove (s.updateRecord k fun _ => r) (some k) k job.record.name).congr rfl
            (hstart _)

/-- A step without a service call takes no entry out of the registry but the job's own. -/
theorem frees_step (h : s.step? k = some s') (hj : s.jobs[k]? = some job)
    (hquiet : ∀ c, s.callOf? (.turn k) = some c → c.isService = false) :
    Frees k job.record.name s s' := by
  rw [callOf?, hj, Option.bind_some, Job.nextCall?] at hquiet
  unfold step? at h
  rw [hj] at h
  dsimp only at h
  split at h <;> rename_i hp <;> rw [hp] at hquiet
  · cases h
    exact .inl (registry_await _ _ _)
  · cases h
    exact .refl s
  · obtain ⟨-, h⟩ := Option.ite_none_right_eq_some.mp h
    cases h
    exact s.frees_planOn k job _ hquiet
  · obtain ⟨w, -, rfl⟩ := Option.map_eq_some_iff.mp h
    exact s.frees_wake k job _ w
  · obtain ⟨-, h⟩ := Option.ite_none_right_eq_some.mp h
    cases h
    exact s.frees_runOn k job _ hquiet
  · exact absurd h (by simp)
  · exact absurd h (by simp)

theorem exists_job_of_step (h : s.step? k = some s') : ∃ job, s.jobs[k]? = some job := by
  cases hj : s.jobs[k]? with
  | none => simp [step?, hj] at h
  | some job => exact ⟨job, rfl⟩

theorem kept_of_bystands {m : Move} (hm : s.move? m = some s') (h : s.Bystands i m)
    (hl : s.registry.lookup n = some i) :
    s'.registry.lookup n = some i ∧ s'.jobs[i]? = s.jobs[i]? := by
  cases m with
  | call c =>
      cases hm
      have hc := h.quiet c rfl
      exact ⟨(registry_token none hc).symm ▸ hl, congrArg (·[i]?) (jobs_token none hc)⟩
  | turn k =>
      have hki : k ≠ i := fun hki => h.other (congrArg Move.turn hki)
      obtain ⟨job, hj⟩ := exists_job_of_step hm
      exact ⟨(frees_step hm hj h.quiet).lookup hl hki.symm, jobs_of_step hm h.quiet hki⟩
  | pass ms =>
      cases hm
      exact ⟨hl, rfl⟩
  | shutdown => exact absurd rfl h.kept

end Scheduler

namespace Run

variable {s s' : Scheduler} {past : List (Scheduler × Move)} {i k : JobId} {name : String}

theorem jobs_of_own (run : Run s past s') (hown : ∀ e ∈ past, e.1.OwnStep k e.2) (hik : i ≠ k) :
    s'.jobs[i]? = s.jobs[i]? := by
  induction run with
  | start => rfl
  | next m _ hm ih =>
      obtain ⟨⟨rfl, hquiet⟩, hbefore⟩ := List.forall_mem_cons.mp hown
      exact (Scheduler.jobs_of_step hm hquiet hik.symm).trans (ih hbefore)

theorem frees_of_own (run : Run s past s') (hown : ∀ e ∈ past, e.1.OwnStep k e.2) {job : Job}
    (hj : s.jobs[k]? = some job) : s.Frees k job.record.name s' := by
  induction run with
  | start => exact .refl s
  | @next past t t' m run hm ih =>
      obtain ⟨⟨rfl, hquiet⟩, hbefore⟩ := List.forall_mem_cons.mp hown
      obtain ⟨job', hj', hterms⟩ := run.terms hj
      have hstep := Scheduler.frees_step hm hj' hquiet
      rw [Scheduler.name_eq_of_terms hterms] at hstep
      exact (ih hbefore).trans hstep

theorem kept_of_bystands (run : Run s past s') (hothers : ∀ e ∈ past, e.1.Bystands i e.2)
    (hl : s.registry.lookup name = some i) :
    s'.registry.lookup name = some i ∧ s'.jobs[i]? = s.jobs[i]? := by
  induction run with
  | start => exact ⟨hl, rfl⟩
  | next m _ hm ih =>
      obtain ⟨hother, hbefore⟩ := List.forall_mem_cons.mp hothers
      obtain ⟨hheld, hsame⟩ := ih hbefore
      obtain ⟨hheld', hsame'⟩ := Scheduler.kept_of_bystands hm hother hheld
      exact ⟨hheld', hsame'.trans hsame⟩

/-- A runner touches only its own job, from whatever state on. While the runner of job `k` makes no
service call, every other job stays as it is, with its record and both channels, and the registry
loses nothing but the entry for the name of job `k`, and that only if job `k` holds it. So the job
that holds a name keeps it and stays as it is, however many runners of jobs that had the name before
go on meanwhile. If such a runner makes a service call, then its step does to the job that holds the
name what the call does, and nothing else. -/
theorem own_job_only (run : Run s past s') :
    (∀ k job, s.jobs[k]? = some job → (∀ e ∈ past, e.1.OwnStep k e.2) →
      (∀ i, i ≠ k → s'.jobs[i]? = s.jobs[i]?) ∧ s.Frees k job.record.name s') ∧
    (∀ name i, s.registry.lookup name = some i → (∀ e ∈ past, e.1.Bystands i e.2) →
      s'.registry.lookup name = some i ∧ s'.jobs[i]? = s.jobs[i]?) ∧
    ∀ k i t, k ≠ i → s'.step? k = some t →
      t.situation? i = (s'.made (some k) (s'.callOf? (.turn k))).situation? i := by
  refine ⟨fun k job hj hown => ⟨fun i hik => ?_, ?_⟩, fun name i hl hothers => ?_, ?_⟩
  · exact run.jobs_of_own hown hik
  · exact run.frees_of_own hown hj
  · exact run.kept_of_bystands hothers hl
  · intro k i t hki hstep
    exact (Scheduler.step_of_ne hki hstep).1

theorem held_of_superseded : ∃ before s past s', Run (.initial .recording false) before s ∧
    Run s past s' ∧ (∀ e ∈ past, e.1.OwnStep 0 e.2) ∧
    (∃ job, s'.jobs[0]? = some job ∧ job.record.name = "a" ∧ job.phase = .returned) ∧
    s'.registry.lookup "a" = some 1 ∧ s'.jobs[1]? = s.jobs[1]? := by
  have run := (begun (.initial .recording false)).next
    (.call (.schedule plainOrder (some []) (.after 1))) rfl |>.next (.turn 0) rfl |>.next
    (.call (.cancel "a")) rfl |>.next (.call (.schedule plainOrder (some []) (.after 1))) rfl
  refine ⟨_, _, _, _, run, single (.turn 0) rfl, ?own, ⟨_, rfl, rfl, rfl⟩, ?_⟩
  · exact List.forall_mem_singleton.mpr ⟨rfl, nofun⟩
  · refine (own_job_only (single (.turn 0) rfl)).2.1 "a" 1 rfl ?_
    exact List.forall_mem_singleton.mpr ⟨nofun, nofun, nofun⟩

end Run

end JobScheduler
