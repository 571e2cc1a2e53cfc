import JobScheduler.Proofs.Cancellation
import JobScheduler.Proofs.Tokens

/-!
Cancelling a token stops just the jobs below it (`Run.orphans_stop`). None of them is executed any
more, whenever it was scheduled, and the runner of each returns out of its wait; to every other
runner nothing changes (`Run.of_besides`).
-/

namespace JobScheduler

/-- Whether the runner of job `i` returned and left the job finalised, inactive and without its
name. -/
def Scheduler.Retired (s : Scheduler) (i : JobId) : Prop :=
  ∃ job, s.jobs[i]? = some job ∧ job.phase = .returned ∧ job.record.finalised = true ∧
    job.record.active = false ∧ ¬s.Holds i job

namespace Run

/-- What a run `past` that led from `s` to `t` comes to for a job below a token that is cancelled at
`s`. -/
structure Orphaned (past : List (Scheduler × Move)) (s t : Scheduler) (i : JobId) (job : Job) :
    Prop where
  /-- A job that was there winds down. -/
  old : ∀ job₀, s.jobs[i]? = some job₀ → job₀.WindsDown job
  new : s.jobs[i]? = none → job.runs = 0 ∧ job.asks ≤ 1
  entered : ∀ u, Recorded past u → u.entries i = job.runs
  /-- The runner returns out of its wait and takes no other job's name away, and the job is reported
  as cancelled once and for all. -/
  returns : ∀ instant timer, job.phase = .waiting instant timer → ∃ t',
    t.move? (.turn i) = some t' ∧
    (∀ name k, k ≠ i → (t'.registry.lookup name = some k ↔ t.registry.lookup name = some k)) ∧
    ∀ past' u, Run t' past' u → u.Retired i ∧
      ∀ w, Recorded (past' ++ (t, .turn i) :: past) w → w.reports i .cancelled = 1
  goesOn : ∀ instant pause rest, job.phase = .running instant pause rest → ∀ past' u,
    Run t past' u → (∀ e ∈ past', e.2 ≠ .shutdown) → u.GoesOn i instant pause rest (turns past' i)

variable {monitor : Monitor} {logging : Bool} {past past' : List (Scheduler × Move)}
  {s s' t t' : Scheduler} {T : Token} {i : JobId} {job : Job}

theorem isCancelled {a : Scheduler} (run : Run a past s) (h : a.tokens.isCancelled T = true) :
    s.tokens.isCancelled T = true := by
  induction run with
  | start => exact h
  | next m _ hm ih =>
      rw [Scheduler.tokens_of_move hm]
      exact Tokens.isCancelled_afterCall ih _

/-- A runner that is spared by what another token stands for goes on as it does. -/
theorem of_besides (h : s.Besides T s') (after : Run s past t)
    (hspared : ∀ e ∈ past, e.1.Spares T e.2) :
    ∃ past' t', Run s' past' t' ∧ past'.map (·.2) = past.map (·.2) ∧ t.Besides T t' := by
  induction after with
  | start => exact ⟨[], s', .start, rfl, h⟩
  | @next past t u m _ hm ih =>
      obtain ⟨past', t', after', hmoves, hbesides⟩ :=
        ih fun e he => hspared e (List.mem_cons_of_mem _ he)
      obtain ⟨u', hm', hbesides'⟩ := hbesides.move hm (hspared (t, m) List.mem_cons_self)
      refine ⟨_, u', after'.next m hm', ?_, hbesides'⟩
      rw [List.map_cons, List.map_cons, hmoves]

theorem runs_of_orphan (run : Run (.initial monitor logging) past s)
    (hT : s.tokens.isCancelled T = true) (after : Run s past' t) (hj : t.jobs[i]? = some job)
    (hbelow : job.token.below T = true) :
    (∀ job₀, s.jobs[i]? = some job₀ → job.runs = job₀.runs) ∧
      (s.jobs[i]? = none → job.runs = 0) := by
  induction after generalizing job with
  | start =>
      rw [hj]
      exact ⟨fun job₀ h => by cases h; rfl, nofun⟩
  | @next past' t t' m after hm ih =>
      have run' := run.trans after
      have hv' := Scheduler.situation?_of_getElem? hj
      cases Scheduler.origin_of_move run'.named hm hv' with
      | born ht hborn _ _ _ =>
          refine ⟨fun job₀ hj₀ => ?_, fun _ => hborn.runs_eq⟩
          obtain ⟨job₁, hj₁, -⟩ := after.terms hj₀
          rw [Scheduler.situation?_of_getElem? hj₁] at ht
          exact absurd ht (by simp)
      | @changed v ms ht hchange _ _ =>
          have htoken : job.token = v.job.token :=
            congrArg (fun t => t.2.2.1) hchange.terms_eq
          rw [htoken] at hbelow
          have hbarred : v.Barred := by
            refine .inr ((Scheduler.orphaned_of_situation? ht).trans ?_)
            exact Tokens.isCancelled_of_below (after.isCancelled hT) hbelow
          have hsame : job.runs = v.job.runs := hchange.runs_of_barred (run'.sound ht) hbarred
          rw [hsame]
          exact ih (Scheduler.situation?_eq_some.mp ht).1 hbelow

theorem returns_of_orphan (run : Run (.initial monitor logging) past s)
    (hj : s.jobs[i]? = some job) {instant : Int} {timer : Option Int}
    (hp : job.phase = .waiting instant timer)
    (hc : s.tokens.isCancelled job.token = true) :
    ∃ s', s.move? (.turn i) = some s' ∧
      (∃ job', s'.jobs[i]? = some job' ∧ job'.phase = .returned ∧ job'.runs = job.runs ∧
        job'.terms = job.terms) ∧
      ∀ name k, k ≠ i →
        (s'.registry.lookup name = some k ↔ s.registry.lookup name = some k) := by
  have hv := Scheduler.situation?_of_getElem? hj
  have hm : s.move? (.turn i) = some (s.wake i job instant .parent) := by
    simp only [Scheduler.move?, Scheduler.step?, hj, hp, Scheduler.waking?, hc, if_true,
      Option.map_some]
  refine ⟨_, hm, ?_, fun name k hk => ?_⟩
  · have hretired := (Scheduler.retire_own hv (.parentDone instant)).situation
    exact ⟨_, (Scheduler.situation?_eq_some.mp hretired).1, rfl, rfl, rfl⟩
  · -- To every other job the step is nothing.
    have hcall : s.callOf? (.turn i) = none := by
      rw [Scheduler.callOf?_turn hv, Job.nextCall?, show (s.situate i job).job.phase = _ from hp]
    have hsit : (s.wake i job instant .parent).situation? k = s.situation? k := by
      rw [(Scheduler.step_of_ne hk.symm hm).1, hcall]
      rfl
    exact Scheduler.lookup_congr run.named (Scheduler.named_of_move run.named hm) hsit name

theorem retired_of_returned (run : Run (.initial monitor logging) past s)
    (hj : s.jobs[i]? = some job) (hp : job.phase = .returned) : s.Retired i := by
  have hv := Scheduler.situation?_of_getElem? hj
  have hended := (run.sound hv).ended_of_returned hp
  refine ⟨job, hj, hp, hended.finalised, hended.active, fun hheld => ?_⟩
  exact Bool.false_ne_true (hended.registered.symm.trans ((Scheduler.registered_iff hv).mpr hheld))

theorem orphaned (run : Run (.initial monitor logging) past s)
    (hT : s.tokens.isCancelled T = true) (after : Run s past' t) (hj : t.jobs[i]? = some job)
    (hbelow : job.token.below T = true) : Orphaned (past' ++ past) s t i job := by
  have run' := run.trans after
  obtain ⟨hold, hnew⟩ := run.runs_of_orphan hT after hj hbelow
  refine
    { old := fun job₀ hj₀ => run.windsDown hj₀ after hj (hold job₀ hj₀)
      new := fun hnone => ⟨hnew hnone, ?_⟩
      entered := ?_
      returns := ?_
      goesOn := fun instant pause rest hp past'' u after' => run'.goesOn hj hp after' }
  · have hle := run'.asks_le_succ hj
    rwa [hnew hnone] at hle
  · intro u hu
    obtain ⟨logging', past₁, run₁, -, hjobs⟩ := run'.of_recorded hu
    rw [← hjobs] at hj
    exact (run₁.entries_eq (Scheduler.situation?_of_getElem? hj)).1
  · intro instant timer hp
    have hcancelled := Tokens.isCancelled_of_below (after.isCancelled hT) hbelow
    obtain ⟨t', hm, ⟨job', hj', hp', hruns', hterms'⟩, hothers⟩ :=
      run'.returns_of_orphan hj hp hcancelled
    refine ⟨t', hm, hothers, fun past'' u after' => ?_⟩
    have run'' := (run'.next _ hm).trans after'
    obtain ⟨job'', hj'', hp'', hruns'', -⟩ :=
      (run'.next _ hm).gone hj' (by rw [hp']; rfl) after'
    refine ⟨run''.retired_of_returned hj'' (hp''.trans hp'), fun w hw => ?_⟩
    obtain ⟨logging', past₁, run₁, -, hjobs⟩ := run''.of_recorded hw
    have hterms₂ := after'.terms_eq hj' hj''
    rw [← hjobs] at hj''
    refine run₁.cancelled_of_returned hj'' (hp''.trans hp') fun hone => ?_
    -- A one-off job that waited has not been executed.
    have hone' : job.record.periodic = false :=
      (Scheduler.periodic_eq_of_terms (hterms₂.trans hterms')).symm.trans hone
    rw [hruns'', hruns']
    exact run'.runs_of_idle hj hone' (by rw [hp]; rfl) (by rw [hp]; rfl)

/-- From when a token is cancelled, no job below it is executed any more, whether it was scheduled
before or after, and whatever else its runner finds: it winds down, and its runner returns as soon
as it waits, out of the registry, finalised and inactive, with one report that it was cancelled. An
execution in progress goes on to its own end. To cancel a token changes nothing but the tokens, and
runs in which only other runners take turns are the same with it and without. -/
theorem orphans_stop (run : Run (.initial monitor logging) past s) (T : Token) :
    (s.tokens.isCancelled T = true → ∀ past' t, Run s past' t → ∀ i job,
      t.jobs[i]? = some job → job.token.below T = true →
        Orphaned (past' ++ past) s t i job) ∧
    ∀ name, s.tokens.named name = T →
      (∀ a, (s.call a (.cancelToken name)).1 = s.withTokens (s.tokens.cancel T)) ∧
      (s.withTokens (s.tokens.cancel T)).tokens.isCancelled T = true ∧
      (∀ past' t, Run s past' t → (∀ e ∈ past', e.1.Spares T e.2) →
        ∃ past'' t', Run (s.withTokens (s.tokens.cancel T)) past'' t' ∧
          past''.map (·.2) = past'.map (·.2) ∧ t.Besides T t') ∧
      ∀ past' t, Run (s.withTokens (s.tokens.cancel T)) past' t →
        (∀ e ∈ past', e.1.Spares T e.2) →
        ∃ past'' t', Run s past'' t' ∧ past''.map (·.2) = past'.map (·.2) ∧ t.Besides T t' := by
  refine ⟨fun hT past' t after i job hj hbelow => run.orphaned hT after hj hbelow, ?_⟩
  rintro name rfl
  have hbesides : s.Besides (s.tokens.named name)
      (s.withTokens (s.tokens.cancel (s.tokens.named name))) :=
    ⟨rfl, .of_cancel s.tokens _⟩
  refine ⟨fun _ => rfl, ?_, fun past' t after => after.of_besides hbesides,
    fun past' t after => after.of_besides hbesides.symm⟩
  exact s.tokens.isCancelled_cancel_self _

theorem cancelled_of_orphan : ∃ past s, Run (.initial .recording false) past s ∧ s.Retired 0 ∧
    accepts past 0 = 1 ∧ s.entries 0 = 0 ∧ s.reports 0 .cancelled = 1 := by
  have run := (begun (.initial .recording false)).next
    (.call (.schedule plainOrder (some []) (.after 1))) rfl |>.next (.turn 0) rfl |>.next
    (.call (.run "a")) rfl |>.next (.call (.cancelToken "root")) rfl
  have run' := run.next (.turn 0) rfl
  have hcancelled := (run.orphans_stop Tokens.root).1 rfl _ _ (begun _) 0 _ rfl rfl
  have hafter := (run.orphans_stop Tokens.root).1 rfl _ _ (single (.turn 0) rfl) 0 _ rfl rfl
  obtain ⟨t', hm, -, hreturned⟩ := hcancelled.returns _ _ rfl
  cases hm
  obtain ⟨hretired, htold⟩ := hreturned _ _ (begun _)
  exact ⟨_, _, run', hretired, rfl, hafter.entered _ ⟨false, _, run', rfl⟩,
    htold _ ⟨false, _, run', rfl⟩⟩

end Run

end JobScheduler
