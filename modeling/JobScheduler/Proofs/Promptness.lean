import JobScheduler.Proofs.Orders

/-!
Runs in which nothing stalls: time passes only where no runner can go on, and never beyond the next
deadline. The performances of a script without stalls are such runs (`Performance.prompt`), and in
them no deadline is ever behind (`Run.punctual`).
-/

namespace JobScheduler

theorem waitUntil_sub (now instant : Int) :
    waitUntil now (instant - now) = max now (min instant (now + longestWait)) := by
  unfold waitUntil longestWait
  omega

namespace Scheduler

/-- Whether no runner can go on, nor will before `ms` milliseconds have passed. -/
structure Patient (s : Scheduler) (ms : Nat) : Prop where
  settled : s.Settled
  deadlines : ∀ (i : JobId) (job : Job) (t : Int), s.jobs[i]? = some job →
    job.deadline? = some t → s.now + ms ≤ t

/-- Whether every execution in progress waits, and not for a time that has come. -/
def Rested (s : Scheduler) : Prop :=
  ∀ (i : JobId) (job : Job) (instant : Int) (pause : Pause) (rest : List Action),
    s.jobs[i]? = some job → job.phase = .running instant pause rest →
    pause ≠ .none ∧ ∀ t, pause = .clock t → s.now < t

/-- Whether no deadline is behind. -/
def Punctual (s : Scheduler) : Prop :=
  ∀ (i : JobId) (job : Job) (t : Int), s.jobs[i]? = some job → job.deadline? = some t → s.now ≤ t

namespace Settled

variable {s : Scheduler} {i : JobId} {job : Job} {t stop : Int}

theorem not_spawned (h : s.Settled) (hj : s.jobs[i]? = some job) {instant : Int} :
    job.phase ≠ .spawned instant := by
  intro hp
  have hstep := h i
  simp [step?, hj, hp] at hstep

theorem not_over_of_running (h : s.Settled) (hj : s.jobs[i]? = some job) {instant : Int}
    {pause : Pause} {rest : List Action} (hp : job.phase = .running instant pause rest) :
    s.isOver job pause = false := by
  have hstep := h i
  simpa [step?, hj, hp] using hstep

theorem now_lt (h : s.Settled) (hj : s.jobs[i]? = some job) (ht : job.deadline? = some t) :
    s.now < t := by
  have hstep := h i
  unfold Job.deadline? at ht
  split at ht
  · rename_i hp
    subst ht
    have hwaking : s.waking? job (some t) = none := by simpa [step?, hj, hp] using hstep
    unfold waking? at hwaking
    split at hwaking
    · exact absurd hwaking (by simp)
    · split at hwaking
      · exact absurd hwaking (by simp)
      · split at hwaking
        · exact absurd hwaking (by simp)
        · simpa using hwaking
  · rename_i hp
    cases ht
    simpa [step?, hj, hp, isOver] using hstep
  · rename_i hp
    cases ht
    simpa [step?, hj, hp, isOver] using hstep
  · exact absurd ht (by simp)

theorem stop_lt (h : s.Settled) (hnone : s.nextDeadline? stop = none)
    (hj : s.jobs[i]? = some job) (ht : job.deadline? = some t) : stop < t := by
  have hlt := h.now_lt hj ht
  apply Int.not_le.mp
  intro hle
  exact nextDeadline?_eq_none_iff.mp hnone t ⟨⟨job, List.mem_of_getElem? hj, ht⟩, hlt, hle⟩

theorem patient_wait (h : s.Settled) (hnext : s.nextDeadline? stop = some t) :
    s.Patient (t - s.now).toNat := by
  obtain ⟨⟨-, hlt, hle⟩, hleast⟩ := nextDeadline?_eq_some_iff.mp hnext
  refine ⟨h, ?_⟩
  intro i job u hj hu
  have hnow := h.now_lt hj hu
  have hmem := List.mem_of_getElem? hj
  have htu : t ≤ u := by
    by_cases hstop : u ≤ stop
    · exact hleast u ⟨⟨job, hmem, hu⟩, hnow, hstop⟩
    · omega
  omega

theorem patient_finish (h : s.Settled) (hnow : s.now ≤ stop)
    (hnone : s.nextDeadline? stop = none) : s.Patient (stop - s.now).toNat := by
  refine ⟨h, ?_⟩
  intro i job u hj hu
  have hlt := h.stop_lt hnone hj hu
  omega

end Settled

theorem now_of_move {s s' : Scheduler} {m : Move} (h : s.move? m = some s') :
    (∃ ms, m = .pass ms) ∨ s'.now = s.now := by
  cases m with
  | call c =>
      cases h
      exact .inr (s.persists_call none c).now
  | turn k => exact .inr (persists_step h).now
  | pass ms => exact .inl ⟨ms, rfl⟩
  | shutdown =>
      cases h
      exact .inr rfl

end Scheduler

theorem Job.deadline?_of_planning {j : Job} {pause : Pause} {rest : List Action}
    {result : Except RuntimeError Moment} {t : Int} (hp : j.phase = .planning pause rest result) :
    j.deadline? = some t ↔ pause = .clock t := by
  unfold deadline?
  rw [hp]
  cases pause <;> simp

theorem Job.deadline?_of_running {j : Job} {instant : Int} {pause : Pause} {rest : List Action}
    {t : Int} (hp : j.phase = .running instant pause rest) :
    j.deadline? = some t ↔ pause = .clock t := by
  unfold deadline?
  rw [hp]
  cases pause <;> simp

theorem Job.deadline?_vanish {j : Job} {t : Int} (h : j.vanish.deadline? = some t) :
    j.deadline? = some t := by
  unfold vanish at h
  split at h
  · exact absurd h (by simp [leave, deadline?])
  · exact h

theorem Action.le_of_pause {action : Action} {now t : Int} (h : action.pause now = .clock t) :
    now ≤ t := by
  cases action with
  | sleep ms =>
      cases h
      exact le_waitUntil _ _
  | _ => exact absurd h (by simp [pause])

theorem Situation.deadline?_await {v : Situation} {instant t : Int}
    (h : (v.await instant).job.deadline? = some t) : v.job.deadline? = some t ∨ v.now ≤ t := by
  unfold await at h
  split at h
  · cases h
    exact .inr (le_waitUntil _ _)
  · exact .inl (Job.deadline?_vanish h)

theorem Situation.Born.phase_cases {v : Situation} (h : v.Born) :
    (∃ instant, v.job.phase = .spawned instant) ∨ v.job.phase = .looping ∨
      v.job.phase = .vanished := by
  cases h with
  | inside _ hj =>
      rcases hj.phase with ⟨hp, -⟩ | ⟨hp, -⟩
      · exact .inl hp
      · exact .inr (.inl hp)
  | outside _ _ hjob =>
      rw [hjob]
      exact .inr (.inr rfl)

theorem Turn.deadline? {v v' : Situation} {ms : List Mark} {t : Int} (h : Turn v ms v')
    (ht : v'.job.deadline? = some t) : v.job.deadline? = some t ∨ v.now ≤ t := by
  cases h with
  | begin => exact Situation.deadline?_await ht
  | plan => exact .inr (Action.le_of_pause ((Job.deadline?_of_planning rfl).mp ht))
  | arrange => exact Situation.deadline?_await ht
  | act => exact .inr (Action.le_of_pause ((Job.deadline?_of_running rfl).mp ht))
  | skipped =>
      split at ht <;> exact absurd ht nofun
  | complete =>
      unfold Situation.complete at ht
      split at ht <;> exact absurd ht nofun
  | _ => exact absurd ht nofun

namespace Run

variable {s : Scheduler} {past : List (Scheduler × Move)}

/-- Whether time passed only while no runner had a reason to go on. -/
def Prompt (past : List (Scheduler × Move)) : Prop :=
  ∀ s ms, (s, .pass ms) ∈ past → s.Patient ms

theorem Prompt.of_suffix {later earlier : List (Scheduler × Move)}
    (h : Prompt (later ++ earlier)) : Prompt earlier :=
  fun s ms hmem => h s ms (List.mem_append_right _ hmem)

theorem Prompt.tail {e : Scheduler × Move} (h : Prompt (e :: past)) : Prompt past :=
  fun s ms hmem => h s ms (List.mem_cons_of_mem _ hmem)

theorem prompt_cons {m : Move} (h : Prompt past) (hm : ∀ ms, m ≠ .pass ms) :
    Prompt ((s, m) :: past) := by
  intro t ms hmem
  rcases List.mem_cons.mp hmem with heq | hmem
  · cases heq
    exact absurd rfl (hm ms)
  · exact h t ms hmem

theorem prompt_pass {ms : Nat} (h : Prompt past) (hs : s.Patient ms) :
    Prompt ((s, .pass ms) :: past) := by
  intro t n hmem
  rcases List.mem_cons.mp hmem with heq | hmem
  · cases heq
    exact hs
  · exact h t n hmem

variable {monitor : Monitor} {logging : Bool}

theorem punctual (run : Run (.initial monitor logging) past s) (hprompt : Prompt past) :
    s.Punctual := by
  induction run with
  | start => exact fun i job t hj => absurd hj (by simp [Scheduler.initial])
  | @next past s s' m run hm ih =>
      intro i job t hj ht
      have hpunctual := ih hprompt.tail
      rcases Scheduler.now_of_move hm with ⟨n, rfl⟩ | hnow
      · cases hm
        exact (hprompt s n List.mem_cons_self).deadlines i job t hj ht
      · -- The clock has not moved: what is waited for now was waited for before, or its runner has
        -- just begun to wait for it.
        rw [hnow]
        cases Scheduler.origin_of_move run.named hm (Scheduler.situation?_of_getElem? hj) with
        | born _ hborn =>
            rcases hborn.phase_cases with ⟨_, hp⟩ | hp | hp
            all_goals
              change job.phase = _ at hp
              simp [Job.deadline?, hp] at ht
        | @changed v _ hs hchange =>
            have hv := Scheduler.now_of_situation? hs
            have hold : v.job.deadline? = some t → s.now ≤ t :=
              hpunctual i v.job t (Scheduler.situation?_eq_some.mp hs).1
            generalize hv' : s'.situate i job = v' at hchange
            have ht' : v'.job.deadline? = some t := by rw [← hv']; exact ht
            cases hchange with
            | touch _ htouch =>
                refine hold ?_
                rw [← ht', Job.deadline?, Job.deadline?, htouch.phase_eq]
            | turn hturn =>
                rcases hturn.deadline? ht' with hsame | hlate
                · exact hold hsame
                · exact hv ▸ hlate
            | pass => exact hold ht'
            | vanish => exact hold (Job.deadline?_vanish ht')

end Run

namespace Performance

variable {first p : Progress} {past : List (Scheduler × Move)} {monitor : Monitor} {logging : Bool}
  {steps : List Step}

theorem prompt (h : Performance ⟨.initial monitor logging, none, steps⟩ past p)
    (hsteps : ∀ ms, .stall ms ∉ steps) : Run.Prompt past := by
  induction h with
  | start => exact fun s ms hmem => absurd hmem (by simp)
  | call _ ih => exact Run.prompt_cons ih nofun
  | stall h _ => exact absurd (h.rest_mem _ List.mem_cons_self) (hsteps _)
  | shutdown _ ih => exact Run.prompt_cons ih nofun
  | settle _ ih => exact ih
  | advance _ ih => exact ih
  | turn _ _ ih => exact Run.prompt_cons ih nofun
  | wait _ hs ht ih => exact Run.prompt_pass ih (hs.patient_wait ht)
  | finish h hs hnone ih =>
      exact Run.prompt_pass ih (hs.patient_finish (h.now_le_until rfl rfl) hnone)

/-- After each step of a script without stalls, executions in progress have yet to wait. -/
theorem rested (h : Performance ⟨.initial monitor logging, none, steps⟩ past p)
    (hsteps : ∀ ms, .stall ms ∉ steps) (huntil : p.until? = none) : p.scheduler.Rested := by
  induction h with
  | start => exact fun i job instant pause rest hj => absurd hj (by simp [Scheduler.initial])
  | @call past s c rest h ih =>
      intro i job instant pause left hj hp
      have hv := Scheduler.situation?_of_getElem? hj
      have hnow : (s.call none c).1.now = s.now := (s.persists_call none c).now
      cases Scheduler.origin_of_move (m := .call c) h.run.named rfl hv with
      | born _ hborn =>
          rcases hborn.phase_cases with ⟨_, hq⟩ | hq | hq <;> cases hq.symm.trans hp
      | changed hs hchange =>
          cases hchange with
          | touch _ ht =>
              rw [hnow]
              exact ih rfl i _ instant pause left (Scheduler.situation?_eq_some.mp hs).1
                (ht.phase_eq.symm.trans hp)
  | stall h _ => exact absurd (h.rest_mem _ List.mem_cons_self) (hsteps _)
  | @shutdown past s rest h ih =>
      intro i job instant pause left hj hp
      rw [Scheduler.shutdown, List.getElem?_map] at hj
      obtain ⟨job₀, -, rfl⟩ := Option.map_eq_some_iff.mp hj
      have hgone := Situation.alive_vanish job₀
      rw [hp] at hgone
      cases hgone
  -- In the midst of a step of the script an execution may well have a pause that is over.
  | settle | advance | turn | wait => cases huntil
  | @finish past s stop rest h hsettled hnone ih =>
      intro i job instant pause left hj hp
      have hover := hsettled.not_over_of_running hj hp
      rw [Scheduler.now_stall (h.now_le_until rfl rfl)]
      constructor
      · rintro rfl
        cases hover
      · rintro t rfl
        exact hsettled.stop_lt hnone hj ((Job.deadline?_of_running hp).mpr rfl)

end Performance

end JobScheduler
