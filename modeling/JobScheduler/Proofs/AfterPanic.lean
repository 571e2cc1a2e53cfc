import JobScheduler.Proofs.TokenCancellation
import JobScheduler.Proofs.Ownership

/-!
What a panic in a job function leaves behind (`Run.recovers`). The runner survives it, and no name
is lost. A one-off job is at its end, and a periodic one starts over.
-/

namespace JobScheduler

/-- Whether job `i` is about to call its runtime function, and can be run by its name. -/
structure Scheduler.StartsOver (s : Scheduler) (i : JobId) (job : Job) : Prop where
  looping : job.phase = .looping
  inactive : job.record.active = false
  asks : s.step? i = some (s.ask i job)
  accepts : ∀ a name, s.registry.lookup name = some i → (s.run a name).2 = .ok ()

section

variable {s : Scheduler} {i : JobId} {job : Job} {instant : Int} {pause : Pause}
  {payload : Payload} {rest : List Action}

theorem Scheduler.step?_of_looping (hj : s.jobs[i]? = some job) (hp : job.phase = .looping) :
    s.step? i = some (s.ask i job) := by
  unfold step?
  rw [hj]
  dsimp only
  rw [hp]

theorem Scheduler.step?_of_panic (hj : s.jobs[i]? = some job)
    (hp : job.phase = .running instant pause (.panic payload :: rest))
    (hover : s.isOver job pause = true) :
    s.step? i = some ((s.log (some i) (.jobPanicked payload)).complete i job instant) := by
  unfold step?
  rw [hj]
  dsimp only
  rw [hp]
  exact if_pos hover

end

namespace Run

variable {monitor : Monitor} {logging : Bool} {past past' : List (Scheduler × Move)}
  {s t : Scheduler} {i : JobId} {job : Job} {instant : Int} {pause : Pause} {payload : Payload}
  {rest : List Action}

theorem retires (run : Run (.initial monitor logging) past s) (hj : s.jobs[i]? = some job)
    (hp : job.phase = .returned) (after : Run s past' t) : t.Retired i := by
  obtain ⟨job', hj', hphase, -⟩ := run.gone hj (by rw [hp]; rfl) after
  exact (run.trans after).retired_of_returned hj' (hphase.trans hp)

theorem run_of_idle (run : Run (.initial monitor logging) past s) (hj : s.jobs[i]? = some job)
    (halive : job.phase.alive = true) (hidle : job.record.active = false) (a : Option JobId)
    {name : String} (hl : s.registry.lookup name = some i) : (s.run a name).2 = .ok () := by
  have hfind : s.find? name = some (i, job) := by simp [Scheduler.find?, hl, hj]
  obtain ⟨hv, hr, -⟩ := Scheduler.situation?_of_find? run.named hfind
  rcases (run.sound hv).triggerRun_cases hr with ⟨hactive, -⟩ | ⟨-, -, htrigger⟩ | ⟨-, hgone, -⟩
  · exact absurd (hidle.symm.trans hactive) Bool.false_ne_true
  · rw [Scheduler.run_of_ok a hfind htrigger]
  · exact absurd (hgone.symm.trans halive) Bool.false_ne_true

/-- A panic ends an execution, and no more. The registry is as before. A one-off job is finalised
and inactive, whatever follows, and a periodic one goes back to its runtime function. -/
theorem recovers (run : Run (.initial monitor logging) past s) (hj : s.jobs[i]? = some job)
    (hp : job.phase = .running instant pause (.panic payload :: rest))
    (hover : s.isOver job pause = true) :
    ∃ s' job', s.step? i = some s' ∧ s'.jobs[i]? = some job' ∧ s'.registry = s.registry ∧
      (job.record.periodic = false → ∀ past' t, Run s' past' t → t.Retired i) ∧
      (job.record.periodic = true → s'.StartsOver i job') := by
  have hstep := Scheduler.step?_of_panic hj hp hover
  have hlogged : (s.log (some i) (.jobPanicked payload)).situation? i = some (s.situate i job) := by
    rw [Scheduler.situation?_log, Scheduler.situation?_of_getElem? hj]
  have hafter := Scheduler.situation?_complete hlogged instant
  have hregistry : ((s.log (some i) (.jobPanicked payload)).complete i job instant).registry =
      s.registry :=
    (Scheduler.registry_complete _ _ _ _).trans (Scheduler.registry_log _ _ _)
  have run' := run.next (.turn i) hstep
  unfold Situation.complete at hafter
  cases hper : (s.situate i job).job.record.periodic with
  | false =>
      rw [if_neg (by simp [hper])] at hafter
      have hj' := (Scheduler.situation?_eq_some.mp hafter).1
      refine ⟨_, _, hstep, hj', hregistry, ?_, fun h => absurd (hper.symm.trans h) nofun⟩
      intro _ past' t after
      exact run'.retires hj' rfl after
  | true =>
      rw [if_pos hper] at hafter
      have hj' := (Scheduler.situation?_eq_some.mp hafter).1
      refine ⟨_, _, hstep, hj', hregistry, fun h => absurd (hper.symm.trans h) nofun, ?_⟩
      intro _
      have hask := Scheduler.step?_of_looping hj' rfl
      exact ⟨rfl, rfl, hask, fun a name hl => run'.run_of_idle hj' rfl rfl a hl⟩

end Run

end JobScheduler
