import JobScheduler.Proofs.Soundness

/-!
Which jobs the registry holds: a job whose runner lives holds its name if and only if it was not
cancelled and is periodic or not active (`Run.holds_iff_open`). The runners that are gone without
having ended are those that were dropped, and those that had to wait at a time that has no date.
-/

namespace JobScheduler

/-- Whether a job may hold its name: its runner did not return, it is not finalised, and it is
periodic or not active. -/
def Job.Open (j : Job) : Prop :=
  j.phase ≠ .returned ∧ j.record.finalised = false ∧
    (j.record.periodic = true ∨ j.record.active = false)

/-- Whether job `i` holds its name in the registry. -/
def Scheduler.Holds (s : Scheduler) (i : JobId) (job : Job) : Prop :=
  s.registry.lookup job.record.name = some i

namespace Situation

theorem Sound.open_of_registered {v : Situation} (hv : v.Sound) (hr : v.registered = true) :
    v.job.Open := by
  cases hv with
  | tended ha hv =>
      have hopen := hv.registered.symm.trans hr
      refine ⟨?_, by simpa using hopen⟩
      rintro hp
      rw [hp] at ha
      exact absurd ha (by simp [Phase.alive])
  | ended _ hv => exact absurd hr (Bool.eq_false_iff.mp hv.registered)
  | abandoned hp hv => exact ⟨by simp [hp], hv.registered hr⟩

theorem Sound.registered_of_open {v : Situation} (hv : v.Sound) (hopen : v.job.Open)
    (hp : v.job.phase ≠ .vanished) : v.registered = true := by
  obtain ⟨hreturned, hfinalised, hkind⟩ := hopen
  cases hv with
  | tended _ hv =>
      rw [hv.registered, hfinalised]
      simpa using hkind
  | ended hphase _ => exact absurd hphase hreturned
  | abandoned hphase _ => exact absurd hphase hp

end Situation

theorem Turn.await_of_vanished {v v' : Situation} {ms : List Mark} (h : Turn v ms v')
    (hp : v'.job.phase = .vanished) :
    v.job.BeginsToWait ∧ ∃ instant, v' = v.await instant := by
  cases h with
  | begin hspawned => exact ⟨.inl ⟨_, hspawned⟩, _, rfl⟩
  | arrange hplanned => exact ⟨.inr ⟨_, _, hplanned⟩, _, rfl⟩
  | complete =>
      unfold Situation.complete at hp
      split at hp
      · exact absurd hp (by simp [Situation.withPhase])
      · exact absurd hp (by simp [Situation.stop, Situation.leave, Job.leave])
  | skipped =>
      split at hp <;> exact absurd hp (by simp [Situation.withPhase])
  | _ =>
      exact absurd hp (by
        simp [Situation.ask, Situation.withPhase, Situation.retire, Situation.stop,
          Situation.leave, Situation.start, Job.leave])

theorem Turn.undated_of_vanished {v v' : Situation} {ms : List Mark} (h : Turn v ms v')
    (hp : v'.job.phase = .vanished) : v.job.BeginsToWait ∧ lastDated < v.now := by
  obtain ⟨hbegins, instant, rfl⟩ := h.await_of_vanished hp
  exact ⟨hbegins, (Situation.await_of_gone (by rw [hp]; rfl)).1⟩

/-- The moves by which the runner of job `i` is gone without having ended. -/
inductive Scheduler.Drops (s : Scheduler) (i : JobId) : Move → Prop where
  | shutdown : Drops s i .shutdown
  /-- The job is scheduled where no runner can live. -/
  | outside {m : Move} {c : Call} :
      s.jobs.length = i → s.callOf? m = some c → c.isOutside = true → Drops s i m
  /-- The runner begins to wait where now has no date. -/
  | undated {job : Job} :
      s.jobs[i]? = some job → job.BeginsToWait → lastDated < s.now → Drops s i (.turn i)

theorem Change.drops {s : Scheduler} {i : JobId} {m : Move} {v v' : Situation} {ms : List Mark}
    (h : Change i m v ms v') (hv : s.situation? i = some v) (hp : v'.job.phase = .vanished) :
    v.job.phase = .vanished ∨ s.Drops i m := by
  cases h with
  | touch _ ht => exact .inl (ht.phase_eq.symm.trans hp)
  | turn ht =>
      obtain ⟨hbegins, hlate⟩ := ht.undated_of_vanished hp
      rw [Scheduler.now_of_situation? hv] at hlate
      have hj := (Scheduler.situation?_eq_some.mp hv).1
      exact .inr (.undated hj hbegins hlate)
  | pass => exact .inl hp
  | vanish => exact .inr .shutdown

namespace Run

variable {monitor : Monitor} {logging : Bool} {past : List (Scheduler × Move)} {s : Scheduler}
  {i : JobId}

theorem now_le {a : Scheduler} (run : Run a past s) : ∀ e ∈ past, e.1.now ≤ s.now := by
  induction run with
  | start => exact fun e he => absurd he (by simp)
  | @next past s s' m _ hm ih =>
      have hnow := Scheduler.now_le_of_move hm
      intro e he
      rcases List.mem_cons.mp he with rfl | he
      · exact hnow
      · exact Int.le_trans (ih e he) hnow

/-- A runner that is gone without having ended was dropped by some move of the run. -/
theorem dropped (run : Run (.initial monitor logging) past s) {v : Situation}
    (hv : s.situation? i = some v) (hp : v.job.phase = .vanished) :
    ∃ e ∈ past, e.1.Drops i e.2 := by
  induction run generalizing v with
  | start => exact absurd hv (by simp [Scheduler.situation?, Scheduler.initial])
  | @next past s s' m run hm ih =>
      cases Scheduler.origin_of_move run.named hm hv with
      | born _ _ hin hi _ =>
          -- A job that is new has a runner, unless it was scheduled where none can live.
          refine ⟨(s, m), List.mem_cons_self, ?_⟩
          by_cases hout : ∃ c, s.callOf? m = some c ∧ c.isOutside = true
          · obtain ⟨c, hc, hout⟩ := hout
            exact .outside hi.symm hc hout
          · have halive := hin fun c hc => Bool.eq_false_iff.mpr fun h => hout ⟨c, hc, h⟩
            rw [hp] at halive
            exact absurd halive (by simp [Phase.alive])
      | changed hs hchange _ _ =>
          rcases hchange.drops hs hp with hgone | hdrops
          · obtain ⟨e, he, hdrops⟩ := ih hs hgone
            exact ⟨e, List.mem_cons_of_mem _ he, hdrops⟩
          · exact ⟨(s, m), List.mem_cons_self, hdrops⟩

theorem lastDated_lt_of_vanished (run : Run (.initial monitor logging) past s)
    (hord : ∀ e ∈ past, e.1.Ordinary e.2) {v : Situation} (hv : s.situation? i = some v)
    (hp : v.job.phase = .vanished) : lastDated < s.now := by
  obtain ⟨⟨s₁, m⟩, he, hdrops⟩ := run.dropped hv hp
  obtain ⟨hinside, hkept⟩ := hord _ he
  cases hdrops with
  | shutdown => exact absurd rfl hkept
  | outside _ hc hout => exact absurd hout (Bool.eq_false_iff.mp (hinside _ hc))
  | undated _ _ hlate => exact Int.lt_of_lt_of_le hlate (run.now_le _ he)

theorem lookup_of_turn (run : Run (.initial monitor logging) past s) {k : JobId} (hki : k ≠ i)
    {name : String} (hl : s.registry.lookup name = some i) {s' : Scheduler}
    (hm : s.move? (.turn k) = some s') (hc : s.callOf? (.turn k) = none) :
    s'.registry.lookup name = some i := by
  have hsit : s'.situation? i = s.situation? i := by
    rw [(Scheduler.step_of_ne hki hm).1, hc]
    rfl
  exact (Scheduler.lookup_congr run.named (Scheduler.named_of_move run.named hm) hsit name).mpr hl

/-- In every run that leaves the runners where they live, a job holds its name in the registry if
and only if it is open; a job that is open and does not hold its name is one whose runner is gone
because it had to wait where now had no date. No job loses its name by a step of another job's
runner whose function makes no call. -/
theorem holds_iff_open (run : Run (.initial monitor logging) past s)
    (hord : ∀ e ∈ past, e.1.Ordinary e.2) {job : Job} (hj : s.jobs[i]? = some job) :
    (s.Holds i job → job.Open) ∧
    (job.Open → s.Holds i job ∨ job.phase = .vanished ∧ lastDated < s.now) ∧
    ∀ k s', k ≠ i → s.move? (.turn k) = some s' → s.callOf? (.turn k) = none →
      s.Holds i job → s'.Holds i job := by
  have hv := Scheduler.situation?_of_getElem? hj
  have hsound := run.sound hv
  refine ⟨fun h => hsound.open_of_registered ((Scheduler.registered_iff hv).mpr h),
    fun hopen => ?_, ?_⟩
  · by_cases hp : job.phase = .vanished
    · exact .inr ⟨hp, run.lastDated_lt_of_vanished hord hv hp⟩
    · exact .inl ((Scheduler.registered_iff hv).mp (hsound.registered_of_open hopen hp))
  · intro k s' hki hm hc hheld
    exact run.lookup_of_turn hki hheld hm hc

theorem holds_of_waiting : ∃ past s job, Run (.initial .recording false) past s ∧
    (∀ e ∈ past, e.1.Ordinary e.2) ∧ s.jobs[0]? = some job ∧ job.Open ∧ s.Holds 0 job := by
  have run := (begun (.initial .recording false)).next
    (.call (.schedule plainOrder (some []) (.after 1))) rfl |>.next (.turn 0) rfl
  refine ⟨_, _, _, run, ?hord, rfl, (run.holds_iff_open ?hord rfl).1 rfl, rfl⟩
  rw [List.forall_mem_cons, List.forall_mem_cons]
  exact ⟨Scheduler.ordinary_turn rfl, Scheduler.ordinary_call _ rfl, List.forall_mem_nil _⟩

/-- A runner that begins to wait after the last millisecond that has a date is gone, and a request
to run its job takes the job out of the registry, open though it is. -/
theorem not_holds_iff_open : ∃ past s job, Run (.initial .recording false) past s ∧
    (∀ e ∈ past, e.1.Ordinary e.2) ∧ s.jobs[0]? = some job ∧ ¬(s.Holds 0 job ↔ job.Open) := by
  have run := (begun (.initial .recording false)).next
    (.call (.schedule plainOrder (some []) (.after 1))) rfl |>.next
    (.pass 8208566876800000) rfl |>.next (.turn 0) rfl |>.next (.call (.run "a")) rfl
  refine ⟨_, _, _, run, ?_, rfl, ?_⟩
  · rw [List.forall_mem_cons, List.forall_mem_cons, List.forall_mem_cons, List.forall_mem_cons]
    exact ⟨Scheduler.ordinary_call _ rfl, Scheduler.ordinary_turn rfl,
      Scheduler.ordinary_pass _ _, Scheduler.ordinary_call _ rfl, List.forall_mem_nil _⟩
  · intro h
    exact absurd (h.mpr ⟨nofun, rfl, .inr rfl⟩) nofun

end Run

end JobScheduler
