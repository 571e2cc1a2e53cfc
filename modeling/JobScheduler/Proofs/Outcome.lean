import JobScheduler.Proofs.Executions
import JobScheduler.Proofs.Observer
import JobScheduler.Proofs.Projection

/-!
How a one-off job comes out. At most one of these is ever reported of it: that it was started on a
run signal, that it was started by its timer, that it was cancelled; and exactly one once its runner
returned. Its job function is entered if and only if the report was one of the first two.
-/

namespace JobScheduler

/-- How many outcomes a one-off job has, by what its runner is at. -/
inductive Outcomes (n : Nat) (v : Situation) : Prop where
  | alive : v.job.phase.alive = true → n = (if v.job.phase.isRunning then 1 else 0) → Outcomes n v
  | returned : v.job.phase = .returned → n = 1 → Outcomes n v
  | vanished : v.job.phase = .vanished → n ≤ 1 → Outcomes n v

namespace Outcomes

variable {v : Situation} {n : Nat}

theorem le_one (h : Outcomes n v) : n ≤ 1 := by
  cases h with
  | alive _ hn =>
      rw [hn]
      split <;> omega
  | returned _ hn => omega
  | vanished _ hn => exact hn

theorem of_alive (h : Outcomes n v) (ha : v.job.phase.alive = true) :
    n = if v.job.phase.isRunning then 1 else 0 := by
  cases h with
  | alive _ hn => exact hn
  | returned hp _ => exact absurd ha (by simp [hp, Phase.alive])
  | vanished hp _ => exact absurd ha (by simp [hp, Phase.alive])

theorem of_returned (h : Outcomes n v) (hp : v.job.phase = .returned) : n = 1 := by
  cases h with
  | alive ha _ => exact absurd ha (by simp [hp, Phase.alive])
  | returned _ hn => exact hn
  | vanished hp' _ => exact absurd (hp.symm.trans hp') (by simp)

theorem of_phase_eq {v' : Situation} (h : Outcomes n v) (hp : v'.job.phase = v.job.phase) :
    Outcomes n v' := by
  cases h with
  | alive ha hn => exact .alive (by rw [hp, ha]) (by rw [hp, hn])
  | returned hv hn => exact .returned (hp.trans hv) hn
  | vanished hv hn => exact .vanished (hp.trans hv) hn

theorem vanish (h : Outcomes n v) : Outcomes n (v.update Job.vanish) := by
  cases ha : v.job.phase.alive with
  | true =>
      refine .vanished ?_ h.le_one
      rw [Situation.update_job, Job.vanish, if_pos ha]
      rfl
  | false =>
      refine h.of_phase_eq ?_
      rw [Situation.update_job, Job.vanish, if_neg (Bool.eq_false_iff.mp ha)]

theorem await (ha : v.job.phase.alive = true) (instant : Int) : Outcomes 0 (v.await instant) := by
  unfold Situation.await
  split
  · exact .alive rfl rfl
  · refine .vanished ?_ (by omega)
    rw [Situation.update_job, Job.vanish, if_pos ha]
    rfl

end Outcomes

theorem Turn.outcomes {v v' : Situation} {ms : List Mark} (h : Turn v ms v') {n : Nat}
    (hn : Outcomes n v) (hone : v.job.record.periodic = false) :
    Outcomes (ms.countP Mark.isOutcome + n) v' := by
  have halive := hn.of_alive h.alive
  have hgive : (.reported .cancelled :: v.leftover).countP Mark.isOutcome = 1 := by
    rw [List.countP_cons_of_pos rfl, v.unseen_leftover.countP rfl]
  cases h with
  | begin hp =>
      rw [halive, hp, v.unseen_awaitMarks.countP rfl]
      exact .await (by rw [hp]; rfl) _
  | ask hp =>
      rw [halive, hp]
      exact .alive rfl rfl
  | plan hp _ ht _ =>
      rw [halive, hp, ht.countP rfl]
      exact .alive rfl rfl
  | arrange hp _ =>
      rw [halive, hp, v.unseen_awaitMarks.countP rfl]
      exact .await (by rw [hp]; rfl) _
  | giveUp hp _ _ _ =>
      rw [halive, hp, hgive]
      exact .returned rfl rfl
  | orphaned hp _ =>
      rw [halive, hp, hgive]
      exact .returned rfl rfl
  | stopped hp _ _ =>
      rw [halive, hp, hgive]
      exact .returned rfl rfl
  | signalled hp _ _ _ =>
      rw [halive, hp]
      exact .alive rfl rfl
  | skipped hp _ _ =>
      rw [halive, hp, if_neg (Bool.eq_false_iff.mp hone)]
      exact .alive rfl rfl
  | timed hp _ _ _ _ _ =>
      rw [halive, hp]
      exact .alive rfl rfl
  | act hp _ ht _ =>
      rw [halive, hp, ht.countP rfl]
      exact .alive rfl rfl
  | complete hp _ _ =>
      rw [halive, hp, if_neg (Bool.eq_false_iff.mp hone), v.unseen_leftover.countP rfl,
        Situation.complete, if_neg (Bool.eq_false_iff.mp hone)]
      exact .returned rfl rfl

theorem Change.outcomes {i : JobId} {m : Move} {v v' : Situation} {ms : List Mark}
    (h : Change i m v ms v') {n : Nat} (hn : Outcomes n v) (hone : v.job.record.periodic = false) :
    Outcomes (ms.countP Mark.isOutcome + n) v' := by
  cases h with
  | touch _ ht =>
      rw [ht.countP rfl, Nat.zero_add]
      exact hn.of_phase_eq ht.phase_eq
  | turn ht => exact ht.outcomes hn hone
  | pass =>
      rw [List.countP_nil, Nat.zero_add]
      exact hn.of_phase_eq rfl
  | vanish =>
      rw [v.unseen_vanishMarks.countP rfl, Nat.zero_add]
      exact hn.vanish

theorem Situation.Born.outcomes {v : Situation} (h : v.Born) : Outcomes 0 v := by
  cases h with
  | inside _ hj =>
      rcases hj.phase with ⟨⟨instant, hp⟩, -⟩ | ⟨hp, -⟩
      · exact .alive (by rw [hp]; rfl) (by rw [hp]; rfl)
      · exact .alive (by rw [hp]; rfl) (by rw [hp]; rfl)
  | outside _ _ hjob => exact .vanished (by rw [hjob]; rfl) (by omega)

namespace Life

variable {i : JobId} {v₀ v : Situation} {ms : List Mark}

theorem outcomes (h : Life i v₀ ms v) (hborn : v₀.Born) (hone : v₀.job.record.periodic = false) :
    Outcomes (ms.countP Mark.isOutcome) v := by
  induction h with
  | start => exact hborn.outcomes
  | next hl hc ih =>
      rw [List.countP_append]
      exact hc.outcomes ih ((Scheduler.periodic_eq_of_terms hl.terms_eq).trans hone)

end Life

theorem countP_isStart (ms : List Mark) :
    ms.countP Mark.isStart =
      ms.count (.reported (.started .signal)) + ms.count (.reported (.started .timer)) := by
  induction ms with
  | nil => rfl
  | cons m ms ih =>
      rw [List.countP_cons, List.count_cons, List.count_cons, ih]
      rcases m with (_ | _ | _ | _) | _ | _ | _ | _ <;> simp [Mark.isStart] <;> omega

theorem countP_isOutcome (ms : List Mark) :
    ms.countP Mark.isOutcome = ms.countP Mark.isStart + ms.count (.reported .cancelled) := by
  induction ms with
  | nil => rfl
  | cons m ms ih =>
      rw [List.countP_cons, List.countP_cons, List.count_cons, ih]
      rcases m with (_ | _ | _) | _ | _ | _ | _ <;> simp [Mark.isOutcome, Mark.isStart] <;> omega

namespace Scheduler

/-- How often something is reported of job `i`. -/
def reports (s : Scheduler) (i : JobId) (r : Report) : Nat := (s.marks i).count (.reported r)

/-- How often the job function of job `i` was entered. -/
def entries (s : Scheduler) (i : JobId) : Nat := (s.marks i).count .entered

end Scheduler

/-- What the history tells of a one-off job. -/
structure Scheduler.OneOutcome (s : Scheduler) (i : JobId) (job : Job) : Prop where
  scheduled : s.reports i .scheduled = 1
  first : ∃ later e earlier cls, s.history = later ++ e :: earlier ∧
    e.what = .reported i .scheduled cls ∧ ∀ e' ∈ earlier, ¬e'.concerns i
  atMostOne : s.reports i (.started .signal) + s.reports i (.started .timer) +
    s.reports i .cancelled ≤ 1
  exactlyOne : job.phase = .returned →
    s.reports i (.started .signal) + s.reports i (.started .timer) + s.reports i .cancelled = 1
  entered : s.entries i = s.reports i (.started .signal) + s.reports i (.started .timer)

namespace Run

variable {monitor : Monitor} {logging : Bool} {past : List (Scheduler × Move)} {s : Scheduler}
  {i : JobId} {v : Situation}

theorem not_concerns (run : Run (.initial monitor logging) past s) (hn : s.situation? i = none) :
    ∀ e ∈ s.history, ¬e.concerns i := by
  have hmarks := (run.unborn hn).1
  have hlen := Scheduler.situation?_eq_none.mp hn
  rintro e he (hactor | ⟨r, cls, hwhat⟩)
  · exact absurd (run.actor_lt e he i hactor) (Nat.not_lt_of_le hlen)
  · have hmark : Mark.reported r ∈ s.marks i := by
      refine List.mem_filterMap.mpr ⟨e, he, ?_⟩
      rw [Event.mark?, hwhat]
      simp
    rw [hmarks] at hmark
    exact absurd hmark (by simp)

theorem scheduled_first (run : Run (.initial .recording logging) past s)
    (hv : s.situation? i = some v) :
    ∃ later e earlier cls, s.history = later ++ e :: earlier ∧
      e.what = .reported i .scheduled cls ∧ ∀ e' ∈ earlier, ¬e'.concerns i := by
  induction run generalizing v with
  | start => exact absurd hv (by simp [Scheduler.situation?, Scheduler.initial])
  | @next past s s' m run hm ih =>
      cases Scheduler.origin_of_move run.named hm hv with
      | changed hs _ _ _ =>
          obtain ⟨later, e, earlier, cls, hsplit, hwhat, hbefore⟩ := ih hs
          obtain ⟨new, hnew⟩ := Scheduler.history_of_move hm
          refine ⟨new ++ later, e, earlier, cls, ?_, hwhat, hbefore⟩
          rw [hnew, hsplit, List.append_assoc]
      | born hs _ _ _ hrec =>
          obtain ⟨-, new, a, cls, hnew⟩ := hrec run.recording
          exact ⟨new, _, s.history, cls, hnew, rfl, run.not_concerns hs⟩

theorem runs_le_one (run : Run (.initial monitor logging) past s) {job : Job}
    (hj : s.jobs[i]? = some job) (hone : job.record.periodic = false) : job.runs ≤ 1 := by
  obtain ⟨v₀, ms, hborn, hlife, -⟩ := run.life (Scheduler.situation?_of_getElem? hj)
  have hone₀ : v₀.job.record.periodic = false :=
    (Scheduler.periodic_eq_of_terms hlife.terms_eq).symm.trans hone
  have hle := (hlife.outcomes hborn hone₀).le_one
  have hruns : ms.countP Mark.isStart = job.runs := (hlife.runs hborn).1
  rw [countP_isOutcome, hruns] at hle
  omega

/-- A recording monitor shows the visible marks of a job's life, after the report that the job is
scheduled. -/
theorem shown (run : Run (.initial .recording logging) past s) (hv : s.situation? i = some v) :
    ∃ v₀ ms, v₀.Born ∧ Life i v₀ ms v ∧ s.reports i .scheduled = 1 ∧
      ∀ mark : Mark, mark.visible = true → mark ≠ .reported .scheduled →
        (s.marks i).count mark = ms.count mark := by
  obtain ⟨v₀, ms, hborn, hlife, -, -, -, hmarks⟩ := run.life hv
  refine ⟨v₀, ms, hborn, hlife, ?_, fun mark hvisible hne => ?_⟩
  · rw [Scheduler.reports, hmarks rfl, List.count_append, List.count_filter rfl,
      List.count_eq_zero.mpr hlife.not_scheduled]
    rfl
  · rw [hmarks rfl, List.count_append, List.count_filter hvisible, List.count_singleton,
      if_neg (by simpa using hne.symm), Nat.add_zero]

theorem entries_eq (run : Run (.initial .recording logging) past s)
    (hv : s.situation? i = some v) :
    s.entries i = v.job.runs ∧
      s.reports i (.started .signal) + s.reports i (.started .timer) = v.job.runs := by
  obtain ⟨v₀, ms, hborn, hlife, -, hcount⟩ := run.shown hv
  obtain ⟨hstart, hentered⟩ := hlife.runs hborn
  rw [Scheduler.entries, Scheduler.reports, Scheduler.reports, hcount _ rfl (by simp),
    hcount _ rfl (by simp), hcount _ rfl (by simp), ← countP_isStart]
  exact ⟨hentered, hstart⟩

theorem oneOutcome (run : Run (.initial .recording logging) past s) {job : Job}
    (hj : s.jobs[i]? = some job) (hone : job.record.periodic = false) : s.OneOutcome i job := by
  have hv := Scheduler.situation?_of_getElem? hj
  obtain ⟨v₀, ms, hborn, hlife, hscheduled, hcount⟩ := run.shown hv
  have hone₀ : v₀.job.record.periodic = false :=
    (Scheduler.periodic_eq_of_terms hlife.terms_eq).symm.trans hone
  have houtcomes := hlife.outcomes hborn hone₀
  rw [countP_isOutcome, countP_isStart] at houtcomes
  obtain ⟨hentries, hstarts⟩ := run.entries_eq hv
  have hreports : ∀ r : Report, r ≠ .scheduled → s.reports i r = ms.count (.reported r) :=
    fun r hr => hcount _ rfl (by simpa using hr)
  rw [← hreports _ (by simp), ← hreports _ (by simp), ← hreports _ (by simp)] at houtcomes
  exact
    { scheduled := hscheduled
      first := run.scheduled_first hv
      atMostOne := houtcomes.le_one
      exactlyOne := houtcomes.of_returned
      entered := hentries.trans hstarts.symm }

/-- Every call that schedules a one-off job makes a job that is executed at most once in the whole
run. Of it the observer is told, once and before anything else, that it is scheduled; at most once,
and exactly once if its runner returned, that it was started on a run signal, started by its timer
or cancelled. The job function was entered once if the job was started, and else never. -/
theorem one_off_outcome (run : Run (.initial monitor logging) past s) {s₁ : Scheduler} {m : Move}
    (hmem : (s₁, m) ∈ past) {o : JobOrder} {work : Option Work} {runtime : Moment}
    (hcall : s₁.callOf? m = some (.schedule o work runtime))
    (hdone : (s₁.schedule (Scheduler.actorOf m) o work runtime).2 = .done) :
    ∃ job, s.jobs[s₁.jobs.length]? = some job ∧ job.record.label = (o.name, o.cls, false) ∧
      job.runs ≤ 1 ∧ (∃ t, Recorded past t) ∧
      ∀ t, Recorded past t → t.OneOutcome s₁.jobs.length job := by
  obtain ⟨past₁, s₂, past₂, -, hm, after⟩ := run.of_mem hmem
  obtain ⟨job₂, hadded, hlabel⟩ := Scheduler.scheduled_of_done hdone
  obtain ⟨job, hj, hterms⟩ := after.terms (Scheduler.added_of_move hm hcall hadded)
  have hlabel' : job.record.label = (o.name, o.cls, false) :=
    (congrArg (fun t => t.1) hterms).trans hlabel
  have hone : job.record.periodic = false := congrArg (fun t => t.2.2) hlabel'
  refine ⟨job, hj, hlabel', run.runs_le_one hj hone, run.exists_recorded, ?_⟩
  rintro t ⟨logging', past', run', hmoves⟩
  have halike := (run.alike run' ⟨rfl, rfl, rfl, rfl, rfl⟩ hmoves).1
  rw [halike.jobs] at hj
  exact run'.oneOutcome hj hone

theorem outcome_of_returned : ∃ past s job, Run (.initial .recording false) past s ∧
    s.jobs[0]? = some job ∧ job.phase = .returned ∧ s.OneOutcome 0 job := by
  have run := (begun (.initial .recording false)).next
    (.call (.schedule plainOrder (some []) (.after 1))) rfl |>.next (.turn 0) rfl |>.next
    (.call (.run "a")) rfl |>.next (.turn 0) rfl |>.next (.turn 0) rfl
  obtain ⟨job, hj, -, -, -, houtcome⟩ :=
    run.one_off_outcome (List.mem_of_getElem? (i := 4) rfl) rfl rfl
  exact ⟨_, _, job, run, hj, by cases hj; rfl, houtcome _ ⟨false, _, run, rfl⟩⟩

end Run

end JobScheduler
