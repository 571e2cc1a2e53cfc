import Mathlib.Algebra.BigOperators.Group.Finset.Piecewise
import JobScheduler.Proofs.Rounds

/-!
The monitor's accounts. A job that was reported as scheduled was reported as cancelled, or is a
one-off job that was executed, or is open: its runner has yet to make its final report, or is gone
without one. The reports of a class add up over its jobs (`Scheduler.told_eq_sum`), and so do these
accounts (`Run.conserved`).
-/

namespace JobScheduler

namespace Event

/-- The job that an event leaves a mark of, if it leaves one. -/
def owner? (e : Event) : Option JobId :=
  match e.what with
  | .reported about _ _ => some about
  | .started _ | .asked _ => e.actor
  | _ => none

/-- The mark that an event leaves. -/
def kind? (e : Event) : Option Mark :=
  match e.what with
  | .reported _ r _ => some (.reported r)
  | .started _ => some .entered
  | .asked _ => some .asked
  | _ => none

theorem mark?_eq (i : JobId) (e : Event) :
    e.mark? i = if e.owner? = some i then e.kind? else none := by
  unfold mark? owner? kind?
  cases e.what <;> simp

/-- Whether an event is a report about a job of a class. -/
def tells (r : Report) (cls : String) (e : Event) : Bool :=
  match e.what with
  | .reported _ r' cls' => decide (r' = r ∧ cls' = cls)
  | _ => false

/-- Whether an event tells that a job function was entered. -/
def entersJob (e : Event) : Bool :=
  match e.what with
  | .started _ => true
  | _ => false

end Event

theorem count_filterMap_cons (f : Event → Option Mark) (e : Event) (l : List Event) (mark : Mark) :
    ((e :: l).filterMap f).count mark =
      (l.filterMap f).count mark + if f e = some mark then 1 else 0 := by
  rw [List.filterMap_cons]
  cases f e with
  | none => simp
  | some mark' => simp [List.count_cons]

def Phase.isVanished : Phase → Bool
  | vanished => true
  | _ => false

theorem sum_marks (l : List Event) (n : Nat) (p : JobId → Bool) (mark : Mark)
    (hlt : ∀ e ∈ l, ∀ i, e.owner? = some i → i < n) :
    (∑ i ∈ Finset.range n, if p i then (l.filterMap (Event.mark? i)).count mark else 0) =
      l.countP fun e => e.owner?.any p && decide (e.kind? = some mark) := by
  induction l with
  | nil => simp
  | cons e l ih =>
      obtain ⟨hlt₁, hrest⟩ := List.forall_mem_cons.mp hlt
      -- The event adds one to the count of its owner, and nothing to the others.
      have hone :
          (∑ i ∈ Finset.range n, if p i then (if e.mark? i = some mark then 1 else 0) else 0) =
          if (e.owner?.any p && decide (e.kind? = some mark)) = true then 1 else 0 := by
        cases ho : e.owner? with
        | none => simp [Event.mark?_eq, ho]
        | some k =>
            rw [Finset.sum_eq_single k]
            · cases hp : p k <;> simp [Event.mark?_eq, ho, hp]
            · intro i _ hik
              simp [Event.mark?_eq, ho, hik.symm]
            · intro hk
              exact absurd (Finset.mem_range.mpr (hlt₁ k ho)) hk
      rw [List.countP_cons, ← ih hrest, ← hone, ← Finset.sum_add_distrib]
      refine Finset.sum_congr rfl fun i _ => ?_
      rw [count_filterMap_cons]
      cases p i <;> rfl

namespace Scheduler

/-- How often something was reported of jobs of a class. -/
def told (s : Scheduler) (r : Report) (cls : String) : Nat := s.history.countP (Event.tells r cls)

/-- How often the job functions of certain jobs were entered. -/
def executions (s : Scheduler) (p : Job → Bool) : Nat :=
  s.history.countP fun e => e.entersJob && e.actor.any fun i => s.jobs[i]?.any p

/-- How many jobs are such. -/
def population (s : Scheduler) (p : JobId → Job → Bool) : Nat :=
  ((Finset.range s.jobs.length).filter fun i => s.jobs[i]?.any (p i)).card

/-- Whether the runner of a job made its final report: of a one-off job a start or the cancellation,
of a periodic job the cancellation. -/
def concluded (s : Scheduler) (i : JobId) (job : Job) : Bool :=
  decide (0 < s.reports i .cancelled) || !job.record.periodic &&
    decide (0 < s.reports i (.started .signal) + s.reports i (.started .timer))

theorem population_eq_sum (s : Scheduler) (p : JobId → Job → Bool) :
    s.population p = ∑ i ∈ Finset.range s.jobs.length, if s.jobs[i]?.any (p i) then 1 else 0 :=
  Finset.card_filter _ _

end Scheduler

namespace Run

variable {monitor : Monitor} {logging : Bool} {past : List (Scheduler × Move)} {s : Scheduler}
  {i : JobId} {job : Job}

theorem class_of_report (run : Run (.initial monitor logging) past s) :
    ∀ e ∈ s.history, ∀ i r cls, e.what = .reported i r cls → s.class? i = some cls := by
  induction run with
  | start => exact fun e he => absurd he (by simp [Scheduler.initial])
  | @next past s s' m _ hm ih =>
      intro e he i r cls hwhat
      obtain ⟨t, ht, hs'⟩ := Scheduler.persists_of_move hm
      have hsame : s'.history = t.history ∧ s'.class? i = t.class? i := by
        rcases hs' with rfl | ⟨now, -, rfl⟩ <;> exact ⟨rfl, rfl⟩
      obtain ⟨new, hnew, hold⟩ := ht.events
      rw [hsame.1, hnew] at he
      rw [hsame.2]
      rcases List.mem_append.mp he with he | he
      · exact (hold e he).cls i r cls hwhat
      · exact ht.class? (ih e he i r cls hwhat)

theorem owner_lt (run : Run (.initial monitor logging) past s) :
    ∀ e ∈ s.history, ∀ i, e.owner? = some i → i < s.jobs.length := by
  intro e he i ho
  unfold Event.owner? at ho
  split at ho
  · rename_i hwhat
    cases ho
    exact Scheduler.lt_of_class? (run.class_of_report e he _ _ _ hwhat)
  · exact run.actor_lt e he i ho
  · exact run.actor_lt e he i ho
  · exact absurd ho (by simp)

/-- The reports of a class are those about the jobs of that class. -/
theorem told_eq_sum (run : Run (.initial monitor logging) past s) (r : Report) (cls : String) :
    s.told r cls = ∑ i ∈ Finset.range s.jobs.length,
      if s.jobs[i]?.any (·.record.cls == cls) then s.reports i r else 0 := by
  have hsum := sum_marks s.history s.jobs.length
    (fun i => s.jobs[i]?.any (·.record.cls == cls)) (.reported r) run.owner_lt
  refine Eq.trans ?_ hsum.symm
  refine List.countP_congr fun e he => ?_
  unfold Event.tells Event.owner? Event.kind?
  cases hwhat : e.what with
  | reported about r' cls' =>
      have hclass := run.class_of_report e he about r' cls' hwhat
      obtain ⟨job, hj, rfl⟩ := Option.map_eq_some_iff.mp hclass
      simp [hj, and_comm]
  | _ => simp

theorem executions_eq_sum (run : Run (.initial monitor logging) past s) (p : Job → Bool) :
    s.executions p = ∑ i ∈ Finset.range s.jobs.length,
      if s.jobs[i]?.any p then s.entries i else 0 := by
  have hsum := sum_marks s.history s.jobs.length (fun i => s.jobs[i]?.any p) .entered run.owner_lt
  refine Eq.trans ?_ hsum.symm
  refine List.countP_congr fun e he => ?_
  unfold Event.entersJob Event.owner? Event.kind?
  cases e.what <;> simp

/-- What became of one job: it was cancelled, or executed if it is a one-off job, or its final
report is still to come, or its runner is gone without one. -/
theorem accounted (run : Run (.initial .recording logging) past s) (hj : s.jobs[i]? = some job) :
    s.reports i .scheduled = s.reports i .cancelled +
      (if !job.record.periodic then s.entries i else 0) +
      (if !job.record.periodic && job.phase.alive && !s.concluded i job then 1 else 0) +
      (if job.record.periodic && job.phase.alive then 1 else 0) +
      (if job.phase.isVanished && !s.concluded i job then 1 else 0) := by
  obtain ⟨-, -, -, -, hscheduled, -⟩ := run.shown (Scheduler.situation?_of_getElem? hj)
  have hopen := run.not_cancelled hj
  rw [hscheduled, Scheduler.concluded]
  cases hper : job.record.periodic with
  | true =>
      have hreturned := run.cancelled_of_periodic hj hper
      cases hp : job.phase with
      | returned => simp [hreturned hp, Phase.alive, Phase.isVanished]
      | vanished => simp [hopen (by rw [hp]; simp), Phase.alive, Phase.isVanished]
      | _ => simp [hopen (by rw [hp]; simp), Phase.alive, Phase.isVanished]
  | false =>
      have houtcome := run.oneOutcome hj hper
      have hle := houtcome.atMostOne
      have hreturned := houtcome.exactlyOne
      rw [houtcome.entered]
      generalize s.reports i (.started .signal) + s.reports i (.started .timer) = starts at *
      generalize s.reports i .cancelled = cancels at *
      have hnone : (!(decide (0 < cancels) || !false && decide (0 < starts))) =
          decide (starts + cancels = 0) := by
        by_cases hs : 0 < starts <;> by_cases hc : 0 < cancels <;> simp [hs, hc] <;> omega
      rw [hnone]
      cases hp : job.phase with
      | returned =>
          have hone := hreturned hp
          simp [Phase.alive, Phase.isVanished]
          omega
      | _ =>
          simp only [Phase.alive, Phase.isVanished, Bool.not_false, Bool.true_and, Bool.false_and,
            decide_eq_true_eq, if_true, Bool.false_eq_true, if_false]
          split <;> omega

theorem told_scheduled (run : Run (.initial .recording logging) past s) (cls : String) :
    s.told .scheduled cls = s.told .cancelled cls +
      s.executions (fun j => j.record.cls == cls && !j.record.periodic) +
      s.population (fun i j => j.record.cls == cls &&
        (!j.record.periodic && j.phase.alive && !s.concluded i j)) +
      s.population (fun _ j => j.record.cls == cls && (j.record.periodic && j.phase.alive)) +
      s.population (fun i j =>
        j.record.cls == cls && (j.phase.isVanished && !s.concluded i j)) := by
  rw [run.told_eq_sum, run.told_eq_sum, run.executions_eq_sum, Scheduler.population_eq_sum,
    Scheduler.population_eq_sum, Scheduler.population_eq_sum, ← Finset.sum_add_distrib,
    ← Finset.sum_add_distrib, ← Finset.sum_add_distrib, ← Finset.sum_add_distrib]
  refine Finset.sum_congr rfl fun i hi => ?_
  obtain ⟨job, hj⟩ : ∃ job, s.jobs[i]? = some job :=
    ⟨_, List.getElem?_eq_getElem (Finset.mem_range.mp hi)⟩
  rw [hj]
  simp only [Option.any_some]
  by_cases hcls : (job.record.cls == cls) = true
  · simpa only [hcls, Bool.true_and, if_true] using run.accounted hj
  · simp [Bool.eq_false_iff.mpr hcls]

theorem told_started (run : Run (.initial .recording logging) past s) (cls : String) :
    s.told (.started .signal) cls + s.told (.started .timer) cls =
      s.executions (fun j => j.record.cls == cls) := by
  rw [run.told_eq_sum, run.told_eq_sum, run.executions_eq_sum, ← Finset.sum_add_distrib]
  refine Finset.sum_congr rfl fun i hi => ?_
  obtain ⟨job, hj⟩ : ∃ job, s.jobs[i]? = some job :=
    ⟨_, List.getElem?_eq_getElem (Finset.mem_range.mp hi)⟩
  obtain ⟨hentries, hstarts⟩ := run.entries_eq (Scheduler.situation?_of_getElem? hj)
  rw [hentries, ← hstarts]
  split <;> rfl

/-- In every run and for every class, the reports that jobs are scheduled are accounted for by the
reports that jobs are cancelled, the executions of one-off jobs, the one-off jobs that live and have
no outcome yet, the periodic jobs that live, and the jobs whose runner is gone without a final
report. Such a runner was dropped, its job was scheduled where no runner can live, or it began to
wait where now had no date. The reports of starts are as many as the job functions were entered. -/
theorem conserved (run : Run (.initial monitor logging) past s) (cls : String) :
    (∃ t, Recorded past t) ∧ ∀ t, Recorded past t → t.jobs = s.jobs ∧
      t.told .scheduled cls = t.told .cancelled cls +
        t.executions (fun j => j.record.cls == cls && !j.record.periodic) +
        t.population (fun i j => j.record.cls == cls &&
          (!j.record.periodic && j.phase.alive && !t.concluded i j)) +
        t.population (fun _ j => j.record.cls == cls && (j.record.periodic && j.phase.alive)) +
        t.population (fun i j => j.record.cls == cls &&
          (j.phase.isVanished && !t.concluded i j)) ∧
      t.told (.started .signal) cls + t.told (.started .timer) cls =
        t.executions (fun j => j.record.cls == cls) ∧
      ∀ i job, s.jobs[i]? = some job → job.phase = .vanished → ∃ e ∈ past, e.1.Drops i e.2 := by
  refine ⟨run.exists_recorded, ?_⟩
  intro t ht
  obtain ⟨logging', past', run', -, hjobs⟩ := run.of_recorded ht
  refine ⟨hjobs, run'.told_scheduled cls, run'.told_started cls, ?_⟩
  intro i job hj hp
  exact run.dropped (Scheduler.situation?_of_getElem? hj) hp

theorem conserved_of_outcomes : ∃ past s, Run (.initial .recording false) past s ∧
    s.told .scheduled "c" = 2 ∧ s.told .cancelled "c" = 1 ∧
      s.told (.started .signal) "c" + s.told (.started .timer) "c" = 1 := by
  have run := (begun (.initial .recording false)).next
    (.call (.schedule plainOrder (some []) (.after 1))) rfl |>.next (.call (.run "a")) rfl
    |>.next (.call (.schedule plainOrder (some []) (.after 1))) rfl
    |>.next (.call (.cancel "a")) rfl
    |>.next (.turn 0) rfl |>.next (.turn 0) rfl |>.next (.turn 0) rfl
    |>.next (.turn 1) rfl |>.next (.turn 1) rfl
  obtain ⟨-, haccounts⟩ := run.conserved "c"
  obtain ⟨-, hscheduled, hstarted, -⟩ := haccounts _ ⟨false, _, run, rfl⟩
  exact ⟨_, _, run, hscheduled.trans (by decide), by decide, hstarted.trans (by decide)⟩

/-- A runner that begins to wait where now has no date is gone without a report, though no runner
was dropped and no job was scheduled where none can live. -/
theorem not_conserved_undated : ∃ past s, Run (.initial .recording false) past s ∧
    (∀ e ∈ past, e.1.Ordinary e.2) ∧
      s.told .scheduled "c" ≠ s.told .cancelled "c" +
        s.executions (fun j => j.record.cls == "c" && !j.record.periodic) +
        s.population (fun i j => j.record.cls == "c" &&
          (!j.record.periodic && j.phase.alive && !s.concluded i j)) +
        s.population (fun _ j => j.record.cls == "c" && (j.record.periodic && j.phase.alive)) := by
  have run := (begun (.initial .recording false)).next
    (.call (.schedule plainOrder (some []) (.after 1))) rfl |>.next
    (.pass 8208566876800000) rfl |>.next (.turn 0) rfl
  refine ⟨_, _, run, ?_, by decide⟩
  rw [List.forall_mem_cons, List.forall_mem_cons, List.forall_mem_cons]
  exact ⟨Scheduler.ordinary_turn rfl, Scheduler.ordinary_pass _ _, Scheduler.ordinary_call _ rfl,
    List.forall_mem_nil _⟩

end Run

end JobScheduler
