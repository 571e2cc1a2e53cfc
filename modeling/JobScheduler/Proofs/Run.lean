import JobScheduler.Scheduler.Playback

/-!
Runs of a scheduler: calls that no runner makes, single steps of the runners in any order, the
passing of time, and the loss of all runners.
-/

namespace JobScheduler

/-- One move of a run. -/
inductive Move where
  | call (c : Call)
  /-- One step of the runner of a job. -/
  | turn (i : JobId)
  | pass (ms : Nat)
  /-- All runners vanish. -/
  | shutdown

/-- The call that a function begins with, if it begins with one. -/
def Action.call? : List Action → Option Call
  | call c :: _ => some c
  | _ => none

/-- The call that the next step of a job's runner makes, if it makes one. -/
def Job.nextCall? (j : Job) : Option Call :=
  match j.phase with
  | .planning _ rest _ | .running _ _ rest => Action.call? rest
  | _ => none

/-- Whether a call schedules a job where no runner can live. -/
def Call.isOutside : Call → Bool
  | .schedule order _ _ | .schedulePeriodic order _ _ => order.outside
  | _ => false

namespace Scheduler

/-- The scheduler after a move, unless it is a step of a runner that cannot go on. -/
def move? (s : Scheduler) : Move → Option Scheduler
  | .call c => some (s.call none c).1
  | .turn i => s.step? i
  | .pass ms => some (s.stall ms)
  | .shutdown => some s.shutdown

/-- The call that a move makes, by nobody's runner or by a job's. -/
def callOf? (s : Scheduler) : Move → Option Call
  | .call c => some c
  | .turn i => s.jobs[i]?.bind Job.nextCall?
  | .pass _ | .shutdown => none

/-- The scheduler after a call, if there is one to make. -/
def made (s : Scheduler) (a : Option JobId) : Option Call → Scheduler
  | none => s
  | some c => (s.call a c).1

/-- The job whose run a call requests with success. -/
def acceptedBy? (s : Scheduler) : Call → Option JobId
  | .run name | .runIfExists name =>
    match (s.run none name).2 with
    | .ok () => s.registry.lookup name
    | .error _ => none
  | _ => none

/-- The job whose run a move requests with success. -/
def accepted? (s : Scheduler) (m : Move) : Option JobId := (s.callOf? m).bind s.acceptedBy?

/-- Whether a move ends the runner of job `i` while a run signal is in its slot. -/
def strands (s : Scheduler) (m : Move) (i : JobId) : Bool :=
  match s.jobs[i]?, (s.move? m).bind (·.jobs[i]?) with
  | some job, some job' =>
    job.phase.alive && job.record.running.pending && !job'.phase.alive
  | _, _ => false

/-- Whether a move is a step of the runner of job `i` that ends its wait on a run signal. -/
def signals (s : Scheduler) (m : Move) (i : JobId) : Bool :=
  match m, s.jobs[i]? with
  | .turn k, some job =>
    k == i && match job.phase with
      | .waiting _ timer => decide (s.waking? job timer = some .signal)
      | _ => false
  | _, _ => false

/-- Whether a move leaves the runners where they live: it neither drops them nor schedules a job
where none can live. -/
def Ordinary (s : Scheduler) (m : Move) : Prop :=
  (∀ c, s.callOf? m = some c → c.isOutside = false) ∧ m ≠ .shutdown

theorem ordinary_call (s : Scheduler) {c : Call} (h : c.isOutside = false) :
    s.Ordinary (.call c) := by
  refine ⟨?_, by simp⟩
  rintro c' ⟨⟩
  exact h

theorem ordinary_turn {s : Scheduler} {i : JobId} (h : s.callOf? (.turn i) = none) :
    s.Ordinary (.turn i) := by
  refine ⟨?_, by simp⟩
  intro c hc
  rw [h] at hc
  exact absurd hc (by simp)

theorem ordinary_pass (s : Scheduler) (ms : Nat) : s.Ordinary (.pass ms) := by
  refine ⟨?_, by simp⟩
  rintro c ⟨⟩

end Scheduler

/-- The run from `first` to a state, with the states it passed and the moves made from them, the
latest first. -/
inductive Run (first : Scheduler) : List (Scheduler × Move) → Scheduler → Prop where
  | start : Run first [] first
  | next {past : List (Scheduler × Move)} {s s' : Scheduler} (m : Move) :
      Run first past s → s.move? m = some s' → Run first ((s, m) :: past) s'

namespace Run

/-- How many runs of job `i` were requested with success. -/
def accepts (past : List (Scheduler × Move)) (i : JobId) : Nat :=
  past.countP fun e => decide (e.1.accepted? e.2 = some i)

/-- How many executions of job `i` were started on a run signal. -/
def signalled (past : List (Scheduler × Move)) (i : JobId) : Nat :=
  past.countP fun e => e.1.signals e.2 i

/-- How many run signals of job `i` were in the slot when its runner ended. -/
def losses (past : List (Scheduler × Move)) (i : JobId) : Nat :=
  past.countP fun e => e.1.strands e.2 i

theorem accepts_cons (s : Scheduler) (m : Move) (past : List (Scheduler × Move)) (i : JobId) :
    accepts ((s, m) :: past) i = accepts past i + if s.accepted? m = some i then 1 else 0 := by
  simp [accepts, List.countP_cons]

theorem signalled_cons (s : Scheduler) (m : Move) (past : List (Scheduler × Move)) (i : JobId) :
    signalled ((s, m) :: past) i = signalled past i + if s.signals m i then 1 else 0 := by
  simp [signalled, List.countP_cons]

theorem losses_cons (s : Scheduler) (m : Move) (past : List (Scheduler × Move)) (i : JobId) :
    losses ((s, m) :: past) i = losses past i + if s.strands m i then 1 else 0 := by
  simp [losses, List.countP_cons]

theorem trans {a b c : Scheduler} {past past' : List (Scheduler × Move)} (h : Run a past b)
    (h' : Run b past' c) : Run a (past' ++ past) c := by
  induction h' with
  | start => exact h
  | next m _ hm ih => exact ih.next m hm

theorem begun (s : Scheduler) : Run s [] s := .start

theorem single {s s' : Scheduler} (m : Move) (h : s.move? m = some s') : Run s [(s, m)] s' :=
  Run.start.next m h

theorem of_append {first s s₁ : Scheduler} {later earlier : List (Scheduler × Move)} {m : Move}
    (run : Run first (later ++ (s₁, m) :: earlier) s) :
    Run first earlier s₁ ∧ ∃ s₂, s₁.move? m = some s₂ ∧ Run s₂ later s := by
  induction later generalizing s with
  | nil =>
      cases run with
      | next _ run hm => exact ⟨run, s, hm, .start⟩
  | cons e later ih =>
      cases run with
      | next _ run hm =>
          obtain ⟨before, s₂, hm₁, after⟩ := ih run
          exact ⟨before, s₂, hm₁, after.next _ hm⟩

theorem of_mem {first s s₁ : Scheduler} {past : List (Scheduler × Move)} {m : Move}
    (run : Run first past s) (h : (s₁, m) ∈ past) :
    ∃ past₁ s₂ past₂, Run first past₁ s₁ ∧ s₁.move? m = some s₂ ∧ Run s₂ past₂ s := by
  obtain ⟨later, earlier, rfl⟩ := List.append_of_mem h
  obtain ⟨before, s₂, hm, after⟩ := run.of_append
  exact ⟨earlier, s₂, later, before, hm, after⟩

theorem setClock {s : Scheduler} {t : Int} (h : s.now ≤ t) :
    ∃ past, Run s past { s with now := t } := by
  refine ⟨_, single (.pass (t - s.now).toNat) ?_⟩
  have ht : s.now + ((t - s.now).toNat : Int) = t := by omega
  simp only [Scheduler.move?, Scheduler.stall, ht]

/-- A job that is tagged, named and counted `a`. -/
def plainOrder : JobOrder :=
  { tag := "a", name := "a", cls := "c", parent := "root", counter := "a" }

end Run

end JobScheduler
