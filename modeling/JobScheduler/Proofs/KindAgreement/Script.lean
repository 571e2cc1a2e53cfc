import JobScheduler.Proofs.Cancellation
import JobScheduler.Proofs.View.Turn

/-!
A one-off job and its twin, the periodic job with one instance that a script schedules in its place.
Which scripts are compared, what the calls of the second one are, and how its scheduler is viewed
beside the first: the two jobs have the same place, and what they do in their functions is shown.
-/

namespace JobScheduler

/-- The runtime function that returns an instant once. -/
def Plan.once (a : Int) : Plan Action := ⟨[⟨[], .ok (.fixed a)⟩], none⟩

section

variable (n : String) (a : Int)

mutual

def Action.recast : Action → Action
  | .sleep ms => .sleep ms
  | .context => .context
  | .awaitContext => .awaitContext
  | .call c => .call c.recast
  | .panic payload => .panic payload
  | .earlyPanic payload => .earlyPanic payload
  termination_by structural action => action

/-- The call that schedules the twin of the job called `n` where the given call schedules the job,
at whatever depth. -/
def Call.recast : Call → Call
  | .schedule o work r =>
    if o.name = n then .schedulePeriodic o work (some (.once a))
    else .schedule o (Work.recast? work) r
  | .schedulePeriodic o work plan =>
    if o.name = n then .schedulePeriodic o work plan
    else .schedulePeriodic o (Work.recast? work) (Plan.recast? plan)
  | .run name => .run name
  | .runIfExists name => .runIfExists name
  | .cancel name => .cancel name
  | .cancelIfExists name => .cancelIfExists name
  | .cancelAll stem => .cancelAll stem
  | .isRegistered name => .isRegistered name
  | .isActive name => .isActive name
  | .names => .names
  | .describe => .describe
  | .newToken name above => .newToken name above
  | .cancelToken name => .cancelToken name
  termination_by structural c => c

def Action.recastEach : List Action → List Action
  | [] => []
  | action :: rest => action.recast :: Action.recastEach rest
  termination_by structural actions => actions

def Work.recast : List (List Action) → List (List Action)
  | [] => []
  | body :: rest => Action.recastEach body :: Work.recast rest
  termination_by structural work => work

def Work.recast? : Option (List (List Action)) → Option (List (List Action))
  | none => none
  | some work => some (Work.recast work)
  termination_by structural work => work

def Entry.recast : Entry Action → Entry Action
  | ⟨actions, result⟩ => ⟨Action.recastEach actions, result⟩
  termination_by structural e => e

def Entry.recastEach : List (Entry Action) → List (Entry Action)
  | [] => []
  | e :: rest => Entry.recast e :: Entry.recastEach rest
  termination_by structural entries => entries

def Plan.recast : Plan Action → Plan Action
  | ⟨entries, every⟩ => ⟨Entry.recastEach entries, every⟩
  termination_by structural plan => plan

def Plan.recast? : Option (Plan Action) → Option (Plan Action)
  | none => none
  | some plan => some (Plan.recast plan)
  termination_by structural plan => plan

end

def Step.recast : Step → Step
  | .call c => .call (c.recast n a)
  | step => step

theorem Action.recast_eq (action : Action) :
    action.recast n a = action.mapCalls (Call.recast n a) := by
  cases action <;> rfl

theorem Action.recastEach_eq (actions : List Action) :
    Action.recastEach n a actions = actions.map (Action.mapCalls (Call.recast n a)) := by
  induction actions with
  | nil => rfl
  | cons action rest ih =>
      rw [List.map_cons, ← ih, ← action.recast_eq]
      rfl

theorem Work.recast_eq (work : Work) :
    Work.recast n a work = Work.mapCalls (Call.recast n a) work := by
  induction work with
  | nil => rfl
  | cons body rest ih =>
      show Action.recastEach n a body :: Work.recast n a rest = _
      rw [ih, Action.recastEach_eq]
      rfl

theorem Work.recast?_eq (work : Option Work) :
    Work.recast? n a work = work.map (Work.mapCalls (Call.recast n a)) := by
  cases work with
  | none => rfl
  | some work => exact congrArg some (Work.recast_eq n a work)

theorem Plan.recast_eq (plan : Plan Action) :
    Plan.recast n a plan = plan.mapCalls (Call.recast n a) := by
  obtain ⟨entries, every⟩ := plan
  show (⟨Entry.recastEach n a entries, every⟩ : Plan Action) = ⟨entries.map _, every⟩
  congr 1
  induction entries with
  | nil => rfl
  | cons e rest ih =>
      obtain ⟨actions, result⟩ := e
      show ⟨Action.recastEach n a actions, result⟩ :: Entry.recastEach n a rest = _
      rw [ih, Action.recastEach_eq]
      rfl

theorem Plan.recast?_eq (plan : Option (Plan Action)) :
    Plan.recast? n a plan = plan.map (Plan.mapCalls (Call.recast n a)) := by
  cases plan with
  | none => rfl
  | some plan => exact congrArg some (Plan.recast_eq n a plan)

end

namespace Call

variable {n : String} {a : Int}

theorem recast_of_order {o : JobOrder} {work : Option Work} {r : Moment} (h : o.name = n) :
    (Call.schedule o work r).recast n a = .schedulePeriodic o work (some (.once a)) := if_pos h

theorem recast_schedule {o : JobOrder} {work : Option Work} {r : Moment} (h : o.name ≠ n) :
    (Call.schedule o work r).recast n a =
      .schedule o (work.map (Work.mapCalls (Call.recast n a))) r := by
  rw [← Work.recast?_eq]
  exact if_neg h

theorem recast_schedulePeriodic {o : JobOrder} {work : Option Work} {plan : Option (Plan Action)}
    (h : o.name ≠ n) :
    (Call.schedulePeriodic o work plan).recast n a =
      .schedulePeriodic o (work.map (Work.mapCalls (Call.recast n a)))
        (plan.map (Plan.mapCalls (Call.recast n a))) := by
  rw [← Work.recast?_eq, ← Plan.recast?_eq]
  exact if_neg h

theorem recast_of_plain {c : Call} (h : c.order? = none) : c.recast n a = c := by
  cases c <;> first | rfl | exact absurd h nofun

@[simp] theorem order?_recast (c : Call) : (c.recast n a).order? = c.order? := by
  cases c with
  | schedule o work r =>
      rw [Call.recast]
      split <;> rfl
  | schedulePeriodic o work plan =>
      rw [Call.recast]
      split <;> rfl
  | _ => rfl

@[simp] theorem cancels_recast (c : Call) (name : String) :
    (c.recast n a).cancels name = c.cancels name := by
  cases c with
  | schedule o work r =>
      rw [Call.recast]
      split <;> rfl
  | schedulePeriodic o work plan =>
      rw [Call.recast]
      split <;> rfl
  | _ => rfl

end Call

/-- Whether a call is one on the service, and not on the tokens. -/
def Call.isService : Call → Bool
  | .newToken .. | .cancelToken _ => false
  | _ => true

/-- Whether a script schedules what is called `n` as one-off jobs only, for the instant `r`, whose
functions make no service calls. -/
structure OneOff (n : String) (r : Moment) (steps : List Step) : Prop where
  order : ∀ c o, Makes steps c → c.order? = some o → o.name = n → ∃ work, c = .schedule o work r
  silent : ∀ c o, Makes steps c → c.order? = some o → o.name = n →
    ∀ c', Action.call c' ∈ c.acts → c'.isService = false

/-- Whether a move makes a call that schedules what is called `n`. -/
def Scheduler.orders (s : Scheduler) (m : Move) (n : String) : Bool :=
  ((s.callOf? m).bind Call.order?).any fun o => o.name = n

/-- Whether a run schedules what is called `n` once at most, when its instant `r` is `a`, and never
cancels it while the signal for its first execution is in the slot. -/
structure Run.Plain (n : String) (r : Moment) (a : Int) (past : List (Scheduler × Move)) :
    Prop where
  once : past.countP (fun e => e.1.orders e.2 n) ≤ 1
  due : ∀ e ∈ past, e.1.orders e.2 n = true → r.resolve e.1.now = a
  unstopped : ∀ e ∈ past, ∀ c, e.1.callOf? e.2 = some c → c.cancels n = true →
    ∀ (i : JobId) (job : Job), e.1.jobs[i]? = some job → job.record.name = n → job.runs = 0 →
      job.record.running.pending = false

namespace Scheduler

theorem orders_iff {s : Scheduler} {m : Move} {n : String} :
    s.orders m n = true ↔ ∃ c o, s.callOf? m = some c ∧ c.order? = some o ∧ o.name = n := by
  simp only [orders, Option.any_eq_true, Option.bind_eq_some_iff, decide_eq_true_eq]
  constructor
  · rintro ⟨o, ⟨c, hc, ho⟩, hn⟩
    exact ⟨c, o, hc, ho, hn⟩
  · rintro ⟨c, o, hc, ho, hn⟩
    exact ⟨o, ⟨c, hc, ho⟩, hn⟩

theorem orders_of_orderedBy {s : Scheduler} {m : Move} {c : Call} {job : Job}
    (hc : s.callOf? m = some c) (h : job.OrderedBy c) : s.orders m job.record.name = true := by
  obtain ⟨o, ho, hn, -⟩ := h.order
  exact orders_iff.mpr ⟨c, o, hc, ho, hn.symm⟩

end Scheduler

namespace Run

variable {n : String} {r : Moment} {a : Int} {monitor : Monitor} {logging : Bool}
  {past : List (Scheduler × Move)} {s : Scheduler} {e : Scheduler × Move} {i k : JobId}
  {job job' : Job}

theorem Plain.tail (h : Plain n r a (e :: past)) : Plain n r a past where
  once := by
    have honce := h.once
    rw [List.countP_cons] at honce
    omega
  due e' he := h.due e' (List.mem_cons_of_mem _ he)
  unstopped e' he := h.unstopped e' (List.mem_cons_of_mem _ he)

theorem Plain.fresh (run : Run (.initial monitor logging) past s) (h : Plain n r a (e :: past))
    (ho : e.1.orders e.2 n = true) (hj : s.jobs[i]? = some job) : job.record.name ≠ n := by
  rintro rfl
  obtain ⟨e', he', c, hc, hordered⟩ := run.ordered hj
  have hpos : 0 < past.countP fun e => e.1.orders e.2 job.record.name :=
    List.countP_pos_iff.mpr ⟨e', he', Scheduler.orders_of_orderedBy hc hordered⟩
  have honce := h.once
  rw [List.countP_cons, if_pos ho] at honce
  omega

theorem Plain.unique (run : Run (.initial monitor logging) past s) (h : Plain n r a past)
    (hj : s.jobs[i]? = some job) (hn : job.record.name = n) (hj' : s.jobs[k]? = some job')
    (hn' : job'.record.name = n) : i = k := by
  induction run generalizing i k job job' with
  | start => exact absurd hj (by simp [Scheduler.initial])
  | @next past s s' m run hm ih =>
      have hold : ∀ {i : JobId} {job job₀ : Job}, s'.jobs[i]? = some job → job.record.name = n →
          s.jobs[i]? = some job₀ → job₀.record.name = n := by
        intro i job job₀ hj hn hj₀
        obtain ⟨job₁, hj₁, hterms⟩ := Scheduler.terms_of_move hm hj₀
        obtain rfl : job = job₁ := Option.some_inj.mp (hj.symm.trans hj₁)
        rw [← hn, Scheduler.name_eq_of_terms hterms]
      -- A job that is new was ordered by the move, and then none of the name is older.
      have hnew : ∀ {i : JobId} {job : Job}, s'.jobs[i]? = some job → job.record.name = n →
          s.jobs[i]? = none → i = s.jobs.length ∧ s.orders m n = true := by
        intro i job hj hn hnone
        obtain ⟨c, hc, hordered⟩ := Scheduler.orderedBy_of_move hm hnone hj
        refine ⟨?_, hn ▸ Scheduler.orders_of_orderedBy hc hordered⟩
        cases Scheduler.origin_of_move run.named hm (Scheduler.situation?_of_getElem? hj) with
        | born _ _ _ hi _ => exact hi
        | changed hv =>
            have hnone' : s.situation? i = none := Option.map_eq_none_iff.mpr hnone
            exact absurd (hv.symm.trans hnone') (by simp)
      cases hi : s.jobs[i]? with
      | some job₀ =>
          have hn₀ := hold hj hn hi
          cases hk : s.jobs[k]? with
          | some job₁ => exact ih h.tail hi hn₀ hk (hold hj' hn' hk)
          | none => exact absurd hn₀ (h.fresh run (hnew hj' hn' hk).2 hi)
      | none =>
          obtain ⟨heq, ho⟩ := hnew hj hn hi
          cases hk : s.jobs[k]? with
          | some job₁ => exact absurd (hold hj' hn' hk) (h.fresh run ho hk)
          | none => exact heq.trans (hnew hj' hn' hk).1.symm

end Run

/-- Whether the answer to a call tells how a name is registered. -/
def Call.consults (name : String) : Call → Bool
  | .run n | .cancel n | .isRegistered n | .isActive n => n == name
  | _ => false

/-- Answers of `s` and `t`, which may have registered a name in other ways: what asks for the name
may be answered in any way, a list may have the name or not, and a count may count its job or not.
-/
inductive Answer.Varies (name : String) (s t : Scheduler) : Call → Answer → Answer → Prop where
  | same (c : Call) (answer : Answer) : Varies name s t c answer answer
  | other {c : Call} (answer answer' : Answer) :
      c.consults name = true → Varies name s t c answer answer'
  | names {names names' : List String} :
      (names'.filter fun n => n ≠ name) = (names.filter fun n => n ≠ name) →
      Varies name s t .names (.list names) (.list names')
  | count : (t.kept name).length = (s.kept name).length →
      Varies name s t .describe (.text s.describe) (.text t.describe)

/-- The scheduler of the second script beside the one of the first, if the jobs called `n` are those
of `out`. Of what is told by and about them, the log, the calls of the runtime function and the
reports of cancellation are left out. -/
def View.twin (n : String) (a : Int) (out : JobId → Bool) : View where
  left := ⟨n, out, false, fun _ => False⟩
  hidden := out
  place := id
  call := Call.recast n a
  replies := Answer.Varies n
  place_visible h := h
  place_inj _ _ h := h
  place_succ _ := rfl
  call_plain := Call.recast_of_plain
  call_schedule := Call.recast_schedule
  call_periodic := Call.recast_schedulePeriodic
  replies_self _ _ := .same

end JobScheduler
