import JobScheduler.Proofs.KindAgreement.Script

/-!
How far a one-off job and its twin are. Up to the execution their records are the same except for
the kind, in the execution their runners are at the same action, and after it only the twin's runner
is left, on its way to its runtime function's second answer. Calls keep the two jobs abreast
(`Job.Twin.call`).
-/

namespace JobScheduler

/-- Where the runner of a job is before the execution, where that of the twin is, and how often the
twin's runtime function was called. -/
inductive Phase.Heading (a : Int) : Phase → Phase → Nat → Prop where
  | begun : Heading a (.spawned a) .looping 0
  | asked : Heading a (.spawned a) (.planning .none [] (.ok (.fixed a))) 1
  | waiting (timer : Option Int) : Heading a (.waiting a timer) (.waiting a timer) 1

/-- Where the runner of the twin is after the execution. -/
inductive Phase.Closing : Phase → Nat → Prop where
  | back : Closing .looping 1
  | asked : Closing (.planning .none [] (.error .noMoreInstances)) 2

/-- The record of the twin while nothing tells the two apart. -/
def Record.twin (r : Record) : Record := { r with periodic := true }

/-- How far a job and its twin are. -/
inductive Job.Stage (a : Int) (j j' : Job) : Prop where
  | before : Phase.Heading a j.phase j'.phase j'.asks → j.runs = 0 →
      j'.record = j.record.twin → Stage a j j'
  | during {pause : Pause} {rest : List Action} : j.phase = .running a pause rest →
      j'.phase = .running a pause rest → j'.asks = 1 → j.runs ≠ 0 →
      (∀ c, .call c ∈ rest → c.isService = false) → Stage a j j'
  | after : j.phase = .returned → Phase.Closing j'.phase j'.asks → j.runs ≠ 0 → Stage a j j'
  | ended : j.phase = .returned → j'.phase = .returned → Stage a j j'
  | gone : j'.phase = .vanished → j.phase = .vanished ∨ j.phase = .returned ∧ j.runs ≠ 0 →
      Stage a j j'

/-- Whether `j` is a one-off job and `j'` its twin. -/
structure Job.Twin (a : Int) (j j' : Job) : Prop where
  kind : j.record.periodic = false
  terms : j'.terms =
    ((j.record.name, j.record.cls, true), j.tag, j.token, j.counter, j.work, .once a)
  runs : j'.runs = j.runs
  silent : ∀ c, .call c ∈ j.work.flatten → c.isService = false
  stage : j.Stage a j'

theorem Phase.Heading.alive {a : Int} {p p' : Phase} {k : Nat} (h : Phase.Heading a p p' k) :
    (p.alive = true ∧ p.isRunning = false) ∧ p'.alive = true ∧ p'.isRunning = false := by
  cases h <;> exact ⟨⟨rfl, rfl⟩, rfl, rfl⟩

theorem Phase.Closing.alive {p : Phase} {k : Nat} (h : Phase.Closing p k) : p.alive = true := by
  cases h <;> rfl

namespace Record

@[simp] theorem triggerRun_twin (r : Record) : r.twin.triggerRun.1 = r.triggerRun.1.twin := by
  rcases Bool.eq_false_or_eq_true r.active with ha | ha
  · rw [triggerRun_of_active ha, triggerRun_of_active (show r.twin.active = true from ha)]
  · rcases Bool.eq_false_or_eq_true r.finalised with hf | hf
    · rw [triggerRun_of_finalised ha hf,
        triggerRun_of_finalised (show r.twin.active = false from ha) hf]
    · cases hsend : r.running.send? with
      | none =>
          rw [triggerRun_of_send?_eq_none ha hsend,
            triggerRun_of_send?_eq_none (show r.twin.active = false from ha) hsend]
      | some channel => simp [triggerRun, tryActivate, twin, ha, hf, hsend]

@[simp] theorem cancel_twin (r : Record) : r.twin.cancel.1 = r.cancel.1.twin := by
  unfold cancel twin
  dsimp only
  split <;> rfl

end Record

namespace Situation

variable {v v' : Situation}

theorem Tended.level_run (hv : v.Tended) (hv' : v'.Tended) (hkind : v.job.record.periodic = false)
    (hlevel : v'.job.record = v.job.record.twin) :
    (if v'.registered = true then v'.job.record.triggerRun.1 else v'.job.record) =
      (if v.registered = true then v.job.record.triggerRun.1 else v.job.record).twin := by
  have hr := hv.registered
  have hr' := hv'.registered
  rw [hkind, Bool.false_or] at hr
  rw [hlevel, show v.job.record.twin.periodic = true from rfl, Bool.true_or, Bool.and_true] at hr'
  cases ha : v.job.record.active with
  | true =>
      -- The one-off job lost its name when it got the signal, and the periodic one refuses another.
      have ha' : v'.job.record.active = true := by rw [hlevel]; exact ha
      have hfree : v.registered = false := by rw [hr, ha, Bool.not_true, Bool.and_false]
      rw [Record.triggerRun_of_active ha', hfree, ite_self]
      exact hlevel
  | false =>
      have hsame : v'.registered = v.registered := by
        rw [hr, hr', ha, Bool.not_false, Bool.and_true]
        rfl
      rw [hsame, hlevel, Record.triggerRun_twin]
      split <;> rfl

theorem Tended.level_stop (hv : v.Tended) (hv' : v'.Tended) (hkind : v.job.record.periodic = false)
    (hlevel : v'.job.record = v.job.record.twin)
    (hidle : v.job.record.active = false) :
    (if v'.registered = true then v'.job.record.cancel.1 else v'.job.record) =
      (if v.registered = true then v.job.record.cancel.1 else v.job.record).twin := by
  have hsame : v'.registered = v.registered := by
    rw [hv.registered, hv'.registered, hlevel, hkind, hidle]
    rfl
  rw [hsame, hlevel, Record.cancel_twin]
  split <;> rfl

theorem requestRun_eq (v : Situation) :
    (if v.registered = true then v.requestRun else v).job =
      { v.job with
        record := if v.registered = true then v.job.record.triggerRun.1 else v.job.record } := by
  split <;> rfl

theorem requestStop_eq (v : Situation) :
    (if v.registered = true then v.requestStop else v).job =
      { v.job with
        record := if v.registered = true then v.job.record.cancel.1 else v.job.record } := by
  split <;> rfl

end Situation

namespace Job.Twin

variable {a : Int} {j j' : Job}

theorem name_eq (h : j.Twin a j') : j'.record.name = j.record.name :=
  congrArg (fun t => t.1.1) h.terms

theorem cls_eq (h : j.Twin a j') : j'.record.cls = j.record.cls :=
  congrArg (fun t => t.1.2.1) h.terms

theorem periodic_eq (h : j.Twin a j') : j'.record.periodic = true :=
  congrArg (fun t => t.1.2.2) h.terms

theorem token_eq (h : j.Twin a j') : j'.token = j.token := congrArg (fun t => t.2.2.1) h.terms

theorem counter_eq (h : j.Twin a j') : j'.counter = j.counter :=
  congrArg (fun t => t.2.2.2.1) h.terms

theorem work_eq (h : j.Twin a j') : j'.work = j.work := congrArg (fun t => t.2.2.2.2.1) h.terms

theorem plan_eq (h : j.Twin a j') : j'.plan = .once a := congrArg (fun t => t.2.2.2.2.2) h.terms

theorem deadline?_eq (h : j.Twin a j') : j'.deadline? = j.deadline? := by
  cases h.stage with
  | before hp =>
      unfold Job.deadline?
      generalize j.phase = p, j'.phase = p', j'.asks = k at hp
      cases hp <;> rfl
  | during hp hp' => simp only [Job.deadline?, hp, hp']
  | after hp hp' =>
      unfold Job.deadline?
      generalize j'.phase = p', j'.asks = k at hp'
      cases hp' <;> rw [hp]
  | ended hp hp' => simp only [Job.deadline?, hp, hp']
  | gone hp' hp =>
      unfold Job.deadline?
      rw [hp']
      rcases hp with hp | ⟨hp, -⟩ <;> rw [hp]

theorem change (h : j.Twin a j') {j₁ j₁' : Job} (hterms : j₁.terms = j.terms)
    (hterms' : j₁'.terms = j'.terms) (hruns : j₁'.runs = j₁.runs) (hstage : j₁.Stage a j₁') :
    j₁.Twin a j₁' := by
  have hwork : j₁.work = j.work := congrArg (fun t => t.2.2.2.2.1) hterms
  refine ⟨(Scheduler.periodic_eq_of_terms hterms).trans h.kind, ?_, hruns, ?_, hstage⟩
  · rw [hterms', h.terms, Scheduler.name_eq_of_terms hterms, Scheduler.cls_eq_of_terms hterms,
      hwork, show j₁.tag = j.tag from congrArg (fun t => t.2.1) hterms,
      show j₁.token = j.token from congrArg (fun t => t.2.2.1) hterms,
      show j₁.counter = j.counter from congrArg (fun t => t.2.2.2.1) hterms]
  · rw [hwork]
    exact h.silent

theorem withRecord (h : j.Twin a j') {r r' : Record} (hr : r.label = j.record.label)
    (hr' : r'.label = j'.record.label)
    (hlevel : j.phase.alive = true → j'.phase.alive = true → j.phase.isRunning = false →
      j.runs = 0 → j'.record = j.record.twin → r' = r.twin) :
    ({ j with record := r } : Job).Twin a { j' with record := r' } := by
  have hterms : ({ j with record := r } : Job).terms = j.terms := by
    rw [Job.terms, Job.terms, ← show r.label = j.record.label from hr]
  have hterms' : ({ j' with record := r' } : Job).terms = j'.terms := by
    rw [Job.terms, Job.terms, ← show r'.label = j'.record.label from hr']
  refine h.change hterms hterms' h.runs ?_
  cases h.stage with
  | before hp hruns hold =>
      obtain ⟨⟨halive, hrun⟩, halive', -⟩ := hp.alive
      exact .before hp hruns (hlevel halive halive' hrun hruns hold)
  | during hp hp' hasks hruns hno => exact .during hp hp' hasks hruns hno
  | after hp hp' hruns => exact .after hp hp' hruns
  | ended hp hp' => exact .ended hp hp'
  | gone hp' hp => exact .gone hp' hp

theorem vanish (h : j.Twin a j') : j.vanish.Twin a j'.vanish := by
  have hruns : ∀ j : Job, j.vanish.runs = j.runs := by
    intro j
    unfold Job.vanish
    split <;> rfl
  have hgone : ∀ {j : Job}, j.phase.alive = true → j.vanish.phase = .vanished := by
    intro j halive
    rw [Job.vanish, if_pos halive]
    rfl
  have hkept : ∀ {j : Job}, j.phase.alive = false → j.vanish.phase = j.phase := by
    intro j hdead
    rw [Job.vanish, if_neg (Bool.eq_false_iff.mp hdead)]
  refine h.change j.terms_vanish j'.terms_vanish (by rw [hruns, hruns, h.runs]) ?_
  cases h.stage with
  | before hp =>
      obtain ⟨⟨halive, -⟩, halive', -⟩ := hp.alive
      exact .gone (hgone halive') (.inl (hgone halive))
  | during hp hp' => exact .gone (hgone (by rw [hp']; rfl)) (.inl (hgone (by rw [hp]; rfl)))
  | after hp hp' hn =>
      refine .gone (hgone hp'.alive) (.inr ⟨?_, by rw [hruns]; exact hn⟩)
      rw [hkept (by rw [hp]; rfl), hp]
  | ended hp hp' =>
      refine .ended ?_ ?_
      · rw [hkept (by rw [hp]; rfl), hp]
      · rw [hkept (by rw [hp']; rfl), hp']
  | gone hp' hp =>
      refine .gone ?_ ?_
      · rw [hkept (by rw [hp']; rfl), hp']
      · rw [hruns]
        rcases hp with hp | ⟨hp, hn⟩
        · exact .inl (by rw [hkept (by rw [hp]; rfl), hp])
        · exact .inr ⟨by rw [hkept (by rw [hp]; rfl), hp], hn⟩

section

variable {v v' : Situation}

theorem requestRun (h : v.job.Twin a v'.job) (hv : v.Sound) (hv' : v'.Sound) :
    (if v.registered = true then v.requestRun else v).job.Twin a
      (if v'.registered = true then v'.requestRun else v').job := by
  rw [Situation.requestRun_eq, Situation.requestRun_eq]
  refine h.withRecord ?_ ?_ fun halive halive' _ _ hlevel => ?_
  · split <;> simp
  · split <;> simp
  · exact (hv.tended_of_alive halive).level_run (hv'.tended_of_alive halive') h.kind hlevel

theorem requestStop (h : v.job.Twin a v'.job) (hv : v.Sound) (hv' : v'.Sound)
    (hidle : v.job.runs = 0 → v.job.record.running.pending = false) :
    (if v.registered = true then v.requestStop else v).job.Twin a
      (if v'.registered = true then v'.requestStop else v').job := by
  rw [Situation.requestStop_eq, Situation.requestStop_eq]
  refine h.withRecord ?_ ?_ fun halive halive' hrun hruns hlevel => ?_
  · split <;> simp
  · split <;> simp
  · have ht := hv.tended_of_alive halive
    refine ht.level_stop (hv'.tended_of_alive halive') h.kind hlevel ?_
    rw [ht.active, hrun, hidle hruns]
    rfl

end

end Job.Twin

namespace Scheduler

variable {s t : Scheduler} {i : JobId} {v v' : Situation}

theorem situation?_of_order (hv : s.situation? i = some v) (b : Option JobId) {c : Call}
    (ho : c.order?.isSome = true) : (s.call b c).1.situation? i = some v := by
  cases c with
  | schedule o work r => exact ((enrols_schedule b o work r).old hv).1
  | schedulePeriodic o work plan => exact ((enrols_schedulePeriodic b o work plan).old hv).1
  | _ => exact absurd ho Bool.false_ne_true

end Scheduler

/-- A call keeps a job and its twin abreast, unless it cancels them while there is a signal for the
execution. -/
theorem Job.Twin.call {n : String} {a : Int} {s t : Scheduler} {i : JobId} {v v' : Situation}
    (hs : s.Named) (ht : t.Named) (hv : s.situation? i = some v) (hv' : t.situation? i = some v')
    (hsound : v.Sound) (hsound' : v'.Sound) (h : v.job.Twin a v'.job) (b : Option JobId) (c : Call)
    (hidle : c.cancels v.job.record.name = true → v.job.runs = 0 →
      v.job.record.running.pending = false) :
    ∃ w w', (s.call b c).1.situation? i = some w ∧
      (t.call b (c.recast n a)).1.situation? i = some w' ∧ w.job.Twin a w'.job := by
  have hrun : ∀ name, ∃ w w', (s.run b name).1.situation? i = some w ∧
      (t.run b name).1.situation? i = some w' ∧ w.job.Twin a w'.job := by
    intro name
    refine ⟨_, _, Scheduler.situation?_run hs b name hv, Scheduler.situation?_run ht b name hv', ?_⟩
    simp only [Scheduler.lookup_eq_some_iff hs hv, Scheduler.lookup_eq_some_iff ht hv', h.name_eq]
    by_cases hn : v.job.record.name = name
    · simp only [hn, and_true]
      exact h.requestRun hsound hsound'
    · simp only [hn, and_false, if_false]
      exact h
  have hstop : ∀ name, (v.job.record.name = name → c.cancels v.job.record.name = true) →
      ∃ w w', (s.cancel b name).1.situation? i = some w ∧
        (t.cancel b name).1.situation? i = some w' ∧ w.job.Twin a w'.job := by
    intro name hc
    refine ⟨_, _, Scheduler.situation?_cancel hs b name hv,
      Scheduler.situation?_cancel ht b name hv', ?_⟩
    simp only [Scheduler.lookup_eq_some_iff hs hv, Scheduler.lookup_eq_some_iff ht hv', h.name_eq]
    by_cases hn : v.job.record.name = name
    · simp only [hn, and_true]
      exact h.requestStop hsound hsound' (hidle (hc hn))
    · simp only [hn, and_false, if_false]
      exact h
  cases ho : c.order? with
  | some o =>
      refine ⟨v, v', Scheduler.situation?_of_order hv b (by rw [ho]; rfl),
        Scheduler.situation?_of_order hv' b ?_, h⟩
      rw [Call.order?_recast, ho]
      rfl
  | none =>
      rw [Call.recast_of_plain ho]
      cases c with
      | run name => exact hrun name
      | runIfExists name =>
          obtain ⟨w, w', hw, hw', hnew⟩ := hrun name
          exact ⟨w, w', (Scheduler.runIfExists_eq b name i).1.trans hw,
            (Scheduler.runIfExists_eq b name i).1.trans hw', hnew⟩
      | cancel name => exact hstop name fun hn => by simp [Call.cancels, hn]
      | cancelIfExists name => exact hstop name fun hn => by simp [Call.cancels, hn]
      | cancelAll stem =>
          refine ⟨_, _, Scheduler.situation?_cancelAll hs b stem hv,
            Scheduler.situation?_cancelAll ht b stem hv', ?_⟩
          rw [h.name_eq]
          by_cases hn : stem.toList.isPrefixOf v.job.record.name.toList = true
          · simp only [hn, and_true]
            exact h.requestStop hsound hsound' (hidle hn)
          · rw [if_neg fun hboth => hn hboth.2, if_neg fun hboth => hn hboth.2]
            exact h
      | cancelToken name =>
          exact ⟨_, _, Scheduler.situation?_cancelToken hv name,
            Scheduler.situation?_cancelToken hv' name, h⟩
      | newToken name above => exact ⟨v, v', hv, hv', h⟩
      | isRegistered name => exact ⟨v, v', hv, hv', h⟩
      | isActive name => exact ⟨v, v', hv, hv', h⟩
      | names => exact ⟨v, v', hv, hv', h⟩
      | describe => exact ⟨v, v', hv, hv', h⟩
      | schedule o work r => exact absurd ho nofun
      | schedulePeriodic o work plan => exact absurd ho nofun

end JobScheduler
