import JobScheduler.Proofs.Simulation.Call

/-!
Scripts without some of their panics. Any panic in a job function, at whatever depth of the script
the job is scheduled, may be taken out by ending the function where it stands. Runtime functions
keep their panics, since these end the job.
-/

namespace JobScheduler

mutual

/-- Whether the second action is the first with some panics of job functions taken out. -/
inductive Action.Calmed : Action → Action → Prop where
  | same (action : Action) : Action.Calmed action action
  | call {c c' : Call} : Call.Calmed c c' → Action.Calmed (.call c) (.call c')

/-- The same for what is left to do in a job function, which may end where it has a panic. -/
inductive Body.Calmed : List Action → List Action → Prop where
  | done : Body.Calmed [] []
  | cut (payload : Payload) (rest : List Action) : Body.Calmed (.panic payload :: rest) []
  | next {action action' : Action} {rest rest' : List Action} :
      Action.Calmed action action' → Body.Calmed rest rest' →
      Body.Calmed (action :: rest) (action' :: rest')

/-- The same for a job function before it is entered, which may panic early. -/
inductive Func.Calmed : List Action → List Action → Prop where
  | early (payload : Payload) (rest : List Action) : Func.Calmed (.earlyPanic payload :: rest) []
  | body {body body' : List Action} : Body.Calmed body body' → Func.Calmed body body'

inductive Entry.Calmed : Entry Action → Entry Action → Prop where
  | mk {e e' : Entry Action} : List.Forall₂ Action.Calmed e.actions e'.actions →
      e'.result = e.result → Entry.Calmed e e'

inductive Plan.Calmed : Plan Action → Plan Action → Prop where
  | mk {plan plan' : Plan Action} : List.Forall₂ Entry.Calmed plan.entries plan'.entries →
      plan'.every = plan.every → Plan.Calmed plan plan'

inductive Call.Calmed : Call → Call → Prop where
  | same (c : Call) : Call.Calmed c c
  | schedule {work work' : Option (List (List Action))} (order : JobOrder) (instant : Moment) :
      Option.Rel (List.Forall₂ Func.Calmed) work work' →
      Call.Calmed (.schedule order work instant) (.schedule order work' instant)
  | schedulePeriodic {work work' : Option (List (List Action))} {plan plan' : Option (Plan Action)}
      (order : JobOrder) :
      Option.Rel (List.Forall₂ Func.Calmed) work work' → Option.Rel Plan.Calmed plan plan' →
      Call.Calmed (.schedulePeriodic order work plan) (.schedulePeriodic order work' plan')

end

theorem Body.Calmed.refl (body : List Action) : Body.Calmed body body := by
  induction body with
  | nil => exact .done
  | cons action rest ih => exact .next (.same action) ih

theorem Body.Calmed.cut_after (before : List Action) (payload : Payload) (rest : List Action) :
    Body.Calmed (before ++ .panic payload :: rest) before := by
  induction before with
  | nil => exact .cut payload rest
  | cons action before ih => exact .next (.same action) ih

theorem Work.calmed_refl (work : Work) : List.Forall₂ Func.Calmed work work :=
  List.forall₂_same.mpr fun body _ => .body (.refl body)

theorem Entry.Calmed.refl (e : Entry Action) : Entry.Calmed e e :=
  .mk (List.forall₂_same.mpr fun action _ => .same action) rfl

theorem Plan.Calmed.refl (plan : Plan Action) : Plan.Calmed plan plan :=
  .mk (List.forall₂_same.mpr fun e _ => .refl e) rfl

theorem Action.Calmed.akin {action action' : Action} (h : Action.Calmed action action') :
    Action.Akin Call.Calmed action action' := by
  cases h with
  | same => exact .same action
  | call hc => exact .call hc

theorem Action.Calmed.of_akin {action action' : Action}
    (h : Action.Akin Call.Calmed action action') : Action.Calmed action action' := by
  cases h with
  | same => exact .same action
  | call hc => exact .call hc

theorem Func.Calmed.opened {body body' : List Action} (h : Func.Calmed body body') :
    Body.Calmed (Action.opened body) (Action.opened body') := by
  cases h with
  | early payload rest => exact .cut payload rest
  | body h =>
      cases h with
      | done => exact .done
      | cut payload rest => exact .cut payload rest
      | @next action _ _ _ haction hrest =>
          cases haction with
          | call hc => exact .next (.call hc) hrest
          | same => cases action <;> exact .next (.same _) hrest

theorem Entry.Calmed.opened {e e' : Entry Action} (h : Entry.Calmed e e') :
    Entry.Calmed e.opened e'.opened := by
  obtain ⟨hactions, hresult⟩ := h
  have hopened := Action.opened_akin (hactions.imp fun _ _ => Action.Calmed.akin)
  exact .mk (hopened.imp fun _ _ => Action.Calmed.of_akin) hresult

theorem Plan.Calmed.entry {plan plan' : Plan Action} (h : Plan.Calmed plan plan') (k : Nat) :
    Entry.Calmed (plan.entry k) (plan'.entry k) := by
  obtain ⟨hentries, hevery⟩ := h
  unfold Plan.entry
  rcases forall₂_getElem? hentries k with ⟨hnone, hnone'⟩ | ⟨e, e', he, he', hcalmed⟩
  · rw [hnone, hnone', hevery]
    exact .refl _
  · rw [he, he']
    exact hcalmed

theorem Action.Calmed.call? {action action' : Action} (h : Action.Calmed action action')
    (rest rest' : List Action) :
    Option.Rel Call.Calmed (Action.call? (action :: rest)) (Action.call? (action' :: rest')) :=
  h.akin.call? Call.Calmed.same rest rest'

theorem Action.call?_calmed {actions actions' : List Action}
    (h : List.Forall₂ Action.Calmed actions actions') :
    Option.Rel Call.Calmed (Action.call? actions) (Action.call? actions') := by
  cases h with
  | nil => exact .none
  | cons haction _ => exact haction.call? _ _

theorem Body.Calmed.call? {body body' : List Action} (h : Body.Calmed body body') :
    Option.Rel Call.Calmed (Action.call? body) (Action.call? body') := by
  cases h with
  | done => exact .none
  | cut payload rest => exact .none
  | next haction _ => exact haction.call? _ _

/-- Scripts that differ in panics of job functions. -/
def calmed : Kinship where
  call := Call.Calmed
  work := List.Forall₂ Func.Calmed
  plan := Plan.Calmed
  body := Body.Calmed
  course := Entry.Calmed
  call_refl := .same
  work_refl := Work.calmed_refl
  plan_refl := Plan.Calmed.refl
  called h := by
    cases h with
    | same => exact .same _
    | schedule order instant hwork => exact .schedule order instant hwork
    | schedulePeriodic order hwork hplan => exact .schedulePeriodic order hwork hplan
  entered h k := (Work.body_rel (.body .done) h k).opened
  asked h k := (h.entry k).opened
  body_call? := Body.Calmed.call?
  course_call? := fun ⟨h, _⟩ => Action.call?_calmed h

end JobScheduler
