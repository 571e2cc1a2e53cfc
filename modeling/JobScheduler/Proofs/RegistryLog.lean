import JobScheduler.Proofs.PrefixCancellation
import Mathlib.Logic.Function.Basic

/-!
The registry as the log tells it. A reader who has only the entries of level debug, with their
messages and fields, adds a name when its job is registered, and takes it away when it is removed,
cancelled or, if the job is one-off, told to run. What is known in this way is the registry itself,
with one exception: a request to run a one-off job whose runner is gone takes the name out of the
registry and is then refused, and nothing of it is logged (`Run.known_unless_missed`).
-/

namespace JobScheduler

/-- What a reader of the log knows of the registry, with whether each job is periodic, once an entry
of level debug is read. -/
def LogEntry.note (e : LogEntry) (known : String → Option Bool) : String → Option Bool :=
  match e.level, e.message, e.fields with
  | .debug, "job registered", [("job", .text job), _, ("periodic", .flag periodic)] =>
    Function.update known job (some periodic)
  | .debug, "job removed from registry", [("job", .text job)]
  | .debug, "cancel signalled", [("job", .text job)] => Function.update known job none
  | .debug, "run signalled", [("job", .text job)] =>
    if known job = some false then Function.update known job none else known
  | _, _, _ => known

def Happening.note (known : String → Option Bool) : Happening → String → Option Bool
  | .logged e => e.note known
  | _ => known

/-- Whether a call requests a run of a name. -/
def Call.runs (name : String) : Call → Bool
  | .run n | .runIfExists n => n == name
  | _ => false

/-- What the registry holds of a name and what the log tells of it: whether the job is periodic. -/
structure Page where
  logging : Bool
  held : Option Bool
  known : Option Bool

namespace Page

def dropped (p : Page) : Page := { p with held := none, known := none }

/-- Whether a page stays as it is, or what is held is lost from both. -/
def Lapses (p q : Page) : Prop := q = p ∨ p.held.isSome ∧ q = p.dropped

/-- What a move may make of a page. -/
inductive Next (missed : Prop) (p : Page) : Page → Prop where
  | kept : Next missed p p
  | enrolled (periodic : Bool) :
      Next missed p { p with held := some periodic, known := some periodic }
  | dropped : p.held.isSome → ¬missed → Next missed p p.dropped
  /-- The name is not held any more, and the log does not tell it. -/
  | missed : missed → p.held = some false → Next missed p { p with held := none }

variable {p q r : Page} {missed : Prop}

theorem Lapses.next (h : p.Lapses q) (hno : ¬missed) : p.Next missed q := by
  rcases h with rfl | ⟨hheld, rfl⟩
  · exact .kept
  · exact .dropped hheld hno

theorem Lapses.logging (h : p.Lapses q) : q.logging = p.logging := by
  rcases h with rfl | ⟨-, rfl⟩ <;> rfl

theorem Lapses.trans (h : p.Lapses q) (h' : q.Lapses r) : p.Lapses r := by
  rcases h with rfl | ⟨hheld, rfl⟩
  · exact h'
  · exact .inr ⟨hheld, h'.elim id (·.2)⟩

theorem Next.logging (h : p.Next missed q) : q.logging = p.logging := by
  cases h <;> rfl

theorem Next.known {missed before : Bool} (h : p.Next (missed = true) q)
    (hmissed : missed = true → p.held = some false)
    (hp : p.known = p.held.or (if before then some false else none)) :
    q.known = q.held.or (if missed || !p.held.isSome && before then some false else none) := by
  cases h with
  | kept =>
      cases hheld : p.held with
      | some periodic => rw [hp, hheld]; rfl
      | none =>
          have hno : missed = false := by
            rw [hheld] at hmissed
            exact Bool.eq_false_iff.mpr fun h => nomatch hmissed h
          rw [hp, hheld, hno]
          rfl
  | enrolled periodic => rfl
  | dropped hheld hno =>
      rw [Bool.eq_false_iff.mpr hno, hheld]
      rfl
  | missed hm hheld => simp [hp, hm, hheld]

end Page

namespace LogEntry

@[simp] theorem note_registered (known : String → Option Bool) (job cls : String)
    (periodic : Bool) :
    (registered job cls periodic).note known = Function.update known job (some periodic) := rfl

@[simp] theorem note_unregistered (known : String → Option Bool) (job : String) :
    (unregistered job).note known = Function.update known job none := rfl

@[simp] theorem note_cancelSignalled (known : String → Option Bool) (job : String) :
    (cancelSignalled job).note known = Function.update known job none := rfl

@[simp] theorem note_runSignalled (known : String → Option Bool) (job : String) :
    (runSignalled job).note known =
      if known job = some false then Function.update known job none else known := rfl

end LogEntry

namespace Scheduler

/-- Whether the job registered under a name is periodic. -/
def kind? (s : Scheduler) (name : String) : Option Bool :=
  (s.registry.lookup name).map fun i => s.jobs[i]?.any (·.record.periodic)

/-- What the log tells of the registry, read from the beginning. -/
def known (s : Scheduler) : String → Option Bool :=
  s.history.foldr (fun e known => e.what.note known) fun _ => none

def page (s : Scheduler) (name : String) : Page := ⟨s.logging, s.kind? name, s.known name⟩

/-- Whether the log is kept, and tells all that is registered. -/
structure Told (s : Scheduler) : Prop where
  logging : s.logging = true
  held : ∀ name periodic, s.kind? name = some periodic → s.known name = some periodic

/-- Whether a name is held by a one-off job whose runner is gone. -/
def isBereft (s : Scheduler) (name : String) : Bool :=
  (s.find? name).any fun found => !found.2.record.periodic && !found.2.phase.alive

/-- Whether a move takes a name out of the registry and the log does not tell it. -/
def misses (s : Scheduler) (m : Move) (name : String) : Bool :=
  (s.callOf? m).any (·.runs name) && s.isBereft name

end Scheduler

/-- Whether the log missed how a name was taken out of the registry, the last time that it was. -/
def Run.missed (name : String) : List (Scheduler × Move) → Bool
  | [] => false
  | (s, m) :: past => s.misses m name || !s.isRegistered name && missed name past

namespace Scheduler

variable {s s' : Scheduler} {a : Option JobId} {i : JobId} {job : Job} {name n : String}

theorem isSome_kind? (s : Scheduler) (name : String) :
    (s.kind? name).isSome = s.isRegistered name :=
  Option.isSome_map

theorem kind?_of_find? (h : s.find? name = some (i, job)) :
    s.kind? name = some job.record.periodic := by
  obtain ⟨hl, hj⟩ := find?_eq_some h
  simp [kind?, hl, hj]

theorem kind?_of_misses (s : Scheduler) (m : Move) (name : String) (h : s.misses m name = true) :
    s.kind? name = some false := by
  obtain ⟨-, hbereft⟩ := Bool.and_eq_true_iff.mp h
  unfold isBereft at hbereft
  cases hfind : s.find? name with
  | none =>
      rw [hfind] at hbereft
      exact absurd hbereft nofun
  | some found =>
      rw [hfind, Option.any_some, Bool.and_eq_true, Bool.not_eq_true'] at hbereft
      rw [kind?_of_find? hfind, hbereft.1]

theorem page_emit (s : Scheduler) (a : Option JobId) {w : Happening}
    (hw : w.note s.known n = s.known n) : (s.emit a w).page n = s.page n := by
  have hknown : (s.emit a w).known n = s.known n := hw
  unfold page
  rw [hknown]
  rfl

theorem page_log (s : Scheduler) (a : Option JobId) {e : LogEntry}
    (he : e.note s.known n = s.known n) : (s.log a e).page n = s.page n := by
  unfold log
  split
  · exact s.page_emit a he
  · rfl

theorem page_report (s : Scheduler) (a : Option JobId) (about : JobId) (cls : String) (r : Report)
    (n : String) : (s.report a about cls r).page n = s.page n := by
  unfold report
  split
  · exact s.page_emit a rfl
  · rfl

theorem kind?_updateJob (s : Scheduler) (i : JobId) (f : Job → Job)
    (hf : ∀ j, (f j).terms = j.terms) (n : String) : (s.updateJob i f).kind? n = s.kind? n := by
  have hperiodic : ∀ j, (f j).record.periodic = j.record.periodic :=
    fun j => periodic_eq_of_terms (hf j)
  unfold kind? updateJob
  congr 1
  funext k
  rw [List.getElem?_modify]
  cases s.jobs[k]? with
  | none => rfl
  | some j => by_cases hik : i = k <;> simp [hik, hperiodic]

theorem page_updateJob (s : Scheduler) (i : JobId) (f : Job → Job)
    (hf : ∀ j, (f j).terms = j.terms) (n : String) : (s.updateJob i f).page n = s.page n := by
  unfold page
  rw [kind?_updateJob s i f hf]
  rfl

theorem page_updateRecord (s : Scheduler) (i : JobId) (f : Record → Record)
    (hf : ∀ r, (f r).label = r.label) (n : String) : (s.updateRecord i f).page n = s.page n :=
  s.page_updateJob i _ (fun j => j.terms_record f hf) n

theorem page_setPhase (s : Scheduler) (i : JobId) (phase : Phase) (n : String) :
    (s.setPhase i phase).page n = s.page n :=
  s.page_updateJob i _ (by intro j; rfl) n

theorem page_shutdown (s : Scheduler) (n : String) : s.shutdown.page n = s.page n := by
  have hkind : s.shutdown.kind? n = s.kind? n := by
    unfold kind? shutdown
    congr 1
    funext k
    rw [List.getElem?_map]
    cases s.jobs[k]? with
    | none => rfl
    | some j => exact periodic_eq_of_terms j.terms_vanish
  unfold page
  rw [hkind]
  rfl

theorem page_stop (s : Scheduler) (i : JobId) (job : Job) (n : String) :
    (s.stop i job).page n = s.page n := by
  unfold stop leave
  rw [page_updateJob _ _ _ fun j => j.terms_leave _, page_report,
    page_updateRecord _ _ _ Record.label_finalise]

theorem page_await (s : Scheduler) (i : JobId) (instant : Int) (n : String) :
    (s.await i instant).page n = s.page n := by
  unfold await
  split
  · exact s.page_setPhase i _ n
  · exact s.page_updateJob i _ Job.terms_vanish n

theorem page_ask (s : Scheduler) (i : JobId) (job : Job) (n : String) :
    (s.ask i job).page n = s.page n := by
  unfold ask
  dsimp only
  rw [page_updateJob _ _ _ (by intro j; rfl), page_emit _ _ rfl]

theorem page_start (s : Scheduler) (i : JobId) (job : Job) (instant : Int) (trigger : Trigger)
    (n : String) : (s.start i job instant trigger).page n = s.page n := by
  have hcount : ∀ (t : Scheduler) k, (t.setCount job.counter k).page n = t.page n :=
    fun _ _ => rfl
  unfold start
  dsimp only
  rw [page_updateJob _ _ _ (by intro j; rfl), page_emit _ _ rfl, hcount, page_report]

theorem page_complete (s : Scheduler) (i : JobId) (job : Job) (instant : Int) (n : String) :
    (s.complete i job instant).page n = s.page n := by
  have hlog : (s.log (some i) (.completed instant)).page n = s.page n := s.page_log _ rfl
  unfold complete leave
  dsimp only
  split
  · rw [page_setPhase, page_updateRecord _ _ _ Record.label_deactivate, hlog]
  · rw [page_updateJob _ _ _ fun j => j.terms_leave _,
      page_updateRecord _ _ _ Record.label_finalise, hlog]

theorem kind?_unregister (s : Scheduler) (name n : String) :
    (s.unregister name).kind? n = if n = name then none else s.kind? n := by
  unfold kind?
  rw [lookup_unregister]
  split <;> rfl

theorem page_unregister (s : Scheduler) (name n : String) :
    (s.unregister name).page n = if n = name then { s.page n with held := none } else s.page n := by
  unfold page
  rw [kind?_unregister]
  split <;> rfl

theorem page_log_of_logging (hl : s.logging = true) (a : Option JobId) (e : LogEntry) (n : String) :
    (s.log a e).page n = { s.page n with known := e.note s.known n } := by
  have hlog : s.log a e = s.emit a (.logged e) := if_pos hl
  rw [hlog]
  rfl

theorem page_unregister_log (hl : s.logging = true) (a : Option JobId) {e : LogEntry}
    (he : e.note s.known = Function.update s.known name none) (n : String) :
    ((s.unregister name).log a e).page n = if n = name then (s.page n).dropped else s.page n := by
  have hknown : e.note (s.unregister name).known = Function.update s.known name none := he
  rw [page_log_of_logging (by exact hl), page_unregister, hknown]
  by_cases hn : n = name
  · subst hn
    simp [Page.dropped]
  · simp [hn, page]

theorem lapses_unregister (hl : s.logging = true) (a : Option JobId) {e : LogEntry}
    (he : e.note s.known = Function.update s.known name none) (hheld : s.isRegistered name = true)
    (n : String) : (s.page n).Lapses (((s.unregister name).log a e).page n) := by
  rw [page_unregister_log hl a he]
  split
  · rename_i hn
    subst hn
    exact .inr ⟨(s.isSome_kind? n).trans hheld, rfl⟩
  · exact .inl rfl

theorem lapses_remove (hl : s.logging = true) (a : Option JobId) (i : JobId) (name n : String) :
    (s.page n).Lapses ((s.remove a i name).page n) := by
  unfold remove
  split
  · rename_i hheld
    exact lapses_unregister hl a (LogEntry.note_unregistered _ _) (by simp [isRegistered, hheld]) n
  · exact .inl rfl

theorem lapses_retire (hl : s.logging = true) (i : JobId) (job : Job) (n : String) :
    (s.page n).Lapses ((s.retire i job).page n) := by
  rw [retire, page_stop]
  exact lapses_remove hl _ i _ n

theorem lapses_cancel (hl : s.logging = true) (hs : s.Named) (hcur : s.Current) (a : Option JobId)
    (name n : String) : (s.page n).Lapses ((s.cancel a name).1.page n) := by
  cases hfind : s.find? name with
  | none =>
      left
      rw [cancel_of_none a hfind]
  | some found =>
      obtain ⟨i, job⟩ := found
      have hentry : cancelEntry name job = .cancelSignalled name := if_pos (hcur.cancel_eq hs hfind)
      rw [cancel_of_some a hfind, hentry, log_updateRecord,
        page_updateRecord _ _ _ Record.label_cancel]
      refine lapses_unregister hl a (LogEntry.note_cancelSignalled _ _) ?_ n
      simp [isRegistered, (find?_eq_some hfind).1]

theorem lapses_cancelEach (hl : s.logging = true) (hs : s.Named) (hcur : s.Current)
    (a : Option JobId) (names : List String) (n : String) :
    (s.page n).Lapses ((s.cancelEach a names).page n) := by
  induction names generalizing s with
  | nil => exact .inl rfl
  | cons name rest ih =>
      have hfirst := lapses_cancel hl hs hcur a name n
      have hlogging : (s.cancel a name).1.logging = true := hfirst.logging.trans hl
      exact hfirst.trans (ih hlogging ((s.persists_cancel a name).named hs)
        (current_cancel hs hcur name))

theorem next_run (hs : s.Named) (hsound : ∀ i v, s.situation? i = some v → v.Sound)
    (ht : s.Told) (a : Option JobId) (name n : String) :
    (s.page n).Next (name = n ∧ s.isBereft n = true) ((s.run a name).1.page n) := by
  cases hfind : s.find? name with
  | none =>
      simp only [run, hfind]
      exact .kept
  | some found =>
      obtain ⟨i, job⟩ := found
      obtain ⟨hv, hr, -⟩ := situation?_of_find? hs hfind
      have hkind := kind?_of_find? hfind
      have hknown := ht.held name _ hkind
      -- The job is running, the request is accepted, or the runner is gone. Only in the last case
      -- does nothing in the log tell of a one-off job that is not held any more.
      rcases (hsound i _ hv).triggerRun_cases hr with
        ⟨-, hper, htrigger⟩ | ⟨-, halive, htrigger⟩ | ⟨-, hgone, htrigger⟩
      · have hper' : job.record.periodic = true := hper
        rw [run_of_error a hfind htrigger, called, if_pos hper']
        exact .kept
      · have hlabel : ∀ r : Record, r.signalled.label = r.label := fun _ => rfl
        rw [run_of_ok a hfind htrigger, log_updateRecord, page_updateRecord _ _ _ hlabel]
        unfold called
        cases hper : job.record.periodic with
        | true =>
            have hnote : (LogEntry.runSignalled name).note s.known n = s.known n := by
              rw [LogEntry.note_runSignalled, if_neg]
              simp [hknown, hper]
            rw [if_pos rfl, page_log _ _ hnote]
            exact .kept
        | false =>
            have hnote : (LogEntry.runSignalled name).note s.known =
                Function.update s.known name none := by
              rw [LogEntry.note_runSignalled, if_pos]
              rw [hknown, hper]
            have hregistered : s.isRegistered name = true := by
              rw [← isSome_kind?, hkind, Option.isSome_some]
            rw [if_neg (by simp)]
            refine (lapses_unregister ht.logging a hnote hregistered n).next ?_
            rintro ⟨rfl, hbereft⟩
            have halive' : job.phase.alive = true := halive
            simp [isBereft, hfind, halive'] at hbereft
      · rw [run_of_error a hfind htrigger]
        unfold called
        cases hper : job.record.periodic with
        | true =>
            rw [if_pos rfl]
            exact .kept
        | false =>
            rw [if_neg (by simp), page_unregister]
            split
            · rename_i hn
              subst hn
              have hbereft : s.isBereft n = true := by
                have hgone' : job.phase.alive = false := hgone
                simp [isBereft, hfind, hper, hgone']
              exact .missed ⟨rfl, hbereft⟩ (hkind.trans (congrArg some hper))
            · exact .kept

theorem page_runIfExists (s : Scheduler) (a : Option JobId) (name n : String) :
    (s.runIfExists a name).page n = (s.run a name).1.page n := by
  unfold runIfExists
  rcases s.run a name with ⟨t, _ | _⟩
  · exact t.page_log a rfl
  · rfl

/-- The scheduler with one more job, of which nobody is told. -/
def added (s : Scheduler) (job : Job) : Scheduler :=
  { s with registry := s.registry ++ [(job.record.name, s.jobs.length)], jobs := s.jobs ++ [job] }

theorem kind?_added (hs : s.Named) (hfree : s.registry.lookup job.record.name = none)
    (n : String) : (s.added job).kind? n =
      if n = job.record.name then some job.record.periodic else s.kind? n := by
  unfold kind? added
  dsimp only
  rw [List.lookup_append]
  by_cases hn : n = job.record.name
  · subst hn
    simp [hfree]
  · have hother : (n == job.record.name) = false := beq_eq_false_iff_ne.mpr hn
    rw [if_neg hn]
    cases hl : s.registry.lookup n with
    | none => simp [List.lookup_cons, hother]
    | some k =>
        obtain ⟨j, hj, -⟩ := hs n k hl
        have hlt := (List.getElem?_eq_some_iff.mp hj).1
        simp [List.getElem?_append_left hlt]

theorem page_enrol (hl : s.logging = true) (hs : s.Named) (a : Option JobId)
    (hfree : s.registry.lookup job.record.name = none) (n : String) :
    (s.enrol a job).page n = if n = job.record.name
      then { s.page n with held := some job.record.periodic, known := some job.record.periodic }
      else s.page n := by
  have hreport : ∀ n, ((s.added job).report a s.jobs.length job.record.cls .scheduled).page n =
      { s.page n with held :=
          if n = job.record.name then some job.record.periodic else s.kind? n } := by
    intro n
    rw [page_report, page, kind?_added hs hfree]
    rfl
  have hknown : ((s.added job).report a s.jobs.length job.record.cls .scheduled).known = s.known :=
    funext fun n => congrArg Page.known (hreport n)
  have hlogging := (congrArg Page.logging (hreport n)).trans hl
  have henrol : (s.enrol a job).page n = { s.page n with
      held := if n = job.record.name then some job.record.periodic else s.kind? n
      known := Function.update s.known job.record.name (some job.record.periodic) n } := by
    have heq : s.enrol a job =
        ((s.added job).report a s.jobs.length job.record.cls .scheduled).log a
          (.registered job.record.name job.record.cls job.record.periodic) := rfl
    rw [heq, page_log_of_logging hlogging, hreport, hknown, LogEntry.note_registered]
  rw [henrol]
  by_cases hn : n = job.record.name <;> simp [hn, page]

theorem next_schedule {missed : Prop} (hl : s.logging = true) (hs : s.Named) (a : Option JobId)
    (o : JobOrder) (work : Option Work) (runtime : Moment) (n : String) :
    (s.page n).Next missed ((s.schedule a o work runtime).1.page n) := by
  cases hvet : s.vet o true work with
  | error e =>
      simp only [schedule, hvet]
      exact .kept
  | ok w =>
      have hname := s.name_newJob o false w .empty (.spawned (runtime.resolve s.now))
      have hfree : s.registry.lookup _ = none := hname ▸ lookup_eq_none_of_vet hvet
      simp only [schedule, hvet, launch]
      rw [page_log _ _ rfl, page_log _ _ rfl, page_enrol hl hs a hfree]
      split
      · exact .enrolled _
      · exact .kept

theorem next_schedulePeriodic {missed : Prop} (hl : s.logging = true) (hs : s.Named)
    (a : Option JobId) (o : JobOrder) (work : Option Work) (plan : Option (Plan Action))
    (n : String) : (s.page n).Next missed ((s.schedulePeriodic a o work plan).1.page n) := by
  cases hvet : s.vet o plan.isSome work with
  | error e =>
      simp only [schedulePeriodic, hvet]
      exact .kept
  | ok w =>
      have hname := s.name_newJob o true w (plan.getD .empty) .looping
      have hfree : s.registry.lookup _ = none := hname ▸ lookup_eq_none_of_vet hvet
      simp only [schedulePeriodic, hvet, launch]
      rw [page_log _ _ rfl, page_enrol hl hs a hfree]
      split
      · exact .enrolled _
      · exact .kept

theorem next_call (hs : s.Named) (hsound : ∀ i v, s.situation? i = some v → v.Sound)
    (hcur : s.Current) (ht : s.Told) (a : Option JobId) (c : Call) (n : String) :
    (s.page n).Next (c.runs n = true ∧ s.isBereft n = true) ((s.call a c).1.page n) := by
  have hstop : ∀ names, c.runs n = false →
      (s.page n).Next (c.runs n = true ∧ s.isBereft n = true) ((s.cancelEach a names).page n) := by
    intro names hc
    exact (lapses_cancelEach ht.logging hs hcur a names n).next (by simp [hc])
  have hrun : ∀ name, (s.page n).Next ((name == n) = true ∧ s.isBereft n = true)
      ((s.run a name).1.page n) := by
    intro name
    rw [beq_iff_eq]
    exact next_run hs hsound ht a name n
  cases c with
  | schedule o work runtime => exact next_schedule ht.logging hs a o work runtime n
  | schedulePeriodic o work plan => exact next_schedulePeriodic ht.logging hs a o work plan n
  | run name => exact hrun name
  | runIfExists name =>
      rw [call, page_runIfExists]
      exact hrun name
  | cancel name => exact hstop [name] rfl
  | cancelIfExists name => exact hstop [name] rfl
  | cancelAll stem => exact hstop (s.matching stem) rfl
  | _ => exact .kept

theorem lapses_log_retire (hl : s.logging = true) (a : Option JobId) {e : LogEntry}
    (he : ∀ known, e.note known = known) (i : JobId) (job : Job) (n : String) :
    (s.page n).Lapses (((s.log a e).retire i job).page n) := by
  have hlog : (s.log a e).page n = s.page n := s.page_log a (congrFun (he _) n)
  have hlogging : (s.log a e).logging = true := (congrArg Page.logging hlog).trans hl
  exact hlog ▸ lapses_retire hlogging i job n

theorem page_act (s : Scheduler) (i : JobId) (job : Job) {action : Action}
    (hquiet : ∀ c, action ≠ .call c) (n : String) : (s.act i job action).1.page n = s.page n := by
  cases action with
  | call c => exact absurd rfl (hquiet c)
  | context => exact s.page_emit _ rfl
  | _ => rfl

theorem lapses_planOn (hl : s.logging = true) (i : JobId) (job : Job)
    (result : Except RuntimeError Moment) {rest : List Action} (hquiet : Action.call? rest = none)
    (n : String) : (s.page n).Lapses ((s.planOn i job result rest).page n) := by
  unfold planOn
  split
  · split
    · left
      rw [page_await, page_log _ _ rfl]
    · exact lapses_log_retire hl _ (fun _ => rfl) i job n
    · exact lapses_log_retire hl _ (fun _ => rfl) i job n
  · exact lapses_log_retire hl _ (fun _ => rfl) i job n
  · left
    rw [page_setPhase, page_act]
    rintro c rfl
    exact absurd hquiet nofun

theorem page_runOn (s : Scheduler) (i : JobId) (job : Job) (instant : Int) {rest : List Action}
    (hquiet : Action.call? rest = none) (n : String) :
    (s.runOn i job instant rest).page n = s.page n := by
  unfold runOn
  split
  · rw [page_complete, page_emit _ _ rfl]
  · rw [page_complete, page_log _ _ rfl]
  · rw [page_setPhase, page_act]
    rintro c rfl
    exact absurd hquiet nofun

theorem lapses_wake (hl : s.logging = true) (hj : s.jobs[i]? = some job) (instant : Int)
    (w : Waking) (n : String) : (s.page n).Lapses ((s.wake i job instant w).page n) := by
  cases w with
  | parent => exact lapses_log_retire hl _ (fun _ => rfl) i job n
  | cancel =>
      left
      rw [wake, page_stop, page_log _ _ rfl, page_updateRecord _ _ _ Record.label_takeCancel]
  | signal =>
      left
      rw [wake, page_start, page_log _ _ rfl, page_updateRecord _ _ _ Record.label_takeRun]
  | timer =>
      have hrecord := updateRecord_const hj fun r => r.tryActivate.1
      have hactive : (s.updateRecord i fun _ => job.record.tryActivate.1).page n = s.page n := by
        rw [hrecord]
        exact s.page_updateRecord i _ Record.label_tryActivate n
      unfold wake
      dsimp only
      split
      · left
        rw [page_setPhase, page_log _ _ rfl]
      · rename_i r hr
        obtain rfl : job.record.tryActivate.1 = r := by rw [hr]
        rw [page_start, page_log _ _ rfl]
        split
        · exact .inl hactive
        · exact hactive ▸ lapses_remove (by exact hl) _ i _ n

theorem lapses_step (hl : s.logging = true) (h : s.step? i = some s')
    (hquiet : s.callOf? (.turn i) = none) (n : String) : (s.page n).Lapses (s'.page n) := by
  unfold step? at h
  split at h
  · exact absurd h nofun
  · rename_i job hj
    rw [callOf?, hj, Option.bind_some, Job.nextCall?] at hquiet
    split at h <;> rename_i hp <;> rw [hp] at hquiet
    · cases h
      exact .inl (s.page_await i _ n)
    · cases h
      exact .inl (s.page_ask i job n)
    · obtain ⟨-, h⟩ := Option.ite_none_right_eq_some.mp h
      cases h
      exact lapses_planOn hl i job _ hquiet n
    · obtain ⟨w, -, rfl⟩ := Option.map_eq_some_iff.mp h
      exact lapses_wake hl hj _ w n
    · obtain ⟨-, h⟩ := Option.ite_none_right_eq_some.mp h
      cases h
      exact .inl (s.page_runOn i job _ hquiet n)
    · exact absurd h nofun
    · exact absurd h nofun

/-- What a move makes of what is held and known of a name. -/
theorem next_move {m : Move} (hm : s.move? m = some s') (hs : s.Named)
    (hsound : ∀ i v, s.situation? i = some v → v.Sound) (hcur : s.Current) (ht : s.Told)
    (n : String) : (s.page n).Next (s.misses m n = true) (s'.page n) := by
  have hcall : ∀ a c, s.callOf? m = some c →
      (s.page n).Next (s.misses m n = true) ((s.call a c).1.page n) := by
    intro a c hc
    rw [misses, hc, Option.any_some, Bool.and_eq_true]
    exact next_call hs hsound hcur ht a c n
  cases m with
  | call c =>
      cases hm
      exact hcall none c rfl
  | turn i =>
      cases hc : s.callOf? (.turn i) with
      | none => exact (lapses_step ht.logging hm hc n).next (by simp [misses, hc])
      | some c =>
          obtain ⟨answer, phase, rfl⟩ := step_of_call hm hc
          rw [page_setPhase, page_emit _ _ rfl]
          exact hcall (some i) c hc
  | pass ms =>
      cases hm
      exact .kept
  | shutdown =>
      cases hm
      rw [page_shutdown]
      exact .kept

end Scheduler

namespace Run

variable {monitor : Monitor} {past : List (Scheduler × Move)} {s : Scheduler} {name : String}

theorem known (run : Run (.initial monitor true) past s) : s.logging = true ∧
    ∀ name, s.known name = (s.kind? name).or (if missed name past then some false else none) := by
  induction run with
  | start => exact ⟨rfl, fun _ => rfl⟩
  | @next past s s' m run hm ih =>
      obtain ⟨hl, hknown⟩ := ih
      -- What is held is known whatever was missed, which is all that a move needs to find.
      have ht : s.Told := ⟨hl, fun name periodic h => by rw [hknown, h]; rfl⟩
      have hnext : ∀ name, (s.page name).Next (s.misses m name = true) (s'.page name) :=
        Scheduler.next_move hm run.named (fun _ _ hv => run.sound hv) run.current ht
      refine ⟨(hnext "").logging.trans hl, fun name => ?_⟩
      have hstep := (hnext name).known (s.kind?_of_misses m name) (hknown name)
      rwa [show (s.page name).held = s.kind? name from rfl, s.isSome_kind? name] at hstep

theorem missed_of_none (h : ∀ e ∈ past, e.1.misses e.2 name = false) :
    missed name past = false := by
  induction past with
  | nil => rfl
  | cons e past ih =>
      obtain ⟨hfirst, hbefore⟩ := List.forall_mem_cons.mp h
      rw [missed, hfirst, ih hbefore, Bool.and_false, Bool.or_false]

/-- In every state of every run, reading the entries of level debug from the beginning gives the
names that are registered, each with whether its job is periodic, and besides only such names of
one-off jobs as were lost, since they were last registered, by a request to run a job whose runner
was gone. Without such requests it gives the registry. -/
theorem known_unless_missed (run : Run (.initial monitor true) past s) (name : String) :
    (s.kind? name).isSome = s.isRegistered name ∧
    s.known name = (s.kind? name).or (if missed name past then some false else none) ∧
    ((∀ e ∈ past, e.1.misses e.2 name = false) → s.known name = s.kind? name) := by
  refine ⟨s.isSome_kind? name, run.known.2 name, ?_⟩
  intro hnone
  rw [run.known.2, missed_of_none hnone]
  exact Option.or_none

/-- Two jobs are registered, the runners are dropped, and a run of each is requested. Both requests
are refused, the one-off job is not registered any more, and the log does not tell it. -/
theorem known_of_shutdown : ∃ past s, Run (.initial .recording true) past s ∧
    s.registry = [("b", 1)] ∧ s.known "a" = some false ∧ s.known "b" = some true := by
  have run := (begun (.initial .recording true)).next
    (.call (.schedule plainOrder (some []) (.after 1))) rfl |>.next
    (.call (.schedulePeriodic { plainOrder with name := "b" } (some []) (some .empty))) rfl |>.next
    .shutdown rfl |>.next (.call (.run "a")) rfl |>.next (.call (.run "b")) rfl
  obtain ⟨-, ha, -⟩ := run.known_unless_missed "a"
  obtain ⟨-, -, hb⟩ := run.known_unless_missed "b"
  refine ⟨_, _, run, rfl, ha, hb ?_⟩
  simp only [List.forall_mem_cons]
  exact ⟨rfl, rfl, rfl, rfl, rfl, nofun⟩

end Run

end JobScheduler
