import JobScheduler.Proofs.KindAgreement.Turn

/-!
Calls, other runners' turns and the passing of time beside a one-off job and its twin. Each keeps
the two schedulers beside each other, if the job is scheduled when it is due at the twin's instant
and never cancelled while the signal for its execution is in the slot.
-/

namespace JobScheduler

/-- Whether a call schedules the job called `n` as is compared, and does not cancel it while there
is a signal for its execution. -/
structure Scheduler.Admits (n : String) (a : Int) (s : Scheduler) (c : Call) : Prop where
  order : ∀ o, c.order? = some o → o.name = n →
    ∃ work r, c = .schedule o work r ∧ r.resolve s.now = a
  fresh : ∀ o, c.order? = some o → o.name = n → ∀ (i : JobId) (j : Job), s.jobs[i]? = some j →
    j.record.name ≠ n
  silent : ∀ o, c.order? = some o → o.name = n → ∀ c', .call c' ∈ c.acts → c'.isService = false
  unstopped : c.cancels n = true → ∀ (i : JobId) (j : Job), s.jobs[i]? = some j →
    j.record.name = n → j.runs = 0 → j.record.running.pending = false

variable {n : String} {a : Int} {out : JobId → Bool} {s s' t t' : Scheduler} {i k : JobId}
  {j j' : Job} {b : Option JobId}

namespace View.Mirrors

variable (h : (View.twin n a out).Mirrors s t)
include h

theorem enrol_twin (hi : out s.jobs.length = true) (hn : j.record.name = n)
    (hn' : j'.record.name = n) (hcls : j'.record.cls = j.record.cls) :
    (View.twin n a out).Mirrors (s.enrol b j) (t.enrol b j') := by
  have hadd : (View.twin n a out).Mirrors
      { s with
        registry := s.registry ++ [(j.record.name, s.jobs.length)]
        jobs := s.jobs ++ [j] }
      { t with
        registry := t.registry ++ [(j'.record.name, t.jobs.length)]
        jobs := t.jobs ++ [j'] } :=
    { h with
      registry := by
        have hkept := h.registry
        unfold Scheduler.kept at hkept ⊢
        rw [List.filter_append, List.filter_append, hkept, List.map_append]
        simp [hn, hn', View.twin]
      jobs := by
        intro k hvisible
        have hne : k ≠ s.jobs.length := by
          rintro rfl
          exact absurd (hvisible.symm.trans hi) Bool.false_ne_true
        show (t.jobs ++ [j'])[k]? = ((s.jobs ++ [j])[k]?).map _
        rw [Scheduler.getElem?_added, Scheduler.getElem?_added, h.length_twin, if_neg hne,
          if_neg hne]
        exact h.jobs k hvisible
      length := by simp [h.length_twin, View.twin] }
  have hlevel : ∀ k, b = some k → (View.twin n a out).Level k := fun _ _ => rfl
  have hreport := hadd.report hlevel (i := s.jobs.length) rfl j.record.cls .scheduled
  have hplace : b.map (View.twin n a out).place = b := by cases b <;> rfl
  rw [hplace] at hreport
  unfold Scheduler.enrol
  dsimp only
  rw [hcls, h.length_twin] at *
  refine (hreport.left ((Cover.Same.refl _).log_about ?_)).right ((Cover.Same.refl _).log_about ?_)
  · exact congrArg some hn
  · exact congrArg some hn'

end View.Mirrors

namespace Scheduler

theorem isRegistered_of_fresh (hs : s.Named)
    (h : ∀ (i : JobId) (j : Job), s.jobs[i]? = some j → j.record.name ≠ n) :
    s.isRegistered n = false := by
  unfold isRegistered
  cases hl : s.registry.lookup n with
  | none => rfl
  | some i =>
      obtain ⟨j, hj, hname⟩ := hs n i hl
      exact absurd hname (h i j hj)

namespace Beside

variable (h : Beside n a out s t)
include h

theorem fresh_right (hfresh : ∀ (i : JobId) (j : Job), s.jobs[i]? = some j → j.record.name ≠ n) :
    ∀ (i : JobId) (j' : Job), t.jobs[i]? = some j' → j'.record.name ≠ n := by
  intro i j' hj' hn'
  obtain ⟨j, hj⟩ := h.exists_left hj'
  have hout : out i = decide (j'.record.name = n) := h.fits_right i j' hj'
  rw [hn', h.visible hj (hfresh i j hj)] at hout
  exact absurd hout (by simp)

theorem vet_eq (hs : s.Named) (ht : t.Named)
    (hfresh : ∀ (i : JobId) (j : Job), s.jobs[i]? = some j → j.record.name ≠ n) {o : JobOrder}
    (hn : o.name = n) (work : Option Work) : t.vet o true work = s.vet o true work := by
  unfold vet
  rw [hn, isRegistered_of_fresh hs hfresh, isRegistered_of_fresh ht (h.fresh_right hfresh)]

theorem newJob (o : JobOrder) (work : Work)
    (hsilent : ∀ c, .call c ∈ work.flatten → c.isService = false) :
    (s.newJob o false work .empty (.spawned a)).Twin a
      (t.newJob o true work (.once a) .looping) := by
  have hbegun : ({ record := { name := o.name, cls := o.cls, periodic := false }
                   tag := o.tag
                   token := s.tokens.named o.parent
                   counter := o.counter
                   work := work
                   plan := .empty
                   phase := .spawned a } : Job).Twin a
      { record := { name := o.name, cls := o.cls, periodic := true }
        tag := o.tag
        token := t.tokens.named o.parent
        counter := o.counter
        work := work
        plan := .once a
        phase := .looping } :=
    { kind := rfl
      terms := by rw [h.mirrors.tokens]; rfl
      runs := rfl
      silent := hsilent
      stage := .before .begun rfl rfl }
  unfold Scheduler.newJob
  dsimp only
  split
  · exact hbegun.vanish
  · exact hbegun

theorem schedule (hs : s.Named) (ht : t.Named) {o : JobOrder} {work : Option Work} {r : Moment}
    (hn : o.name = n) (hr : r.resolve s.now = a)
    (hfresh : ∀ (i : JobId) (j : Job), s.jobs[i]? = some j → j.record.name ≠ n)
    (hsilent : ∀ c, .call c ∈ (work.getD []).flatten → c.isService = false)
    (hk : (View.twin n a out).left.Fits (s.schedule b o work r).1) :
    Beside n a out (s.schedule b o work r).1 (t.schedulePeriodic b o work (some (.once a))).1 ∧
      (t.schedulePeriodic b o work (some (.once a))).2 = (s.schedule b o work r).2 := by
  have hvet := h.vet_eq hs ht hfresh hn work
  cases hv : s.vet o true work with
  | error e =>
      rw [hv] at hvet
      simp only [Scheduler.schedule, schedulePeriodic, Option.isSome_some, hv, hvet]
      exact ⟨h, trivial⟩
  | ok w =>
      have hi : out s.jobs.length = true := (hk.scheduled hv).trans (decide_eq_true hn)
      have hwork := work_of_vet hv
      rw [hwork, Option.getD_some] at hsilent
      have htwin := h.newJob o w hsilent
      have hname := s.name_newJob o false w .empty (.spawned a)
      have hname' := t.name_newJob o true w (.once a) .looping
      rw [hv] at hvet
      have henrol :=
        h.mirrors.enrol_twin (b := b) hi (hname.trans hn) (hname'.trans hn) htwin.cls_eq
      refine ⟨⟨?_, hk, fun k j hj hjn => ?_⟩, ?_⟩
      · simp only [Scheduler.schedule, schedulePeriodic, Option.isSome_some, hv, hvet, launch, hr,
          h.mirrors.length_twin]
        have habout : (LogEntry.oneOffScheduled o.name a).job? = some n := congrArg some hn
        exact (henrol.left (((Cover.Same.refl _).log_about habout).log_own hi _)).right
          ((Cover.Same.refl _).log_own hi _)
      · simp only [Scheduler.schedule, schedulePeriodic, Option.isSome_some, hv, hvet, launch, hr,
          jobs_log, jobs_enrol] at hj ⊢
        rw [getElem?_added] at hj
        split at hj
        · rename_i hlast
          obtain rfl := Option.some_inj.mp hj
          rw [getElem?_added, h.mirrors.length_twin, if_pos hlast]
          exact ⟨_, rfl, htwin⟩
        · exact absurd hjn (hfresh k j hj)
      · simp only [Scheduler.schedule, schedulePeriodic, Option.isSome_some, hv, hvet, launch]

theorem mirrors_call (hs : s.Named) (ht : t.Named) {c : Call}
    (hk : (View.twin n a out).left.Fits (s.call b c).1)
    (hother : ∀ o, c.order? = some o → o.name ≠ n) :
    (View.twin n a out).Mirrors (s.call b c).1 (t.call b (c.recast n a)).1 ∧
      Answer.Varies n s t c (s.call b c).2 (t.call b (c.recast n a)).2 := by
  by_cases hn : c.named? = some n
  · have hfits : (View.twin n a out).left.Fits s := h.fits
    have hfits' := h.fits_right
    cases c with
    | run name =>
        obtain rfl := Option.some_inj.mp hn
        refine ⟨?_, .other _ _ (by simp [Call.consults])⟩
        exact (h.mirrors.left (Cover.Same.run hs hfits)).right
          (Cover.Same.run (k := (View.twin name a out).right) ht hfits')
    | runIfExists name =>
        obtain rfl := Option.some_inj.mp hn
        refine ⟨?_, .same _ _⟩
        exact (h.mirrors.left (Cover.Same.runIfExists hs hfits)).right
          (Cover.Same.runIfExists (k := (View.twin name a out).right) ht hfits')
    | cancel name =>
        obtain rfl := Option.some_inj.mp hn
        refine ⟨?_, .other _ _ (by simp [Call.consults])⟩
        exact (h.mirrors.left (Cover.Same.cancel hs hfits)).right
          (Cover.Same.cancel (k := (View.twin name a out).right) ht hfits')
    | cancelIfExists name =>
        obtain rfl := Option.some_inj.mp hn
        refine ⟨?_, .same _ _⟩
        exact (h.mirrors.left (Cover.Same.cancel hs hfits)).right
          (Cover.Same.cancel (k := (View.twin name a out).right) ht hfits')
    | isRegistered name =>
        obtain rfl := Option.some_inj.mp hn
        exact ⟨h.mirrors, .other _ _ (by simp [Call.consults])⟩
    | isActive name =>
        obtain rfl := Option.some_inj.mp hn
        exact ⟨h.mirrors, .other _ _ (by simp [Call.consults])⟩
    | schedule o work r => exact absurd (Option.some_inj.mp hn) (hother o rfl)
    | schedulePeriodic o work plan => exact absurd (Option.some_inj.mp hn) (hother o rfl)
    | _ => exact absurd hn (by simp [Call.named?])
  · have hplace : b.map (View.twin n a out).place = b := by cases b <;> rfl
    have hcall := h.mirrors.call (a := b) hs ht h.fits_right (fun _ _ => rfl) hk hn
      h.mirrors.varies.1 h.mirrors.varies.2
    rw [hplace] at hcall
    exact hcall

theorem fits_of_right (hs : s.Named) (ht : t.Named) {c : Call} (hc : s.Admits n a c)
    (hr : (View.twin n a out).right.Fits (t.call b (c.recast n a)).1) :
    (View.twin n a out).left.Fits (s.call b c).1 := by
  intro i j₁ hj₁
  cases hj : s.jobs[i]? with
  | some j =>
      obtain ⟨j₂, hj₂, hterms⟩ := (s.persists_call b c).jobs i j hj
      obtain rfl := Option.some_inj.mp (hj₁.symm.trans hj₂)
      rw [h.fits i j hj, name_eq_of_terms hterms]
  | none =>
      obtain ⟨⟨o, ho, hname, -⟩, -⟩ := orderedBy_of_call b hj hj₁
      obtain rfl : i = s.jobs.length := by
        rcases adds_of_call (i := i) (Option.map_eq_none_iff.mpr hj) b c with ⟨hnone, -⟩ | hadded
        · exact absurd ((situation?_of_getElem? hj₁).symm.trans hnone) (by simp)
        · obtain ⟨-, -, -, -, hi, -⟩ := hadded
          exact hi
      rw [hname]
      show out s.jobs.length = decide (o.name = n)
      rw [← h.mirrors.length_twin]
      by_cases hn : o.name = n
      · obtain ⟨work, r, rfl, hinstant⟩ := hc.order o ho hn
        rw [Call.recast_of_order hn] at hr
        cases hv : s.vet o true work with
        | error e =>
            simp only [Scheduler.call, Scheduler.schedule, hv] at hj₁
            exact absurd (hj.symm.trans hj₁) (by simp)
        | ok w =>
            have hv' := (h.vet_eq hs ht (hc.fresh o ho hn) hn work).trans hv
            exact hr.scheduledPeriodic hv'
      · cases c with
        | schedule o work r =>
            obtain rfl := Option.some_inj.mp ho
            rw [Call.recast_schedule hn] at hr
            cases hv : s.vet o true work with
            | error e =>
                simp only [Scheduler.call, Scheduler.schedule, hv] at hj₁
                exact absurd (hj.symm.trans hj₁) (by simp)
            | ok w =>
                have hv' := h.mirrors.vet hn true work
                rw [hv] at hv'
                exact hr.scheduled hv'
        | schedulePeriodic o work plan =>
            obtain rfl := Option.some_inj.mp ho
            rw [Call.recast_schedulePeriodic hn] at hr
            cases hv : s.vet o plan.isSome work with
            | error e =>
                simp only [Scheduler.call, Scheduler.schedulePeriodic, hv] at hj₁
                exact absurd (hj.symm.trans hj₁) (by simp)
            | ok w =>
                have hv' := h.mirrors.vet hn plan.isSome work
                rw [hv, ← Option.isSome_map] at hv'
                exact hr.scheduledPeriodic hv'
        | _ => exact absurd ho (by simp [Call.order?])

omit h in
theorem twins_call {monitor : Monitor} {logging : Bool} {past past' : List (Scheduler × Move)}
    (h : Beside n a out s t) (run : Run (.initial monitor logging) past s)
    (run' : Run (.initial monitor logging) past' t) {c : Call} (hc : s.Admits n a c)
    (hj : s.jobs[i]? = some j) (hn : j.record.name = n) :
    ∃ j₁ j₁', (s.call b c).1.jobs[i]? = some j₁ ∧
      (t.call b (c.recast n a)).1.jobs[i]? = some j₁' ∧ j₁.Twin a j₁' := by
  obtain ⟨j', hj', htwin⟩ := h.twins i j hj hn
  have hv := situation?_of_getElem? hj
  have hv' := situation?_of_getElem? hj'
  obtain ⟨w, w', hw, hw', hnew⟩ := Job.Twin.call (n := n) run.named run'.named hv hv'
    (run.sound hv) (run'.sound hv') htwin b c fun hcancel hruns => by
      rw [show (s.situate i j).job.record.name = n from hn] at hcancel
      exact hc.unstopped hcancel i j hj hn hruns
  exact ⟨w.job, w'.job, (situation?_eq_some.mp hw).1, (situation?_eq_some.mp hw').1, hnew⟩

omit h in
/-- A call keeps the two schedulers beside each other, and its answers vary only with how the job is
registered. -/
theorem call {monitor : Monitor} {logging : Bool} {past past' : List (Scheduler × Move)}
    (h : Beside n a out s t) (run : Run (.initial monitor logging) past s)
    (run' : Run (.initial monitor logging) past' t) {c : Call} (hc : s.Admits n a c)
    (hk : (View.twin n a out).left.Fits (s.call b c).1) :
    Beside n a out (s.call b c).1 (t.call b (c.recast n a)).1 ∧
      Answer.Varies n s t c (s.call b c).2 (t.call b (c.recast n a)).2 := by
  have hs := run.named
  have ht := run'.named
  by_cases ho : ∃ o, c.order? = some o ∧ o.name = n
  · obtain ⟨o, ho, hn⟩ := ho
    obtain ⟨work, r, rfl, hr⟩ := hc.order o ho hn
    obtain ⟨hnew, hanswer⟩ := h.schedule (b := b) hs ht hn hr (hc.fresh _ ho hn)
      (hc.silent _ ho hn) hk
    rw [Call.recast_of_order hn]
    refine ⟨hnew, ?_⟩
    show Answer.Varies n s t _ _ (t.schedulePeriodic b _ work (some (.once a))).2
    rw [hanswer]
    exact .same _ _
  · have hboth := h.mirrors_call (b := b) hs ht hk fun o ho' hn => ho ⟨o, ho', hn⟩
    refine ⟨⟨hboth.1, hk, fun i j₁ hj₁ hn₁ => ?_⟩, hboth.2⟩
    cases hj : s.jobs[i]? with
    | some j =>
        obtain ⟨j₂, hj₂, hterms⟩ := (s.persists_call b c).jobs i j hj
        obtain rfl := Option.some_inj.mp (hj₁.symm.trans hj₂)
        obtain ⟨j₃, j₃', hj₃, hj₃', htwin⟩ := h.twins_call (b := b) run run' hc hj
          ((name_eq_of_terms hterms).symm.trans hn₁)
        obtain rfl := Option.some_inj.mp (hj₁.symm.trans hj₃)
        exact ⟨j₃', hj₃', htwin⟩
    | none =>
        obtain ⟨⟨o, ho', hname, -⟩, -⟩ := orderedBy_of_call b hj hj₁
        exact absurd ⟨o, ho', hname.symm.trans hn₁⟩ ho

theorem callOf?_other (hi : out i = false) :
    t.callOf? (.turn i) = (s.callOf? (.turn i)).map (Call.recast n a) := by
  rw [callOf?, callOf?, show t.jobs[i]? = s.jobs[i]?.map (Job.mapCalls (Call.recast n a)) from
    h.mirrors.jobs i hi]
  cases s.jobs[i]? with
  | none => rfl
  | some j => exact j.nextCall?_mapCalls _

theorem fits_made_of_right (hs : s.Named) (ht : t.Named) (hi : out i = false)
    (hstep' : t.step? i = some t') (hc : ∀ c, s.callOf? (.turn i) = some c → s.Admits n a c)
    (hr : (View.twin n a out).right.Fits t') :
    (View.twin n a out).left.Fits (s.made (some i) (s.callOf? (.turn i))) := by
  have hmade := hr.made hstep'
  rw [h.callOf?_other hi] at hmade
  cases hcalled : s.callOf? (.turn i) with
  | none => exact h.fits
  | some c =>
      rw [hcalled] at hmade
      exact h.fits_of_right hs ht (hc c hcalled) hmade

omit h in
theorem other {monitor : Monitor} {logging : Bool} {past past' : List (Scheduler × Move)}
    (h : Beside n a out s t) (run : Run (.initial monitor logging) past s)
    (run' : Run (.initial monitor logging) past' t) (hi : out i = false)
    (hstep : s.step? i = some s')
    (hk : (View.twin n a out).left.Fits (s.made (some i) (s.callOf? (.turn i))))
    (hc : ∀ c, s.callOf? (.turn i) = some c → s.Admits n a c) :
    ∃ t', t.step? i = some t' ∧ Beside n a out s' t' ∧
      ∀ c, s.callOf? (.turn i) = some c →
        Answer.Varies n s t c (s.call (some i) c).2 (t.call (some i) (c.recast n a)).2 := by
  have hcall : ∀ c, s.callOf? (.turn i) = some c →
      Beside n a out (s.call (some i) c).1 (t.call (some i) (c.recast n a)).1 ∧
        Answer.Varies n s t c (s.call (some i) c).2 (t.call (some i) (c.recast n a)).2 := by
    intro c hcall
    rw [hcall] at hk
    exact h.call run run' (hc c hcall) hk
  obtain ⟨t', hstep', hm⟩ := h.mirrors.step hi run.named h.fits (fun _ _ => id)
    (fun c hc => ⟨(hcall c hc).1.mirrors, (hcall c hc).2⟩) hstep
  have hstep' : t.step? i = some t' := hstep'
  refine ⟨t', hstep', ⟨hm, hk.of_made hstep, fun k j₁ hj₁ hn₁ => ?_⟩, fun c hc => (hcall c hc).2⟩
  have hki : i ≠ k := by
    rintro rfl
    have hout : out i = decide (j₁.record.name = n) := hk.of_made hstep i j₁ hj₁
    rw [hi, hn₁] at hout
    exact absurd hout (by simp)
  -- To the jobs called `n` the step is nothing but the call that it makes.
  have hjobs := (step_of_ne hki hstep).1
  have hjobs' := (step_of_ne hki hstep').1
  rw [h.callOf?_other hi] at hjobs'
  cases hcalled : s.callOf? (.turn i) with
  | none =>
      rw [hcalled] at hjobs hjobs'
      rw [jobs_of_situation? (s := s) hjobs] at hj₁
      rw [jobs_of_situation? (s := t) hjobs']
      exact h.twins k j₁ hj₁ hn₁
  | some c =>
      rw [hcalled] at hjobs hjobs'
      rw [jobs_of_situation? (s := (s.call (some i) c).1) hjobs] at hj₁
      rw [jobs_of_situation? (s := (t.call (some i) (c.recast n a)).1) hjobs']
      exact (hcall c hcalled).1.twins k j₁ hj₁ hn₁

theorem stall (ms : Nat) : Beside n a out (s.stall ms) (t.stall ms) :=
  ⟨h.mirrors.stall ms, h.fits, h.twins⟩

theorem shutdown : Beside n a out s.shutdown t.shutdown := by
  refine ⟨h.mirrors.shutdown, ?_, fun i j₁ hj₁ hn₁ => ?_⟩
  · exact h.fits.after s.persists_shutdown (by simp [Scheduler.shutdown])
  · simp only [Scheduler.shutdown, List.getElem?_map, Option.map_eq_some_iff] at hj₁ ⊢
    obtain ⟨j, hj, rfl⟩ := hj₁
    obtain ⟨j', hj', htwin⟩ := h.twins i j hj ((name_eq_of_terms j.terms_vanish).symm.trans hn₁)
    exact ⟨_, ⟨j', hj', rfl⟩, htwin.vanish⟩

theorem nextDeadline?_eq (stop : Int) : t.nextDeadline? stop = s.nextDeadline? stop := by
  have hdeadlines : t.jobs.map Job.deadline? = s.jobs.map Job.deadline? := by
    refine List.ext_getElem? fun i => ?_
    rw [List.getElem?_map, List.getElem?_map]
    cases hj : s.jobs[i]? with
    | none =>
        rw [h.jobs_eq_none_iff.mpr hj]
    | some j =>
        by_cases hn : j.record.name = n
        · obtain ⟨j', hj', htwin⟩ := h.twins i j hj hn
          rw [hj', Option.map_some, Option.map_some, htwin.deadline?_eq]
        · rw [show t.jobs[i]? = _ from h.mirrors.jobs i (h.visible hj hn), hj, Option.map_some,
            Option.map_some, Option.map_some, Job.deadline?_mapCalls]
  have hfilter : ∀ u : Scheduler,
      u.jobs.filterMap Job.deadline? = (u.jobs.map Job.deadline?).filterMap id := by
    intro u
    rw [List.filterMap_map]
    rfl
  rw [nextDeadline?, nextDeadline?, hfilter, hfilter, hdeadlines, h.mirrors.now]

theorem settled_iff (hb : ∀ (i : JobId) (j j' : Job), s.jobs[i]? = some j → j.record.name = n →
      t.jobs[i]? = some j' → ¬j.Behind j') : t.Settled ↔ s.Settled := by
  have hiff : ∀ i, t.step? i = none ↔ s.step? i = none := by
    intro i
    cases hj : s.jobs[i]? with
    | none =>
        simp [step?, hj, h.jobs_eq_none_iff.mpr hj]
    | some j =>
        by_cases hn : j.record.name = n
        · obtain ⟨j', hj', -⟩ := h.twins i j hj hn
          exact h.step?_eq_none_iff hj hn hj' (hb i j j' hj hn hj')
        · exact h.mirrors.step?_eq_none_iff (h.visible hj hn)
  exact forall_congr' hiff

theorem not_behind (hj : s.jobs[i]? = some j) (hn : j.record.name = n) (hj' : t.jobs[i]? = some j')
    (hnone : t.step? i = none) : ¬j.Behind j' := by
  intro hb
  obtain ⟨t', -, hstep, -⟩ := h.catchUp hj hn hj' hb
  exact absurd (hnone.symm.trans hstep) (by simp)

theorem signals_eq (hj : s.jobs[i]? = some j) (hn : j.record.name = n) (m : Move) :
    t.signals m i = s.signals m i := by
  obtain ⟨j', hj', htwin⟩ := h.twins i j hj hn
  rw [Scheduler.signals_eq (situation?_of_getElem? hj),
    Scheduler.signals_eq (situation?_of_getElem? hj')]
  congr 1
  have horphaned : t.tokens.isCancelled j'.token = s.tokens.isCancelled j.token := by
    rw [h.mirrors.tokens, htwin.token_eq]
  unfold Situation.isSignalled situate
  dsimp only
  cases htwin.stage with
  | before hp hruns hlevel =>
      rw [horphaned, hlevel]
      generalize j.phase = p, j'.phase = p', j'.asks = k at hp
      cases hp <;> rfl
  | during hp hp' => rw [hp, hp']
  | after hp hp' =>
      generalize j'.phase = p', j'.asks = k at hp'
      cases hp' <;> rw [hp]
  | ended hp hp' => rw [hp, hp']
  | gone hp' hp => rcases hp with hp | ⟨hp, -⟩ <;> rw [hp, hp']

theorem signals_of_behind (hj : s.jobs[i]? = some j) (hn : j.record.name = n)
    (hj' : t.jobs[i]? = some j') (hb : j.Behind j') (m : Move) : t.signals m i = false := by
  rcases hb with hp' | ⟨hp, -⟩
  · rw [Scheduler.signals_eq (situation?_of_getElem? hj'), Situation.isSignalled]
    simp [situate, hp']
  · rw [h.signals_eq hj hn, Scheduler.signals_eq (situation?_of_getElem? hj), Situation.isSignalled]
    simp [situate, hp]

end Beside

end Scheduler

end JobScheduler
