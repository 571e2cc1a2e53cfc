import JobScheduler.Proofs.KindAgreement.Stage

/-!
Turns of the runners of a one-off job and of its twin. The twin's runner takes some turns on its
own, before it waits and after the execution, which nobody sees (`Scheduler.Beside.catchUp`). Where
neither of the two is behind, their runners go on together (`Scheduler.Beside.together`).
-/

namespace JobScheduler

/-- Whether the second scheduler is beside the first: the same except for the jobs called `n`, which
are those of `out`, and each of these is the twin of one in the first. -/
structure Scheduler.Beside (n : String) (a : Int) (out : JobId → Bool) (s t : Scheduler) :
    Prop where
  mirrors : (View.twin n a out).Mirrors s t
  fits : (View.twin n a out).left.Fits s
  twins : ∀ (i : JobId) (j : Job), s.jobs[i]? = some j → j.record.name = n →
    ∃ j', t.jobs[i]? = some j' ∧ j.Twin a j'

/-- Whether the runner of the twin has a turn of its own to take. -/
def Job.Behind (j j' : Job) : Prop :=
  j'.phase = .looping ∨ j.phase = .returned ∧ j'.phase.alive = true

/-- How many turns of its own that is at most. -/
def Job.lag (j : Job) : Nat :=
  match j.phase with
  | .looping => 2
  | .planning .. => 1
  | _ => 0

variable {n : String} {a : Int} {out : JobId → Bool} {s s' t t' : Scheduler} {i k : JobId}
  {j j' : Job}

theorem Plan.entry_once_zero (a : Int) : (Plan.once a).entry 0 = ⟨[], .ok (.fixed a)⟩ :=
  rfl

theorem Plan.entry_once_one (a : Int) :
    (Plan.once a).entry 1 = ⟨[], .error .noMoreInstances⟩ := rfl

theorem Job.Twin.quiet (h : j.Twin a j') {c : Call} (hc : j.nextCall? = some c) :
    c.isService = false := by
  unfold Job.nextCall? at hc
  cases h.stage with
  | before hp =>
      generalize j.phase = p, j'.phase = p', j'.asks = asks at hp hc
      cases hp <;> exact absurd hc (by simp)
  | during hp _ _ _ hno =>
      rw [hp] at hc
      obtain ⟨tail, rfl⟩ := Scheduler.call?_eq_some hc
      exact hno c List.mem_cons_self
  | after hp => exact absurd hc (by simp [hp])
  | ended hp => exact absurd hc (by simp [hp])
  | gone _ hp => rcases hp with hp | ⟨hp, -⟩ <;> exact absurd hc (by simp [hp])

theorem Job.Twin.quiet_twin (h : j.Twin a j') {c : Call} (hc : j'.nextCall? = some c) :
    c.isService = false := by
  unfold Job.nextCall? at hc
  cases h.stage with
  | before hp =>
      generalize j.phase = p, j'.phase = p', j'.asks = asks at hp hc
      cases hp <;> exact absurd hc (by simp [Action.call?])
  | during _ hp' _ _ hno =>
      rw [hp'] at hc
      obtain ⟨tail, rfl⟩ := Scheduler.call?_eq_some hc
      exact hno c List.mem_cons_self
  | after _ hp' =>
      generalize j'.phase = p', j'.asks = asks at hp' hc
      cases hp' <;> exact absurd hc (by simp [Action.call?])
  | ended _ hp' => exact absurd hc (by simp [hp'])
  | gone hp' => exact absurd hc (by simp [hp'])

theorem View.Mirrors.length_twin (h : (View.twin n a out).Mirrors s t) :
    t.jobs.length = s.jobs.length := h.length

namespace Scheduler

theorem map_job_situation? (s : Scheduler) (i : JobId) :
    (s.situation? i).map Situation.job = s.jobs[i]? := by
  rw [situation?, Option.map_map]
  exact Option.map_id_fun ▸ rfl

theorem jobs_of_situation? (h : s'.situation? i = s.situation? i) : s'.jobs[i]? = s.jobs[i]? := by
  rw [← map_job_situation?, h, map_job_situation?]

theorem jobs_token (b : Option JobId) {c : Call} (hc : c.isService = false) :
    (s.call b c).1.jobs = s.jobs := by
  cases c <;> first | rfl | exact absurd hc (by simp [Call.isService])

theorem jobs_act (j : Job) {action : Action} (h : ∀ c, action = .call c → c.isService = false) :
    (s.act i j action).1.jobs = s.jobs := by
  cases action with
  | call c => exact jobs_token (some i) (h c rfl)
  | _ => rfl

theorem jobs_of_step (h : s.step? i = some s')
    (hquiet : ∀ c, s.callOf? (.turn i) = some c → c.isService = false) (hk : i ≠ k) :
    s'.jobs[k]? = s.jobs[k]? := by
  have hsit := (step_of_ne hk h).1
  cases hc : s.callOf? (.turn i) with
  | none =>
      rw [hc] at hsit
      exact jobs_of_situation? hsit
  | some c =>
      rw [hc] at hsit
      rw [jobs_of_situation? hsit]
      exact congrArg (·[k]?) (jobs_token (some i) (hquiet c hc))

namespace Beside

theorem twin (h : Beside n a out s t) (hj : s.jobs[i]? = some j) (hn : j.record.name = n)
    (hj' : t.jobs[i]? = some j') : j.Twin a j' := by
  obtain ⟨j₁, hj₁, htwin⟩ := h.twins i j hj hn
  obtain rfl : j' = j₁ := Option.some_inj.mp (hj'.symm.trans hj₁)
  exact htwin

theorem covered (h : Beside n a out s t) (hj : s.jobs[i]? = some j) (hn : j.record.name = n) :
    out i = true := by
  rw [show out i = decide (j.record.name = n) from h.fits i j hj, hn]
  simp

theorem visible (h : Beside n a out s t) (hj : s.jobs[i]? = some j) (hn : j.record.name ≠ n) :
    out i = false :=
  (h.fits i j hj).trans (decide_eq_false hn)

theorem jobs_eq_none_iff (h : Beside n a out s t) : t.jobs[i]? = none ↔ s.jobs[i]? = none := by
  rw [List.getElem?_eq_none_iff, List.getElem?_eq_none_iff, h.mirrors.length_twin]

theorem exists_left (h : Beside n a out s t) (hj' : t.jobs[i]? = some j') :
    ∃ j, s.jobs[i]? = some j := by
  cases hj : s.jobs[i]? with
  | some j => exact ⟨j, rfl⟩
  | none => exact absurd (hj'.symm.trans (h.jobs_eq_none_iff.mpr hj)) (by simp)

theorem fits_right (h : Beside n a out s t) : (View.twin n a out).right.Fits t := by
  intro i j' hj'
  obtain ⟨j, hj⟩ := h.exists_left hj'
  have hout : out i = decide (j.record.name = n) := h.fits i j hj
  show out i = decide (j'.record.name = n)
  by_cases hn : j.record.name = n
  · rw [hout, (h.twin hj hn hj').name_eq]
  · have hsame := h.mirrors.jobs i (h.visible hj hn)
    rw [hj, Option.map_some] at hsame
    obtain rfl := Option.some_inj.mp (hj'.symm.trans hsame)
    exact hout

theorem turned (h : Beside n a out s t) (hj : s.jobs[i]? = some j) (hn : j.record.name = n)
    (hm : (View.twin n a out).Mirrors s' t') (hs : ∀ k, i ≠ k → s'.jobs[k]? = s.jobs[k]?)
    (ht : ∀ k, i ≠ k → t'.jobs[k]? = t.jobs[k]?) {w w' : Situation} (hw : s'.situation? i = some w)
    (hw' : t'.situation? i = some w') (hname : w.job.record.name = n)
    (htwin : w.job.Twin a w'.job) : Beside n a out s' t' := by
  have hj₁ := (situation?_eq_some.mp hw).1
  have hj₁' := (situation?_eq_some.mp hw').1
  refine ⟨hm, fun k job hk => ?_, fun k job hk hjob => ?_⟩
  · by_cases hik : i = k
    · subst hik
      obtain rfl := Option.some_inj.mp (hk.symm.trans hj₁)
      rw [show (View.twin n a out).left.jobs i = true from h.covered hj hn, hname]
      exact (decide_eq_true rfl).symm
    · exact h.fits k job ((hs k hik).symm.trans hk)
  · by_cases hik : i = k
    · subst hik
      obtain rfl := Option.some_inj.mp (hk.symm.trans hj₁)
      exact ⟨w'.job, hj₁', htwin⟩
    · rw [ht k hik]
      exact h.twins k job ((hs k hik).symm.trans hk) hjob

section

variable (h : Beside n a out s t) (hj : s.jobs[i]? = some j) (hn : j.record.name = n)
  (hj' : t.jobs[i]? = some j')
include h hj hn hj'

theorem turned_right {w' : Situation} (hstep : t.step? i = some t')
    (hsame : (View.twin n a out).right.Same t t') (hw' : t'.situation? i = some w')
    (htwin : j.Twin a w'.job) : Beside n a out s t' := by
  have hquiet : ∀ c, t.callOf? (.turn i) = some c → c.isService = false := by
    intro c hc
    rw [callOf?_turn (situation?_of_getElem? hj')] at hc
    exact (h.twin hj hn hj').quiet_twin hc
  exact h.turned hj hn (h.mirrors.right hsame) (fun _ _ => rfl)
    (fun k hk => jobs_of_step hstep hquiet hk) (situation?_of_getElem? hj) hw' hn htwin

theorem asks {result : Except RuntimeError Moment} (hp : j'.phase = .looping)
    (he : (Plan.once a).entry j'.asks = ⟨[], result⟩)
    (hstage : j.Stage a { j' with asks := j'.asks + 1, phase := .planning .none [] result }) :
    ∃ t' j₁', t.step? i = some t' ∧ Beside n a out s t' ∧ t'.jobs[i]? = some j₁' ∧
      j₁'.lag < j'.lag := by
  have htwin := h.twin hj hn hj'
  have hv' := situation?_of_getElem? hj'
  have hi : (View.twin n a out).right.jobs i = true := h.covered hj hn
  have hstep : t.step? i = some (t.ask i j') := by simp only [step?, hj', hp]
  have hw := situation?_ask hv'
  have hjob : (t.situate i j').ask.job =
      { j' with asks := j'.asks + 1, phase := .planning .none [] result } := by
    have hentry : j'.plan.entry j'.asks = ⟨[], result⟩ := by rw [htwin.plan_eq, he]
    simp only [Situation.ask, Situation.update, situate, hentry, Action.opened]
  refine ⟨_, _, hstep, ?_, (situation?_eq_some.mp hw).1, ?_⟩
  · refine h.turned_right hj hn hj' hstep ((Cover.Same.refl t).ask hi) hw ?_
    rw [hjob]
    exact htwin.change rfl rfl htwin.runs hstage
  · rw [hjob, Job.lag, Job.lag, hp]
    exact Nat.lt_succ_self 1

theorem closes (hp : j'.phase = .planning .none [] (.error .noMoreInstances))
    (hended : j.phase = .returned) :
    ∃ t' j₁', t.step? i = some t' ∧ Beside n a out s t' ∧ t'.jobs[i]? = some j₁' ∧
      j₁'.lag < j'.lag := by
  have htwin := h.twin hj hn hj'
  have hi : (View.twin n a out).right.jobs i = true := h.covered hj hn
  have hname : j'.record.name = (View.twin n a out).right.name := htwin.name_eq.trans hn
  have hstep : t.step? i = some ((t.log (some i) .noMoreInstances).retire i j') := by
    simp only [step?, hj', hp, isOver, if_true, planOn]
  have hw := situation?_retire (s := t.log (some i) .noMoreInstances)
    ((t.situation?_log _ _ _).trans (situation?_of_getElem? hj'))
  refine ⟨_, _, hstep, ?_, (situation?_eq_some.mp hw).1, ?_⟩
  · refine h.turned_right hj hn hj' hstep (((Cover.Same.refl t).log_own hi _).retire hi hname) hw ?_
    exact htwin.change rfl rfl htwin.runs (.ended hended rfl)
  · rw [Job.lag, Job.lag, hp]
    exact Nat.lt_succ_self 0

/-- A turn that only the twin's runner takes is not seen, and brings it nearer. -/
theorem catchUp (hb : j.Behind j') :
    ∃ t' j₁', t.step? i = some t' ∧ Beside n a out s t' ∧ t'.jobs[i]? = some j₁' ∧
      j₁'.lag < j'.lag := by
  have htwin := h.twin hj hn hj'
  cases htwin.stage with
  | before hp hruns hlevel =>
      -- The phases become variables, as `hp` says only together what they are.
      generalize hphase : j.phase = p, hphase' : j'.phase = p', hasks : j'.asks = k at hp
      cases hp with
      | begun =>
          refine h.asks hj hn hj' hphase' (by rw [hasks, Plan.entry_once_zero]) ?_
          refine .before ?_ hruns hlevel
          rw [hphase, hasks]
          exact .asked
      | asked => rcases hb with hb | ⟨hb, -⟩ <;> simp [hphase, hphase'] at hb
      | waiting timer => rcases hb with hb | ⟨hb, -⟩ <;> simp [hphase, hphase'] at hb
  | during hp hp' => rcases hb with hb | ⟨hb, -⟩ <;> simp [hp, hp'] at hb
  | after hp hp' hruns =>
      generalize hphase' : j'.phase = p', hasks : j'.asks = k at hp'
      cases hp' with
      | back =>
          refine h.asks hj hn hj' hphase' (by rw [hasks, Plan.entry_once_one]) ?_
          refine .after hp ?_ hruns
          rw [hasks]
          exact .asked
      | asked => exact h.closes hj hn hj' hphase' hp
  | ended _ hp' => rcases hb with hb | ⟨-, hb⟩ <;> simp [hp', Phase.alive] at hb
  | gone hp' => rcases hb with hb | ⟨-, hb⟩ <;> simp [hp', Phase.alive] at hb

end

end Beside

end Scheduler

theorem Job.Twin.started (h : j.Twin a j') (hasks : j'.asks = 1) {f g : Record → Record}
    (hf : ∀ r, (f r).label = r.label) (hg : ∀ r, (g r).label = r.label) :
    ({ j with
      record := f j.record
      runs := j.runs + 1
      phase := .running a .none (Action.opened (j.work.body j.runs)) } : Job).Twin a
      { j' with
        record := g j'.record
        runs := j'.runs + 1
        phase := .running a .none (Action.opened (j'.work.body j'.runs)) } := by
  refine h.change (j.terms_record f hf) (j'.terms_record g hg) (congrArg (· + 1) h.runs) ?_
  rw [h.work_eq, h.runs]
  refine .during rfl rfl hasks (Nat.succ_ne_zero _) fun c hc => ?_
  exact h.silent c (Work.mem_flatten (Action.call_mem_opened hc))

namespace View.Mirrors

variable (h : (View.twin n a out).Mirrors s t) (hi : out i = true) (htwin : j.Twin a j')
include h hi

omit hi in
theorem varies : Answer.Varies n s t .names (.list s.names) (.list t.names) ∧
    Answer.Varies n s t .describe (.text s.describe) (.text t.describe) := by
  refine ⟨.names h.names, .count ?_⟩
  have hnames := congrArg List.length h.names_of_kept
  rw [List.length_map, List.length_map] at hnames
  exact hnames

omit hi in
include htwin in
theorem waking?_twin (hlevel : j'.record = j.record.twin) (timer : Option Int) :
    t.waking? j' timer = s.waking? j timer := by
  rw [Scheduler.waking?, Scheduler.waking?, h.tokens, h.now, htwin.token_eq, hlevel]
  rfl

omit hi in
include htwin in
theorem isOver_twin (pause : Pause) : t.isOver j' pause = s.isOver j pause := by
  cases pause with
  | none => rfl
  | clock deadline => rw [Scheduler.isOver, Scheduler.isOver, h.now]
  | token => rw [Scheduler.isOver, Scheduler.isOver, h.tokens, htwin.token_eq]

include htwin in
theorem start_twin (instant : Int) (trigger : Trigger) :
    (View.twin n a out).Mirrors (s.start i j instant trigger) (t.start i j' instant trigger) := by
  unfold Scheduler.start
  rw [htwin.cls_eq, htwin.counter_eq, h.counts _ id]
  have hreport :=
    h.report (a := some i) (i := i) (fun _ _ => rfl) rfl j.record.cls (.started trigger)
  have hemit := (hreport.setCount j.counter (s.count j.counter + 1)).emit_same (a := some i)
    (fun _ _ => rfl) (w := .started (s.count j.counter + 1)) nofun
  exact (hemit.left ((Cover.Same.refl _).updateJob hi _)).right ((Cover.Same.refl _).updateJob hi _)

omit hi in
include htwin in
theorem act_twin (hs : s.Named) (ht : t.Named) (hk : (View.twin n a out).left.Fits s)
    (hr : (View.twin n a out).right.Fits t) {action : Action}
    (hquiet : ∀ c, action = .call c → c.isService = false) :
    (View.twin n a out).Mirrors (s.act i j action).1 (t.act i j' action).1 ∧
      (t.act i j' action).2 = (s.act i j action).2 := by
  have hplain : ∀ c : Call, c.isService = false → c.order? = none ∧ c.named? = none := by
    intro c hc
    cases c <;> first | exact ⟨rfl, rfl⟩ | exact absurd hc (by simp [Call.isService])
  have hsame : action.mapCalls (Call.recast n a) = action := by
    cases action with
    | call c => exact congrArg Action.call (Call.recast_of_plain (hplain c (hquiet c rfl)).1)
    | _ => rfl
  have htoken : t.act i j' action = t.act i (j.mapCalls (Call.recast n a)) action := by
    cases action with
    | context =>
        simp only [Scheduler.act]
        rw [htwin.token_eq]
        rfl
    | _ => rfl
  have hact := h.act (i := i) rfl j action (by
    rintro c rfl
    have hc := hquiet c rfl
    have hjobs := Scheduler.jobs_token (s := s) (some i) hc
    have hk' : (View.twin n a out).left.Fits (s.call (some i) c).1 := by
      intro k job hj
      rw [hjobs] at hj
      exact hk k job hj
    refine h.call hs ht hr (a := some i) (fun _ _ => rfl) hk' ?_ h.varies.1 h.varies.2
    rw [(hplain c hc).2]
    simp)
  rw [show (View.twin n a out).call = Call.recast n a from rfl, hsame] at hact
  rw [htoken]
  exact hact

include htwin in
theorem runOn_twin (hs : s.Named) (ht : t.Named) (hk : (View.twin n a out).left.Fits s)
    (hr : (View.twin n a out).right.Fits t) (instant : Int) {rest : List Action}
    (hquiet : ∀ c, .call c ∈ rest → c.isService = false) :
    (View.twin n a out).Mirrors (s.runOn i j instant rest) (t.runOn i j' instant rest) := by
  have hboth : ∀ {s₁ t₁ : Scheduler}, (View.twin n a out).Mirrors s₁ t₁ →
      (View.twin n a out).Mirrors (s₁.complete i j instant) (t₁.complete i j' instant) := by
    intro s₁ t₁ h
    exact (h.left ((Cover.Same.refl s₁).complete hi instant)).right
      ((Cover.Same.refl t₁).complete hi instant)
  cases rest with
  | nil => exact hboth (h.emit_same (a := some i) (fun _ _ => rfl) (w := .ended) nofun)
  | cons action rest =>
      cases hover : Action.over (action :: rest) with
      | true =>
          cases action with
          | panic payload =>
              exact hboth (h.log (a := some i) (fun _ _ => rfl) (.jobPanicked payload))
          | _ => exact absurd hover (by simp [Action.over])
      | false =>
          have hquiet' : ∀ c, action = .call c → c.isService = false := by
            rintro c rfl
            exact hquiet c List.mem_cons_self
          obtain ⟨hact, hpause⟩ := h.act_twin (i := i) htwin hs ht hk hr hquiet'
          rw [Scheduler.runOn_of_action hover, Scheduler.runOn_of_action hover, hpause]
          exact (hact.left ((Cover.Same.refl _).setPhase hi _)).right
            ((Cover.Same.refl _).setPhase hi _)

end View.Mirrors

namespace Scheduler

theorem pending_of_timer {timer : Option Int} (h : s.waking? j timer = some .timer) :
    j.record.running.pending = false := by
  unfold waking? at h
  split at h
  · exact absurd h (by simp)
  · split at h
    · exact absurd h (by simp)
    · split at h
      · exact absurd h (by simp)
      · rename_i hempty
        exact Bool.eq_false_iff.mpr hempty

namespace Beside

variable (h : Beside n a out s t) (hj : s.jobs[i]? = some j) (hn : j.record.name = n)
  (hj' : t.jobs[i]? = some j')
include h hj hn hj'

theorem turned_both (hstep : s.step? i = some s') (hstep' : t.step? i = some t')
    (hm : (View.twin n a out).Mirrors s' t') {w w' : Situation} (hw : s'.situation? i = some w)
    (hw' : t'.situation? i = some w') (htwin : w.job.Twin a w'.job) : Beside n a out s' t' := by
  have hold := h.twin hj hn hj'
  have hquiet : ∀ c, s.callOf? (.turn i) = some c → c.isService = false := by
    intro c hc
    rw [callOf?_turn (situation?_of_getElem? hj)] at hc
    exact hold.quiet hc
  have hquiet' : ∀ c, t.callOf? (.turn i) = some c → c.isService = false := by
    intro c hc
    rw [callOf?_turn (situation?_of_getElem? hj')] at hc
    exact hold.quiet_twin hc
  obtain ⟨j₁, hj₁, hterms⟩ := terms_of_move (m := .turn i) hstep hj
  obtain rfl := Option.some_inj.mp (hj₁.symm.trans (situation?_eq_some.mp hw).1)
  exact h.turned hj hn hm (fun k hk => jobs_of_step hstep hquiet hk)
    (fun k hk => jobs_of_step hstep' hquiet' hk) hw hw' ((name_eq_of_terms hterms).trans hn) htwin

theorem await_both (hp : j.phase = .spawned a)
    (hp' : j'.phase = .planning .none [] (.ok (.fixed a))) (hasks : j'.asks = 1)
    (hruns : j.runs = 0) (hlevel : j'.record = j.record.twin) (hstep : s.step? i = some s') :
    ∃ t', t.step? i = some t' ∧ Beside n a out s' t' := by
  have htwin := h.twin hj hn hj'
  have hi : out i = true := h.covered hj hn
  obtain rfl : s.await i a = s' := by simpa only [step?, hj, hp, Option.some_inj] using hstep
  have hstep' : t.step? i = some ((t.log (some i) (.nextScheduled a)).await i a) := by
    simp only [step?, hj', hp', isOver, if_true, planOn, Moment.resolve]
  have hw := situation?_await (situation?_of_getElem? hj) a
  have hw' := situation?_await (s := t.log (some i) (.nextScheduled a))
    ((t.situation?_log _ _ _).trans (situation?_of_getElem? hj')) a
  refine ⟨_, hstep', h.turned_both hj hn hj' hstep hstep' ?_ hw hw' ?_⟩
  · exact (h.mirrors.left ((Cover.Same.refl s).await hi a)).right
      (((Cover.Same.refl t).log_own hi _).await hi a)
  · have hnow : (t.situate i j').now = (s.situate i j).now := h.mirrors.now
    unfold Situation.await
    rw [hnow]
    split
    · refine htwin.change rfl rfl htwin.runs (.before ?_ hruns hlevel)
      show Phase.Heading a _ _ j'.asks
      rw [hasks]
      exact .waiting _
    · exact htwin.vanish

theorem wake_both {timer : Option Int} (hsound : (s.situate i j).Sound)
    (hp : j.phase = .waiting a timer) (hp' : j'.phase = .waiting a timer) (hasks : j'.asks = 1)
    (hlevel : j'.record = j.record.twin) (hstep : s.step? i = some s') :
    ∃ t', t.step? i = some t' ∧ Beside n a out s' t' := by
  have htwin := h.twin hj hn hj'
  have hi : out i = true := h.covered hj hn
  have hn' : j'.record.name = n := htwin.name_eq.trans hn
  have hv := situation?_of_getElem? hj
  have hv' := situation?_of_getElem? hj'
  have ht := hsound.tended_of_alive (by rw [show (s.situate i j).job.phase = _ from hp]; rfl)
  have hwaking := h.mirrors.waking?_twin htwin hlevel timer
  simp only [step?, hj, hp, Option.map_eq_some_iff] at hstep
  obtain ⟨w, hw, rfl⟩ := hstep
  have hstep : s.step? i = some (s.wake i j a w) := by
    simp only [step?, hj, hp, hw, Option.map_some]
  have hstep' : t.step? i = some (t.wake i j' a w) := by
    simp only [step?, hj', hp', hwaking, hw, Option.map_some]
  refine ⟨_, hstep', ?_⟩
  cases w with
  | parent =>
      refine h.turned_both hj hn hj' hstep hstep' ?_ (situation?_wake_parent hv a)
        (situation?_wake_parent hv' a) (htwin.change rfl rfl htwin.runs (.ended rfl rfl))
      exact (h.mirrors.left (((Cover.Same.refl s).log_own hi _).retire hi hn)).right
        (((Cover.Same.refl t).log_own hi _).retire hi hn')
  | cancel =>
      refine h.turned_both hj hn hj' hstep hstep' ?_ (situation?_wake_cancel hv a)
        (situation?_wake_cancel hv' a) (htwin.change rfl rfl htwin.runs (.ended rfl rfl))
      exact (h.mirrors.left ((((Cover.Same.refl s).updateRecord hi _).log_own hi _).stop hi)).right
        ((((Cover.Same.refl t).updateRecord hi _).log_own hi _).stop hi)
  | signal =>
      refine h.turned_both hj hn hj' hstep hstep' ?_ (situation?_wake_signal hv a)
        (situation?_wake_signal hv' a)
        (htwin.started hasks Record.label_takeRun Record.label_takeRun)
      have hm := (h.mirrors.left (((Cover.Same.refl s).updateRecord hi Record.takeRun).log_own hi
        (.runTriggered a))).right (((Cover.Same.refl t).updateRecord hi Record.takeRun).log_own hi
        (.runTriggered a))
      exact hm.start_twin hi htwin a .signal
  | timer =>
      have hidle : j.record.active = false := by
        have hactive : j.record.active = (j.phase.isRunning || j.record.running.pending) :=
          ht.active
        rw [hactive, hp, pending_of_timer hw]
        rfl
      have hidle' : j'.record.active = false := by rw [hlevel]; exact hidle
      refine h.turned_both hj hn hj' hstep hstep' ?_ (situation?_wake_timer hv hidle a)
        (situation?_wake_timer hv' hidle' a)
        (htwin.started hasks Record.label_tryActivate Record.label_tryActivate)
      rw [wake_timer_of_inactive hj hidle, wake_timer_of_inactive hj' hidle', htwin.kind,
        htwin.periodic_eq, hn]
      have hm := (h.mirrors.left ((((Cover.Same.refl s).updateRecord hi
        (·.tryActivate.1)).remove (a := some i) (i := i)).log_own hi (.timerTriggered a))).right
        (((Cover.Same.refl t).updateRecord hi (·.tryActivate.1)).log_own hi (.timerTriggered a))
      exact hm.start_twin hi htwin a .timer

theorem run_both (hs : s.Named) (ht : t.Named) {pause : Pause} {rest : List Action}
    (hp : j.phase = .running a pause rest) (hp' : j'.phase = .running a pause rest)
    (hasks : j'.asks = 1) (hruns : j.runs ≠ 0) (hquiet : ∀ c, .call c ∈ rest → c.isService = false)
    (hstep : s.step? i = some s') : ∃ t', t.step? i = some t' ∧ Beside n a out s' t' := by
  have htwin := h.twin hj hn hj'
  have hi : out i = true := h.covered hj hn
  have hv := situation?_of_getElem? hj
  have hv' := situation?_of_getElem? hj'
  have hover := h.mirrors.isOver_twin htwin pause
  simp only [step?, hj, hp, Option.ite_none_right_eq_some, Option.some_inj] at hstep
  obtain ⟨hpause, rfl⟩ := hstep
  have hstep : s.step? i = some (s.runOn i j a rest) := by
    simp only [step?, hj, hp, hpause, if_true]
  have hstep' : t.step? i = some (t.runOn i j' a rest) := by
    simp only [step?, hj', hp', hover, hpause, if_true]
  refine ⟨_, hstep', ?_⟩
  have hm := h.mirrors.runOn_twin hi htwin hs ht h.fits h.fits_right a hquiet
  -- The one is at its end after the execution, and the other starts over.
  have hend : ∀ {s₁ t₁ : Scheduler}, s₁.situation? i = some (s.situate i j) →
      t₁.situation? i = some (t.situate i j') → ∃ w w', (s₁.complete i j a).situation? i = some w ∧
        (t₁.complete i j' a).situation? i = some w' ∧ w.job.Twin a w'.job := by
    intro s₁ t₁ hv₁ hv₁'
    refine ⟨_, _, situation?_complete hv₁ a, situation?_complete hv₁' a, ?_⟩
    unfold Situation.complete
    have hkind : (s.situate i j).job.record.periodic = false := htwin.kind
    have hkind' : (t.situate i j').job.record.periodic = true := htwin.periodic_eq
    rw [if_neg (Bool.eq_false_iff.mp hkind), if_pos hkind']
    refine htwin.change rfl rfl htwin.runs (.after rfl ?_ hruns)
    show Phase.Closing .looping j'.asks
    rw [hasks]
    exact .back
  have hjobs : ∃ w w', (s.runOn i j a rest).situation? i = some w ∧
      (t.runOn i j' a rest).situation? i = some w' ∧ w.job.Twin a w'.job := by
    cases rest with
    | nil => exact hend hv hv'
    | cons action rest =>
        cases hover : Action.over (action :: rest) with
        | true =>
            cases action with
            | panic payload =>
                exact hend ((s.situation?_log _ _ _).trans hv) ((t.situation?_log _ _ _).trans hv')
            | _ => exact absurd hover (by simp [Action.over])
        | false =>
            have hq : ∀ c, action = .call c → c.isService = false := by
              rintro c rfl
              exact hquiet c List.mem_cons_self
            have hj₁ : (s.act i j action).1.jobs[i]? = some j := by rw [jobs_act j hq, hj]
            have hj₁' : (t.act i j' action).1.jobs[i]? = some j' := by rw [jobs_act j' hq, hj']
            obtain ⟨-, hpause⟩ := h.mirrors.act_twin htwin hs ht h.fits h.fits_right (i := i) hq
            rw [runOn_of_action hover, runOn_of_action hover, hpause]
            refine ⟨_, _, (situation?_setPhase _ _).trans (congrArg _ (situation?_of_getElem? hj₁)),
              (situation?_setPhase _ _).trans (congrArg _ (situation?_of_getElem? hj₁')), ?_⟩
            refine htwin.change rfl rfl htwin.runs (.during rfl rfl hasks hruns fun c hc => ?_)
            exact hquiet c (List.mem_cons_of_mem _ hc)
  obtain ⟨w, w', hw, hw', hnew⟩ := hjobs
  exact h.turned_both hj hn hj' hstep hstep' hm hw hw' hnew

/-- Where the twin is not behind, the runners go on together. -/
theorem together (hs : s.Named) (ht : t.Named) (hsound : (s.situate i j).Sound)
    (hb : ¬j.Behind j') (hstep : s.step? i = some s') :
    ∃ t', t.step? i = some t' ∧ Beside n a out s' t' := by
  cases (h.twin hj hn hj').stage with
  | before hp hruns hlevel =>
      generalize hphase : j.phase = p, hphase' : j'.phase = p', hasks : j'.asks = asks at hp
      cases hp with
      | begun => exact absurd (.inl hphase') hb
      | asked => exact h.await_both hj hn hj' hphase hphase' hasks hruns hlevel hstep
      | waiting timer => exact h.wake_both hj hn hj' hsound hphase hphase' hasks hlevel hstep
  | during hp hp' hasks hruns hquiet =>
      exact h.run_both hj hn hj' hs ht hp hp' hasks hruns hquiet hstep
  | after hp => exact absurd hstep (by simp [step?, hj, hp])
  | ended hp => exact absurd hstep (by simp [step?, hj, hp])
  | gone _ hp => rcases hp with hp | ⟨hp, -⟩ <;> exact absurd hstep (by simp [step?, hj, hp])

theorem step?_eq_none_iff (hb : ¬j.Behind j') : t.step? i = none ↔ s.step? i = none := by
  have htwin := h.twin hj hn hj'
  unfold step?
  rw [hj, hj']
  cases htwin.stage with
  | before hp hruns hlevel =>
      generalize hphase : j.phase = p, hphase' : j'.phase = p', hasks : j'.asks = asks at hp
      cases hp with
      | begun => exact absurd (.inl hphase') hb
      | asked => simp [hphase, hphase', isOver]
      | waiting timer => simp [hphase, hphase', h.mirrors.waking?_twin htwin hlevel]
  | during hp hp' =>
      simp [hp, hp', h.mirrors.isOver_twin htwin]
  | after hp hp' => exact absurd (.inr ⟨hp, hp'.alive⟩) hb
  | ended hp hp' => simp [hp, hp']
  | gone hp' hp => rcases hp with hp | ⟨hp, -⟩ <;> simp [hp, hp']

end Beside

end Scheduler

end JobScheduler
