import JobScheduler.Proofs.KindAgreement.Call

/-!
The two kinds of runners agree. If a script schedules a job once at most, as a one-off job, then a
script that schedules its twin instead, a periodic job with the one instance, has the same
executions of it, and everything else goes on the same (`Performance.kinds_agree`). Every
performance of the one script is matched by one of the other, and the other way round.
-/

namespace JobScheduler

/-- Whether a move is a turn of one of the runners of `out`. -/
def Move.turnsOf (out : JobId → Bool) : Move → Bool
  | .turn i => out i
  | _ => false

/-- Whether the second scheduler is the same except for what a view covers. -/
structure Alongside (v : View) (s t : Scheduler) : Prop extends v.Mirrors s t where
  registered : ∀ name, name ≠ v.left.name → t.isRegistered name = s.isRegistered name
  active : ∀ name, name ≠ v.left.name → t.isActive name = s.isActive name

/-- Whether a move of the second run is the same as one of the first, from the same state and with
the same outcome of its call, except for what a view covers. -/
structure Accompanies (v : View) (e e' : Scheduler × Move) : Prop where
  move : e'.2 = v.move e.2
  state : Alongside v e.1 e'.1
  reply : ∀ c, e.1.callOf? e.2 = some c →
    v.replies e.1 e'.1 c (e.1.call (Scheduler.actorOf e.2) c).2
      (e'.1.call (Scheduler.actorOf e'.2) (v.call c)).2

/-- Whether two runs are the same except for the turns of a job's runner and its twin's, which are
started on a signal as often. -/
structure Aligned (n : String) (a : Int) (out : JobId → Bool)
    (past past' : List (Scheduler × Move)) : Prop where
  moves : List.Forall₂ (Accompanies (.twin n a out)) (past.filter fun e => !e.2.turnsOf out)
    (past'.filter fun e => !e.2.turnsOf out)
  signalled : ∀ i, out i = true → Run.signalled past' i = Run.signalled past i

variable {n : String} {r : Moment} {a : Int} {out : JobId → Bool} {monitor : Monitor}
  {logging : Bool} {steps : List Step} {past past' : List (Scheduler × Move)} {s t : Scheduler}
  {i : JobId} {j j' : Job} {m m' : Move} {c : Call}

namespace Aligned

theorem signals_of_ne {k : JobId} (hki : k ≠ i) (s : Scheduler) :
    s.signals (.turn k) i = false := by
  unfold Scheduler.signals
  cases s.jobs[i]? with
  | none => rfl
  | some job => simp [hki]

theorem signals_of_other (h : m.turnsOf out = false) (hi : out i = true) (s : Scheduler) :
    s.signals m i = false := by
  cases m with
  | turn k =>
      refine signals_of_ne ?_ s
      rintro rfl
      exact absurd (h.symm.trans hi) Bool.false_ne_true
  | _ => rfl

theorem both (h : Aligned n a out past past') (hm : m.turnsOf out = false)
    (hacc : Accompanies (.twin n a out) (s, m) (t, m')) :
    Aligned n a out ((s, m) :: past) ((t, m') :: past') := by
  have hm' : m'.turnsOf out = false := by
    rw [show m' = (View.twin n a out).move m from hacc.move]
    cases m <;> exact hm
  refine ⟨?_, fun i hi => ?_⟩
  · rw [List.filter_cons_of_pos (by simp [hm]), List.filter_cons_of_pos (by simp [hm'])]
    exact .cons hacc h.moves
  · rw [Run.signalled_cons, Run.signalled_cons, h.signalled i hi, signals_of_other hm hi,
      signals_of_other hm' hi]

theorem uncalled (h : Aligned n a out past past') (hm : m.turnsOf out = false)
    (hcall : s.callOf? m = none) (hmove : (View.twin n a out).move m = m)
    (hst : Alongside (.twin n a out) s t) : Aligned n a out ((s, m) :: past) ((t, m) :: past') := by
  refine h.both hm ⟨hmove.symm, hst, fun c hc => ?_⟩
  exact absurd (hcall.symm.trans hc) (by simp)

theorem own (h : Aligned n a out past past') (hi : out i = true)
    (hsignals : t.signals (.turn i) i = s.signals (.turn i) i) :
    Aligned n a out ((s, .turn i) :: past) ((t, .turn i) :: past') := by
  refine ⟨?_, fun k hk => ?_⟩
  · rw [List.filter_cons_of_neg (by simp [Move.turnsOf, hi]),
      List.filter_cons_of_neg (by simp [Move.turnsOf, hi])]
    exact h.moves
  · rw [Run.signalled_cons, Run.signalled_cons, h.signalled k hk]
    by_cases hik : i = k
    · subst hik
      rw [hsignals]
    · rw [signals_of_ne hik, signals_of_ne hik]

theorem alone (h : Aligned n a out past past') (hi : out i = true)
    (hsignals : t.signals (.turn i) i = false) :
    Aligned n a out past ((t, .turn i) :: past') := by
  refine ⟨?_, fun k hk => ?_⟩
  · rw [List.filter_cons_of_neg (by simp [Move.turnsOf, hi])]
    exact h.moves
  · rw [Run.signalled_cons, h.signalled k hk]
    by_cases hik : i = k
    · subst hik
      rw [hsignals]
      rfl
    · rw [signals_of_ne hik]
      rfl

end Aligned

namespace Scheduler

theorem admits_of_left (ho : OneOff n r steps) (hmakes : Makes steps c)
    (run : Run (.initial monitor logging) past s) (hplain : Run.Plain n r a ((s, m) :: past))
    (hc : s.callOf? m = some c) : s.Admits n a c where
  order o ho' hn := by
    obtain ⟨work, rfl⟩ := ho.order c o hmakes ho' hn
    exact ⟨work, r, rfl, hplain.due _ List.mem_cons_self (orders_iff.mpr ⟨_, o, hc, ho', hn⟩)⟩
  fresh o ho' hn _ _ hj := hplain.fresh run (orders_iff.mpr ⟨c, o, hc, ho', hn⟩) hj
  silent o ho' hn := ho.silent c o hmakes ho' hn
  unstopped hcancel := hplain.unstopped _ List.mem_cons_self c hc hcancel

namespace Beside

theorem pending_of_twin (h : Beside n a out s t) (run : Run (.initial monitor logging) past s)
    (hj : s.jobs[i]? = some j) (hn : j.record.name = n) (hj' : t.jobs[i]? = some j')
    (hruns : j.runs = 0) (hempty : j'.record.running.pending = false) :
    j.record.running.pending = false := by
  have hsound := run.sound (situation?_of_getElem? hj)
  cases (h.twin hj hn hj').stage with
  | before _ _ hlevel =>
      rw [hlevel] at hempty
      exact hempty
  | during _ _ _ hsome => exact absurd hruns hsome
  | after _ _ hsome => exact absurd hruns hsome
  | ended hp => exact congrArg Channel.pending (hsound.ended_of_returned hp).running
  | gone _ hp =>
      rcases hp with hp | ⟨-, hsome⟩
      · exact (hsound.abandoned_of_vanished hp).running.1
      · exact absurd hruns hsome

theorem orders_of_recast {o : JobOrder} (hc : t.callOf? m = some (c.recast n a))
    (ho : c.order? = some o) (hn : o.name = n) : t.orders m n = true :=
  orders_iff.mpr ⟨_, o, hc, by rw [Call.order?_recast, ho], hn⟩

theorem admits_of_right (h : Beside n a out s t) (ho : OneOff n r steps) (hmakes : Makes steps c)
    (run : Run (.initial monitor logging) past s) (run' : Run (.initial monitor logging) past' t)
    (hplain : Run.Plain n r a ((t, m') :: past')) (hc : t.callOf? m' = some (c.recast n a)) :
    s.Admits n a c where
  order o ho' hn := by
    have horders := orders_of_recast hc ho' hn
    obtain ⟨work, rfl⟩ := ho.order c o hmakes ho' hn
    refine ⟨work, r, rfl, ?_⟩
    rw [← show t.now = s.now from h.mirrors.now]
    exact hplain.due _ List.mem_cons_self horders
  fresh o ho' hn i j hj hjn := by
    have horders := orders_of_recast hc ho' hn
    obtain ⟨j', hj', htwin⟩ := h.twins i j hj hjn
    exact hplain.fresh run' horders hj' (htwin.name_eq.trans hjn)
  silent o ho' hn := ho.silent c o hmakes ho' hn
  unstopped hcancel i j hj hjn hruns := by
    obtain ⟨j', hj', htwin⟩ := h.twins i j hj hjn
    refine h.pending_of_twin run hj hjn hj' hruns ?_
    exact hplain.unstopped _ List.mem_cons_self _ hc (by rw [Call.cancels_recast, hcancel]) i j' hj'
      (htwin.name_eq.trans hjn) (htwin.runs.trans hruns)

theorem covered_job (h : Beside n a out s t) (hi : out i = true) (hj' : t.jobs[i]? = some j') :
    ∃ j, s.jobs[i]? = some j ∧ j.record.name = n := by
  obtain ⟨j, hj⟩ := h.exists_left hj'
  exact ⟨j, hj, of_decide_eq_true ((h.fits i j hj).symm.trans hi)⟩

theorem holders_eq (h : Beside n a (t.holders n) s t) : s.holders n = t.holders n := by
  funext i
  cases hj : s.jobs[i]? with
  | some j =>
      rw [show t.holders n i = decide (j.record.name = n) from h.fits i j hj, holders, hj]
      rfl
  | none => rw [holders, holders, hj, h.jobs_eq_none_iff.mpr hj]

theorem alongside (h : Beside n a out s t) (run : Run (.initial monitor logging) past s) :
    Alongside (.twin n a out) s t :=
  { h.mirrors with
    registered := fun _ hn => h.mirrors.isRegistered hn
    active := fun _ hn => h.mirrors.isActive run.named h.fits hn }

end Beside

end Scheduler

section

variable {first' : Progress} {stop : Int} {rest' : List Step}

theorem Performance.caughtUp (h' : Performance first' past' ⟨t, some stop, rest'⟩)
    (hb : s.Beside n a out t) (hal : Aligned n a out past past') (hj : s.jobs[i]? = some j)
    (hn : j.record.name = n) (hj' : t.jobs[i]? = some j') :
    ∃ past₁ t₁ j₁, Performance first' past₁ ⟨t₁, some stop, rest'⟩ ∧ s.Beside n a out t₁ ∧
      Aligned n a out past past₁ ∧ t₁.jobs[i]? = some j₁ ∧ ¬j.Behind j₁ := by
  generalize hlag : j'.lag = lag
  induction lag using Nat.strongRecOn generalizing t past' j' with
  | ind lag ih =>
      by_cases hbehind : j.Behind j'
      · obtain ⟨t₁, j₁, hstep, hb₁, hj₁, hless⟩ := hb.catchUp hj hn hj' hbehind
        have hal₁ := hal.alone (hb.covered hj hn)
          (hb.signals_of_behind hj hn hj' hbehind (.turn i))
        exact ih j₁.lag (hlag ▸ hless) (h'.turn hstep) hb₁ hal₁ hj₁ rfl
      · exact ⟨past', t, j', h', hb, hal, hj', hbehind⟩

theorem Performance.settledBeside (h' : Performance first' past' ⟨t, some stop, rest'⟩)
    (hb : s.Beside n a out t) (hal : Aligned n a out past past')
    (run : Run (.initial monitor logging) past s) (hplain : Run.Plain n r a past)
    (hs : s.Settled) :
    ∃ past₁ t₁, Performance first' past₁ ⟨t₁, some stop, rest'⟩ ∧ s.Beside n a out t₁ ∧
      Aligned n a out past past₁ ∧ t₁.Settled := by
  by_cases hany : ∃ (i : JobId) (j : Job), s.jobs[i]? = some j ∧ j.record.name = n
  · obtain ⟨i, j, hj, hn⟩ := hany
    obtain ⟨j', hj', -⟩ := hb.twins i j hj hn
    obtain ⟨past₁, t₁, j₁, h₁, hb₁, hal₁, hj₁, hcaught⟩ := h'.caughtUp hb hal hj hn hj'
    refine ⟨past₁, t₁, h₁, hb₁, hal₁, (hb₁.settled_iff ?_).mpr hs⟩
    intro k job job' hk hkn hk'
    obtain rfl := hplain.unique run hj hn hk hkn
    obtain rfl := Option.some_inj.mp (hk.symm.trans hj)
    obtain rfl := Option.some_inj.mp (hk'.symm.trans hj₁)
    exact hcaught
  · refine ⟨past', t, h', hb, hal, (hb.settled_iff ?_).mpr hs⟩
    intro i j j' hj hn
    exact absurd ⟨i, j, hj, hn⟩ hany

end

theorem Step.recast_eq_call {rest rest' : List Step} {c' : Call}
    (h : .call c' :: rest' = rest.map (Step.recast n a)) :
    ∃ c tail, rest = .call c :: tail ∧ c' = c.recast n a ∧ rest' = tail.map (Step.recast n a) := by
  cases rest with
  | nil => exact absurd h (by simp)
  | cons step tail =>
      obtain ⟨hstep, htail⟩ := List.cons.inj h
      cases step with
      | call c => exact ⟨c, tail, rfl, Step.call.inj hstep, htail⟩
      | _ => exact absurd hstep (by simp [Step.recast])

theorem Step.recast_eq {step : Step} {rest rest' : List Step} (hplain : ∀ c, step ≠ .call c)
    (h : step :: rest' = rest.map (Step.recast n a)) :
    ∃ tail, rest = step :: tail ∧ rest' = tail.map (Step.recast n a) := by
  cases rest with
  | nil => exact absurd h (by simp)
  | cons step' tail =>
      obtain ⟨hstep, htail⟩ := List.cons.inj h
      cases step' with
      | call c => exact absurd hstep (hplain _)
      | _ => exact ⟨tail, by rw [hstep]; rfl, htail⟩

theorem Scheduler.Beside.initial (n : String) (a : Int) (out : JobId → Bool) (monitor : Monitor)
    (logging : Bool) :
    (Scheduler.initial monitor logging).Beside n a out (.initial monitor logging) where
  mirrors :=
    { now := rfl
      tokens := rfl
      logging := rfl
      recording := .rfl
      registry := rfl
      jobs := fun _ _ => rfl
      length := rfl
      counts := fun _ _ => rfl
      shown := .nil }
  fits i j hj := absurd hj (by simp [Scheduler.initial])
  twins i j hj := absurd hj (by simp [Scheduler.initial])

namespace Performance

/-- Every performance of the script with the one-off job is accompanied by one of the script with
its twin. -/
theorem recast (ho : OneOff n r steps) {p : Progress}
    (h : Performance ⟨.initial monitor logging, none, steps⟩ past p) (hplain : Run.Plain n r a past)
    (hout : (View.twin n a out).left.Fits p.scheduler) :
    ∃ past' t, Performance ⟨.initial monitor logging, none, steps.map (Step.recast n a)⟩ past'
        ⟨t, p.until?, p.rest.map (Step.recast n a)⟩ ∧
      p.scheduler.Beside n a out t ∧ Aligned n a out past past' := by
  induction h with
  | start => exact ⟨[], _, .start, .initial n a out monitor logging, .nil, fun _ _ => rfl⟩
  | @call past s c rest h ih =>
      obtain ⟨past', t, h', hb, hal⟩ := ih hplain.tail (hout.before (s.persists_call none c))
      have hc := Scheduler.admits_of_left (m := .call c) ho
        (h.call.makes _ List.mem_cons_self c rfl) h.run hplain rfl
      obtain ⟨hnew, hreply⟩ := hb.call (b := none) h.run h'.run hc hout
      refine ⟨_, _, h'.call, hnew, hal.both rfl ⟨rfl, hb.alongside h.run, ?_⟩⟩
      rintro c' ⟨⟩
      exact hreply
  | @stall past s ms rest h ih =>
      obtain ⟨past', t, h', hb, hal⟩ := ih hplain.tail hout
      exact ⟨_, _, h'.stall, hb.stall ms, hal.uncalled rfl rfl rfl (hb.alongside h.run)⟩
  | @shutdown past s rest h ih =>
      obtain ⟨past', t, h', hb, hal⟩ := ih hplain.tail (hout.before s.persists_shutdown)
      exact ⟨_, _, h'.shutdown, hb.shutdown, hal.uncalled rfl rfl rfl (hb.alongside h.run)⟩
  | @settle past s rest h ih =>
      obtain ⟨past', t, h', hb, hal⟩ := ih hplain hout
      refine ⟨past', t, ?_, hb, hal⟩
      rw [← show t.now = s.now from hb.mirrors.now]
      exact h'.settle
  | @advance past s ms rest h ih =>
      obtain ⟨past', t, h', hb, hal⟩ := ih hplain hout
      refine ⟨past', t, ?_, hb, hal⟩
      rw [← show t.now = s.now from hb.mirrors.now]
      exact h'.advance
  | @turn past s s' stop rest i h hstep ih =>
      obtain ⟨past', t, h', hb, hal⟩ := ih hplain.tail (hout.before (Scheduler.persists_step hstep))
      have hj : ∃ j, s.jobs[i]? = some j := by
        cases hj : s.jobs[i]? with
        | none => simp [Scheduler.step?, hj] at hstep
        | some j => exact ⟨j, rfl⟩
      obtain ⟨j, hj⟩ := hj
      cases hi : out i with
      | true =>
          have hn : j.record.name = n := of_decide_eq_true ((hb.fits i j hj).symm.trans hi)
          obtain ⟨j', hj', -⟩ := hb.twins i j hj hn
          -- The twin takes the turns of its own first, and then both runners go on.
          obtain ⟨past₁, t₁, j₁, h₁, hb₁, hal₁, hj₁, hcaught⟩ := h'.caughtUp hb hal hj hn hj'
          obtain ⟨t₂, hstep₂, hb₂⟩ := hb₁.together hj hn hj₁ h.run.named h₁.run.named
            (h.run.sound (Scheduler.situation?_of_getElem? hj)) hcaught hstep
          exact ⟨_, _, h₁.turn hstep₂, hb₂, hal₁.own hi (hb₁.signals_eq hj hn _)⟩
      | false =>
          obtain ⟨t', hstep', hb', hreply⟩ := hb.other h.run h'.run hi hstep (hout.made hstep)
            fun c hc => Scheduler.admits_of_left ho
              ((h.turn hstep).makes _ List.mem_cons_self c hc) h.run hplain hc
          exact ⟨_, _, h'.turn hstep', hb', hal.both hi ⟨rfl, hb.alongside h.run, hreply⟩⟩
  | @wait past s stop d rest h hs hd ih =>
      obtain ⟨past', t, h', hb, hal⟩ := ih hplain.tail hout
      obtain ⟨past₁, t₁, h₁, hb₁, hal₁, hs₁⟩ := h'.settledBeside hb hal h.run hplain.tail hs
      have hnow : t₁.now = s.now := hb₁.mirrors.now
      have hwait := h₁.wait hs₁ ((hb₁.nextDeadline?_eq stop).trans hd)
      rw [hnow] at hwait
      exact ⟨_, _, hwait, hb₁.stall _, hal₁.uncalled rfl rfl rfl (hb₁.alongside h.run)⟩
  | @finish past s stop rest h hs hnone ih =>
      obtain ⟨past', t, h', hb, hal⟩ := ih hplain.tail hout
      obtain ⟨past₁, t₁, h₁, hb₁, hal₁, hs₁⟩ := h'.settledBeside hb hal h.run hplain.tail hs
      have hnow : t₁.now = s.now := hb₁.mirrors.now
      have hfinish := h₁.finish hs₁ ((hb₁.nextDeadline?_eq stop).trans hnone)
      rw [hnow] at hfinish
      exact ⟨_, _, hfinish, hb₁.stall _, hal₁.uncalled rfl rfl rfl (hb₁.alongside h.run)⟩

theorem of_recast (ho : OneOff n r steps) {p' : Progress}
    (h' : Performance ⟨.initial monitor logging, none, steps.map (Step.recast n a)⟩ past' p')
    (hplain : Run.Plain n r a past') (hout : (View.twin n a out).right.Fits p'.scheduler) :
    ∃ past s rest, Performance ⟨.initial monitor logging, none, steps⟩ past
        ⟨s, p'.until?, rest⟩ ∧ p'.rest = rest.map (Step.recast n a) ∧
      s.Beside n a out p'.scheduler ∧ Aligned n a out past past' := by
  induction h' with
  | start =>
      exact ⟨[], _, steps, .start, rfl, .initial n a out monitor logging, .nil, fun _ _ => rfl⟩
  | @call past' t c' rest' h' ih =>
      obtain ⟨past, s, rest, h, hrest, hb, hal⟩ :=
        ih hplain.tail (hout.before (t.persists_call none c'))
      obtain ⟨c, rest, rfl, rfl, rfl⟩ := Step.recast_eq_call hrest
      have hc := hb.admits_of_right ho
        (h.call.makes _ List.mem_cons_self c rfl) h.run h'.run hplain rfl
      have hk := hb.fits_of_right (b := none) h.run.named h'.run.named hc hout
      obtain ⟨hnew, hreply⟩ := hb.call (b := none) h.run h'.run hc hk
      refine ⟨_, _, rest, h.call, rfl, hnew, hal.both rfl ⟨rfl, hb.alongside h.run, ?_⟩⟩
      rintro c' ⟨⟩
      exact hreply
  | @stall past' t ms rest' h' ih =>
      obtain ⟨past, s, rest, h, hrest, hb, hal⟩ := ih hplain.tail hout
      obtain ⟨rest, rfl, rfl⟩ := Step.recast_eq (by simp) hrest
      exact ⟨_, _, rest, h.stall, rfl, hb.stall ms,
        hal.uncalled rfl rfl rfl (hb.alongside h.run)⟩
  | @shutdown past' t rest' h' ih =>
      obtain ⟨past, s, rest, h, hrest, hb, hal⟩ := ih hplain.tail (hout.before t.persists_shutdown)
      obtain ⟨rest, rfl, rfl⟩ := Step.recast_eq (by simp) hrest
      exact ⟨_, _, rest, h.shutdown, rfl, hb.shutdown,
        hal.uncalled rfl rfl rfl (hb.alongside h.run)⟩
  | @settle past' t rest' h' ih =>
      obtain ⟨past, s, rest, h, hrest, hb, hal⟩ := ih hplain hout
      obtain ⟨rest, rfl, rfl⟩ := Step.recast_eq (by simp) hrest
      refine ⟨past, s, rest, ?_, rfl, hb, hal⟩
      rw [show t.now = s.now from hb.mirrors.now]
      exact h.settle
  | @advance past' t ms rest' h' ih =>
      obtain ⟨past, s, rest, h, hrest, hb, hal⟩ := ih hplain hout
      obtain ⟨rest, rfl, rfl⟩ := Step.recast_eq (by simp) hrest
      refine ⟨past, s, rest, ?_, rfl, hb, hal⟩
      rw [show t.now = s.now from hb.mirrors.now]
      exact h.advance
  | @turn past' t t' stop rest' i h' hstep' ih =>
      have hr := hout.before (Scheduler.persists_step hstep')
      obtain ⟨past, s, rest, h, hrest, hb, hal⟩ := ih hplain.tail hr
      have hj' : ∃ j', t.jobs[i]? = some j' := by
        cases hj' : t.jobs[i]? with
        | none => simp [Scheduler.step?, hj'] at hstep'
        | some j' => exact ⟨j', rfl⟩
      obtain ⟨j', hj'⟩ := hj'
      cases hi : out i with
      | true =>
          obtain ⟨j, hj, hn⟩ := hb.covered_job hi hj'
          -- What the twin does alone is no move of the first run.
          by_cases hbehind : j.Behind j'
          · obtain ⟨t₁, -, hstep₁, hb₁, -⟩ := hb.catchUp hj hn hj' hbehind
            obtain rfl := Option.some_inj.mp (hstep'.symm.trans hstep₁)
            exact ⟨past, s, rest, h, hrest, hb₁,
              hal.alone hi (hb.signals_of_behind hj hn hj' hbehind _)⟩
          · obtain ⟨s', hstep⟩ := Option.ne_none_iff_exists'.mp fun hnone =>
              absurd (hstep'.symm.trans ((hb.step?_eq_none_iff hj hn hj' hbehind).mpr hnone))
                (by simp)
            obtain ⟨t₁, hstep₁, hb₁⟩ := hb.together hj hn hj' h.run.named h'.run.named
              (h.run.sound (Scheduler.situation?_of_getElem? hj)) hbehind hstep
            obtain rfl := Option.some_inj.mp (hstep'.symm.trans hstep₁)
            exact ⟨_, _, rest, h.turn hstep, hrest, hb₁, hal.own hi (hb.signals_eq hj hn _)⟩
      | false =>
          obtain ⟨s', hstep⟩ := Option.ne_none_iff_exists'.mp fun hnone =>
            absurd (hstep'.symm.trans ((hb.mirrors.step?_eq_none_iff hi).mpr hnone)) (by simp)
          have hc : ∀ c, s.callOf? (.turn i) = some c → s.Admits n a c := by
            intro c hc
            refine hb.admits_of_right ho ((h.turn hstep).makes _ List.mem_cons_self c hc) h.run
              h'.run hplain ?_
            rw [hb.callOf?_other hi, hc]
            rfl
          have hk := hb.fits_made_of_right h.run.named h'.run.named hi hstep' hc hout
          obtain ⟨t₁, hstep₁, hb₁, hreply⟩ := hb.other h.run h'.run hi hstep hk hc
          obtain rfl := Option.some_inj.mp (hstep'.symm.trans hstep₁)
          exact ⟨_, _, rest, h.turn hstep, hrest, hb₁,
            hal.both hi ⟨rfl, hb.alongside h.run, hreply⟩⟩
  | @wait past' t stop d rest' h' hs' hd ih =>
      obtain ⟨past, s, rest, h, hrest, hb, hal⟩ := ih hplain.tail hout
      have hs := (hb.settled_iff fun i j j' hj hn hj' => hb.not_behind hj hn hj' (hs' i)).mp hs'
      have hnow : t.now = s.now := hb.mirrors.now
      have hwait := h.wait hs ((hb.nextDeadline?_eq stop).symm.trans hd)
      rw [hnow]
      exact ⟨_, _, rest, hwait, hrest, hb.stall _, hal.uncalled rfl rfl rfl (hb.alongside h.run)⟩
  | @finish past' t stop rest' h' hs' hnone ih =>
      obtain ⟨past, s, rest, h, hrest, hb, hal⟩ := ih hplain.tail hout
      have hs := (hb.settled_iff fun i j j' hj hn hj' => hb.not_behind hj hn hj' (hs' i)).mp hs'
      have hnow : t.now = s.now := hb.mirrors.now
      have hfinish := h.finish hs ((hb.nextDeadline?_eq stop).symm.trans hnone)
      rw [hnow]
      exact ⟨_, _, rest, hfinish, hrest, hb.stall _, hal.uncalled rfl rfl rfl (hb.alongside h.run)⟩

end Performance

/-- Whether an event tells of an execution of job `i`: what starts it, and what the job's runner
does in its functions. -/
def Event.tellsOf (i : JobId) (e : Event) : Bool :=
  match e.what with
  | .reported about (.started _) _ => decide (about = i)
  | .started _ | .ended | .context _ | .called .. => decide (e.actor = some i)
  | _ => false

/-- What is told of the executions of job `i`, the latest first. -/
def Scheduler.executionsTold (s : Scheduler) (i : JobId) : List Event :=
  s.history.filter (Event.tellsOf i)

namespace View.Mirrors

theorem tellsOf_eq {e e' : Event} (h : (View.twin n a out).Echoes e e') (i : JobId) :
    e'.tellsOf i = e.tellsOf i := by
  have hactor : e'.actor = e.actor := by
    rw [h.actor]
    cases e.actor <;> rfl
  obtain ⟨time, actor, w⟩ := e
  obtain ⟨time', actor', w'⟩ := e'
  obtain rfl : actor' = actor := hactor
  cases show (View.twin n a out).Repeats w w' from h.what with
  | report k r cls => cases r <;> rfl
  | call => rfl
  | same => rfl

theorem executions (h : (View.twin n a out).Mirrors s t) (i : JobId) :
    List.Forall₂ (View.twin n a out).Echoes (s.executionsTold i) (t.executionsTold i) := by
  have hshown : ∀ (k : Cover) (u : Scheduler), k.whole = false →
      u.executionsTold i = (u.shown k).filter (Event.tellsOf i) := by
    intro k u hminor
    unfold Scheduler.executionsTold Scheduler.shown
    rw [List.filter_filter]
    refine List.filter_congr fun e _ => ?_
    have hmajor : e.tellsOf i = true → e.what.isMinor = false := by
      unfold Event.tellsOf
      split <;> simp_all [Happening.isMinor]
    cases htells : e.tellsOf i with
    | false => rfl
    | true => simp [Cover.hides, hminor, hmajor htells]
  rw [hshown (View.twin n a out).left s rfl, hshown (View.twin n a out).right t rfl]
  refine List.rel_filter (fun e e' he => ?_) h.shown
  exact iff_of_eq (congrArg (· = true) (tellsOf_eq he i).symm)

end View.Mirrors

theorem Job.Twin.reports (h : j.Twin a j') {logging' : Bool} {u u' : Scheduler}
    (run : Run (.initial .recording logging) past u)
    (run' : Run (.initial .recording logging') past' u') (hj : u.jobs[i]? = some j)
    (hj' : u'.jobs[i]? = some j') :
    if j.runs = 0 then u'.reports i .cancelled = u.reports i .cancelled
    else u.reports i .cancelled = 0 ∧ u'.reports i .cancelled ≤ 1 := by
  split
  · rename_i hruns
    have hiff : j'.phase = .returned ↔ j.phase = .returned := by
      cases h.stage with
      | before hp =>
          generalize j.phase = p, j'.phase = p', j'.asks = k at hp
          cases hp <;> simp
      | during _ _ _ hsome => exact absurd hruns hsome
      | after _ _ hsome => exact absurd hruns hsome
      | ended hp hp' => simp [hp, hp']
      | gone hp' hp =>
          rcases hp with hp | ⟨-, hsome⟩
          · simp [hp, hp']
          · exact absurd hruns hsome
    by_cases hp : j.phase = .returned
    · rw [run.cancelled_of_returned hj hp fun _ => hruns,
        run'.cancelled_of_periodic hj' h.periodic_eq (hiff.mpr hp)]
    · rw [run.not_cancelled hj hp, run'.not_cancelled hj' fun hp' => hp (hiff.mp hp')]
  · rename_i hruns
    constructor
    · have hone := (run.oneOutcome hj h.kind).atMostOne
      have hstarts := (run.entries_eq (Scheduler.situation?_of_getElem? hj)).2
      have hjob : (u.situate i j).job.runs = j.runs := rfl
      omega
    · by_cases hp' : j'.phase = .returned
      · exact Nat.le_of_eq (run'.cancelled_of_periodic hj' h.periodic_eq hp')
      · rw [run'.not_cancelled hj' hp']
        exact Nat.zero_le 1

/-- Whether two runs execute a job and its twin alike: at most once, and equally often by a signal.
Where neither is executed they are reported as cancelled equally often, and else at most the twin
is, once. -/
structure Run.SameExecutions (past past' : List (Scheduler × Move)) (i : JobId) (job job' : Job) :
    Prop where
  runs : job'.runs = job.runs
  once : job.runs ≤ 1
  signalled : Run.signalled past' i = Run.signalled past i
  reports : ∀ u u', Run.Recorded past u → Run.Recorded past' u' →
    if job.runs = 0 then u'.reports i .cancelled = u.reports i .cancelled
    else u.reports i .cancelled = 0 ∧ u'.reports i .cancelled ≤ 1

namespace Performance

/-- Whether a performance of the script with the twin agrees with one of the script with the one-off
job. They are as far in the script, after the same moves except for turns of the two, in states that
are the same except for the two, and the same is told of every job's executions at the same times.
-/
structure Agree (n : String) (a : Int) (past : List (Scheduler × Move)) (p : Progress)
    (past' : List (Scheduler × Move)) (p' : Progress) : Prop where
  until? : p'.until? = p.until?
  rest : p'.rest = p.rest.map (Step.recast n a)
  state : Alongside (.twin n a (p.scheduler.holders n)) p.scheduler p'.scheduler
  moves : List.Forall₂ (Accompanies (.twin n a (p.scheduler.holders n)))
    (past.filter fun e => !e.2.turnsOf (p.scheduler.holders n))
    (past'.filter fun e => !e.2.turnsOf (p.scheduler.holders n))
  executions : ∀ i, List.Forall₂ (View.twin n a (p.scheduler.holders n)).Echoes
    (p.scheduler.executionsTold i) (p'.scheduler.executionsTold i)
  job : ∀ (i : JobId) (job : Job), p.scheduler.jobs[i]? = some job → job.record.name = n →
    ∃ job', p'.scheduler.jobs[i]? = some job' ∧ Run.SameExecutions past past' i job job'

variable {first first' p p' : Progress}

theorem agree_of_beside
    (run : Run (.initial monitor logging) past p.scheduler)
    (run' : Run (.initial monitor logging) past' p'.scheduler) (huntil : p'.until? = p.until?)
    (hrest : p'.rest = p.rest.map (Step.recast n a))
    (hb : p.scheduler.Beside n a (p.scheduler.holders n) p'.scheduler)
    (hal : Aligned n a (p.scheduler.holders n) past past') : Agree n a past p past' p' where
  until? := huntil
  rest := hrest
  state := hb.alongside run
  moves := hal.moves
  executions := hb.mirrors.executions
  job i job hj hn := by
    obtain ⟨job', hj', htwin⟩ := hb.twins i job hj hn
    refine ⟨job', hj', htwin.runs, run.runs_le_one hj htwin.kind, ?_, ?_⟩
    · exact hal.signalled i (hb.covered hj hn)
    · intro u u' hu hu'
      obtain ⟨_, _, run₁, -, hjobs⟩ := run.of_recorded hu
      obtain ⟨_, _, run₁', -, hjobs'⟩ := run'.of_recorded hu'
      exact htwin.reports run₁ run₁' (by rw [hjobs, hj]) (by rw [hjobs', hj'])

/-- The two runner loops agree. Take a script whose jobs called `n` are one-off jobs for the instant
`r` with functions that make no service calls, and the script that schedules periodic jobs with the
one instant `a` instead. For every performance of the one that schedules the job once at most, when
`r` is `a`, and never cancels it while the signal for its execution is in the slot, there is a
performance of the other that agrees with it, in either direction: the job is executed as often,
started in the same way at the same time, and does the same at the same times; and the other jobs
are the same and do the same. -/
theorem kinds_agree (ho : OneOff n r steps) :
    (∀ past p, Performance ⟨.initial monitor logging, none, steps⟩ past p → Run.Plain n r a past →
      ∃ past' p',
        Performance ⟨.initial monitor logging, none, steps.map (Step.recast n a)⟩ past' p' ∧
          Agree n a past p past' p') ∧
    (∀ past' p',
      Performance ⟨.initial monitor logging, none, steps.map (Step.recast n a)⟩ past' p' →
      Run.Plain n r a past' →
      ∃ past p, Performance ⟨.initial monitor logging, none, steps⟩ past p ∧
        Agree n a past p past' p') := by
  constructor
  · intro past p h hplain
    have hout : (View.twin n a (p.scheduler.holders n)).left.Fits p.scheduler :=
      Cover.fits_holders rfl
    obtain ⟨past', t, h', hb, hal⟩ := h.recast ho hplain hout
    exact ⟨past', _, h', agree_of_beside h.run h'.run rfl rfl hb hal⟩
  · intro past' p' h' hplain
    have hout : (View.twin n a (p'.scheduler.holders n)).right.Fits p'.scheduler :=
      Cover.fits_holders rfl
    obtain ⟨past, s, rest, h, hrest, hb, hal⟩ := h'.of_recast ho hplain hout
    have hholders : s.holders n = p'.scheduler.holders n := hb.holders_eq
    rw [← hholders] at hb hal
    exact ⟨past, _, h, agree_of_beside h.run h'.run rfl hrest hb hal⟩

/-- A script with a job that is due at once. -/
def oneJob : List Step := [.call (.schedule Run.plainOrder (some []) (.fixed 0)), .settle]

theorem executed_of_oneJob : ∃ past p past' p',
    Performance ⟨.initial .recording false, none, oneJob⟩ past p ∧
    Performance ⟨.initial .recording false, none,
      [.call (.schedulePeriodic Run.plainOrder (some []) (some (.once 0))), .settle]⟩ past' p' ∧
    (p.scheduler.jobs[0]?.map Job.runs) = some 1 ∧ (p'.scheduler.jobs[0]?.map Job.runs) = some 1 ∧
    Run.signalled past' 0 = 0 := by
  have hmem : ∀ c, Makes oneJob c → c = .schedule Run.plainOrder (some []) (.fixed 0) := by
    intro c hc
    simpa [oneJob] using hc.mem (by simp [oneJob, Call.acts])
  have ho : OneOff "a" (.fixed 0) oneJob := by
    constructor
    · intro c o hc ho _
      obtain rfl := hmem c hc
      cases ho
      exact ⟨_, rfl⟩
    · intro c o hc _ _ c' hc'
      obtain rfl := hmem c hc
      exact absurd hc' (by simp [Call.acts])
  have hscript : oneJob.map (Step.recast "a" 0) =
      [.call (.schedulePeriodic Run.plainOrder (some []) (some (.once 0))), .settle] := by
    simp [oneJob, Step.recast, Call.recast_of_order, Run.plainOrder]
  have h₀ : Performance ⟨.initial .recording false, none, oneJob⟩ [] _ := .start
  have h₁ := h₀.call.settle
  have h₂ := h₁.turn (i := 0) rfl
  have h₃ := h₂.turn (i := 0) rfl
  obtain ⟨past', p', h', hagree⟩ := (kinds_agree (a := 0) ho).1 _ _ h₃
    { once := by decide
      due := fun _ _ _ => rfl
      unstopped := by
        intro e he c hc hcancel
        obtain rfl := hmem c (h₃.makes e he c hc)
        exact absurd hcancel Bool.false_ne_true }
  obtain ⟨job', hj', halike⟩ := hagree.job 0 _ rfl rfl
  rw [hscript] at h'
  refine ⟨_, _, past', p', h₃, h', rfl, ?_, halike.signalled⟩
  rw [hj', Option.map_some, halike.runs]
  rfl

end Performance

end JobScheduler
