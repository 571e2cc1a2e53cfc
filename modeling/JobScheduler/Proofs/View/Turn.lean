import JobScheduler.Proofs.View.Call

/-!
The runners of two schedulers side by side. A step of a runner that is not covered is a step of the
same job's runner in a scheduler that mirrors the first (`View.Mirrors.step`), if the call that it
makes keeps the two side by side.
-/

namespace JobScheduler

section

variable (f : Call → Call)

theorem Action.opened_map (actions : List Action) :
    Action.opened (actions.map (Action.mapCalls f)) =
      (Action.opened actions).map (Action.mapCalls f) := by
  cases actions with
  | nil => rfl
  | cons action rest => cases action <;> rfl

theorem Work.body_mapCalls (w : Work) (k : Nat) :
    (Work.mapCalls f w).body k = (w.body k).map (Action.mapCalls f) := by
  unfold Work.body Work.mapCalls
  rw [List.getElem?_map]
  cases w[k]? with
  | some b => rfl
  | none =>
      rw [List.getLast?_map]
      cases w.getLast? <;> rfl

theorem Plan.entry_mapCalls (p : Plan Action) (k : Nat) :
    (p.mapCalls f).entry k =
      { p.entry k with actions := (p.entry k).actions.map (Action.mapCalls f) } := by
  unfold Plan.entry Plan.mapCalls
  dsimp only
  rw [List.getElem?_map]
  cases p.entries[k]? with
  | some e => rfl
  | none => cases p.every <;> rfl

theorem Job.deadline?_mapCalls (j : Job) : (j.mapCalls f).deadline? = j.deadline? := by
  unfold Job.deadline?
  cases hp : j.phase with
  | planning pause rest result => cases pause <;> simp [Job.mapCalls, hp, Phase.mapCalls]
  | running instant pause rest => cases pause <;> simp [Job.mapCalls, hp, Phase.mapCalls]
  | _ => simp [Job.mapCalls, hp, Phase.mapCalls]

theorem Job.nextCall?_mapCalls (j : Job) : (j.mapCalls f).nextCall? = j.nextCall?.map f := by
  have hcall : ∀ actions : List Action,
      Action.call? (actions.map (Action.mapCalls f)) = (Action.call? actions).map f := by
    intro actions
    cases actions with
    | nil => rfl
    | cons action rest => cases action <;> rfl
  unfold Job.nextCall?
  cases hp : j.phase <;> simp [Job.mapCalls, hp, Phase.mapCalls, hcall]

end

namespace View.Mirrors

variable {v : View} {s s' t : Scheduler} {i : JobId} {job : Job}

theorem own_level (hi : v.left.jobs i = false) : ∀ k, some i = some k → v.Level k := by
  rintro k ⟨⟩
  exact level_of_visible hi

theorem of_level (hi : v.Level i) : ∀ k, some i = some k → v.Level k := by
  rintro k ⟨⟩
  exact hi

theorem waking? (h : v.Mirrors s t) (job : Job) (timer : Option Int) :
    t.waking? (job.mapCalls v.call) timer = s.waking? job timer := by
  rw [Scheduler.waking?, Scheduler.waking?, h.tokens, h.now]
  rfl

theorem isOver (h : v.Mirrors s t) (job : Job) (pause : Pause) :
    t.isOver (job.mapCalls v.call) pause = s.isOver job pause := by
  cases pause with
  | none => rfl
  | clock deadline => rw [Scheduler.isOver, Scheduler.isOver, h.now]
  | token =>
      rw [Scheduler.isOver, Scheduler.isOver, h.tokens]
      rfl

theorem shutdown (h : v.Mirrors s t) : v.Mirrors s.shutdown t.shutdown :=
  { h with
    jobs := by
      intro n hn
      simp only [Scheduler.shutdown, List.getElem?_map, h.jobs n hn, Option.map_map]
      congr 1
      funext j
      exact mapCalls_vanish v.call j
    length := by simp [Scheduler.shutdown, h.length] }

theorem stall (h : v.Mirrors s t) (ms : Nat) : v.Mirrors (s.stall ms) (t.stall ms) :=
  { h with now := by simp only [Scheduler.stall, h.now] }

theorem act (h : v.Mirrors s t) (hi : v.Level i) (job : Job) (action : Action)
    (hcall : ∀ c, action = .call c →
      v.Mirrors (s.call (some i) c).1 (t.call (some (v.place i)) (v.call c)).1 ∧
        v.replies s t c (s.call (some i) c).2 (t.call (some (v.place i)) (v.call c)).2) :
    v.Mirrors (s.act i job action).1
        (t.act (v.place i) (job.mapCalls v.call) (action.mapCalls v.call)).1 ∧
      (t.act (v.place i) (job.mapCalls v.call) (action.mapCalls v.call)).2 =
        (s.act i job action).2 := by
  cases action with
  | sleep ms =>
      refine ⟨h, ?_⟩
      show Pause.clock (waitUntil t.now ms) = _
      rw [h.now]
      rfl
  | context =>
      have hemit := h.emit_same (of_level hi)
        (w := .context (s.tokens.isCancelled job.token)) nofun
      rw [← h.tokens] at hemit
      refine ⟨?_, rfl⟩
      unfold Scheduler.act
      rw [← h.tokens]
      exact hemit
  | awaitContext => exact ⟨h, rfl⟩
  | call c =>
      obtain ⟨hnew, hanswer⟩ := hcall c rfl
      refine ⟨hnew.emit (a := some i) (.call (a := some i) h.registry hanswer) ?_, rfl⟩
      have hlevel := any_hidden (of_level hi)
      simp only [Cover.hides, Cover.regards, Happening.isMinor]
      rw [show v.right.jobs = v.hidden from rfl, hlevel]
      rfl
  | panic payload => exact ⟨h, rfl⟩
  | earlyPanic payload => exact ⟨h, rfl⟩

variable (h : v.Mirrors s t) (hi : v.left.jobs i = false)
include h hi

theorem step?_eq_none_iff : t.step? (v.place i) = none ↔ s.step? i = none := by
  unfold Scheduler.step?
  rw [h.jobs i hi]
  cases s.jobs[i]? with
  | none => exact .rfl
  | some job =>
      dsimp only [Option.map_some]
      rw [show (job.mapCalls v.call).phase = job.phase.mapCalls v.call from rfl]
      cases job.phase <;> simp [Phase.mapCalls, h.isOver, h.waking?]

theorem leave : v.Mirrors (s.leave i) (t.leave (v.place i)) := h.updateJob hi fun _ => rfl

theorem stop :
    v.Mirrors (s.stop i job) (t.stop (v.place i) (job.mapCalls v.call)) :=
  ((h.updateRecord hi _).report (own_level hi) (level_of_visible hi) _ _).leave hi

theorem retire (hs : s.Named) (hk : v.left.Fits s) (hn : job.record.name ≠ v.left.name) :
    v.Mirrors (s.retire i job) (t.retire (v.place i) (job.mapCalls v.call)) :=
  (h.remove hs hk (own_level hi) hi hn).stop hi

theorem await (instant : Int) :
    v.Mirrors (s.await i instant) (t.await (v.place i) instant) := by
  unfold Scheduler.await
  rw [h.now]
  split
  · exact h.setPhase hi _
  · exact h.updateJob hi fun j => mapCalls_vanish v.call j

theorem ask : v.Mirrors (s.ask i job) (t.ask (v.place i) (job.mapCalls v.call)) := by
  refine (h.emit_same (own_level hi) (w := .asked _) nofun).updateJob hi fun j => ?_
  simp only [Job.mapCalls, Plan.entry_mapCalls, Action.opened_map, Phase.mapCalls]

theorem start (hc : ¬v.left.counters job.counter) (instant : Int) (trigger : Trigger) :
    v.Mirrors (s.start i job instant trigger)
      (t.start (v.place i) (job.mapCalls v.call) instant trigger) := by
  unfold Scheduler.start
  rw [show (job.mapCalls v.call).counter = job.counter from rfl, h.counts _ hc]
  refine (((h.report (own_level hi) (level_of_visible hi) _ _).setCount _ _).emit_same
    (own_level hi) (w := .started _) nofun).updateJob hi fun j => ?_
  simp only [Job.mapCalls, Work.body_mapCalls, Action.opened_map, Phase.mapCalls]

theorem complete (instant : Int) :
    v.Mirrors (s.complete i job instant)
      (t.complete (v.place i) (job.mapCalls v.call) instant) := by
  unfold Scheduler.complete
  rw [show (job.mapCalls v.call).record = job.record from rfl]
  dsimp only
  split
  · exact ((h.log (own_level hi) _).updateRecord hi _).setPhase hi .looping
  · exact ((h.log (own_level hi) _).updateRecord hi _).leave hi

theorem planOn (hs : s.Named) (hk : v.left.Fits s) (hn : job.record.name ≠ v.left.name)
    (result : Except RuntimeError Moment) {rest : List Action}
    (hcall : ∀ c, Action.call? rest = some c →
      v.Mirrors (s.call (some i) c).1 (t.call (some (v.place i)) (v.call c)).1 ∧
        v.replies s t c (s.call (some i) c).2 (t.call (some (v.place i)) (v.call c)).2) :
    v.Mirrors (s.planOn i job result rest)
      (t.planOn (v.place i) (job.mapCalls v.call) result (rest.map (Action.mapCalls v.call))) := by
  have hgive : ∀ e : LogEntry, v.Mirrors ((s.log (some i) e).retire i job)
      ((t.log (some (v.place i)) e).retire (v.place i) (job.mapCalls v.call)) := by
    intro e
    have hp := s.persists_log (some i) e
    exact (h.log (own_level hi) e).retire hi (hp.named hs) (hk.after hp (by simp)) hn
  cases rest with
  | nil =>
      cases result with
      | ok moment =>
          simp only [Scheduler.planOn, List.map_nil, h.now]
          exact (h.log (own_level hi) _).await hi _
      | error e =>
          cases e with
          | noMoreInstances => exact hgive .noMoreInstances
          | failed reason => exact hgive (.runtimeFailed (.failed reason))
  | cons action rest =>
      cases hover : Action.over (action :: rest) with
      | true =>
          cases action with
          | panic payload => exact hgive (.runtimePanicked payload)
          | _ => exact absurd hover (by simp [Action.over])
      | false =>
          have hover' : Action.over (action.mapCalls v.call :: rest.map (Action.mapCalls v.call)) =
              false := by
            cases action <;> first | rfl | exact absurd hover (by simp [Action.over])
          obtain ⟨hact, hpause⟩ := h.act (level_of_visible hi) job action (by
            rintro c rfl
            exact hcall c rfl)
          rw [Scheduler.planOn_of_action hover, List.map_cons, Scheduler.planOn_of_action hover',
            hpause]
          exact hact.setPhase hi (.planning _ rest result)

theorem runOn (instant : Int) {rest : List Action}
    (hcall : ∀ c, Action.call? rest = some c →
      v.Mirrors (s.call (some i) c).1 (t.call (some (v.place i)) (v.call c)).1 ∧
        v.replies s t c (s.call (some i) c).2 (t.call (some (v.place i)) (v.call c)).2) :
    v.Mirrors (s.runOn i job instant rest)
      (t.runOn (v.place i) (job.mapCalls v.call) instant (rest.map (Action.mapCalls v.call))) := by
  cases rest with
  | nil => exact (h.emit_same (own_level hi) (w := .ended) nofun).complete hi _
  | cons action rest =>
      cases hover : Action.over (action :: rest) with
      | true =>
          cases action with
          | panic payload => exact (h.log (own_level hi) _).complete hi _
          | _ => exact absurd hover (by simp [Action.over])
      | false =>
          have hover' : Action.over (action.mapCalls v.call :: rest.map (Action.mapCalls v.call)) =
              false := by
            cases action <;> first | rfl | exact absurd hover (by simp [Action.over])
          obtain ⟨hact, hpause⟩ := h.act (level_of_visible hi) job action (by
            rintro c rfl
            exact hcall c rfl)
          rw [Scheduler.runOn_of_action hover, List.map_cons, Scheduler.runOn_of_action hover',
            hpause]
          exact hact.setPhase hi (.running instant _ rest)

theorem wake (hs : s.Named) (hk : v.left.Fits s) (hj : s.jobs[i]? = some job)
    (hn : job.record.name ≠ v.left.name) (hc : ¬v.left.counters job.counter) (instant : Int)
    (w : Waking) :
    v.Mirrors (s.wake i job instant w)
      (t.wake (v.place i) (job.mapCalls v.call) instant w) := by
  cases w with
  | parent =>
      have hp := s.persists_log (some i) (.parentDone instant)
      exact (h.log (own_level hi) _).retire hi (hp.named hs) (hk.after hp (by simp)) hn
  | cancel => exact ((h.updateRecord hi _).log (own_level hi) _).stop hi
  | signal => exact ((h.updateRecord hi _).log (own_level hi) _).start hi hc _ _
  | timer =>
      simp only [Scheduler.wake]
      rw [show (job.mapCalls v.call).record = job.record from rfl]
      split
      · have hlog := h.log (own_level hi) (.alreadyRunning instant)
        cases job.record.periodic with
        | true => exact hlog.setPhase hi .looping
        | false => exact hlog.setPhase hi (.waiting instant none)
      · rename_i r hr
        have hactive := h.updateRecord hi fun _ => r
        cases hper : job.record.periodic with
        | true => exact (hactive.log (own_level hi) _).start hi hc _ _
        | false =>
            obtain rfl : r = job.record.tryActivate.1 := by rw [hr]
            have hp := s.persists_updateRecord (a := some i) i _ Record.label_tryActivate
            rw [Scheduler.updateRecord_const hj fun r => r.tryActivate.1] at hactive ⊢
            have hremove := hactive.remove (hp.named hs)
              (hk.after hp (by simp [Scheduler.updateRecord, Scheduler.updateJob]))
              (own_level hi) hi hn
            exact (hremove.log (own_level hi) _).start hi hc _ _

/-- A step of a runner that is not covered is a step of the same job's runner on the other side. -/
theorem step (hs : s.Named) (hk : v.left.Fits s) (hc : ∀ job, s.jobs[i]? = some job →
      ¬v.left.counters job.counter)
    (hcall : ∀ c, s.callOf? (.turn i) = some c →
      v.Mirrors (s.call (some i) c).1 (t.call (some (v.place i)) (v.call c)).1 ∧
        v.replies s t c (s.call (some i) c).2 (t.call (some (v.place i)) (v.call c)).2)
    (hstep : s.step? i = some s') :
    ∃ t', t.step? (v.place i) = some t' ∧ v.Mirrors s' t' := by
  cases hj : s.jobs[i]? with
  | none => simp [Scheduler.step?, hj] at hstep
  | some job =>
      have hn : job.record.name ≠ v.left.name := of_decide_eq_false ((hk i job hj).symm.trans hi)
      have hj' : t.jobs[v.place i]? = some (job.mapCalls v.call) := by
        rw [h.jobs i hi, hj, Option.map_some]
      have hnext : s.callOf? (.turn i) = job.nextCall? := by
        rw [Scheduler.callOf?, hj]
        rfl
      rw [hnext] at hcall
      unfold Scheduler.step? at hstep ⊢
      rw [hj] at hstep
      rw [hj']
      dsimp only at hstep ⊢
      rw [show (job.mapCalls v.call).phase = job.phase.mapCalls v.call from rfl]
      cases hp : job.phase with
      | spawned instant =>
          rw [hp] at hstep
          cases hstep
          exact ⟨_, rfl, h.await hi _⟩
      | looping =>
          rw [hp] at hstep
          cases hstep
          exact ⟨_, rfl, h.ask hi⟩
      | planning pause rest result =>
          rw [hp] at hstep
          obtain ⟨hover, hstep⟩ := Option.ite_none_right_eq_some.mp hstep
          cases hstep
          simp only [Job.nextCall?, hp] at hcall
          simp only [Phase.mapCalls, h.isOver, hover, if_true]
          exact ⟨_, rfl, h.planOn hi hs hk hn result hcall⟩
      | waiting instant timer =>
          rw [hp] at hstep
          obtain ⟨w, hw, rfl⟩ := Option.map_eq_some_iff.mp hstep
          simp only [Phase.mapCalls, h.waking?, hw, Option.map_some]
          exact ⟨_, rfl, h.wake hi hs hk hj hn (hc job hj) _ w⟩
      | running instant pause rest =>
          rw [hp] at hstep
          obtain ⟨hover, hstep⟩ := Option.ite_none_right_eq_some.mp hstep
          cases hstep
          simp only [Job.nextCall?, hp] at hcall
          simp only [Phase.mapCalls, h.isOver, hover, if_true]
          exact ⟨_, rfl, h.runOn hi instant hcall⟩
      | returned => exact absurd hstep (by simp [hp])
      | vanished => exact absurd hstep (by simp [hp])

end View.Mirrors

end JobScheduler
