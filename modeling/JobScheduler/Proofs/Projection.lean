import JobScheduler.Proofs.Executions
import JobScheduler.Proofs.Projection.Turn

/-!
What a run looks like to one job. A move is a change of the job (`change_of_move`), a move that adds
a job reports it as scheduled before anything else (`adds_of_move`), a job that is there after a
move comes from one of the two (`origin_of_move`), and so the whole run is a life of the job from
the moment when it was registered (`Run.life`).
-/

namespace JobScheduler

namespace Scheduler

variable {s s' : Scheduler} {i : JobId} {v : Situation} {m : Move}

theorem situation?_shutdown (s : Scheduler) (i : JobId) :
    s.shutdown.situation? i = (s.situation? i).map (·.update Job.vanish) := by
  simp only [situation?, shutdown, List.getElem?_map, Option.map_map]
  congr 1
  funext job
  have hname : job.vanish.record.name = job.record.name := name_eq_of_terms job.terms_vanish
  have htoken : job.vanish.token = job.token := congrArg (fun t => t.2.2.1) job.terms_vanish
  simp [situate, Situation.update, hname, htoken]

/-- A move changes every job there is, accepts a run of it if and only if `accepted?` says so, and
shows its marks. -/
theorem change_of_move (hs : s.Named) (hv : s.situation? i = some v) (h : s.move? m = some s') :
    ∃ ms v', Change i m v ms v' ∧ s.Tells s' i ms v' ∧
      ms.count .accepted = if s.accepted? m = some i then 1 else 0 := by
  have hcount : ∀ c, (s.acceptMarks i c).count .accepted =
      if c.bind s.acceptedBy? = some i then 1 else 0 := by
    intro c
    unfold acceptMarks
    split <;> rfl
  have hcall : ∀ (a : Option JobId) (c : Call), ∃ v', Touch v (s.acceptMarks i (some c)) v' ∧
      (s.call a c).1.situation? i = some v' ∧ (s.call a c).1.marks i = s.marks i := by
    intro a c
    obtain ⟨v', hv', ht, hm⟩ := touch_of_call hs hv a c
    exact ⟨v', ht, hv', hm⟩
  rw [accepted?, ← hcount]
  cases m with
  | call c =>
      cases h
      obtain ⟨v', ht, hv', hm⟩ := hcall none c
      refine ⟨_, v', .touch (by simp) ht, ⟨hv', fun _ => ?_⟩, rfl⟩
      rw [hm, visible_acceptMarks]
      rfl
  | turn k =>
      by_cases hki : k = i
      · subst hki
        obtain ⟨ms, v', ht, htells, hms⟩ := turn_of_step hs hv h
        exact ⟨ms, v', .turn ht, htells, hms⟩
      · -- To any other job the step is nothing but the call that it makes.
        obtain ⟨hsit, hm⟩ := step_of_ne hki h
        have hother : Move.turn k ≠ .turn i := by simpa using hki
        cases hc : s.callOf? (.turn k) with
        | none =>
            rw [hc] at hsit hm
            exact ⟨[], v, .touch hother (.none v), ⟨hsit.trans hv, fun _ => hm⟩, rfl⟩
        | some c =>
            rw [hc] at hsit hm
            obtain ⟨v', ht, hv', hm'⟩ := hcall (some k) c
            refine ⟨_, v', .touch hother ht, ⟨hsit.trans hv', fun _ => ?_⟩, rfl⟩
            rw [hm.trans hm', visible_acceptMarks]
            rfl
  | pass ms =>
      cases h
      obtain ⟨hj, hv'⟩ := situation?_eq_some.mp hv
      refine ⟨[], { v with now := v.now + ms }, .pass v ms, ⟨?_, fun _ => rfl⟩, rfl⟩
      have hnew : (s.stall ms).situation? i = some ((s.stall ms).situate i v.job) :=
        situation?_of_getElem? hj
      rw [hnew, hv']
      rfl
  | shutdown =>
      cases h
      refine ⟨_, _, .vanish v, ⟨?_, fun _ => ?_⟩, ?_⟩
      · rw [situation?_shutdown, hv]
        rfl
      · rw [v.unseen_vanishMarks.filter]
        rfl
      · exact v.unseen_vanishMarks.count (by simp)

theorem change_of_job (hs : s.Named) {job : Job} (hj : s.jobs[i]? = some job)
    (h : s.move? m = some s') :
    ∃ ms job', s'.jobs[i]? = some job' ∧ Change i m (s.situate i job) ms (s'.situate i job') := by
  obtain ⟨ms, v', hchange, htells, -⟩ := change_of_move hs (situation?_of_getElem? hj) h
  obtain ⟨hj', hv'⟩ := situation?_eq_some.mp htells.situation
  rw [hv'] at hchange
  exact ⟨ms, v'.job, hj', hchange⟩

theorem adds_of_move (hn : s.situation? i = none) (h : s.move? m = some s') :
    s.Adds (s.callOf? m) s' i := by
  cases m with
  | call c =>
      cases h
      exact adds_of_call hn none c
  | turn k =>
      have hki : k ≠ i := by
        rintro rfl
        have hnone : s.jobs[k]? = none := Option.map_eq_none_iff.mp hn
        simp [move?, step?, hnone] at h
      obtain ⟨hsit, hm⟩ := step_of_ne hki h
      obtain ⟨later, hlater⟩ := history_step h
      cases hc : s.callOf? (.turn k) with
      | none =>
          rw [hc] at hsit hm
          exact .inl ⟨hsit.trans hn, hm⟩
      | some c =>
          rw [hc] at hsit hm hlater
          rcases adds_of_call hn (some k) c with ⟨hnone, hsame⟩ | ⟨v, hv, hborn, hin, hi, hrec⟩
          · exact .inl ⟨hsit.trans hnone, hm.trans hsame⟩
          · refine .inr ⟨v, hsit.trans hv, hborn, hin, hi, fun hs => ?_⟩
            obtain ⟨hmarks, new, a, cls, hnew⟩ := hrec hs
            refine ⟨hm.trans hmarks, later ++ new, a, cls, ?_⟩
            rw [hlater, List.append_assoc, ← hnew]
            rfl
  | pass ms =>
      cases h
      refine .inl ⟨?_, rfl⟩
      have hlen : s.jobs.length ≤ i := situation?_eq_none.mp hn
      exact situation?_eq_none.mpr hlen
  | shutdown =>
      cases h
      refine .inl ⟨?_, rfl⟩
      rw [situation?_shutdown, hn, Option.map_none]

/-- Where a job that is there after a move comes from. -/
inductive Origin (s : Scheduler) (m : Move) (s' : Scheduler) (i : JobId) (v' : Situation) :
    Prop where
  /-- The move registered it, and reported it as scheduled before anything else. -/
  | born : s.situation? i = none → v'.Born →
      ((∀ c, s.callOf? m = some c → c.isOutside = false) → v'.job.phase.alive = true) →
      i = s.jobs.length →
      (s.monitor = .recording → s'.marks i = .reported .scheduled :: s.marks i ∧
        ∃ new a cls, s'.history = new ++ ⟨s.now, a, .reported i .scheduled cls⟩ :: s.history) →
      Origin s m s' i v'
  /-- It was there, and the move changed it. -/
  | changed {v : Situation} {ms : List Mark} : s.situation? i = some v → Change i m v ms v' →
      s.Tells s' i ms v' → (ms.count .accepted = if s.accepted? m = some i then 1 else 0) →
      Origin s m s' i v'

theorem origin_of_move (hs : s.Named) (h : s.move? m = some s') {v' : Situation}
    (hv' : s'.situation? i = some v') : s.Origin m s' i v' := by
  cases hv : s.situation? i with
  | none =>
      rcases adds_of_move hv h with ⟨hnone, -⟩ | ⟨w, hw, hborn, hin, hi, hrec⟩
      · exact absurd (hv'.symm.trans hnone) (by simp)
      · obtain rfl : v' = w := Option.some_inj.mp (hv'.symm.trans hw)
        exact .born hv hborn hin hi hrec
  | some v =>
      obtain ⟨ms, w, hchange, htells, hcount⟩ := change_of_move hs hv h
      obtain rfl : v' = w := Option.some_inj.mp (hv'.symm.trans htells.situation)
      exact .changed hv hchange htells hcount

theorem persists_shutdown (s : Scheduler) : s.Persists none s.shutdown where
  now := rfl
  monitor := id
  jobs i job hj := ⟨job.vanish, by simp [shutdown, hj], job.terms_vanish⟩
  entries _ _ h := .inl h
  events := ⟨[], rfl, by simp⟩

/-- Who acts in a move. -/
def actorOf : Move → Option JobId
  | .turn i => some i
  | _ => none

theorem persists_of_move (h : s.move? m = some s') : ∃ t, s.Persists (actorOf m) t ∧
    (t = s' ∨ ∃ now, s.now ≤ now ∧ s' = { t with now := now }) := by
  cases m with
  | call c =>
      cases h
      exact ⟨_, s.persists_call none c, .inl rfl⟩
  | turn k => exact ⟨_, persists_step h, .inl rfl⟩
  | pass ms =>
      cases h
      exact ⟨s, .refl s, .inr ⟨s.now + ms, by omega, rfl⟩⟩
  | shutdown =>
      cases h
      exact ⟨_, s.persists_shutdown, .inl rfl⟩

theorem terms_of_move (h : s.move? m = some s') {job : Job} (hj : s.jobs[i]? = some job) :
    ∃ job', s'.jobs[i]? = some job' ∧ job'.terms = job.terms := by
  obtain ⟨t, ht, rfl | ⟨now, -, rfl⟩⟩ := persists_of_move h
  · exact ht.jobs i job hj
  · exact ht.jobs i job hj

theorem added_of_move (h : s.move? m = some s') {c : Call} (hc : s.callOf? m = some c) {job : Job}
    (hj : (s.call (actorOf m) c).1.jobs[s.jobs.length]? = some job) :
    s'.jobs[s.jobs.length]? = some job := by
  cases m with
  | call c' =>
      cases h
      cases hc
      exact hj
  | turn k =>
      obtain ⟨answer, phase, rfl⟩ := step_of_call h hc
      have hk : k < s.jobs.length := by
        cases hjob : s.jobs[k]? with
        | none => simp [callOf?, hjob] at hc
        | some _ => exact (List.getElem?_eq_some_iff.mp hjob).1
      have hne : k ≠ s.jobs.length := Nat.ne_of_lt hk
      simp only [setPhase, updateJob, emit, List.getElem?_modify, if_neg hne]
      rw [show actorOf (.turn k) = some k from rfl] at hj
      simp [hj]
  | pass ms => exact absurd hc (by simp [callOf?])
  | shutdown => exact absurd hc (by simp [callOf?])

theorem history_of_move (h : s.move? m = some s') : ∃ new, s'.history = new ++ s.history := by
  obtain ⟨t, ht, rfl | ⟨now, -, rfl⟩⟩ := persists_of_move h
  · exact ⟨_, ht.events.choose_spec.1⟩
  · exact ⟨_, ht.events.choose_spec.1⟩

theorem named_of_move (hs : s.Named) (h : s.move? m = some s') : s'.Named := by
  obtain ⟨t, ht, rfl | ⟨now, -, rfl⟩⟩ := persists_of_move h
  · exact ht.named hs
  · exact ht.named hs

theorem recording_of_move (hs : s.monitor = .recording) (h : s.move? m = some s') :
    s'.monitor = .recording := by
  obtain ⟨t, ht, rfl | ⟨now, -, rfl⟩⟩ := persists_of_move h
  · exact ht.monitor hs
  · exact ht.monitor hs

theorem now_le_of_move (h : s.move? m = some s') : s.now ≤ s'.now := by
  obtain ⟨t, ht, rfl | ⟨now, hnow, rfl⟩⟩ := persists_of_move h
  · exact Int.le_of_eq ht.now.symm
  · exact hnow

theorem accepted?_exists (hs : s.Named) (h : s.accepted? m = some i) : s.situation? i ≠ none := by
  obtain ⟨c, -, hc⟩ := Option.bind_eq_some_iff.mp h
  have hfound : ∀ name, s.acceptedBy? (.run name) = some i → s.situation? i ≠ none := by
    intro name hacc
    rw [acceptedBy?] at hacc
    split at hacc
    · obtain ⟨job, hj, -⟩ := hs name i hacc
      rw [situation?_of_getElem? hj]
      simp
    · exact absurd hacc (by simp)
  cases c with
  | run name => exact hfound name hc
  | runIfExists name => exact hfound name hc
  | _ => exact absurd hc (by simp [acceptedBy?])

theorem strands_eq {v' : Situation} (hv : s.situation? i = some v) (h : s.move? m = some s')
    (hv' : s'.situation? i = some v') :
    s.strands m i = (v.job.phase.alive && v.job.record.running.pending &&
      !v'.job.phase.alive) := by
  rw [strands, (situation?_eq_some.mp hv).1, h, Option.bind_some, (situation?_eq_some.mp hv').1]

theorem waking?_eq_signal (hv : s.situation? i = some v) (timer : Option Int) :
    decide (s.waking? v.job timer = some .signal) =
      (!v.orphaned && !v.job.record.cancelling.pending && v.job.record.running.pending) := by
  rw [orphaned_of_situation? hv, waking?]
  cases s.tokens.isCancelled v.job.token <;> cases v.job.record.cancelling.pending <;>
    cases v.job.record.running.pending <;> simp

theorem signals_eq (hv : s.situation? i = some v) (m : Move) :
    s.signals m i = (m.isTurnOf i && v.isSignalled) := by
  cases m with
  | turn k =>
      simp only [signals, (situation?_eq_some.mp hv).1, Move.isTurnOf, Situation.isSignalled]
      cases v.job.phase with
      | waiting instant timer => exact congrArg (k == i && ·) (waking?_eq_signal hv timer)
      | _ => rfl
  | _ => rfl

theorem signals_of_none (hn : s.situation? i = none) (m : Move) : s.signals m i = false := by
  have hj : s.jobs[i]? = none := Option.map_eq_none_iff.mp hn
  unfold signals
  split
  · rename_i hsome
    rw [hj] at hsome
    exact absurd hsome (by simp)
  · rfl

theorem strands_of_none (hn : s.situation? i = none) (m : Move) : s.strands m i = false := by
  rw [strands, Option.map_eq_none_iff.mp hn]

end Scheduler

namespace Run

variable {monitor : Monitor} {logging : Bool} {past : List (Scheduler × Move)} {s : Scheduler}
  {i : JobId} {v : Situation}

theorem named (run : Run (.initial monitor logging) past s) : s.Named := by
  induction run with
  | start => exact fun name i h => absurd h (by simp [Scheduler.initial])
  | next m _ hm ih => exact Scheduler.named_of_move ih hm

theorem recording (run : Run (.initial .recording logging) past s) : s.monitor = .recording := by
  induction run with
  | start => rfl
  | next m _ hm ih => exact Scheduler.recording_of_move ih hm

theorem terms {a : Scheduler} (run : Run a past s) {job : Job} (hj : a.jobs[i]? = some job) :
    ∃ job', s.jobs[i]? = some job' ∧ job'.terms = job.terms := by
  induction run with
  | start => exact ⟨job, hj, rfl⟩
  | next m _ hm ih =>
      obtain ⟨job', hj', ht⟩ := ih
      obtain ⟨job'', hj'', ht'⟩ := Scheduler.terms_of_move hm hj'
      exact ⟨job'', hj'', ht'.trans ht⟩

theorem terms_eq {a : Scheduler} (run : Run a past s) {job job' : Job}
    (hj : a.jobs[i]? = some job) (hj' : s.jobs[i]? = some job') : job'.terms = job.terms := by
  obtain ⟨job'', hj'', hterms⟩ := run.terms hj
  obtain rfl : job' = job'' := Option.some_inj.mp (hj'.symm.trans hj'')
  exact hterms

theorem actor_lt (run : Run (.initial monitor logging) past s) :
    ∀ e ∈ s.history, ∀ i, e.actor = some i → i < s.jobs.length := by
  induction run with
  | start => exact fun e he => absurd he (by simp [Scheduler.initial])
  | @next past s s' m _ hm ih =>
      intro e he i hi
      obtain ⟨t, ht, hs'⟩ := Scheduler.persists_of_move hm
      have hsame : s'.history = t.history ∧ s'.jobs = t.jobs := by
        rcases hs' with rfl | ⟨now, -, rfl⟩ <;> exact ⟨rfl, rfl⟩
      obtain ⟨new, hnew, hold⟩ := ht.events
      rw [hsame.1, hnew] at he
      rw [hsame.2]
      rcases List.mem_append.mp he with he | he
      · rcases (hold e he).about i (.inl hi) with hactor | ⟨-, hlt⟩
        · cases m with
          | turn k =>
              cases hactor
              cases hj : s.jobs[i]? with
              | none => simp [Scheduler.move?, Scheduler.step?, hj] at hm
              | some job =>
                  have hlt := (List.getElem?_eq_some_iff.mp hj).1
                  exact Nat.lt_of_lt_of_le hlt ht.length_le
          | _ => exact absurd hactor (by simp [Scheduler.actorOf])
        · exact hlt
      · exact Nat.lt_of_lt_of_le (ih e he i hi) ht.length_le

theorem unborn (run : Run (.initial monitor logging) past s) (hn : s.situation? i = none) :
    s.marks i = [] ∧ accepts past i = 0 ∧ losses past i = 0 ∧ signalled past i = 0 := by
  induction run with
  | start => exact ⟨rfl, rfl, rfl, rfl⟩
  | @next past s s' m run hm ih =>
      cases hs : s.situation? i with
      | some v =>
          obtain ⟨ms, v', -, htells, -⟩ := Scheduler.change_of_move run.named hs hm
          rw [htells.situation] at hn
          exact absurd hn (by simp)
      | none =>
          obtain ⟨hmarks, hacc, hlost, hsignal⟩ := ih hs
          have hnot : s.accepted? m ≠ some i :=
            fun h => Scheduler.accepted?_exists run.named h hs
          refine ⟨?_, ?_, ?_, ?_⟩
          · rcases Scheduler.adds_of_move hs hm with ⟨-, hsame⟩ | ⟨v, hv, -⟩
            · exact hsame.trans hmarks
            · rw [hv] at hn
              exact absurd hn (by simp)
          · rw [accepts_cons, hacc, if_neg hnot]
          · rw [losses_cons, hlost, Scheduler.strands_of_none hs]
            rfl
          · rw [signalled_cons, hsignal, Scheduler.signals_of_none hs]
            rfl

/-- What a run looks like to a job: a life from the moment when it was registered, whose marks are
those of the history where a recording monitor is told of them. -/
theorem life (run : Run (.initial monitor logging) past s) (hv : s.situation? i = some v) :
    ∃ v₀ ms, v₀.Born ∧ Life i v₀ ms v ∧ ms.count .accepted = accepts past i ∧
      ms.count .lost = losses past i ∧
      ms.count (.reported (.started .signal)) = signalled past i ∧
      (monitor = .recording →
        s.marks i = ms.filter Mark.visible ++ [.reported .scheduled]) := by
  induction run generalizing v with
  | start => exact absurd hv (by simp [Scheduler.situation?, Scheduler.initial])
  | @next past s s' m run hm ih =>
      cases Scheduler.origin_of_move run.named hm hv with
      | changed hs hchange htells hcount =>
          -- The job was there, and its life goes on by one change.
          obtain ⟨v₀, ms, hborn, hlife, hacc, hlost, hsignal, hmarks⟩ := ih hs
          refine ⟨v₀, _, hborn, hlife.next hchange, ?_, ?_, ?_, fun hrec => ?_⟩
          · rw [List.count_append, hcount, hacc, accepts_cons, Nat.add_comm]
          · rw [List.count_append, hchange.count_lost, hlost, losses_cons,
              Scheduler.strands_eq hs hm hv, Nat.add_comm]
          · rw [List.count_append, hchange.count_signal, hsignal, signalled_cons,
              Scheduler.signals_eq hs, Nat.add_comm]
          · subst hrec
            rw [htells.marks run.recording, hmarks rfl, List.filter_append, List.append_assoc]
      | born hs hborn _ _ hrec =>
          -- The move registered the job, and its life begins.
          obtain ⟨hmarks, hacc, hlost, hsignal⟩ := run.unborn hs
          have hnot : s.accepted? m ≠ some i :=
            fun h => Scheduler.accepted?_exists run.named h hs
          refine ⟨v, [], hborn, .start, ?_, ?_, ?_, fun hmon => ?_⟩
          · rw [accepts_cons, hacc, if_neg hnot]
            rfl
          · rw [losses_cons, hlost, Scheduler.strands_of_none hs]
            rfl
          · rw [signalled_cons, hsignal, Scheduler.signals_of_none hs]
            rfl
          · subst hmon
            rw [(hrec run.recording).1, hmarks]
            rfl

end Run

end JobScheduler
