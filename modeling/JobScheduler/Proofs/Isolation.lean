import JobScheduler.Proofs.View.Turn

/-!
Jobs do not disturb one another. If the functions of the jobs scheduled under a name make no calls
and share no counter with other jobs, and no other job's functions name it, then every performance
of a script, without the steps that name these jobs and without the turns of their runners, is a
performance of the script without these steps, in which the other jobs do the same at the same times
(`Performance.undisturbed`).
-/

namespace JobScheduler

/-- Whether the jobs scheduled under a name keep to themselves in a script. -/
structure Confined (name : String) (steps : List Step) : Prop where
  /-- Their functions make no calls. -/
  silent : ∀ c o, Makes steps c → c.order? = some o → o.name = name →
    ∀ c', Action.call c' ∉ c.acts
  /-- The functions of other jobs make no call that names them. -/
  unnamed : ∀ c o, Makes steps c → c.order? = some o → o.name ≠ name →
    ∀ c', Action.call c' ∈ c.acts → c'.named? ≠ some name
  /-- Their counters are not those of other jobs. -/
  counters : ∀ c o c' o', Makes steps c → c.order? = some o → o.name = name →
    Makes steps c' → c'.order? = some o' → o'.name ≠ name → o.counter ≠ o'.counter

/-- Whether a step does not name a job. -/
def Step.spares (name : String) : Step → Bool
  | .call c => decide (c.named? ≠ some name)
  | _ => true

/-- An answer of `s`, and the answer of `t` without a name: a list of names loses it, and a count of
jobs loses its jobs. -/
inductive Answer.Loses (name : String) (s t : Scheduler) : Answer → Answer → Prop where
  | same (answer : Answer) : Loses name s t answer answer
  | names (names : List String) :
      Loses name s t (.list names) (.list (names.filter fun n => n ≠ name))
  | count : t.registry.length = (s.kept name).length →
      Loses name s t (.text s.describe) (.text t.describe)

/-- Where a job comes to be once some jobs are taken out. -/
def rank (out : JobId → Bool) (i : JobId) : JobId := (List.range i).countP fun k => !out k

section

variable {out : JobId → Bool} {i k : JobId}

theorem rank_succ (i : JobId) : rank out (i + 1) = rank out i + if out i then 0 else 1 := by
  rw [rank, List.range_succ, List.countP_append, List.countP_singleton]
  cases out i <;> rfl

theorem rank_mono (h : i ≤ k) : rank out i ≤ rank out k := by
  induction k with
  | zero =>
      obtain rfl := Nat.le_zero.mp h
      exact Nat.le_refl _
  | succ k ih =>
      rcases Nat.le_or_eq_of_le_succ h with hle | rfl
      · rw [rank_succ]
        exact Nat.le_add_right_of_le (ih hle)
      · exact Nat.le_refl _

theorem rank_lt (hi : out i = false) (h : i < k) : rank out i < rank out k := by
  have hnext : rank out (i + 1) = rank out i + 1 := by rw [rank_succ, hi]; rfl
  have hle : rank out (i + 1) ≤ rank out k := rank_mono h
  rw [hnext] at hle
  exact hle

theorem rank_inj (hi : out i = false) (hk : out k = false) (h : rank out i = rank out k) :
    i = k := by
  rcases Nat.lt_trichotomy i k with hlt | rfl | hlt
  · exact absurd h (Nat.ne_of_lt (rank_lt hi hlt))
  · rfl
  · exact absurd h (Nat.ne_of_gt (rank_lt hk hlt))

theorem exists_of_lt_rank {n : JobId} (h : k < rank out n) :
    ∃ i, out i = false ∧ rank out i = k := by
  induction n with
  | zero => exact absurd h (Nat.not_lt_zero k)
  | succ n ih =>
      rw [rank_succ] at h
      cases hn : out n with
      | true => exact ih (by simpa [hn] using h)
      | false =>
          rcases Nat.lt_or_eq_of_le (Nat.le_of_lt_succ (by simpa [hn] using h)) with hlt | rfl
          · exact ih hlt
          · exact ⟨n, hn, rfl⟩

end

theorem Action.mapCalls_id : Action.mapCalls id = id := by
  funext action
  cases action <;> rfl

theorem Work.mapCalls_id : Work.mapCalls id = id := by
  funext w
  simp [Work.mapCalls, Action.mapCalls_id]

theorem Plan.mapCalls_id : Plan.mapCalls id = id := by
  funext p
  simp [Plan.mapCalls, Action.mapCalls_id]

/-- A scheduler with and without the jobs of a name. -/
def View.without (name : String) (out : JobId → Bool) (counters : String → Prop) : View where
  left := ⟨name, out, true, counters⟩
  hidden _ := false
  place := rank out
  call := id
  replies s t _ := Answer.Loses name s t
  place_visible _ := rfl
  place_inj := rank_inj
  place_succ hi := by rw [rank_succ, if_neg (Bool.eq_false_iff.mp hi)]
  call_plain _ := rfl
  call_schedule _ := by simp [Work.mapCalls_id]
  call_periodic _ := by simp [Work.mapCalls_id, Plan.mapCalls_id]
  replies_self _ _ _ := .same

/-- Whether the runners of a scheduler are at rest until `n`. -/
structure Scheduler.Idle (s : Scheduler) (n : Int) : Prop where
  le : s.now ≤ n
  settled : s.Settled
  later : ∀ job ∈ s.jobs, ∀ t, job.deadline? = some t → t ≤ s.now ∨ n < t

namespace Scheduler

variable {s : Scheduler} {n : Int}

theorem isOver_later {job : Job} {pause : Pause}
    (h : ∀ t, pause = .clock t → ¬t ≤ s.now → ¬t ≤ n) (hover : s.isOver job pause = false) :
    isOver { s with now := n } job pause = false := by
  cases pause with
  | clock deadline =>
      have hnot : ¬deadline ≤ s.now := of_decide_eq_false hover
      exact decide_eq_false (h deadline rfl hnot)
  | none => exact hover
  | token => exact hover

theorem waking?_later {job : Job} {timer : Option Int}
    (h : ∀ t, timer = some t → ¬t ≤ s.now → ¬t ≤ n) (hw : s.waking? job timer = none) :
    waking? { s with now := n } job timer = none := by
  unfold waking? at hw ⊢
  dsimp only at hw ⊢
  split at hw
  · exact absurd hw (by simp)
  · rename_i hparent
    split at hw
    · exact absurd hw (by simp)
    · rename_i hcancel
      split at hw
      · exact absurd hw (by simp)
      · rename_i hsignal
        rw [if_neg hparent, if_neg hcancel, if_neg hsignal]
        cases timer with
        | none => rfl
        | some t =>
            have hnot : ¬t ≤ s.now := by simpa using hw
            simpa using h t rfl hnot

theorem Idle.settled_until (h : s.Idle n) : Settled { s with now := n } := by
  intro i
  have hstep := h.settled i
  unfold step? at hstep ⊢
  dsimp only
  cases hj : s.jobs[i]? with
  | none => rfl
  | some job =>
      rw [hj] at hstep
      dsimp only at hstep ⊢
      have hclock : ∀ t, job.deadline? = some t → ¬t ≤ s.now → ¬t ≤ n := by
        intro t ht hnot hle
        rcases h.later job (List.mem_of_getElem? hj) t ht with hle' | hlt
        · exact hnot hle'
        · exact absurd hle (Int.not_le.mpr hlt)
      cases hp : job.phase with
      | spawned instant => exact absurd hstep (by simp [hp])
      | looping => exact absurd hstep (by simp [hp])
      | planning pause rest result =>
          have hover : s.isOver job pause = false := by simpa [hp] using hstep
          have hlater := isOver_later (fun t ht => hclock t (by simp [Job.deadline?, hp, ht])) hover
          simp [hlater]
      | waiting instant timer =>
          have hw : s.waking? job timer = none := by simpa [hp] using hstep
          have hlater := waking?_later (fun t ht => hclock t (by simp [Job.deadline?, hp, ht])) hw
          simp [hlater]
      | running instant pause rest =>
          have hover : s.isOver job pause = false := by simpa [hp] using hstep
          have hlater := isOver_later (fun t ht => hclock t (by simp [Job.deadline?, hp, ht])) hover
          simp [hlater]
      | returned => rfl
      | vanished => rfl

end Scheduler

namespace Scheduler.Idle

variable {s t : Scheduler} {stop d : Int}
  (hdeadlines : ∀ job' ∈ t.jobs, ∃ job ∈ s.jobs, job.deadline? = job'.deadline?)
include hdeadlines

theorem due (h : t.Idle s.now) {u : Int} (hu : t.Due stop u) : s.Due stop u := by
  obtain ⟨⟨job', hmem', hj'⟩, hlt, hle⟩ := hu
  obtain ⟨job, hmem, hj⟩ := hdeadlines job' hmem'
  refine ⟨⟨job, hmem, hj.trans hj'⟩, ?_, hle⟩
  exact (h.later job' hmem' u hj').resolve_left (Int.not_le.mpr hlt)

/-- A scheduler that has some of the deadlines stops where the other stops, or is at rest there. -/
theorem next (h : t.Idle s.now) (hd : s.nextDeadline? stop = some d) :
    t.nextDeadline? stop = some d ∨ t.Idle d := by
  obtain ⟨⟨-, hlt, hle⟩, hmin⟩ := nextDeadline?_eq_some_iff.mp hd
  have hstart := Int.lt_of_le_of_lt h.le hlt
  by_cases hown : ∃ job ∈ t.jobs, job.deadline? = some d
  · refine .inl (nextDeadline?_eq_some_iff.mpr ⟨⟨hown, hstart, hle⟩, fun u hu => ?_⟩)
    exact hmin u (h.due hdeadlines hu)
  · refine .inr ⟨Int.le_of_lt hstart, h.settled, fun job hmem u hu => ?_⟩
    refine (h.later job hmem u hu).imp_right fun hafter => ?_
    rcases Int.lt_or_le stop u with hbeyond | hwithin
    · exact Int.lt_of_le_of_lt hle hbeyond
    · have hdue : t.Due stop u := ⟨⟨job, hmem, hu⟩, Int.lt_of_le_of_lt h.le hafter, hwithin⟩
      refine Int.lt_iff_le_and_ne.mpr ⟨hmin u (h.due hdeadlines hdue), ?_⟩
      rintro rfl
      exact hown ⟨job, hmem, hu⟩

theorem next_none (h : t.Idle s.now) (hnone : s.nextDeadline? stop = none) :
    t.nextDeadline? stop = none :=
  nextDeadline?_eq_none_iff.mpr fun u hu =>
    nextDeadline?_eq_none_iff.mp hnone u (h.due hdeadlines hu)

end Scheduler.Idle

/-- The counters of the jobs that a script schedules under a name. -/
def ownCounters (name : String) (steps : List Step) (counter : String) : Prop :=
  ∃ c o, Makes steps c ∧ c.order? = some o ∧ o.name = name ∧ o.counter = counter

/-- Whether a move is made on the other side: it is no call that names what is covered and no step
of a covered runner. How time passes is another matter. -/
def View.remains (v : View) : Move → Bool
  | .call c => decide (c.named? ≠ some v.left.name)
  | .turn i => !v.left.jobs i
  | .shutdown => true
  | .pass _ => false

def Move.isPass : Move → Bool
  | .pass _ => true
  | _ => false

/-- Whether the second scheduler is the first without the jobs of a name. -/
structure Undisturbed (v : View) (s t : Scheduler) : Prop extends v.Mirrors s t where
  registered : ∀ name, name ≠ v.left.name → t.isRegistered name = s.isRegistered name
  active : ∀ name, name ≠ v.left.name → t.isActive name = s.isActive name
  names : t.names = s.names.filter fun name => name ≠ v.left.name

/-- Whether a move of the second run is a move of the first, with the same outcome of its call. -/
structure Follows (v : View) (e e' : Scheduler × Move) : Prop where
  move : e'.2 = v.move e.2
  undisturbed : Undisturbed v e.1 e'.1
  reply : ∀ c, e.1.callOf? e.2 = some c →
    v.replies e.1 e'.1 c (e.1.call (Scheduler.actorOf e.2) c).2
      (e'.1.call (Scheduler.actorOf e'.2) (v.call c)).2

/-- Whether a performance of the shortened script is as far as one of the whole script. While it is
at rest its clock may be behind. -/
structure Shortened (v : View) (p p' : Progress) : Prop where
  mirrors : v.Mirrors p.scheduler { p'.scheduler with now := p.scheduler.now }
  until? : p'.until? = p.until?
  rest : p'.rest = p.rest.filter (Step.spares v.left.name)
  clock : p'.scheduler.now = p.scheduler.now ∨
    p.until? ≠ none ∧ p'.scheduler.Idle p.scheduler.now

/-- Whether a performance is another one without the jobs of a name: as far in the script, in a
state that is the same without them, after the same moves. -/
structure Companion (v : View) (past : List (Scheduler × Move)) (p : Progress)
    (past' : List (Scheduler × Move)) (p' : Progress) : Prop where
  until? : p'.until? = p.until?
  rest : p'.rest = p.rest.filter (Step.spares v.left.name)
  clock : p.until? = none → p'.scheduler.now = p.scheduler.now
  state : Undisturbed v p.scheduler { p'.scheduler with now := p.scheduler.now }
  moves : List.Forall₂ (Follows v) (past.filter fun e => v.remains e.2)
    (past'.filter fun e => !e.2.isPass)

namespace View.Mirrors

variable {name : String} {out : JobId → Bool} {counters : String → Prop} {s t : Scheduler}
  {a : Option JobId} {job : Job}

theorem registry_eq (h : (View.without name out counters).Mirrors s t) (ht : t.Named)
    (hr : (View.without name out counters).right.Fits t) : t.registry = t.kept name := by
  symm
  unfold Scheduler.kept
  rw [List.filter_eq_self]
  rintro ⟨key, k⟩ hmem
  apply decide_eq_true
  rintro rfl
  cases hl : t.registry.lookup key with
  | none =>
      have hne := List.lookup_eq_none_iff.mp hl (key, k) hmem
      exact absurd hne (by simp)
  | some n =>
      obtain ⟨job, hj, hname⟩ := ht key n hl
      have hcovered : false = decide (job.record.name = key) := hr n job hj
      rw [hname] at hcovered
      exact absurd hcovered (by simp)

theorem undisturbed (h : (View.without name out counters).Mirrors s t) (hs : s.Named)
    (hk : (View.without name out counters).left.Fits s) (ht : t.Named)
    (hr : (View.without name out counters).right.Fits t) :
    Undisturbed (View.without name out counters) s t :=
  { h with
    registered := fun _ hn => h.isRegistered hn
    active := fun _ hn => h.isActive hs hk hn
    names := by
      unfold Scheduler.names
      rw [← filter_mergeSort, ← map_kept]
      have hsame : t.registry.map (·.1) = (s.kept name).map (·.1) := by
        rw [h.registry_eq ht hr, show t.kept name = _ from h.registry, List.map_map]
        rfl
      rw [hsame]
      rfl }

theorem replies_listing (h : (View.without name out counters).Mirrors s t) (hs : s.Named)
    (hk : (View.without name out counters).left.Fits s) (ht : t.Named)
    (hr : (View.without name out counters).right.Fits t) :
    Answer.Loses name s t (.list s.names) (.list t.names) ∧
      Answer.Loses name s t (.text s.describe) (.text t.describe) := by
  constructor
  · rw [(h.undisturbed hs hk ht hr).names]
    exact .names s.names
  · refine .count ?_
    rw [h.registry_eq ht hr, show t.kept name = _ from h.registry, List.length_map]
    rfl

theorem enrol_left (h : (View.without name out counters).Mirrors s t)
    (hi : out s.jobs.length = true) (hn : job.record.name = name) :
    (View.without name out counters).Mirrors (s.enrol a job) t := by
  have hadd : (View.without name out counters).Mirrors
      { s with
        registry := s.registry ++ [(job.record.name, s.jobs.length)]
        jobs := s.jobs ++ [job] } t :=
    { h with
      registry := by
        have hkept := h.registry
        unfold Scheduler.kept at hkept ⊢
        rw [List.filter_append, hkept]
        simp [hn, View.without]
      jobs := by
        intro n hvisible
        have hne : n ≠ s.jobs.length := by
          rintro rfl
          exact absurd (hvisible.symm.trans hi) Bool.false_ne_true
        rw [h.jobs n hvisible]
        congr 1
        show s.jobs[n]? = (s.jobs ++ [job])[n]?
        rw [Scheduler.getElem?_added, if_neg hne]
      length := by
        rw [h.length]
        show rank out _ = rank out _
        simp [rank_succ, hi] }
  unfold Scheduler.enrol
  dsimp only
  refine hadd.left (((Cover.Same.refl _).report hi (.inl rfl) _).log_about ?_)
  exact congrArg some hn

theorem call_left (h : (View.without name out counters).Mirrors s t) (hs : s.Named) {c : Call}
    (hk : (View.without name out counters).left.Fits (s.call a c).1)
    (hc : c.named? = some name) : (View.without name out counters).Mirrors (s.call a c).1 t := by
  have hk₀ := hk.before (s.persists_call a c)
  cases c with
  | schedule o work runtime =>
      have hn : o.name = name := Option.some_inj.mp hc
      simp only [Scheduler.call] at hk ⊢
      unfold Scheduler.schedule
      cases hv : s.vet o true work with
      | error e => exact h
      | ok w =>
          have hi : out s.jobs.length = true := (hk.scheduled hv).trans (decide_eq_true hn)
          have hname := s.name_newJob o false w .empty (.spawned (runtime.resolve s.now))
          refine (h.enrol_left (a := a) hi (hname.trans hn)).left ?_
          have habout :
              (LogEntry.oneOffScheduled o.name (runtime.resolve s.now)).job? = some name :=
            congrArg some hn
          exact ((Cover.Same.refl _).log_about habout).log_own hi _
  | schedulePeriodic o work plan =>
      have hn : o.name = name := Option.some_inj.mp hc
      simp only [Scheduler.call] at hk ⊢
      unfold Scheduler.schedulePeriodic
      cases hv : s.vet o plan.isSome work with
      | error e => exact h
      | ok w =>
          have hi : out s.jobs.length = true := (hk.scheduledPeriodic hv).trans (decide_eq_true hn)
          have hname := s.name_newJob o true w (plan.getD .empty) .looping
          refine (h.enrol_left (a := a) hi (hname.trans hn)).left ?_
          exact (Cover.Same.refl _).log_own hi _
  | run n =>
      cases hc
      exact h.left (.run hs hk₀)
  | runIfExists n =>
      cases hc
      exact h.left (.runIfExists hs hk₀)
  | cancel n =>
      cases hc
      exact h.left (.cancel hs hk₀)
  | cancelIfExists n =>
      cases hc
      exact h.left (.cancel hs hk₀)
  | isRegistered n => exact h
  | isActive n => exact h
  | _ => exact absurd hc (by simp [Call.named?])

theorem deadlines (h : (View.without name out counters).Mirrors s t) {job' : Job}
    (hmem : job' ∈ t.jobs) : ∃ job ∈ s.jobs, job.deadline? = job'.deadline? := by
  obtain ⟨k, hlt, rfl⟩ := List.getElem_of_mem hmem
  have hrank : k < rank out s.jobs.length := Nat.lt_of_lt_of_eq hlt h.length
  obtain ⟨i, hvisible, rfl⟩ := exists_of_lt_rank hrank
  have hjob := h.jobs i hvisible
  rw [show (View.without name out counters).place i = rank out i from rfl,
    List.getElem?_eq_getElem hlt] at hjob
  obtain ⟨job, hj, heq⟩ := Option.map_eq_some_iff.mp hjob.symm
  refine ⟨job, List.mem_of_getElem? hj, ?_⟩
  rw [← heq, Job.deadline?_mapCalls]

theorem settled (h : (View.without name out counters).Mirrors s t) (hsettled : s.Settled) :
    t.Settled := by
  intro k
  by_cases hlt : k < t.jobs.length
  · have hrank : k < rank out s.jobs.length := Nat.lt_of_lt_of_eq hlt h.length
    obtain ⟨i, hvisible, rfl⟩ := exists_of_lt_rank hrank
    exact (h.step?_eq_none_iff hvisible).mpr (hsettled i)
  · simp [Scheduler.step?, List.getElem?_eq_none (Nat.le_of_not_lt hlt)]

end View.Mirrors

namespace Confined

variable {monitor : Monitor} {logging : Bool} {steps : List Step} {name : String}
  {past : List (Scheduler × Move)} {p : Progress} {i : JobId} {job : Job}

theorem silent_job (hb : Confined name steps)
    (h : Performance ⟨.initial monitor logging, none, steps⟩ past p)
    (hj : p.scheduler.jobs[i]? = some job) (hn : job.record.name = name) :
    ownCounters name steps job.counter ∧ ∀ c, .call c ∉ job.phase.rest := by
  obtain ⟨c, hmakes, ⟨o, ho, hname, hcounter⟩, hacts⟩ := h.ordered hj
  have hown : o.name = name := hname.symm.trans hn
  refine ⟨⟨c, o, hmakes, ho, hown, hcounter.symm⟩, fun c' hc' => ?_⟩
  exact hb.silent c o hmakes ho hown c' (hacts ▸ h.run.keeps hj c' hc')

theorem unnamed_job (hb : Confined name steps)
    (h : Performance ⟨.initial monitor logging, none, steps⟩ past p)
    (hj : p.scheduler.jobs[i]? = some job) (hn : job.record.name ≠ name) :
    ¬ownCounters name steps job.counter ∧
      ∀ c, job.nextCall? = some c → c.named? ≠ some name := by
  obtain ⟨c, hmakes, ⟨o, ho, hname, hcounter⟩, hacts⟩ := h.ordered hj
  have hother : o.name ≠ name := fun heq => hn (hname.trans heq)
  refine ⟨?_, fun c' hc' => ?_⟩
  · rintro ⟨c₁, o₁, hmakes₁, ho₁, hn₁, hc₁⟩
    exact hb.counters c₁ o₁ c o hmakes₁ ho₁ hn₁ hmakes ho hother (hc₁.trans hcounter)
  · exact hb.unnamed c o hmakes ho hother c' (hacts ▸ h.run.nextCall_mem hj hc')

theorem makes_spared (hb : Confined name steps) {c : Call}
    (h : Makes (steps.filter (Step.spares name)) c) :
    Makes steps c ∧ ∀ o, c.order? = some o → o.name ≠ name := by
  have hnamed : ∀ {c : Call} {o : JobOrder}, c.order? = some o → c.named? = some o.name := by
    intro c o ho
    cases c <;> first | exact congrArg (·.map JobOrder.name) ho | exact absurd ho nofun
  have hother : ∀ {c : Call}, c.named? ≠ some name → ∀ o, c.order? = some o → o.name ≠ name := by
    rintro c hc o ho rfl
    exact hc (hnamed ho)
  induction h with
  | step hmem =>
      obtain ⟨hmem, hspares⟩ := List.mem_filter.mp hmem
      exact ⟨.step hmem, hother (of_decide_eq_true hspares)⟩
  | @inner c c' _ hacts ih =>
      obtain ⟨hmakes, hne⟩ := ih
      refine ⟨.inner hmakes hacts, hother ?_⟩
      cases ho : c.order? with
      | none =>
          rw [Call.acts_eq_nil ho] at hacts
          exact absurd hacts (by simp)
      | some o => exact hb.unnamed c o hmakes ho (hne o ho) c' hacts

theorem fits_right (hb : Confined name steps) {past' : List (Scheduler × Move)} {p' : Progress}
    (h : Performance ⟨.initial monitor logging, none, steps.filter (Step.spares name)⟩ past' p')
    (out : JobId → Bool) (counters : String → Prop) :
    (View.without name out counters).right.Fits p'.scheduler := by
  intro i job hj
  obtain ⟨c, hmakes, ⟨o, ho, hname, -⟩, -⟩ := h.ordered hj
  refine (decide_eq_false ?_).symm
  rw [hname]
  exact (hb.makes_spared hmakes).2 o ho

end Confined

theorem View.Mirrors.setNow {v : View} {s t : Scheduler} (h : v.Mirrors s t) (n : Int) :
    v.Mirrors { s with now := n } { t with now := n } :=
  { h with now := rfl }

namespace Shortened

variable {v : View} {s t : Scheduler} {until? : Option Int} {rest : List Step} {p' : Progress}

theorem of_mirrors (h : v.Mirrors s t) :
    Shortened v ⟨s, until?, rest⟩ ⟨t, until?, rest.filter (Step.spares v.left.name)⟩ := by
  refine ⟨?_, rfl, rfl, .inl h.now⟩
  show v.Mirrors s { t with now := s.now }
  rw [← h.now]
  exact h

theorem mirrors_of_now (h : Shortened v ⟨s, until?, rest⟩ p') (hnow : p'.scheduler.now = s.now) :
    v.Mirrors s p'.scheduler := by
  have hm : v.Mirrors s { p'.scheduler with now := s.now } := h.mirrors
  rw [← hnow] at hm
  exact hm

theorem mirrors_of_none (h : Shortened v ⟨s, none, rest⟩ p') :
    ∃ t, p' = ⟨t, none, rest.filter (Step.spares v.left.name)⟩ ∧ v.Mirrors s t := by
  obtain ⟨t, u, rest'⟩ := p'
  obtain hnow | ⟨hne, -⟩ := h.clock
  · obtain rfl : u = none := h.until?
    obtain rfl : rest' = _ := h.rest
    exact ⟨t, rfl, h.mirrors_of_now hnow⟩
  · exact absurd rfl hne

theorem idle {name : String} {out : JobId → Bool} {counters : String → Prop} {stop : Int}
    (h : Shortened (View.without name out counters) ⟨s, some stop, rest⟩ p')
    (hs : s.Settled) : p'.scheduler.Idle s.now := by
  obtain hnow | ⟨-, hidle⟩ := h.clock
  · have hnow : p'.scheduler.now = s.now := hnow
    refine ⟨Int.le_of_eq hnow, (h.mirrors_of_now hnow).settled hs, fun _ _ u _ => ?_⟩
    rw [hnow]
    exact (Int.lt_or_le s.now u).symm
  · exact hidle

section

variable {monitor : Monitor} {logging : Bool} {steps : List Step} {name : String} {stop : Int}
  {past past' : List (Scheduler × Move)} {out : JobId → Bool} {i : JobId} {s' : Scheduler}
  (hb : Confined name steps)
  (h : Performance ⟨.initial monitor logging, none, steps⟩ past ⟨s, some stop, rest⟩)
  (hshort : Shortened (.without name out (ownCounters name steps)) ⟨s, some stop, rest⟩ p')
include hb h hshort

/-- A turn of a covered runner is noticed by nobody. -/
theorem covered_turn (hk : (View.without name out (ownCounters name steps)).left.Fits s)
    (hi : out i = true) (hstep : s.step? i = some s') :
    Shortened (.without name out (ownCounters name steps)) ⟨s', some stop, rest⟩ p' := by
  cases hj : s.jobs[i]? with
  | none => simp [Scheduler.step?, hj] at hstep
  | some job =>
      have hn : job.record.name = name := of_decide_eq_true ((hk i job hj).symm.trans hi)
      obtain ⟨hcounter, hno⟩ := hb.silent_job h hj hn
      have hsame := Cover.Same.step (k := (View.without name out (ownCounters name steps)).left)
        rfl hi hj hn hcounter hno hstep
      have hnow : s'.now = s.now := hsame.now
      refine ⟨?_, hshort.until?, hshort.rest, ?_⟩
      · show View.Mirrors _ s' { p'.scheduler with now := s'.now }
        rw [hnow]
        exact hshort.mirrors.left hsame
      · show p'.scheduler.now = s'.now ∨ _ ∧ p'.scheduler.Idle s'.now
        rw [hnow]
        exact hshort.clock

theorem other_turn
    (h' : Performance ⟨.initial monitor logging, none, steps.filter (Step.spares name)⟩ past' p')
    (hout : (View.without name out (ownCounters name steps)).left.Fits s') (hi : out i = false)
    (hstep : s.step? i = some s') :
    ∃ t t', p' = ⟨t, some stop, rest.filter (Step.spares name)⟩ ∧
      t.step? (rank out i) = some t' ∧
      Undisturbed (.without name out (ownCounters name steps)) s t ∧
      (View.without name out (ownCounters name steps)).Mirrors s' t' ∧
      ∀ c, s.callOf? (.turn i) = some c →
        Answer.Loses name s t (s.call (some i) c).2 (t.call (some (rank out i)) c).2 := by
  have hk := hout.before (Scheduler.persists_step hstep)
  obtain ⟨t, u, rest'⟩ := p'
  obtain rfl : u = some stop := hshort.until?
  obtain rfl : rest' = _ := hshort.rest
  have hr := hb.fits_right h' out (ownCounters name steps)
  have hnow : t.now = s.now := by
    rcases hshort.clock with hnow | ⟨-, hidle⟩
    · exact hnow
    · -- At rest no other runner can go on.
      have hnone := (hshort.mirrors.step?_eq_none_iff hi).mp (hidle.settled_until _)
      exact absurd (hstep.symm.trans hnone) (by simp)
  have hm := hshort.mirrors_of_now hnow
  cases hj : s.jobs[i]? with
  | none => simp [Scheduler.step?, hj] at hstep
  | some job =>
      have hn : job.record.name ≠ name := of_decide_eq_false ((hk i job hj).symm.trans hi)
      obtain ⟨hcounter, hunnamed⟩ := hb.unnamed_job h hj hn
      obtain ⟨hlist, hcount⟩ := hm.replies_listing h.run.named hk h'.run.named hr
      have hcall : ∀ c, s.callOf? (.turn i) = some c →
          (View.without name out (ownCounters name steps)).Mirrors (s.call (some i) c).1
              (t.call (some (rank out i)) c).1 ∧
            Answer.Loses name s t (s.call (some i) c).2 (t.call (some (rank out i)) c).2 := by
        intro c hc
        have hafter := hout.made hstep
        rw [hc] at hafter
        rw [Scheduler.callOf?, hj] at hc
        exact hm.call h.run.named h'.run.named hr (a := some i)
          (View.Mirrors.own_level hi) hafter (hunnamed c hc) hlist hcount
      have hown : ∀ job', s.jobs[i]? = some job' → ¬ownCounters name steps job'.counter := by
        intro job' hj'
        obtain rfl := Option.some_inj.mp (hj.symm.trans hj')
        exact hcounter
      obtain ⟨t', hstep', hm'⟩ := hm.step hi h.run.named hk hown hcall hstep
      exact ⟨t, t', rfl, hstep', hm.undisturbed h.run.named hk h'.run.named hr, hm',
        fun c hc => (hcall c hc).2⟩

end

end Shortened

namespace Performance

variable {monitor : Monitor} {logging : Bool} {steps : List Step} {name : String}
  {past : List (Scheduler × Move)} {p : Progress}

theorem shortened (hb : Confined name steps)
    (h : Performance ⟨.initial monitor logging, none, steps⟩ past p) {out : JobId → Bool}
    {v : View} (hv : v = .without name out (ownCounters name steps))
    (hout : v.left.Fits p.scheduler) :
    ∃ past' p', Performance ⟨.initial monitor logging, none, steps.filter (Step.spares name)⟩
        past' p' ∧ Shortened v p p' ∧
      List.Forall₂ (Follows v) (past.filter fun e => v.remains e.2)
        (past'.filter fun e => !e.2.isPass) := by
  have hname : v.left.name = name := by rw [hv]; rfl
  induction h with
  | start =>
      refine ⟨[], _, .start, ?_, .nil⟩
      subst hv
      exact .of_mirrors
        { now := rfl
          tokens := rfl
          logging := rfl
          recording := .rfl
          registry := rfl
          jobs := fun _ _ => rfl
          length := rfl
          counts := fun _ _ => rfl
          shown := .nil }
  | @call past s c rest h ih =>
      obtain ⟨past', p', h', hshort, hpast⟩ := ih (hout.before (s.persists_call none c))
      obtain ⟨t, rfl, hm⟩ := hshort.mirrors_of_none
      subst hv
      by_cases hn : c.named? = some name
      · refine ⟨past', _, h', ?_, ?_⟩
        · rw [List.filter_cons_of_neg (by simp [Step.spares, hn, View.without])]
          exact .of_mirrors (hm.call_left h.run.named hout hn)
        · rw [List.filter_cons_of_neg (by simp [View.remains, hn, View.without])]
          exact hpast
      · rw [List.filter_cons_of_pos (by simp [Step.spares, hn, View.without])] at h'
        have hr := hb.fits_right h' out (ownCounters name steps)
        have hund := hm.undisturbed h.run.named (hout.before (s.persists_call none c))
          h'.run.named hr
        obtain ⟨hlist, hcount⟩ := hm.replies_listing h.run.named
          (hout.before (s.persists_call none c)) h'.run.named hr
        obtain ⟨hnew, hreply⟩ := hm.call h.run.named h'.run.named hr (a := none)
          (fun _ heq => absurd heq (by simp)) hout hn hlist hcount
        refine ⟨_, _, h'.call, .of_mirrors hnew, ?_⟩
        rw [List.filter_cons_of_pos (by simp [View.remains, hn, View.without]),
          List.filter_cons_of_pos rfl]
        refine .cons ⟨rfl, hund, ?_⟩ hpast
        rintro c' ⟨⟩
        exact hreply
  | @stall past s ms rest h ih =>
      obtain ⟨past', p', h', hshort, hpast⟩ := ih hout
      obtain ⟨t, rfl, hm⟩ := hshort.mirrors_of_none
      exact ⟨_, _, h'.stall, .of_mirrors (hm.stall ms), hpast⟩
  | @shutdown past s rest h ih =>
      have hk := hout.before s.persists_shutdown
      obtain ⟨past', p', h', hshort, hpast⟩ := ih hk
      obtain ⟨t, rfl, hm⟩ := hshort.mirrors_of_none
      subst hv
      have hund := hm.undisturbed h.run.named hk h'.run.named (hb.fits_right h' out _)
      exact ⟨_, _, h'.shutdown, .of_mirrors hm.shutdown, .cons ⟨rfl, hund, nofun⟩ hpast⟩
  | @settle past s rest h ih =>
      obtain ⟨past', p', h', hshort, hpast⟩ := ih hout
      obtain ⟨t, rfl, hm⟩ := hshort.mirrors_of_none
      refine ⟨_, _, h'.settle, ?_, hpast⟩
      rw [hm.now]
      exact .of_mirrors hm
  | @advance past s ms rest h ih =>
      obtain ⟨past', p', h', hshort, hpast⟩ := ih hout
      obtain ⟨t, rfl, hm⟩ := hshort.mirrors_of_none
      refine ⟨_, _, h'.advance, ?_, hpast⟩
      rw [hm.now]
      exact .of_mirrors hm
  | @turn past s s' stop rest i h hstep ih =>
      have hk := hout.before (Scheduler.persists_step hstep)
      obtain ⟨past', p', h', hshort, hpast⟩ := ih hk
      subst hv
      cases hi : out i with
      | true =>
          refine ⟨past', p', h', hshort.covered_turn hb h hk hi hstep, ?_⟩
          rw [List.filter_cons_of_neg (by simp [View.remains, View.without, hi])]
          exact hpast
      | false =>
          obtain ⟨t, t', rfl, hstep', hund, hm', hreply⟩ := hshort.other_turn hb h h' hout hi hstep
          refine ⟨_, _, h'.turn hstep', .of_mirrors hm', ?_⟩
          rw [List.filter_cons_of_pos (by simp [View.remains, View.without, hi]),
            List.filter_cons_of_pos rfl]
          exact .cons ⟨rfl, hund, hreply⟩ hpast
  | @wait past s stop d rest h hs hd ih =>
      obtain ⟨past', ⟨t, u, rest'⟩, h', hshort, hpast⟩ := ih hout
      subst hv
      obtain rfl : u = some stop := hshort.until?
      obtain rfl : rest' = _ := hshort.rest
      have hidle : t.Idle s.now := hshort.idle hs
      have hdeadlines : ∀ job' ∈ t.jobs, ∃ job ∈ s.jobs, job.deadline? = job'.deadline? :=
        fun _ => hshort.mirrors.deadlines
      have hlt := (Run.nextDeadline hd).1
      -- If the deadline is a covered job's, the clock of the shortened script may stay behind.
      rcases hidle.next hdeadlines hd with hd' | hidle'
      · have hlt' := (Run.nextDeadline hd').1
        refine ⟨_, _, h'.wait hidle.settled hd', ?_, hpast⟩
        rw [Scheduler.stall_eq (Int.le_of_lt hlt), Scheduler.stall_eq (Int.le_of_lt hlt')]
        exact .of_mirrors (hshort.mirrors.setNow d)
      · refine ⟨past', _, h', ⟨?_, rfl, rfl, .inr ⟨by simp, ?_⟩⟩, hpast⟩
        · rw [Scheduler.stall_eq (Int.le_of_lt hlt)]
          exact hshort.mirrors.setNow d
        · rw [Scheduler.now_stall (Int.le_of_lt hlt)]
          exact hidle'
  | @finish past s stop rest h hs hnone ih =>
      obtain ⟨past', ⟨t, u, rest'⟩, h', hshort, hpast⟩ := ih hout
      have hle := h.now_le_until rfl rfl
      subst hv
      obtain rfl : u = some stop := hshort.until?
      obtain rfl : rest' = _ := hshort.rest
      have hidle : t.Idle s.now := hshort.idle hs
      have hdeadlines : ∀ job' ∈ t.jobs, ∃ job ∈ s.jobs, job.deadline? = job'.deadline? :=
        fun _ => hshort.mirrors.deadlines
      have hle' : t.now ≤ stop := Int.le_trans hidle.le hle
      refine ⟨_, _, h'.finish hidle.settled (hidle.next_none hdeadlines hnone), ?_, hpast⟩
      rw [Scheduler.stall_eq hle, Scheduler.stall_eq hle']
      exact .of_mirrors (hshort.mirrors.setNow stop)

/-- Jobs do not disturb one another: if the functions of the jobs of a name make no calls, share no
counter with other jobs and are named by no other job's functions, then what remains of any
performance without the steps that name them and the turns of their runners is a performance of the
script without these steps. Each remaining step has the same result, except that listings and counts
lose the name; every other runner writes the same events at the same times, except for log entries
about the name; and every other name is registered and active just as it was. -/
theorem others_undisturbed (hb : Confined name steps)
    (h : Performance ⟨.initial monitor logging, none, steps⟩ past p) :
    ∃ past' p', Performance ⟨.initial monitor logging, none, steps.filter (Step.spares name)⟩
        past' p' ∧
      Companion (.without name (p.scheduler.holders name) (ownCounters name steps))
        past p past' p' := by
  have hk : (View.without name (p.scheduler.holders name) (ownCounters name steps)).left.Fits
      p.scheduler := Cover.fits_holders rfl
  obtain ⟨past', p', h', hshort, hmoves⟩ := h.shortened hb rfl hk
  refine ⟨past', p', h', hshort.until?, hshort.rest, fun hnone => ?_, ?_, hmoves⟩
  · rcases hshort.clock with hnow | ⟨hne, -⟩
    · exact hnow
    · exact absurd hnone hne
  · exact hshort.mirrors.undisturbed h.run.named hk h'.run.named (hb.fits_right h' _ _)

/-- A script with two jobs that are due at once. -/
def twoJobs : List Step :=
  [.call (.schedule { Run.plainOrder with name := "b", counter := "b" } (some []) (.fixed 0)),
    .call (.schedule Run.plainOrder (some []) (.fixed 0)), .settle]

theorem alone_of_twoJobs : ∃ past p past' p',
    Performance ⟨.initial .recording true, none, twoJobs⟩ past p ∧
    Performance ⟨.initial .recording true, none,
      [.call (.schedule Run.plainOrder (some []) (.fixed 0)), .settle]⟩ past' p' ∧
    p.scheduler.isRegistered "b" = true ∧ p'.scheduler.isActive "a" = p.scheduler.isActive "a" := by
  have hmem : ∀ c, Makes twoJobs c →
      c = .schedule { Run.plainOrder with name := "b", counter := "b" } (some []) (.fixed 0) ∨
        c = .schedule Run.plainOrder (some []) (.fixed 0) := by
    intro c hc
    simpa [twoJobs] using hc.mem (by simp [twoJobs, Call.acts])
  have hb : Confined "b" twoJobs := by
    refine ⟨?_, ?_, ?_⟩
    · rintro c o hc - - c'
      rcases hmem c hc with rfl | rfl <;> simp [Call.acts]
    · rintro c o hc - - c'
      rcases hmem c hc with rfl | rfl <;> simp [Call.acts]
    · rintro c o c' o' hc ho hn hc' ho' hn'
      rcases hmem c hc with rfl | rfl <;> rcases hmem c' hc' with rfl | rfl <;> cases ho <;>
        cases ho' <;> first | exact absurd hn (by decide) | exact absurd hn' (by decide) | decide
  have h₀ : Performance ⟨.initial .recording true, none, twoJobs⟩ [] _ := .start
  have h₁ := h₀.call.call.settle
  have h₂ := h₁.turn (i := 0) rfl
  have h₃ := h₂.turn (i := 1) rfl
  obtain ⟨past', p', h', hcompanion⟩ := others_undisturbed hb h₃
  exact ⟨_, _, past', p', h₃, h', rfl, hcompanion.state.active "a" (by decide)⟩

end Performance

end JobScheduler
