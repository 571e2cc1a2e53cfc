import Mathlib.Data.List.Forall2
import JobScheduler.Proofs.HiddenJobs

/-!
Two schedulers side by side. The second mirrors the first if, beside what a view covers, it has the
same jobs in the same order, with other places among all jobs and other calls left to make, and
shows the same events. A call that does not name what is covered keeps this (`View.Mirrors.call`).
-/

namespace JobScheduler

def Action.mapCalls (f : Call → Call) : Action → Action
  | .call c => .call (f c)
  | action => action

def Work.mapCalls (f : Call → Call) (w : Work) : Work := w.map fun b => b.map (Action.mapCalls f)

def Plan.mapCalls (f : Call → Call) (p : Plan Action) : Plan Action :=
  { p with
    entries := p.entries.map fun e => { e with actions := e.actions.map (Action.mapCalls f) } }

def Phase.mapCalls (f : Call → Call) : Phase → Phase
  | .planning pause rest result => .planning pause (rest.map (Action.mapCalls f)) result
  | .running instant pause rest => .running instant pause (rest.map (Action.mapCalls f))
  | phase => phase

/-- A job whose functions make other calls. -/
def Job.mapCalls (f : Call → Call) (j : Job) : Job :=
  { j with
    work := Work.mapCalls f j.work
    plan := j.plan.mapCalls f
    phase := j.phase.mapCalls f }

/-- The name that a call gives for a job. -/
def Call.named? : Call → Option String
  | .schedule order _ _ | .schedulePeriodic order _ _ => some order.name
  | .run name | .runIfExists name | .cancel name | .cancelIfExists name | .isRegistered name
  | .isActive name => some name
  | _ => none

/-- How a second scheduler looks beside a first one. -/
structure View where
  /-- What is left out of the first scheduler. -/
  left : Cover
  /-- The jobs that are left out of the second. -/
  hidden : JobId → Bool
  /-- Where a job of the first is among the jobs of the second. -/
  place : JobId → JobId
  /-- The call that the second is given for a call on the first. -/
  call : Call → Call
  /-- The answers that the second may give to a call for an answer of the first, in the states in
  which they are called. -/
  replies : Scheduler → Scheduler → Call → Answer → Answer → Prop
  place_visible : ∀ {i}, left.jobs i = false → hidden (place i) = false
  place_inj : ∀ {i k}, left.jobs i = false → left.jobs k = false → place i = place k → i = k
  place_succ : ∀ {i}, left.jobs i = false → place (i + 1) = place i + 1
  call_plain : ∀ {c : Call}, c.order? = none → call c = c
  call_schedule : ∀ {o : JobOrder} {work runtime}, o.name ≠ left.name →
    call (.schedule o work runtime) = .schedule o (work.map (Work.mapCalls call)) runtime
  call_periodic : ∀ {o : JobOrder} {work plan}, o.name ≠ left.name →
    call (.schedulePeriodic o work plan) =
      .schedulePeriodic o (work.map (Work.mapCalls call)) (plan.map (Plan.mapCalls call))
  replies_self : ∀ s t c answer, replies s t c answer answer

namespace View

/-- What is left out of the second scheduler. -/
def right (v : View) : Cover := { v.left with jobs := v.hidden }

/-- Whether a job is left out on both sides or on neither. -/
def Level (v : View) (i : JobId) : Prop := v.hidden (v.place i) = v.left.jobs i

/-- The move on the other side of a view. -/
def move (v : View) : Move → Move
  | .call c => .call (v.call c)
  | .turn i => .turn (v.place i)
  | m => m

/-- What the second scheduler may show for what the first shows. -/
inductive Repeats (v : View) : Happening → Happening → Prop where
  | report (i : JobId) (r : Report) (cls : String) :
      Repeats v (.reported i r cls) (.reported (v.place i) r cls)
  /-- The answers to a call, from two schedulers that hold the same names beside what is covered. -/
  | call {s t : Scheduler} {a : Option JobId} {c : Call} :
      (t.kept v.left.name = (s.kept v.left.name).map fun entry => (entry.1, v.place entry.2)) →
      v.replies s t c (s.call a c).2 (t.call (a.map v.place) (v.call c)).2 →
      Repeats v (.called c.verb (s.call a c).2)
        (.called (v.call c).verb (t.call (a.map v.place) (v.call c)).2)
  | same {w : Happening} : (∀ i r cls, w ≠ .reported i r cls) → Repeats v w w

/-- Whether an event of the second scheduler is one of the first: at the same time, by the runner of
the same job. -/
structure Echoes (v : View) (e e' : Event) : Prop where
  time : e'.time = e.time
  actor : e'.actor = e.actor.map v.place
  what : v.Repeats e.what e'.what

/-- Whether the second scheduler is as the first, beside what is covered. -/
structure Mirrors (v : View) (s t : Scheduler) : Prop where
  now : t.now = s.now
  tokens : t.tokens = s.tokens
  logging : t.logging = s.logging
  recording : t.monitor = .recording ↔ s.monitor = .recording
  registry : t.kept v.left.name = (s.kept v.left.name).map fun entry => (entry.1, v.place entry.2)
  jobs : ∀ i, v.left.jobs i = false →
    t.jobs[v.place i]? = s.jobs[i]?.map (Job.mapCalls v.call)
  length : t.jobs.length = v.place s.jobs.length
  counts : ∀ c, ¬v.left.counters c → t.count c = s.count c
  shown : List.Forall₂ v.Echoes (s.shown v.left) (t.shown v.right)

theorem level_of_visible {v : View} {i : JobId} (hi : v.left.jobs i = false) : v.Level i :=
  (v.place_visible hi).trans hi.symm

end View

namespace Cover

variable {k : Cover} {s s' : Scheduler} {a : Option JobId}

theorem Fits.before (h : k.Fits s') (hp : s.Persists a s') : k.Fits s := by
  intro i job hj
  obtain ⟨job', hj', hterms⟩ := hp.jobs i job hj
  rw [h i job' hj', Scheduler.name_eq_of_terms hterms]

theorem Fits.after (h : k.Fits s) (hp : s.Persists a s')
    (hlen : s'.jobs.length = s.jobs.length) : k.Fits s' := by
  intro i job hj
  have hi : i < s.jobs.length := hlen ▸ (List.getElem?_eq_some_iff.mp hj).1
  obtain ⟨job', hj', hterms⟩ := hp.jobs i _ (List.getElem?_eq_getElem hi)
  obtain rfl : job = job' := Option.some_inj.mp (hj.symm.trans hj')
  rw [h i _ (List.getElem?_eq_getElem hi), Scheduler.name_eq_of_terms hterms]

theorem Fits.made {i : JobId} (h : k.Fits s') (hstep : s.step? i = some s') :
    k.Fits (s.made (some i) (s.callOf? (.turn i))) := by
  cases hc : s.callOf? (.turn i) with
  | none => exact h.before (Scheduler.persists_step hstep)
  | some c =>
      obtain ⟨answer, phase, rfl⟩ := Scheduler.step_of_call hstep hc
      exact h.before (((s.call (some i) c).1.persists_emit (some i) (w := .called c.verb answer)
        nofun).trans (Scheduler.persists_setPhase _ i phase))

theorem Fits.of_made {i : JobId} (h : k.Fits (s.made (some i) (s.callOf? (.turn i))))
    (hstep : s.step? i = some s') : k.Fits s' := by
  intro n job hj
  by_cases hin : i = n
  · subst hin
    cases hold : s.jobs[i]? with
    | none => simp [Scheduler.step?, hold] at hstep
    | some job₀ =>
        obtain ⟨job₁, hj₁, hterms⟩ := (Scheduler.persists_step hstep).jobs i job₀ hold
        obtain rfl : job = job₁ := Option.some_inj.mp (hj.symm.trans hj₁)
        have hmade : s.Persists (some i) (s.made (some i) (s.callOf? (.turn i))) := by
          cases s.callOf? (.turn i) with
          | none => exact .refl s
          | some c => exact s.persists_call (some i) c
        rw [h.before hmade i job₀ hold, Scheduler.name_eq_of_terms hterms]
  · have hsit := (Scheduler.step_of_ne hin hstep).1
    rw [Scheduler.situation?_of_getElem? hj] at hsit
    exact h n job (Scheduler.situation?_eq_some.mp hsit.symm).1

theorem Fits.visible (h : k.Fits s) (hs : s.Named) {name : String} {i : JobId}
    (hl : s.registry.lookup name = some i) (hn : name ≠ k.name) : k.jobs i = false := by
  obtain ⟨job, hj, hname⟩ := hs name i hl
  rw [h i job hj, hname]
  exact decide_eq_false hn

theorem Fits.scheduled {o : JobOrder} {work : Option Work} {w : Work} {runtime : Moment}
    (h : k.Fits (s.schedule a o work runtime).1) (hv : s.vet o true work = .ok w) :
    k.jobs s.jobs.length = decide (o.name = k.name) := by
  unfold Scheduler.schedule at h
  rw [hv] at h
  rw [h s.jobs.length (s.newJob o false w .empty (.spawned (runtime.resolve s.now)))
    (by simp [Scheduler.launch, Scheduler.jobs_enrol]), Scheduler.name_newJob]

theorem Fits.scheduledPeriodic {o : JobOrder} {work : Option Work} {w : Work}
    {plan : Option (Plan Action)} (h : k.Fits (s.schedulePeriodic a o work plan).1)
    (hv : s.vet o plan.isSome work = .ok w) : k.jobs s.jobs.length = decide (o.name = k.name) := by
  unfold Scheduler.schedulePeriodic at h
  rw [hv] at h
  rw [h s.jobs.length (s.newJob o true w (plan.getD .empty) .looping)
    (by simp [Scheduler.launch, Scheduler.jobs_enrol]), Scheduler.name_newJob]

end Cover

theorem Scheduler.length_cancel (s : Scheduler) (a : Option JobId) (name : String) :
    (s.cancel a name).1.jobs.length = s.jobs.length := by
  unfold cancel
  split
  · rfl
  · dsimp only
    split <;> simp [updateRecord, updateJob, unregister]

theorem Scheduler.lookup_kept (s : Scheduler) {name n : String} (h : name ≠ n) :
    (s.kept n).lookup name = s.registry.lookup name :=
  (s.lookup_unregister n name).trans (if_neg h)

theorem filter_mergeSort (l : List String) (p : String → Bool) :
    (l.filter p).mergeSort (fun a b => decide (a ≤ b)) =
      (l.mergeSort fun a b => decide (a ≤ b)).filter p := by
  have htrans : ∀ a b c : String, decide (a ≤ b) = true → decide (b ≤ c) = true →
      decide (a ≤ c) = true := by
    intro a b c hab hbc
    exact decide_eq_true (String.le_trans (of_decide_eq_true hab) (of_decide_eq_true hbc))
  have htotal : ∀ a b : String, (decide (a ≤ b) || decide (b ≤ a)) = true := by
    intro a b
    simpa using String.le_total a b
  refine List.Perm.eq_of_pairwise ?_
    (List.pairwise_mergeSort htrans htotal _)
    ((List.pairwise_mergeSort htrans htotal l).filter p) ?_
  · intro a b _ _ hab hba
    exact String.le_antisymm (of_decide_eq_true hab) (of_decide_eq_true hba)
  · exact (List.mergeSort_perm _ _).trans ((List.mergeSort_perm l _).symm.filter p)

namespace View.Mirrors

variable {v : View} {s s' t t' : Scheduler} {a : Option JobId} {i : JobId} {job : Job}

theorem left (h : v.Mirrors s t) (hs : v.left.Same s s') : v.Mirrors s' t where
  now := h.now.trans hs.now.symm
  tokens := h.tokens.trans hs.tokens.symm
  logging := h.logging.trans hs.logging.symm
  recording := h.recording.trans hs.recording.symm
  registry := by rw [hs.registry, h.registry]
  jobs n hn := by rw [hs.jobs n hn, h.jobs n hn]
  length := by rw [hs.length, h.length]
  counts c hc := (h.counts c hc).trans (hs.counts c hc).symm
  shown := by
    rw [hs.shown]
    exact h.shown

theorem right (h : v.Mirrors s t) (ht : v.right.Same t t') : v.Mirrors s t' where
  now := ht.now.trans h.now
  tokens := ht.tokens.trans h.tokens
  logging := ht.logging.trans h.logging
  recording := ht.recording.trans h.recording
  registry := ht.registry.trans h.registry
  jobs n hn := (ht.jobs _ (v.place_visible hn)).trans (h.jobs n hn)
  length := ht.length.trans h.length
  counts c hc := (ht.counts c hc).trans (h.counts c hc)
  shown := by
    rw [ht.shown]
    exact h.shown

theorem emit (h : v.Mirrors s t) {w w' : Happening} (hw : v.Repeats w w')
    (hhide : v.right.hides ⟨t.now, a.map v.place, w'⟩ = v.left.hides ⟨s.now, a, w⟩) :
    v.Mirrors (s.emit a w) (t.emit (a.map v.place) w') :=
  { h with
    shown := by
      simp only [Scheduler.shown, Scheduler.emit]
      cases hl : v.left.hides ⟨s.now, a, w⟩ with
      | true =>
          rw [List.filter_cons_of_neg (by simp [hl]), List.filter_cons_of_neg (by simp [hhide, hl])]
          exact h.shown
      | false =>
          rw [List.filter_cons_of_pos (by simp [hl]), List.filter_cons_of_pos (by simp [hhide, hl])]
          exact .cons ⟨h.now, rfl, hw⟩ h.shown }

theorem any_hidden (ha : ∀ i, a = some i → v.Level i) :
    (a.map v.place).any v.hidden = a.any v.left.jobs := by
  cases a with
  | none => rfl
  | some i => exact ha i rfl

theorem emit_same (h : v.Mirrors s t) (ha : ∀ i, a = some i → v.Level i) {w : Happening}
    (hw : ∀ i r cls, w ≠ .reported i r cls) :
    v.Mirrors (s.emit a w) (t.emit (a.map v.place) w) := by
  refine h.emit (.same hw) ?_
  have hregards : v.right.regards w = v.left.regards w := by
    cases w with
    | reported i r cls => exact absurd rfl (hw i r cls)
    | _ => rfl
  simp only [Cover.hides, hregards]
  rw [show v.right.jobs = v.hidden from rfl, any_hidden ha]
  rfl

theorem log (h : v.Mirrors s t) (ha : ∀ i, a = some i → v.Level i) (e : LogEntry) :
    v.Mirrors (s.log a e) (t.log (a.map v.place) e) := by
  unfold Scheduler.log
  rw [h.logging]
  split
  · exact h.emit_same ha nofun
  · exact h

theorem report (h : v.Mirrors s t) (ha : ∀ i, a = some i → v.Level i) (hi : v.Level i)
    (cls : String) (r : Report) :
    v.Mirrors (s.report a i cls r) (t.report (a.map v.place) (v.place i) cls r) := by
  by_cases hm : s.monitor = .recording
  · have hm' := h.recording.mpr hm
    simp only [Scheduler.report, hm, hm']
    refine h.emit (.report i r cls) ?_
    have hregards : v.right.regards (.reported (v.place i) r cls) =
        v.left.regards (.reported i r cls) := hi
    have hminor : (Happening.reported (v.place i) r cls).isMinor =
        (Happening.reported i r cls).isMinor := by
      cases r <;> rfl
    simp only [Cover.hides, hregards, hminor]
    rw [show v.right.jobs = v.hidden from rfl, any_hidden ha]
    rfl
  · -- No other monitor makes an event of it.
    have hquiet : ∀ (u : Scheduler) (b : Option JobId) (n : JobId), u.monitor ≠ .recording →
        u.report b n cls r = { u with monitor := u.monitor.observe r cls } := by
      intro u b n hu
      unfold Scheduler.report
      split
      · rename_i hrec
        exact absurd hrec hu
      · rfl
    have hm' : t.monitor ≠ .recording := fun ht => hm (h.recording.mp ht)
    have hs := s.recording_report a i cls r
    have ht := t.recording_report (a.map v.place) (v.place i) cls r
    rw [hquiet s a i hm] at hs ⊢
    rw [hquiet t _ _ hm'] at ht ⊢
    exact { h with recording := ht.trans (h.recording.trans hs.symm) }

theorem updateJob (h : v.Mirrors s t) (hi : v.left.jobs i = false) {f g : Job → Job}
    (hfg : ∀ j, g (j.mapCalls v.call) = (f j).mapCalls v.call) :
    v.Mirrors (s.updateJob i f) (t.updateJob (v.place i) g) :=
  { h with
    jobs := by
      intro n hn
      simp only [Scheduler.updateJob, List.getElem?_modify, h.jobs n hn]
      by_cases hin : i = n
      · subst hin
        cases s.jobs[i]? <;> simp [hfg]
      · have hplace : v.place i ≠ v.place n := fun heq => hin (v.place_inj hi hn heq)
        simp [hin, hplace]
    length := by simp [Scheduler.updateJob, h.length] }

theorem updateRecord (h : v.Mirrors s t) (hi : v.left.jobs i = false) (f : Record → Record) :
    v.Mirrors (s.updateRecord i f) (t.updateRecord (v.place i) f) :=
  h.updateJob hi fun _ => rfl

theorem setPhase (h : v.Mirrors s t) (hi : v.left.jobs i = false) (phase : Phase) :
    v.Mirrors (s.setPhase i phase) (t.setPhase (v.place i) (phase.mapCalls v.call)) :=
  h.updateJob hi fun _ => rfl

theorem unregister (h : v.Mirrors s t) (name : String) :
    v.Mirrors (s.unregister name) (t.unregister name) :=
  { h with
    registry := by
      rw [Scheduler.kept_unregister, Scheduler.kept_unregister, h.registry, List.filter_map]
      rfl }

theorem setCount (h : v.Mirrors s t) (counter : String) (n : Nat) :
    v.Mirrors (s.setCount counter n) (t.setCount counter n) :=
  { h with
    counts := by
      intro c hc
      rw [Scheduler.count_setCount, Scheduler.count_setCount, h.counts c hc] }

theorem lookup (h : v.Mirrors s t) {name : String} (hn : name ≠ v.left.name) :
    t.registry.lookup name = (s.registry.lookup name).map v.place := by
  rw [← t.lookup_kept hn, ← s.lookup_kept hn, h.registry]
  induction s.kept v.left.name with
  | nil => rfl
  | cons entry rest ih =>
      obtain ⟨key, k⟩ := entry
      rw [List.map_cons, List.lookup_cons, List.lookup_cons]
      cases name == key with
      | true => rfl
      | false => exact ih

variable (hs : s.Named) (hk : v.left.Fits s)
include hs hk

theorem lookup_eq_some_iff (h : v.Mirrors s t) (hi : v.left.jobs i = false) {name : String}
    (hn : name ≠ v.left.name) :
    t.registry.lookup name = some (v.place i) ↔ s.registry.lookup name = some i := by
  rw [h.lookup hn, Option.map_eq_some_iff]
  constructor
  · rintro ⟨n, hl, hplace⟩
    obtain rfl := v.place_inj (hk.visible hs hl hn) hi hplace
    exact hl
  · intro hl
    exact ⟨i, hl, rfl⟩

theorem remove (h : v.Mirrors s t) (ha : ∀ i, a = some i → v.Level i)
    (hi : v.left.jobs i = false) {name : String} (hn : name ≠ v.left.name) :
    v.Mirrors (s.remove a i name) (t.remove (a.map v.place) (v.place i) name) := by
  unfold Scheduler.remove
  simp only [h.lookup_eq_some_iff hs hk hi hn]
  split
  · exact (h.unregister name).log ha _
  · exact h

theorem find? (h : v.Mirrors s t) {name : String} (hn : name ≠ v.left.name) :
    t.find? name = (s.find? name).map fun found => (v.place found.1, found.2.mapCalls v.call) := by
  unfold Scheduler.find?
  rw [h.lookup hn]
  cases hl : s.registry.lookup name with
  | none => rfl
  | some n =>
      obtain ⟨job, hj, -⟩ := hs name n hl
      simp [h.jobs n (hk.visible hs hl hn), hj]

omit hs hk

theorem isRegistered (h : v.Mirrors s t) {name : String} (hn : name ≠ v.left.name) :
    t.isRegistered name = s.isRegistered name := by
  rw [Scheduler.isRegistered, Scheduler.isRegistered, h.lookup hn, Option.isSome_map]

theorem vet (h : v.Mirrors s t) {o : JobOrder} (hn : o.name ≠ v.left.name) (planned : Bool)
    (work : Option Work) :
    t.vet o planned (work.map (Work.mapCalls v.call)) =
      (s.vet o planned work).map (Work.mapCalls v.call) := by
  unfold Scheduler.vet
  rw [h.isRegistered hn]
  split
  · rfl
  · split
    · rfl
    · cases work with
      | none => rfl
      | some w =>
          dsimp only [Option.map_some]
          split <;> rfl

theorem mapCalls_vanish (f : Call → Call) (j : Job) :
    (j.mapCalls f).vanish = j.vanish.mapCalls f := by
  have halive : (j.phase.mapCalls f).alive = j.phase.alive := by cases j.phase <;> rfl
  unfold Job.vanish
  rw [show (j.mapCalls f).phase = j.phase.mapCalls f from rfl, halive]
  split <;> rfl

theorem newJob (h : v.Mirrors s t) (o : JobOrder) (periodic : Bool) (work : Work)
    (plan : Plan Action) (phase : Phase) :
    t.newJob o periodic (Work.mapCalls v.call work) (plan.mapCalls v.call) (phase.mapCalls v.call) =
      (s.newJob o periodic work plan phase).mapCalls v.call := by
  unfold Scheduler.newJob
  rw [h.tokens]
  dsimp only
  split
  · exact mapCalls_vanish v.call
      { record := { name := o.name, cls := o.cls, periodic := periodic }
        tag := o.tag
        token := s.tokens.named o.parent
        counter := o.counter
        work := work
        plan := plan
        phase := phase }
  · rfl

theorem enrol (h : v.Mirrors s t) (ha : ∀ i, a = some i → v.Level i)
    (hi : v.left.jobs s.jobs.length = false) (hn : job.record.name ≠ v.left.name) :
    v.Mirrors (s.enrol a job) (t.enrol (a.map v.place) (job.mapCalls v.call)) := by
  have hlevel := level_of_visible hi
  have hadd : v.Mirrors
      { s with
        registry := s.registry ++ [(job.record.name, s.jobs.length)]
        jobs := s.jobs ++ [job] }
      { t with
        registry := t.registry ++ [(job.record.name, t.jobs.length)]
        jobs := t.jobs ++ [job.mapCalls v.call] } :=
    { h with
      registry := by
        have hkept := h.registry
        unfold Scheduler.kept at hkept ⊢
        rw [List.filter_append, List.filter_append, hkept, List.map_append]
        simp [hn, h.length]
      jobs := by
        intro n hvisible
        show (t.jobs ++ [_])[v.place n]? = ((s.jobs ++ [job])[n]?).map _
        rw [Scheduler.getElem?_added, Scheduler.getElem?_added]
        by_cases hlast : n = s.jobs.length
        · rw [if_pos hlast, if_pos (by rw [hlast, h.length])]
          rfl
        · have hne : v.place n ≠ t.jobs.length := by
            rw [h.length]
            exact fun hplace => hlast (v.place_inj hvisible hi hplace)
          rw [if_neg hlast, if_neg hne]
          exact h.jobs n hvisible
      length := by simp [h.length, v.place_succ hi] }
  unfold Scheduler.enrol
  dsimp only
  rw [show (job.mapCalls v.call).record = job.record from rfl]
  rw [h.length] at hadd ⊢
  exact (hadd.report ha hlevel _ _).log ha _

theorem launch (h : v.Mirrors s t) (hi : v.left.jobs i = false) (o : JobOrder) (periodic : Bool) :
    v.Mirrors (s.launch i o periodic).1 (t.launch (v.place i) o periodic).1 ∧
      (t.launch (v.place i) o periodic).2 = (s.launch i o periodic).2 := by
  have hlog := h.log (a := some i) (by rintro n ⟨⟩; exact level_of_visible hi)
    (.span o.name o.cls periodic)
  exact ⟨hlog, rfl⟩

theorem schedule (h : v.Mirrors s t) (ha : ∀ i, a = some i → v.Level i) {o : JobOrder}
    (hn : o.name ≠ v.left.name) (work : Option Work) (runtime : Moment)
    (hk : v.left.Fits (s.schedule a o work runtime).1) :
    v.Mirrors (s.schedule a o work runtime).1
        (t.schedule (a.map v.place) o (work.map (Work.mapCalls v.call)) runtime).1 ∧
      (t.schedule (a.map v.place) o (work.map (Work.mapCalls v.call)) runtime).2 =
        (s.schedule a o work runtime).2 := by
  unfold Scheduler.schedule
  rw [h.vet hn, h.now]
  cases hv : s.vet o true work with
  | error e => exact ⟨h, rfl⟩
  | ok w =>
      have hname := s.name_newJob o false w .empty (.spawned (runtime.resolve s.now))
      have hi : v.left.jobs s.jobs.length = false := (hk.scheduled hv).trans (decide_eq_false hn)
      have hnew := h.newJob o false w .empty (.spawned (runtime.resolve s.now))
      have henrol := h.enrol ha hi (by rw [hname]; exact hn)
      rw [← hnew] at henrol
      simp only [Except.map, h.length]
      exact (henrol.log ha _).launch hi o false

theorem schedulePeriodic (h : v.Mirrors s t) (ha : ∀ i, a = some i → v.Level i) {o : JobOrder}
    (hn : o.name ≠ v.left.name) (work : Option Work) (plan : Option (Plan Action))
    (hk : v.left.Fits (s.schedulePeriodic a o work plan).1) :
    v.Mirrors (s.schedulePeriodic a o work plan).1
        (t.schedulePeriodic (a.map v.place) o (work.map (Work.mapCalls v.call))
          (plan.map (Plan.mapCalls v.call))).1 ∧
      (t.schedulePeriodic (a.map v.place) o (work.map (Work.mapCalls v.call))
          (plan.map (Plan.mapCalls v.call))).2 =
        (s.schedulePeriodic a o work plan).2 := by
  unfold Scheduler.schedulePeriodic
  rw [Option.isSome_map, h.vet hn]
  cases hv : s.vet o plan.isSome work with
  | error e => exact ⟨h, rfl⟩
  | ok w =>
      have hname := s.name_newJob o true w (plan.getD .empty) .looping
      have hi : v.left.jobs s.jobs.length = false :=
        (hk.scheduledPeriodic hv).trans (decide_eq_false hn)
      have hplan : (plan.map (Plan.mapCalls v.call)).getD .empty =
          (plan.getD .empty).mapCalls v.call := by
        cases plan <;> rfl
      have hnew := h.newJob o true w (plan.getD .empty) .looping
      have henrol := h.enrol ha hi (by rw [hname]; exact hn)
      rw [← hnew] at henrol
      simp only [Except.map, h.length, hplan]
      exact henrol.launch hi o true

section

variable (hs : s.Named) (hk : v.left.Fits s)
include hs hk

theorem run (h : v.Mirrors s t) (ha : ∀ i, a = some i → v.Level i) {name : String}
    (hn : name ≠ v.left.name) :
    v.Mirrors (s.run a name).1 (t.run (a.map v.place) name).1 ∧
      (t.run (a.map v.place) name).2 = (s.run a name).2 := by
  unfold Scheduler.run
  rw [h.find? hs hk hn]
  cases hfind : s.find? name with
  | none => exact ⟨h, rfl⟩
  | some found =>
      obtain ⟨i, job⟩ := found
      have hi := hk.visible hs (Scheduler.find?_eq_some hfind).1 hn
      have hleft : v.Mirrors (if job.record.periodic then s else s.unregister name)
          (if job.record.periodic then t else t.unregister name) := by
        split
        · exact h
        · exact h.unregister name
      simp only [Option.map_some, Job.mapCalls]
      split
      · exact ⟨(hleft.updateRecord hi _).log ha _, rfl⟩
      · rename_i r e _
        exact ⟨hleft.updateRecord hi fun _ => r, rfl⟩

theorem runIfExists (h : v.Mirrors s t) (ha : ∀ i, a = some i → v.Level i) {name : String}
    (hn : name ≠ v.left.name) :
    v.Mirrors (s.runIfExists a name) (t.runIfExists (a.map v.place) name) := by
  obtain ⟨hrun, hanswer⟩ := h.run hs hk ha hn
  unfold Scheduler.runIfExists
  split <;> rename_i hl <;> split <;> rename_i hr <;> rw [hl, hr] at hrun hanswer
  · exact hrun
  · exact absurd hanswer (by simp)
  · exact absurd hanswer (by simp)
  · cases hanswer
    exact hrun.log ha _

theorem cancel (h : v.Mirrors s t) (ha : ∀ i, a = some i → v.Level i) {name : String}
    (hn : name ≠ v.left.name) :
    v.Mirrors (s.cancel a name).1 (t.cancel (a.map v.place) name).1 ∧
      (t.cancel (a.map v.place) name).2 = (s.cancel a name).2 := by
  unfold Scheduler.cancel
  rw [h.find? hs hk hn]
  cases hfind : s.find? name with
  | none => exact ⟨h, rfl⟩
  | some found =>
      obtain ⟨i, job⟩ := found
      have hi := hk.visible hs (Scheduler.find?_eq_some hfind).1 hn
      simp only [Option.map_some, Job.mapCalls]
      split <;> exact ⟨((h.unregister name).updateRecord hi _).log ha _, rfl⟩

end

theorem same_cancelEach {k : Cover} (hs : s.Named) (hk : k.Fits s) (a : Option JobId)
    {names : List String} (hnames : ∀ name ∈ names, name = k.name) :
    k.Same s (names.foldl (fun s name => s.cancelIfExists a name) s) := by
  induction names generalizing s with
  | nil => exact .refl s
  | cons name rest ih =>
      obtain ⟨rfl, hrest⟩ := List.forall_mem_cons.mp hnames
      have hp := s.persists_cancel a k.name
      exact (Cover.Same.cancel hs hk).trans
        (ih (hp.named hs) (hk.after hp (s.length_cancel a _)) hrest)

theorem cancelEach (h : v.Mirrors s t) (hs : s.Named) (ht : t.Named) (hk : v.left.Fits s)
    (hr : v.right.Fits t) (ha : ∀ i, a = some i → v.Level i) {names names' : List String}
    (hnames : names'.filter (fun name => name ≠ v.left.name) =
      names.filter (fun name => name ≠ v.left.name)) :
    v.Mirrors (names.foldl (fun s name => s.cancelIfExists a name) s)
      (names'.foldl (fun s name => s.cancelIfExists (a.map v.place) name) t) := by
  induction names generalizing s t names' with
  | nil =>
      refine h.right (same_cancelEach ht hr _ fun name hmem => ?_)
      show name = v.left.name
      simpa using List.filter_eq_nil_iff.mp hnames name hmem
  | cons name rest ih =>
      have hp := s.persists_cancel a name
      have hk' := hk.after hp (s.length_cancel a name)
      by_cases hn : name = v.left.name
      · rw [List.filter_cons_of_neg (by simp [hn])] at hnames
        refine ih (h.left ?_) (hp.named hs) ht hk' hr hnames
        rw [hn]
        exact Cover.Same.cancel hs hk
      · -- The second list has the name too, perhaps after some that are covered.
        rw [List.filter_cons_of_pos (by simp [hn])] at hnames
        induction names' generalizing t with
        | nil => exact absurd hnames (by simp)
        | cons name' rest' ih' =>
            have hp' := t.persists_cancel (a.map v.place) name'
            have hr' := hr.after hp' (t.length_cancel _ name')
            by_cases hn' : name' = v.left.name
            · rw [List.filter_cons_of_neg (by simp [hn'])] at hnames
              refine ih' (h.right ?_) (hp'.named ht) hr' hnames
              rw [hn']
              exact Cover.Same.cancel (k := v.right) ht hr
            · rw [List.filter_cons_of_pos (by simp [hn'])] at hnames
              obtain ⟨rfl, htail⟩ := List.cons.inj hnames
              exact ih (h.cancel hs hk ha hn).1 (hp.named hs) (hp'.named ht) hk' hr' htail

theorem map_kept (s : Scheduler) (n : String) :
    (s.kept n).map (·.1) = (s.registry.map (·.1)).filter fun name => name ≠ n := by
  unfold Scheduler.kept
  rw [List.filter_map]
  rfl

theorem names_of_kept (h : v.Mirrors s t) :
    (t.kept v.left.name).map (·.1) = (s.kept v.left.name).map (·.1) := by
  rw [h.registry, List.map_map]
  rfl

theorem names (h : v.Mirrors s t) :
    (t.names.filter fun name => name ≠ v.left.name) =
      s.names.filter fun name => name ≠ v.left.name := by
  unfold Scheduler.names
  rw [← filter_mergeSort, ← filter_mergeSort, ← map_kept, ← map_kept, h.names_of_kept]

theorem cancelAll (h : v.Mirrors s t) (hs : s.Named) (ht : t.Named) (hk : v.left.Fits s)
    (hr : v.right.Fits t) (ha : ∀ i, a = some i → v.Level i) (stem : String) :
    v.Mirrors (s.cancelAll a stem) (t.cancelAll (a.map v.place) stem) := by
  refine h.cancelEach hs ht hk hr ha ?_
  have hnames := h.names_of_kept
  rw [map_kept, map_kept] at hnames
  unfold Scheduler.matching
  rw [List.filter_filter, List.filter_filter]
  simp only [Bool.and_comm (x := decide _)]
  rw [← List.filter_filter, ← List.filter_filter, hnames]

theorem isActive (h : v.Mirrors s t) (hs : s.Named) (hk : v.left.Fits s) {name : String}
    (hn : name ≠ v.left.name) : t.isActive name = s.isActive name := by
  unfold Scheduler.isActive
  rw [h.find? hs hk hn, Option.map_map]
  rfl

/-- A call that does not name what is covered does the same on both sides, and is answered the same
unless it lists names. -/
theorem call (h : v.Mirrors s t) (hs : s.Named) (ht : t.Named) (hr : v.right.Fits t)
    (ha : ∀ i, a = some i → v.Level i) {c : Call} (hk : v.left.Fits (s.call a c).1)
    (hn : c.named? ≠ some v.left.name)
    (hnames : v.replies s t .names (.list s.names) (.list t.names))
    (hdescribe : v.replies s t .describe (.text s.describe) (.text t.describe)) :
    v.Mirrors (s.call a c).1 (t.call (a.map v.place) (v.call c)).1 ∧
      v.replies s t c (s.call a c).2 (t.call (a.map v.place) (v.call c)).2 := by
  have hk₀ := hk.before (s.persists_call a c)
  have hother : ∀ {name}, c.named? = some name → name ≠ v.left.name := by
    rintro name hname rfl
    exact hn hname
  have hsame : ∀ {answer}, answer = (s.call a c).2 → v.replies s t c (s.call a c).2 answer := by
    rintro answer rfl
    exact v.replies_self _ _ _ _
  cases c with
  | schedule o work runtime =>
      rw [v.call_schedule (hother rfl)]
      obtain ⟨hnew, hanswer⟩ := h.schedule ha (hother rfl) work runtime hk
      exact ⟨hnew, hsame hanswer⟩
  | schedulePeriodic o work plan =>
      rw [v.call_periodic (hother rfl)]
      obtain ⟨hnew, hanswer⟩ := h.schedulePeriodic ha (hother rfl) work plan hk
      exact ⟨hnew, hsame hanswer⟩
  | run name =>
      rw [v.call_plain rfl]
      obtain ⟨hnew, hanswer⟩ := h.run hs hk₀ ha (hother rfl)
      exact ⟨hnew, hsame (congrArg Answer.ofResult hanswer)⟩
  | runIfExists name =>
      rw [v.call_plain rfl]
      exact ⟨h.runIfExists hs hk₀ ha (hother rfl), hsame rfl⟩
  | cancel name =>
      rw [v.call_plain rfl]
      obtain ⟨hnew, hanswer⟩ := h.cancel hs hk₀ ha (hother rfl)
      exact ⟨hnew, hsame (congrArg Answer.ofResult hanswer)⟩
  | cancelIfExists name =>
      rw [v.call_plain rfl]
      exact ⟨(h.cancel hs hk₀ ha (hother rfl)).1, hsame rfl⟩
  | cancelAll stem =>
      rw [v.call_plain rfl]
      exact ⟨h.cancelAll hs ht hk₀ hr ha stem, hsame rfl⟩
  | isRegistered name =>
      rw [v.call_plain rfl]
      exact ⟨h, hsame (congrArg Answer.flag (h.isRegistered (hother rfl)))⟩
  | isActive name =>
      rw [v.call_plain rfl]
      exact ⟨h, hsame (congrArg Answer.maybeFlag (h.isActive hs hk₀ (hother rfl)))⟩
  | names =>
      rw [v.call_plain rfl]
      exact ⟨h, hnames⟩
  | describe =>
      rw [v.call_plain rfl]
      exact ⟨h, hdescribe⟩
  | newToken name above =>
      rw [v.call_plain rfl]
      exact ⟨{ h with tokens := congrArg (·.bind name above) h.tokens }, hsame rfl⟩
  | cancelToken name =>
      rw [v.call_plain rfl]
      refine ⟨{ h with tokens := ?_ }, hsame rfl⟩
      show t.tokens.cancel (t.tokens.named name) = _
      rw [h.tokens]
      rfl

end View.Mirrors

end JobScheduler
