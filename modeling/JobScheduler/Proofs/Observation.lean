import JobScheduler.Proofs.Conservation
import JobScheduler.Proofs.FunctionalSimulation

/-!
What is observed of a scheduler. The monitor and the log change nothing of what is done
(`Performance.observer_free`), and the counters of a counting monitor are the tallies of what a
recording monitor is told in their place (`Scheduler.Counts`).
-/

namespace JobScheduler

theorem Report.series_injective {r r' : Report} {cls cls' : String}
    (h : r.series cls = r'.series cls') : r = r' ∧ cls = cls' := by
  cases r with
  | scheduled => cases r' <;> simp_all [series]
  | cancelled => cases r' <;> simp_all [series]
  | started trigger =>
      cases r' with
      | started trigger' => cases trigger <;> cases trigger' <;> simp_all [series, Trigger.label]
      | _ => exact absurd h (by simp [series])

namespace Tallies

variable {t : Tallies} {s k : Series} {n : Nat}

theorem total_cons (e : Series × Nat) (rest : Tallies) (k : Series) :
    total (e :: rest) k = if k = e.1 then e.2 else total rest k := by
  obtain ⟨s, n⟩ := e
  unfold total
  rw [List.lookup_cons]
  by_cases h : k = s
  · simp [h]
  · simp [h, beq_eq_false_iff_ne.mpr h]

theorem total_add (t : Tallies) (s k : Series) :
    (t.add s).total k = t.total k + if k = s then 1 else 0 := by
  induction t with
  | nil =>
      rw [add, total_cons]
      split <;> simp [total]
  | cons e rest ih =>
      rw [add]
      split
      · rename_i hs
        rw [total_cons, total_cons]
        dsimp only
        split <;> simp_all
      · rename_i hs
        rw [total_cons, total_cons, ih]
        split <;> simp_all

theorem keys_add (t : Tallies) (s : Series) :
    (t.add s).map (·.1) = if s ∈ t.map (·.1) then t.map (·.1) else t.map (·.1) ++ [s] := by
  induction t with
  | nil => rfl
  | cons e rest ih =>
      rw [add]
      split
      · rename_i hs
        simp [hs]
      · rename_i hs
        rw [List.map_cons, List.map_cons, ih]
        have hmem : s ∈ e.1 :: rest.map (·.1) ↔ s ∈ rest.map (·.1) := by
          simp [Ne.symm hs]
        simp only [hmem]
        split <;> rfl

theorem mem_keys_add : k ∈ (t.add s).map (·.1) ↔ k ∈ t.map (·.1) ∨ k = s := by
  rw [keys_add]
  split
  · rename_i hs
    exact ⟨.inl, fun h => h.elim id fun hk => hk ▸ hs⟩
  · simp

theorem nodup_add (h : (t.map (·.1)).Nodup) : ((t.add s).map (·.1)).Nodup := by
  rw [keys_add]
  split
  · exact h
  · rename_i hs
    rw [List.nodup_append]
    refine ⟨h, List.nodup_singleton s, fun k hk k' hk' => ?_⟩
    rintro rfl
    exact hs (List.mem_singleton.mp hk' ▸ hk)

theorem total_of_mem (h : (t.map (·.1)).Nodup) (hmem : (k, n) ∈ t) : t.total k = n := by
  induction t with
  | nil => exact absurd hmem nofun
  | cons e rest ih =>
      rw [List.map_cons, List.nodup_cons] at h
      rw [total_cons]
      rcases List.mem_cons.mp hmem with rfl | hrest
      · rw [if_pos rfl]
      · have hne : k ≠ e.1 := fun hk => h.1 (hk ▸ List.mem_map.mpr ⟨_, hrest, rfl⟩)
        rw [if_neg hne, ih h.2 hrest]

end Tallies

/-- The counters once everything that a history reports is added to them. -/
def tallied (history : List Event) : Tallies :=
  history.foldr
    (fun e t => match e.what with
      | .reported _ r cls => Tallies.add t (r.series cls)
      | _ => t) []

theorem tallied_of_report {e : Event} {i : JobId} {r : Report} {cls : String}
    (h : e.what = .reported i r cls) (history : List Event) :
    tallied (e :: history) = (tallied history).add (r.series cls) := by
  rw [tallied, List.foldr_cons, h]
  rfl

theorem tallied_of_other {e : Event} (h : ∀ i r cls, e.what ≠ .reported i r cls)
    (history : List Event) : tallied (e :: history) = tallied history := by
  rw [tallied, List.foldr_cons]
  split
  · exact absurd ‹_› (h _ _ _)
  · rfl

/-- What is true of no counters, and stays true when one is added to for a report, is true. -/
theorem tallied_induction {P : Tallies → Prop} (hnil : P [])
    (hadd : ∀ t (r : Report) cls, P t → P (t.add (r.series cls))) (history : List Event) :
    P (tallied history) := by
  induction history with
  | nil => exact hnil
  | cons e history ih =>
      by_cases h : ∃ i r cls, e.what = .reported i r cls
      · obtain ⟨i, r, cls, hwhat⟩ := h
        rw [tallied_of_report hwhat]
        exact hadd _ r cls ih
      · rw [tallied_of_other fun i r cls hwhat => h ⟨i, r, cls, hwhat⟩]
        exact ih

theorem nodup_tallied (history : List Event) : ((tallied history).map (·.1)).Nodup :=
  tallied_induction (P := fun t => (t.map (·.1)).Nodup) List.nodup_nil
    (fun _ _ _ => Tallies.nodup_add) history

theorem mem_keys_tallied (history : List Event) (k : Series) :
    k ∈ (tallied history).map (·.1) ↔ 0 < (tallied history).total k := by
  refine tallied_induction (P := fun t => k ∈ t.map (·.1) ↔ 0 < t.total k) ?_ ?_ history
  · simp [Tallies.total]
  · intro t r cls ih
    rw [Tallies.mem_keys_add, Tallies.total_add, ih]
    split <;> simp_all

theorem series_of_mem (history : List Event) {k : Series}
    (hk : k ∈ (tallied history).map (·.1)) : ∃ (r : Report) (cls : String), k = r.series cls := by
  refine tallied_induction
    (P := fun t => ∀ k ∈ t.map (·.1), ∃ (r : Report) (cls : String), k = r.series cls) ?_ ?_
    history k hk
  · exact fun _ h => absurd h nofun
  · intro t r cls ih k hk
    rcases Tallies.mem_keys_add.mp hk with hk | hk
    · exact ih k hk
    · exact ⟨r, cls, hk⟩

/-- The total of a counter is how often that was reported which it counts. -/
theorem total_tallied (history : List Event) (r : Report) (cls : String) :
    (tallied history).total (r.series cls) = history.countP (Event.tells r cls) := by
  induction history with
  | nil => rfl
  | cons e history ih =>
      rw [List.countP_cons, ← ih]
      by_cases h : ∃ i r' cls', e.what = .reported i r' cls'
      · obtain ⟨i, r', cls', hwhat⟩ := h
        have hsame : r.series cls = r'.series cls' ↔ e.tells r cls = true := by
          simp only [Event.tells, hwhat, decide_eq_true_eq]
          constructor
          · intro h
            obtain ⟨rfl, rfl⟩ := Report.series_injective h
            exact ⟨rfl, rfl⟩
          · rintro ⟨rfl, rfl⟩
            rfl
        rw [tallied_of_report hwhat, Tallies.total_add]
        simp only [hsame]
      · have hno : e.tells r cls = false := by
          unfold Event.tells
          split
          · exact absurd ⟨_, _, _, ‹_›⟩ h
          · rfl
        rw [tallied_of_other fun i r cls hwhat => h ⟨i, r, cls, hwhat⟩, hno]
        rfl

theorem mem_tallied_iff (history : List Event) (k : Series) (n : Nat) :
    (k, n) ∈ tallied history ↔
      0 < n ∧ ∃ r cls, k = r.series cls ∧ n = history.countP (Event.tells r cls) := by
  constructor
  · intro hmem
    have hk : k ∈ (tallied history).map (·.1) := List.mem_map.mpr ⟨_, hmem, rfl⟩
    have htotal := Tallies.total_of_mem (nodup_tallied history) hmem
    obtain ⟨r, cls, rfl⟩ := series_of_mem history hk
    refine ⟨?_, r, cls, rfl, ?_⟩
    · rw [← htotal]
      exact (mem_keys_tallied history _).mp hk
    · rw [← htotal, total_tallied]
  · rintro ⟨hpos, r, cls, rfl, rfl⟩
    rw [← total_tallied] at hpos
    obtain ⟨⟨k', n⟩, hmem, hk⟩ := List.mem_map.mp ((mem_keys_tallied history _).mpr hpos)
    obtain rfl : k' = _ := hk
    rwa [← total_tallied, Tallies.total_of_mem (nodup_tallied history) hmem]

/-- A way to take a monitor and what it was told for another monitor, which is not a recording one,
and is told the same. -/
structure Hearing where
  hear : Monitor → List Event → Monitor
  mute : ∀ m h, hear m h ≠ .recording
  other : ∀ m e h, (∀ i r cls, e.what ≠ .reported i r cls) → hear m (e :: h) = hear m h
  told : ∀ e i r cls h, e.what = .reported i r cls →
    hear .recording (e :: h) = (hear .recording h).observe r cls
  counted : ∀ m h r cls, m ≠ .recording → hear (m.observe r cls) h = (hear m h).observe r cls

/-- The events that belong to what is done. -/
def Scheduler.deeds (s : Scheduler) : List Event := s.history.filter fun e => e.what.plain

theorem Happening.not_reported_of_plain {w : Happening} (h : w.plain = true) (i : JobId)
    (r : Report) (cls : String) : w ≠ .reported i r cls := by
  rintro rfl
  exact absurd h nofun

/-- A scheduler with another monitor and without a log. -/
def Retelling.observed (v : Hearing) : Retelling where
  tell s := { s with monitor := v.hear s.monitor s.history, logging := false, history := s.deeds }
  hidden _ := False
  core _ _ _ _ _ := rfl
  length _ := rfl
  jobs _ _ _ := rfl
  gone _ _ _ h := h.elim
  updateJob _ _ _ _ := rfl
  addJob _ _ _ := rfl
  shutdown _ := rfl
  emit s a w hw := by
    have hhear := v.other s.monitor ⟨s.now, a, w⟩ s.history (Happening.not_reported_of_plain hw)
    simp [Scheduler.emit, Scheduler.deeds, hhear, hw]
  log s a e := by
    unfold Scheduler.log
    split
    · simp [Scheduler.emit, Scheduler.deeds, Happening.plain, v.other]
    · rfl
  report s a i cls r := by
    rw [Scheduler.report_eq, Scheduler.report_eq]
    dsimp only
    rw [if_neg (v.mute _ _)]
    by_cases hm : s.monitor = .recording
    · have htold := v.told ⟨s.now, a, .reported i r cls⟩ i r cls s.history rfl
      have hsame : Monitor.observe r cls .recording = .recording := rfl
      simp [Scheduler.deeds, hm, Happening.plain, hsame, htold]
    · simp [Scheduler.deeds, hm, v.counted]

theorem Retelling.observed_lasts (v : Hearing) (s : Scheduler) : (observed v).Lasts s :=
  fun _ _ _ => ⟨fun _ _ _ h => h, fun _ h => h.elim⟩

/-- A monitor that is told nothing. -/
def Hearing.silent : Hearing where
  hear _ _ := .silent
  mute _ _ := nofun
  other _ _ _ _ := rfl
  told _ _ _ _ _ _ := rfl
  counted _ _ _ _ _ := rfl

/-- In place of a recording monitor one that counts the same. -/
def Hearing.counting : Hearing where
  hear
    | .recording, history => .counting (tallied history)
    | m, _ => m
  mute m h := by cases m <;> nofun
  other m e h hno := by cases m <;> simp [tallied_of_other hno]
  told e i r cls h hwhat := by simp [tallied_of_report hwhat, Monitor.observe]
  counted m h r cls hm := by cases m <;> first | rfl | exact absurd rfl hm

/-- A monitor as it is, if it is not a recording one. -/
def Hearing.faithful : Hearing where
  hear
    | .recording, _ => .silent
    | m, _ => m
  mute m h := by cases m <;> nofun
  other m _ _ _ := by cases m <;> rfl
  told _ _ _ _ _ _ := rfl
  counted m _ _ _ _ := by cases m <;> rfl

namespace Scheduler

/-- Whether two schedulers are in the same state after the same deeds, whatever was observed of
them. -/
structure SameDeeds (s t : Scheduler) : Prop where
  alike : s.Alike t
  deeds : t.deeds = s.deeds

/-- Whether the monitor of the second scheduler counts what that of the first was told: there is one
counter for each kind of report about each class of which there was a report, none besides, and its
total is how many there were. -/
structure Counts (s t : Scheduler) : Prop where
  counting : t.monitor = .counting t.monitor.tallies
  distinct : (t.monitor.tallies.map (·.1)).Nodup
  exact : ∀ series n, (series, n) ∈ t.monitor.tallies ↔
    0 < n ∧ ∃ r cls, series = r.series cls ∧ n = s.told r cls

variable {s t : Scheduler}

theorem sameDeeds_of_observed {v v' : Hearing}
    (h : (Retelling.observed v').tell t = (Retelling.observed v).tell s) : s.SameDeeds t where
  alike :=
    { now := (congrArg Scheduler.now h).symm
      tokens := (congrArg Scheduler.tokens h).symm
      registry := (congrArg Scheduler.registry h).symm
      jobs := (congrArg Scheduler.jobs h).symm
      counters := (congrArg Scheduler.counters h).symm }
  deeds := congrArg Scheduler.history h

theorem counts_of_observed (hs : s.monitor = .recording)
    (h : (Retelling.observed .faithful).tell t = (Retelling.observed .counting).tell s) :
    s.Counts t := by
  have hheard : Hearing.faithful.hear t.monitor t.history = .counting (tallied s.history) := by
    have hmonitor := congrArg Scheduler.monitor h
    rw [show ((Retelling.observed .counting).tell s).monitor =
      Hearing.counting.hear s.monitor s.history from rfl, hs] at hmonitor
    exact hmonitor
  have htallies : t.monitor = .counting (tallied s.history) := by
    cases hm : t.monitor with
    | recording =>
        rw [hm] at hheard
        exact absurd hheard nofun
    | _ =>
        rw [hm] at hheard
        exact hheard
  constructor <;> rw [htallies]
  · rfl
  · exact nodup_tallied s.history
  · exact mem_tallied_iff s.history

end Scheduler

namespace Performance

variable {steps : List Step} {p : Progress} {past : List (Scheduler × Move)} {m m' : Monitor}
  {l l' : Bool}

theorem recording (h : Performance ⟨.initial .recording l, none, steps⟩ past p) :
    p.scheduler.monitor = .recording ∧ ∀ e ∈ past, e.1.monitor = .recording := by
  refine ⟨h.run.recording, fun e he => ?_⟩
  obtain ⟨_, _, _, before, -⟩ := h.run.of_mem he
  exact before.recording

/-- The choice of observer changes nothing. For every performance of a script before one monitor
there is one before any other, with the log collected or not, that is as far in the script, makes
the same moves with the same answers, and has passed the same states after the same deeds. And where
the one monitor records and the other counts from nothing, the counters are after every move just
the tallies of the reports so far. -/
theorem observer_free (h : Performance ⟨.initial m l, none, steps⟩ past p) :
    ∃ past' t, Performance ⟨.initial m' l', none, steps⟩ past' { p with scheduler := t } ∧
      p.scheduler.SameDeeds t ∧
      List.Forall₂ (fun e e' => e'.2 = e.2 ∧ e'.1.answer? e'.2 = e.1.answer? e.2 ∧
        e.1.SameDeeds e'.1) past past' ∧
      (m = .recording → m' = .counting [] →
        p.scheduler.Counts t ∧ List.Forall₂ (fun e e' => e.1.Counts e'.1) past past') := by
  have hbegin : ∃ v v' : Hearing, (Retelling.observed v').tell (.initial m' l') =
      (Retelling.observed v).tell (.initial m l) ∧
      (m = .recording → m' = .counting [] → v = .counting ∧ v' = .faithful) := by
    by_cases hcount : m = .recording ∧ m' = .counting []
    · obtain ⟨rfl, rfl⟩ := hcount
      exact ⟨.counting, .faithful, rfl, fun _ _ => ⟨rfl, rfl⟩⟩
    · exact ⟨.silent, .silent, rfl, fun hm hm' => absurd ⟨hm, hm'⟩ hcount⟩
  obtain ⟨v, v', hab, hv⟩ := hbegin
  obtain ⟨past', t, h', htell, hpast⟩ :=
    h.retold (Retelling.observed_lasts v _) (Retelling.observed_lasts v' _) hab
  refine ⟨past', t, h', Scheduler.sameDeeds_of_observed htell, ?_, fun hm hm' => ?_⟩
  · exact hpast.imp fun e e' he =>
      ⟨he.move, he.answer, Scheduler.sameDeeds_of_observed he.tell⟩
  · obtain ⟨rfl, rfl⟩ := hv hm hm'
    subst hm
    obtain ⟨hlast, hrecording⟩ := h.recording
    refine ⟨Scheduler.counts_of_observed hlast htell, ?_⟩
    exact ((List.forall₂_and_left past past').mpr ⟨hrecording, hpast⟩).imp fun e e' he =>
      Scheduler.counts_of_observed he.1 he.2.tell

theorem counted_of_started : ∃ past past' p t,
    Performance ⟨.initial .recording true, none,
      [.call (.schedule Run.plainOrder (some []) (.fixed 0)), .settle]⟩ past p ∧
    Performance ⟨.initial (.counting []) false, none,
      [.call (.schedule Run.plainOrder (some []) (.fixed 0)), .settle]⟩ past'
        { p with scheduler := t } ∧
    t.registry = p.scheduler.registry ∧
    (Report.series (.started .timer) "c", 1) ∈ t.monitor.tallies := by
  have hbegin : Performance ⟨.initial .recording true, none,
      [.call (.schedule Run.plainOrder (some []) (.fixed 0)), .settle]⟩ [] _ := .start
  have h := hbegin.call.settle.turn (i := 0) rfl |>.turn (i := 0) rfl
  obtain ⟨past', t, h', hsame, -, hcount⟩ :
      ∃ past' t, Performance ⟨.initial (.counting []) false, none, _⟩ past' _ ∧ _ :=
    h.observer_free
  refine ⟨_, past', _, t, h, h', hsame.alike.registry.symm, ?_⟩
  exact ((hcount rfl rfl).1.exact _ _).mpr ⟨Nat.one_pos, .started .timer, "c", rfl, rfl⟩

end Performance

end JobScheduler
