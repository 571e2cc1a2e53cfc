import JobScheduler.Proofs.Abandonment

/-!
Cancelling by a stem. The names that start with a stem are cancelled one by one, in the order in
which the registry yields them, and that order does not matter: cancelling a list of names in any
other order ends in the same state, except for the order of the log entries
(`Scheduler.cancelEach_perm`). So the names that are taken out are those that start with the stem,
doing it again changes nothing, and for two stems it may be done in either order (`Run.sweeps`).
-/

namespace JobScheduler

/-- Whether a name starts with a stem. -/
def startsWith (stem name : String) : Bool := stem.toList.isPrefixOf name.toList

theorem startsWith_trans {stem longer name : String} (h : startsWith stem longer = true)
    (h' : startsWith longer name = true) : startsWith stem name = true := by
  unfold startsWith at *
  rw [List.isPrefixOf_iff_prefix] at *
  exact h.trans h'

/-- The job once it is cancelled: finalised, and its runner is told to stop, if it has one. -/
def Job.told (j : Job) : Job :=
  { j with record := { j.record with
      finalised := true
      cancelling := { j.record.cancelling with pending := j.phase.alive } } }

namespace Scheduler

/-- The scheduler once names were cancelled one by one. -/
def cancelEach (s : Scheduler) (a : Option JobId) (names : List String) : Scheduler :=
  names.foldl (fun s name => s.cancelIfExists a name) s

/-- Whether two schedulers differ in nothing but the order in which their events were written. -/
structure Reordered (s t : Scheduler) : Prop where
  same : t = { s with history := t.history }
  events : s.history.Perm t.history

/-- What becomes of a scheduler by cancelling every job whose name starts with a stem. -/
structure Swept (s : Scheduler) (stem : String) (t : Scheduler) : Prop where
  registry : t.registry = s.registry.filter fun entry => !startsWith stem entry.1
  removed : ∀ i job, s.jobs[i]? = some job → s.Holds i job →
    startsWith stem job.record.name = true →
    job.record.finalised = false ∧ job.record.cancelling.pending = false ∧
      t.jobs[i]? = some job.told
  others : ∀ i job, s.jobs[i]? = some job →
    ¬(s.Holds i job ∧ startsWith stem job.record.name = true) → t.jobs[i]? = some job
  unadded : ∀ i : JobId, s.jobs[i]? = none → t.jobs[i]? = none
  unreported : t.monitor = s.monitor ∧ t.notices = s.notices
  rest : t.now = s.now ∧ t.tokens = s.tokens ∧ t.counters = s.counters

variable {s t u : Scheduler} {a : Option JobId} {i k : JobId} {job : Job} {name n : String}

namespace Reordered

theorem refl (s : Scheduler) : s.Reordered s := ⟨rfl, .refl _⟩

theorem symm (h : s.Reordered t) : t.Reordered s := by
  constructor
  · rw [h.same]
  · exact h.events.symm

theorem trans (h : s.Reordered t) (h' : t.Reordered u) : s.Reordered u := by
  constructor
  · rw [h'.same, h.same]
  · exact h.events.trans h'.events

theorem log (h : s.Reordered t) (a : Option JobId) (e : LogEntry) :
    (s.log a e).Reordered (t.log a e) := by
  obtain ⟨hsame, hevents⟩ := h
  rw [hsame]
  unfold Scheduler.log
  dsimp only
  split
  · exact ⟨rfl, hevents.cons _⟩
  · exact ⟨rfl, hevents⟩

theorem unregister (h : s.Reordered t) (name : String) :
    (s.unregister name).Reordered (t.unregister name) := by
  rw [h.same]
  exact ⟨rfl, h.events⟩

theorem updateRecord (h : s.Reordered t) (i : JobId) (f : Record → Record) :
    (s.updateRecord i f).Reordered (t.updateRecord i f) := by
  rw [h.same]
  exact ⟨rfl, h.events⟩

theorem log_swap (s : Scheduler) (a : Option JobId) (e e' : LogEntry) :
    ((s.log a e).log a e').Reordered ((s.log a e').log a e) := by
  unfold Scheduler.log Scheduler.emit
  cases hl : s.logging with
  | false => simpa [hl] using refl s
  | true => exact ⟨by simp, by simpa using List.Perm.swap _ _ _⟩

end Reordered

theorem log_unregister (s : Scheduler) (a : Option JobId) (e : LogEntry) (name : String) :
    (s.unregister name).log a e = (s.log a e).unregister name := by
  unfold log
  rw [show (s.unregister name).logging = s.logging from rfl]
  split <;> rfl

theorem log_updateRecord (s : Scheduler) (a : Option JobId) (e : LogEntry) (i : JobId)
    (f : Record → Record) : (s.updateRecord i f).log a e = (s.log a e).updateRecord i f :=
  log_updateJob s a e i _

theorem unregister_updateRecord (s : Scheduler) (name : String) (i : JobId) (f : Record → Record) :
    (s.updateRecord i f).unregister name = (s.unregister name).updateRecord i f := rfl

theorem unregister_comm (s : Scheduler) (m n : String) :
    (s.unregister m).unregister n = (s.unregister n).unregister m := by
  unfold unregister
  dsimp only
  rw [List.filter_comm]

theorem updateRecord_comm (s : Scheduler) (hik : i ≠ k) (f g : Record → Record) :
    (s.updateRecord i f).updateRecord k g = (s.updateRecord k g).updateRecord i f := by
  unfold updateRecord updateJob
  dsimp only
  congr 1
  apply List.ext_getElem?
  intro l
  simp only [List.getElem?_modify]
  by_cases hi : i = l
  · have hk : k ≠ l := fun hk => hik (hi.trans hk.symm)
    simp [hi, hk]
  · simp [hi]

/-- What the log tells of a cancelled job. -/
def cancelEntry (name : String) (job : Job) : LogEntry :=
  if job.record.cancel.2 then .cancelSignalled name else .alreadyFinalised name

theorem cancel_of_none (a : Option JobId) (h : s.find? name = none) : (s.cancel a name).1 = s := by
  rw [cancel, h]

theorem cancel_of_some (a : Option JobId) (h : s.find? name = some (i, job)) :
    (s.cancel a name).1 =
      ((s.unregister name).updateRecord i (·.cancel.1)).log a (cancelEntry name job) := by
  have hrecord := updateRecord_const (s := s.unregister name) (find?_eq_some h).2
    fun r => r.cancel.1
  unfold cancel cancelEntry
  rw [h, ← hrecord]
  dsimp only
  split <;>
  · rename_i r hr
    rw [hr]
    rfl

theorem registry_cancel (hs : s.Named) (a : Option JobId) (name : String) :
    (s.cancel a name).1.registry = (s.unregister name).registry := by
  cases h : s.find? name with
  | none =>
      have hfree := List.lookup_eq_none_iff.mp ((find?_eq_none_iff hs name).mp h)
      rw [cancel_of_none a h, unregister]
      symm
      apply List.filter_eq_self.mpr
      intro entry hentry
      exact decide_eq_true (Ne.symm (bne_iff_ne.mp (hfree entry hentry)))
  | some found => rw [cancel_of_some a h, registry_log]; rfl

theorem ne_of_find? (hs : s.Named) {job' : Job} (h : s.find? n = some (i, job))
    (h' : s.find? name = some (k, job')) (hne : n ≠ name) : i ≠ k := by
  rintro rfl
  obtain rfl := Option.some_inj.mp ((find?_eq_some h).2.symm.trans (find?_eq_some h').2)
  obtain ⟨-, -, hn⟩ := situation?_of_find? hs h
  obtain ⟨-, -, hname⟩ := situation?_of_find? hs h'
  exact hne (hn.symm.trans hname)

theorem find?_cancel_of_ne (hs : s.Named) (a : Option JobId) (hne : n ≠ name) :
    (s.cancel a name).1.find? n = s.find? n := by
  cases h : s.find? name with
  | none => rw [cancel_of_none a h]
  | some found =>
      obtain ⟨i, job⟩ := found
      unfold find?
      rw [registry_cancel hs, lookup_unregister, if_neg hne]
      cases hl : s.registry.lookup n with
      | none => rfl
      | some k =>
          obtain ⟨job', hj', -⟩ := hs n k hl
          have hfind : s.find? n = some (k, job') := by simp [find?, hl, hj']
          have hik : i ≠ k := (ne_of_find? hs hfind h hne).symm
          rw [cancel_of_some a h, jobs_log]
          simp [updateRecord, updateJob, unregister, hik]

theorem Reordered.cancel (h : s.Reordered t) (a : Option JobId) (name : String) :
    (s.cancel a name).1.Reordered (t.cancel a name).1 := by
  have hfind : t.find? name = s.find? name := by
    rw [h.same]
    rfl
  cases hs : s.find? name with
  | none => rwa [cancel_of_none a hs, cancel_of_none a (hfind.trans hs)]
  | some found =>
      rw [cancel_of_some a hs, cancel_of_some a (hfind.trans hs)]
      exact ((h.unregister name).updateRecord _ _).log a _

/-- Two names may be cancelled in either order. -/
theorem cancel_swap (hs : s.Named) (a : Option JobId) (m n : String) :
    ((s.cancel a m).1.cancel a n).1.Reordered ((s.cancel a n).1.cancel a m).1 := by
  by_cases hmn : m = n
  · rw [hmn]
    exact .refl _
  · have hn := find?_cancel_of_ne hs a (Ne.symm hmn)
    have hm := find?_cancel_of_ne hs a hmn
    cases hfm : s.find? m with
    | none => rw [cancel_of_none a hfm, cancel_of_none a (hm.trans hfm)]; exact .refl _
    | some found =>
        obtain ⟨i, job⟩ := found
        cases hfn : s.find? n with
        | none => rw [cancel_of_none a hfn, cancel_of_none a (hn.trans hfn)]; exact .refl _
        | some found' =>
            obtain ⟨k, job'⟩ := found'
            have hik := ne_of_find? hs hfm hfn hmn
            rw [cancel_of_some a (hn.trans hfn), cancel_of_some a (hm.trans hfm),
              cancel_of_some a hfm, cancel_of_some a hfn]
            simp only [← log_unregister, ← log_updateRecord, unregister_updateRecord]
            rw [unregister_comm s m n, updateRecord_comm _ hik]
            exact Reordered.log_swap _ a _ _

theorem Reordered.cancelEach (h : s.Reordered t) (a : Option JobId) (names : List String) :
    (s.cancelEach a names).Reordered (t.cancelEach a names) := by
  induction names generalizing s t with
  | nil => exact h
  | cons name rest ih => exact ih (h.cancel a name)

/-- Names may be cancelled in any order. -/
theorem cancelEach_perm (hs : s.Named) (a : Option JobId) {names names' : List String}
    (h : names.Perm names') : (s.cancelEach a names).Reordered (s.cancelEach a names') := by
  induction h generalizing s with
  | nil => exact .refl s
  | cons name _ ih => exact ih ((s.persists_cancel a name).named hs)
  | swap m n rest => exact (cancel_swap hs a n m).cancelEach a rest
  | trans _ _ ih ih' => exact (ih hs).trans (ih' hs)

theorem cancelEach_append (s : Scheduler) (a : Option JobId) (names names' : List String) :
    s.cancelEach a (names ++ names') = (s.cancelEach a names).cancelEach a names' :=
  List.foldl_append

theorem registry_cancelEach (hs : s.Named) (a : Option JobId) (names : List String) :
    (s.cancelEach a names).registry = s.registry.filter fun entry => decide (entry.1 ∉ names) := by
  induction names generalizing s with
  | nil => simp [cancelEach]
  | cons name rest ih =>
      have hfirst := registry_cancel hs a name
      have hrest : (s.cancelEach a (name :: rest)).registry =
          (s.cancel a name).1.registry.filter fun entry => decide (entry.1 ∉ rest) :=
        ih ((s.persists_cancel a name).named hs)
      rw [hrest, hfirst, unregister, List.filter_filter]
      apply List.filter_congr
      intro entry _
      simp [Bool.and_comm]

theorem cancelAll_eq (s : Scheduler) (a : Option JobId) (stem : String) :
    s.cancelAll a stem = s.cancelEach a (s.matching stem) := rfl

theorem matching_eq (s : Scheduler) (stem : String) :
    s.matching stem = (s.registry.map (·.1)).filter (startsWith stem) := rfl

theorem registry_cancelAll (hs : s.Named) (a : Option JobId) (stem : String) :
    (s.cancelAll a stem).registry = s.registry.filter fun entry => !startsWith stem entry.1 := by
  rw [cancelAll_eq, registry_cancelEach hs]
  apply List.filter_congr
  intro entry hentry
  have hname : entry.1 ∈ s.registry.map (·.1) := List.mem_map_of_mem hentry
  simp [matching_eq, hname]

theorem matching_cancelAll (hs : s.Named) (a : Option JobId) (stem other : String) :
    (s.cancelAll a stem).matching other =
      (s.matching other).filter fun name => !startsWith stem name := by
  rw [matching_eq, matching_eq, registry_cancelAll hs, List.filter_filter, List.filter_map,
    List.filter_map, List.filter_filter]
  congr 1
  apply List.filter_congr
  intro entry _
  exact Bool.and_comm _ _

theorem cancelAll_again (hs : s.Named) (a : Option JobId) {stem longer : String}
    (h : startsWith stem longer = true) :
    (s.cancelAll a stem).cancelAll a longer = s.cancelAll a stem := by
  have hnone : (s.cancelAll a stem).matching longer = [] := by
    rw [matching_cancelAll hs]
    apply List.filter_eq_nil_iff.mpr
    intro name hname
    have hstem := startsWith_trans h (List.mem_filter.mp hname).2
    simp [hstem]
  rw [cancelAll_eq _ a longer, hnone]
  rfl

theorem cancelAll_cancelAll (hs : s.Named) (a : Option JobId) (stem other : String) :
    ((s.cancelAll a stem).cancelAll a other).Reordered (s.cancelEach a
      ((s.registry.map (·.1)).filter fun name =>
        startsWith stem name || startsWith other name)) := by
  rw [cancelAll_eq _ a other, matching_cancelAll hs, cancelAll_eq, ← cancelEach_append]
  apply cancelEach_perm hs
  rw [matching_eq, matching_eq]
  generalize s.registry.map (·.1) = names
  have hsplit := List.filter_append_perm (startsWith stem)
    (names.filter fun name => startsWith stem name || startsWith other name)
  have hfirst : (names.filter fun name => startsWith stem name || startsWith other name).filter
      (startsWith stem) = names.filter (startsWith stem) := by
    rw [List.filter_filter]
    apply List.filter_congr
    intro name _
    cases startsWith stem name <;> rfl
  have hsecond : (names.filter fun name => startsWith stem name || startsWith other name).filter
      (fun name => !startsWith stem name) =
      (names.filter (startsWith other)).filter fun name => !startsWith stem name := by
    rw [List.filter_filter, List.filter_filter]
    apply List.filter_congr
    intro name _
    cases startsWith stem name <;> rfl
  rwa [hfirst, hsecond] at hsplit

theorem cancelAll_comm (hs : s.Named) (a : Option JobId) (stem other : String) :
    ((s.cancelAll a stem).cancelAll a other).Reordered
      ((s.cancelAll a other).cancelAll a stem) := by
  have hboth := cancelAll_cancelAll hs a other stem
  simp only [Bool.or_comm] at hboth
  exact (cancelAll_cancelAll hs a stem other).trans hboth.symm

theorem rest_cancel (s : Scheduler) (a : Option JobId) (name : String) :
    ((s.cancel a name).1.monitor = s.monitor ∧ (s.cancel a name).1.notices = s.notices) ∧
      (s.cancel a name).1.now = s.now ∧ (s.cancel a name).1.tokens = s.tokens ∧
        (s.cancel a name).1.counters = s.counters := by
  cases h : s.find? name with
  | none => simp [cancel_of_none a h]
  | some found =>
      rw [cancel_of_some a h]
      unfold log
      split <;> exact ⟨⟨rfl, rfl⟩, rfl, rfl, rfl⟩

theorem rest_cancelEach (s : Scheduler) (a : Option JobId) (names : List String) :
    ((s.cancelEach a names).monitor = s.monitor ∧ (s.cancelEach a names).notices = s.notices) ∧
      (s.cancelEach a names).now = s.now ∧ (s.cancelEach a names).tokens = s.tokens ∧
        (s.cancelEach a names).counters = s.counters := by
  induction names generalizing s with
  | nil => exact ⟨⟨rfl, rfl⟩, rfl, rfl, rfl⟩
  | cons name rest ih =>
      obtain ⟨⟨hmonitor, hnotices⟩, hnow, htokens, hcounters⟩ := ih (s.cancel a name).1
      obtain ⟨⟨hmonitor', hnotices'⟩, hnow', htokens', hcounters'⟩ := s.rest_cancel a name
      exact ⟨⟨hmonitor.trans hmonitor', hnotices.trans hnotices'⟩, hnow.trans hnow',
        htokens.trans htokens', hcounters.trans hcounters'⟩

end Scheduler

theorem Record.cancel_of_deaf {r : Record} (hf : r.finalised = false)
    (hdeaf : r.cancelling.send? = none) : r.cancel = ({ r with finalised := true }, true) := by
  simp [cancel, hf, hdeaf]

theorem Situation.Sound.requestStop {v : Situation} (hv : v.Sound) (hr : v.registered = true) :
    v.job.record.finalised = false ∧ v.job.record.cancelling.pending = false ∧
      v.requestStop.job = v.job.told := by
  obtain ⟨-, hf, -⟩ := hv.open_of_registered hr
  cases hv with
  | tended ha hv =>
      have hempty : v.job.record.cancelling.pending = false := by rw [← hv.stopping, hf]
      refine ⟨hf, hempty, ?_⟩
      have hcancel := Record.cancel_of_listening hf hv.cancelling.1 hv.cancelling.2 hempty
      simp [Situation.requestStop, unlisted, withRecord, update, hcancel, Job.told, ha]
  | ended _ hv => exact absurd hr (Bool.eq_false_iff.mp hv.registered)
  | abandoned hp hv =>
      refine ⟨hf, hv.cancelling.1, ?_⟩
      have hdeaf : v.job.record.cancelling.send? = none := by
        simp [Channel.send?, hv.cancelling.2]
      have hsame : { v.job.record.cancelling with pending := false } = v.job.record.cancelling := by
        rw [← hv.cancelling.1]
      have hcancel := Record.cancel_of_deaf hf hdeaf
      simp [Situation.requestStop, unlisted, withRecord, update, hcancel, Job.told, hp, Phase.alive,
        hsame]

namespace Run

variable {monitor : Monitor} {logging : Bool} {past : List (Scheduler × Move)} {s : Scheduler}

theorem swept (run : Run (.initial monitor logging) past s) (a : Option JobId) (stem : String) :
    s.Swept stem (s.cancelAll a stem) := by
  obtain ⟨hunreported, hrest⟩ := s.rest_cancelEach a (s.matching stem)
  constructor
  · exact Scheduler.registry_cancelAll run.named a stem
  · intro i job hj hheld hstem
    have hv := Scheduler.situation?_of_getElem? hj
    have hr := (Scheduler.registered_iff hv).mpr hheld
    have hafter := Scheduler.situation?_cancelAll run.named a stem hv
    rw [if_pos ⟨hr, hstem⟩] at hafter
    obtain ⟨hf, hempty, htold⟩ := (run.sound hv).requestStop hr
    refine ⟨hf, hempty, ?_⟩
    rw [(Scheduler.situation?_eq_some.mp hafter).1, htold]
    rfl
  · intro i job hj hother
    have hv := Scheduler.situation?_of_getElem? hj
    have hafter := Scheduler.situation?_cancelAll run.named a stem hv
    rw [if_neg fun h => hother ⟨(Scheduler.registered_iff hv).mp h.1, h.2⟩] at hafter
    exact (Scheduler.situation?_eq_some.mp hafter).1
  · intro i hnone
    have hfree : s.situation? i = none := Option.map_eq_none_iff.mpr hnone
    exact Option.map_eq_none_iff.mp (Scheduler.situation?_cancelAll_of_none hfree a stem)
  · exact hunreported
  · exact hrest

/-- In every state of every run, cancelling every job whose name starts with a stem takes these
names and no others out of the registry, finalises the jobs that held them and tells the runners
that they have to stop; nothing is reported, and nothing else changes. It comes to the same as
cancelling these names one by one in any order, except for the order of the log entries. Doing it
again, with the same stem or a longer one, changes nothing, and it may be done for two stems in
either order. -/
theorem sweeps (run : Run (.initial monitor logging) past s) (a : Option JobId) (stem : String) :
    s.Swept stem (s.cancelAll a stem) ∧
    (∀ names, names.Perm (s.matching stem) →
      (s.cancelAll a stem).Reordered (s.cancelEach a names)) ∧
    (∀ longer, startsWith stem longer = true →
      (s.cancelAll a stem).cancelAll a longer = s.cancelAll a stem) ∧
    ∀ other, ((s.cancelAll a stem).cancelAll a other).Reordered
      ((s.cancelAll a other).cancelAll a stem) := by
  refine ⟨run.swept a stem, ?_, ?_, ?_⟩
  · intro names hnames
    exact Scheduler.cancelEach_perm run.named a hnames.symm
  · intro longer hlonger
    exact Scheduler.cancelAll_again run.named a hlonger
  · intro other
    exact Scheduler.cancelAll_comm run.named a stem other

theorem swept_of_two : ∃ past s, Run (.initial .recording true) past s ∧
    s.registry = [("a", 0), ("b", 1)] ∧ (s.cancelAll none "a").registry = [("b", 1)] ∧
    (s.cancelAll none "").Reordered (s.cancelEach none ["b", "a"]) := by
  have run := (begun (.initial .recording true)).next
    (.call (.schedule plainOrder (some []) (.after 1))) rfl |>.next (.turn 0) rfl |>.next
    (.call (.schedulePeriodic { plainOrder with name := "b" } (some []) (some .empty))) rfl
  obtain ⟨hswept, -⟩ := run.sweeps none "a"
  obtain ⟨-, hperm, -⟩ := run.sweeps none ""
  refine ⟨_, _, run, rfl, ?_, ?_⟩
  · exact hswept.registry
  · exact hperm ["b", "a"] (List.Perm.swap "a" "b" [])

end Run

end JobScheduler
