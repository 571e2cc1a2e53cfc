import JobScheduler.Proofs.Playback

/-!
Scripts carried out with the runners in any order. In a step that lets the runners go on, any runner
that can go on may take the next turn; the clock moves only where none can, to the next deadline or
to the end of the step. What `Scheduler.play` does is one of these performances
(`Performance.play`).
-/

namespace JobScheduler

/-- How far the carrying out of a script is. -/
structure Progress where
  scheduler : Scheduler
  /-- Until when the runners go on, in a step that lets them. -/
  until? : Option Int
  /-- The steps that are not begun. -/
  rest : List Step

/-- Whether no runner can go on. -/
def Scheduler.Settled (s : Scheduler) : Prop := ∀ i, s.step? i = none

/-- The performance of the steps of a first stage up to another, with the states it passed and the
moves made from them, the latest first. -/
inductive Performance (first : Progress) : List (Scheduler × Move) → Progress → Prop where
  | start : Performance first [] first
  | call {past : List (Scheduler × Move)} {s : Scheduler} {c : Call} {rest : List Step} :
      Performance first past ⟨s, none, .call c :: rest⟩ →
      Performance first ((s, .call c) :: past) ⟨(s.call none c).1, none, rest⟩
  | stall {past : List (Scheduler × Move)} {s : Scheduler} {ms : Nat} {rest : List Step} :
      Performance first past ⟨s, none, .stall ms :: rest⟩ →
      Performance first ((s, .pass ms) :: past) ⟨s.stall ms, none, rest⟩
  | shutdown {past : List (Scheduler × Move)} {s : Scheduler} {rest : List Step} :
      Performance first past ⟨s, none, .shutdown :: rest⟩ →
      Performance first ((s, .shutdown) :: past) ⟨s.shutdown, none, rest⟩
  | settle {past : List (Scheduler × Move)} {s : Scheduler} {rest : List Step} :
      Performance first past ⟨s, none, .settle :: rest⟩ →
      Performance first past ⟨s, some s.now, rest⟩
  | advance {past : List (Scheduler × Move)} {s : Scheduler} {ms : Nat} {rest : List Step} :
      Performance first past ⟨s, none, .advance ms :: rest⟩ →
      Performance first past ⟨s, some (waitUntil s.now ms), rest⟩
  | turn {past : List (Scheduler × Move)} {s s' : Scheduler} {stop : Int} {rest : List Step}
      {i : JobId} :
      Performance first past ⟨s, some stop, rest⟩ → s.step? i = some s' →
      Performance first ((s, .turn i) :: past) ⟨s', some stop, rest⟩
  /-- The clock moves on to the next deadline. -/
  | wait {past : List (Scheduler × Move)} {s : Scheduler} {stop t : Int} {rest : List Step} :
      Performance first past ⟨s, some stop, rest⟩ → s.Settled → s.nextDeadline? stop = some t →
      Performance first ((s, .pass (t - s.now).toNat) :: past)
        ⟨s.stall (t - s.now).toNat, some stop, rest⟩
  /-- There is no deadline left, and the step ends. -/
  | finish {past : List (Scheduler × Move)} {s : Scheduler} {stop : Int} {rest : List Step} :
      Performance first past ⟨s, some stop, rest⟩ → s.Settled → s.nextDeadline? stop = none →
      Performance first ((s, .pass (stop - s.now).toNat) :: past)
        ⟨s.stall (stop - s.now).toNat, none, rest⟩

namespace Scheduler

variable {s : Scheduler}

theorem settled_iff : s.Settled ↔ ∀ i < s.jobs.length, s.step? i = none := by
  constructor
  · exact fun h i _ => h i
  · intro h i
    by_cases hi : i < s.jobs.length
    · exact h i hi
    · have hnone : s.jobs[i]? = none := List.getElem?_eq_none (Nat.le_of_not_lt hi)
      simp [step?, hnone]

theorem settled_of_single (hlen : s.jobs.length = 1) (hstep : s.step? 0 = none) :
    s.Settled := by
  rw [settled_iff]
  intro i hi
  obtain rfl : i = 0 := by omega
  exact hstep

theorem now_stall {t : Int} (h : s.now ≤ t) : (s.stall (t - s.now).toNat).now = t := by
  show s.now + ((t - s.now).toNat : Int) = t
  omega

theorem now_settle (s : Scheduler) : s.settle.now = s.now := (Run.settle s).choose_spec.2

theorem stall_eq {t : Int} (h : s.now ≤ t) : s.stall (t - s.now).toNat = { s with now := t } := by
  have hnow : s.now + ((t - s.now).toNat : Int) = t := by omega
  rw [stall, hnow]

/-- Whether a runner can go on from `t` on, not before now and not after `stop`. -/
def Due (s : Scheduler) (stop t : Int) : Prop :=
  (∃ job ∈ s.jobs, job.deadline? = some t) ∧ s.now < t ∧ t ≤ stop

theorem mem_deadlines {stop t : Int} :
    t ∈ (s.jobs.filterMap Job.deadline?).filter (fun t => decide (s.now < t) && decide (t ≤ stop)) ↔
      s.Due stop t := by
  simp [Due, List.mem_filterMap]

theorem nextDeadline?_eq_some_iff {stop t : Int} :
    s.nextDeadline? stop = some t ↔ s.Due stop t ∧ ∀ u, s.Due stop u → t ≤ u := by
  simp only [nextDeadline?, List.min?_eq_some_iff, mem_deadlines]

theorem nextDeadline?_eq_none_iff {stop : Int} :
    s.nextDeadline? stop = none ↔ ∀ t, ¬s.Due stop t := by
  simp only [nextDeadline?, List.min?_eq_none_iff, List.eq_nil_iff_forall_not_mem, mem_deadlines]

end Scheduler

namespace Performance

variable {first p : Progress} {past : List (Scheduler × Move)}

theorem trans {q : Progress} {later : List (Scheduler × Move)} (h : Performance first past p)
    (h' : Performance p later q) :
    Performance first (later ++ past) q := by
  induction h' with
  | start => exact h
  | call _ ih => exact ih.call
  | stall _ ih => exact ih.stall
  | shutdown _ ih => exact ih.shutdown
  | settle _ ih => exact ih.settle
  | advance _ ih => exact ih.advance
  | turn _ hstep ih => exact ih.turn hstep
  | wait _ hs hnext ih => exact ih.wait hs hnext
  | finish _ hs hnone ih => exact ih.finish hs hnone

theorem run (h : Performance first past p) : Run first.scheduler past p.scheduler := by
  induction h with
  | start => exact .start
  | call _ ih => exact ih.next _ rfl
  | stall _ ih => exact ih.next _ rfl
  | shutdown _ ih => exact ih.next _ rfl
  | settle _ ih => exact ih
  | advance _ ih => exact ih
  | turn _ hstep ih => exact ih.next _ hstep
  | wait _ _ _ ih => exact ih.next _ rfl
  | finish _ _ _ ih => exact ih.next _ rfl

theorem now_le_until {s : Scheduler} {stop : Int} {rest : List Step}
    (hfirst : first.until? = none) (h : Performance first past p) :
    p = ⟨s, some stop, rest⟩ → s.now ≤ stop := by
  induction h generalizing s with
  | start =>
      rintro rfl
      exact absurd hfirst (by simp)
  | call => nofun
  | stall => nofun
  | shutdown => nofun
  | settle =>
      rintro ⟨⟩
      exact Int.le_refl _
  | advance =>
      rintro ⟨⟩
      exact le_waitUntil _ _
  | turn _ hstep ih =>
      rintro ⟨⟩
      rw [(Scheduler.persists_step hstep).now]
      exact ih rfl
  | wait _ _ ht =>
      rintro ⟨⟩
      obtain ⟨hlt, hle⟩ := Run.nextDeadline ht
      rw [Scheduler.now_stall (Int.le_of_lt hlt)]
      exact hle
  | finish => nofun

section

variable {s : Scheduler} {stop : Int} {rest : List Step}

theorem settleFor (fuel : Nat) (current : Option JobId)
    (h : Performance first past ⟨s, some stop, rest⟩) :
    ∃ past', Performance first past' ⟨Scheduler.settleFor fuel current s, some stop, rest⟩ := by
  induction fuel generalizing current s past with
  | zero => exact ⟨past, h⟩
  | succ fuel ih =>
      rw [Scheduler.settleFor]
      split
      · rename_i i s' hcurrent
        obtain ⟨k, -, hk⟩ := Option.bind_eq_some_iff.mp hcurrent
        obtain ⟨t, ht, heq⟩ := Option.map_eq_some_iff.mp hk
        cases heq
        exact ih _ (h.turn ht)
      · split
        · rename_i i s' hfirst
          exact ih _ (h.turn (Run.firstStep hfirst))
        · exact ⟨past, h⟩

theorem settled (h : Performance first past ⟨s, some stop, rest⟩) :
    ∃ past', Performance first past' ⟨s.settle, some stop, rest⟩ :=
  settleFor Scheduler.settleLimit none h

theorem ends (h : Performance first past ⟨s, some stop, rest⟩) (hs : s.Settled)
    (hnow : s.now ≤ stop) (hnone : s.nextDeadline? stop = none) :
    ∃ past', Performance first past' ⟨{ s with now := stop }, none, rest⟩ := by
  rw [← Scheduler.stall_eq hnow]
  exact ⟨_, h.finish hs hnone⟩

variable (hrest : ∀ past' p', Performance first past' p' → p'.scheduler.settle.Settled)
include hrest

theorem advanceFor (fuel : Nat) (h : Performance first past ⟨s, some stop, rest⟩) (hs : s.Settled)
    (hfuel : stop ≤ s.now + fuel) (hnow : s.now ≤ stop) :
    ∃ past', Performance first past' ⟨Scheduler.advanceFor fuel s stop, none, rest⟩ := by
  induction fuel generalizing s past with
  | zero =>
      refine h.ends hs hnow ?_
      cases ht : s.nextDeadline? stop with
      | none => rfl
      | some t =>
          obtain ⟨hlt, hle⟩ := Run.nextDeadline ht
          omega
  | succ fuel ih =>
      rw [Scheduler.advanceFor]
      split
      · rename_i hnone
        exact h.ends hs hnow hnone
      · rename_i t ht
        obtain ⟨hlt, hle⟩ := Run.nextDeadline ht
        have hwait := h.wait hs ht
        rw [Scheduler.stall_eq (Int.le_of_lt hlt)] at hwait
        obtain ⟨past', hsettled⟩ := hwait.settled
        have hsame : Scheduler.now (Scheduler.settle { s with now := t }) = t :=
          Scheduler.now_settle _
        exact ih hsettled (hrest _ _ hwait) (by omega) (by omega)

theorem perform (step : Step) (h : Performance first past ⟨s, none, step :: rest⟩) :
    ∃ past', Performance first past' ⟨(s.perform step).1, none, rest⟩ := by
  have hnow := s.now_settle
  cases step with
  | call c => exact ⟨_, h.call⟩
  | stall ms => exact ⟨_, h.stall⟩
  | shutdown => exact ⟨_, h.shutdown⟩
  | settle =>
      obtain ⟨past', hsettled⟩ := h.settle.settled
      have hnone : s.settle.nextDeadline? s.now = none := by
        cases ht : s.settle.nextDeadline? s.now with
        | none => rfl
        | some t =>
            obtain ⟨hlt, hle⟩ := Run.nextDeadline ht
            omega
      have hend := hsettled.ends (hrest _ _ h) (Int.le_of_eq hnow) hnone
      rw [← hnow] at hend
      exact hend
  | advance ms =>
      have hlater := le_waitUntil s.now ms
      have hfuel := waitUntil_le s.now ms
      obtain ⟨past', hsettled⟩ := h.advance.settled
      exact advanceFor hrest ms hsettled (hrest _ _ h) (by omega) (by omega)

theorem playFor (steps : List Step) (h : Performance first past ⟨s, none, steps⟩) :
    ∃ past', Performance first past' ⟨(s.play steps).1, none, []⟩ := by
  induction steps generalizing s past with
  | nil => exact ⟨past, h⟩
  | cons step rest ih =>
      obtain ⟨past', hstep⟩ := perform hrest step h
      exact ih hstep

omit hrest in
/-- Carrying out a script one runner after the other is a performance of it, if the runners always
come to rest. -/
theorem play (s : Scheduler) (steps : List Step)
    (hrest : ∀ past p, Performance ⟨s, none, steps⟩ past p → p.scheduler.settle.Settled) :
    ∃ past, Performance ⟨s, none, steps⟩ past ⟨(s.play steps).1, none, []⟩ :=
  playFor hrest steps .start

end

end Performance

end JobScheduler
