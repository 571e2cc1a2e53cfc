import JobScheduler.Proofs.Projection

/-!
Every script is a run: whatever holds of the states of all runs holds of a scheduler after any
script (`Run.play`).
-/

namespace JobScheduler

namespace Run

variable {s : Scheduler}

theorem firstStep {s' : Scheduler} {i : JobId} (h : s.firstStep? = some (i, s')) :
    s.step? i = some s' := by
  obtain ⟨k, -, hk⟩ := List.exists_of_findSome?_eq_some h
  obtain ⟨t, ht, heq⟩ := Option.map_eq_some_iff.mp hk
  cases heq
  exact ht

theorem settleFor (fuel : Nat) (current : Option JobId) (s : Scheduler) :
    ∃ past, Run s past (Scheduler.settleFor fuel current s) ∧
      (Scheduler.settleFor fuel current s).now = s.now := by
  induction fuel generalizing current s with
  | zero => exact ⟨[], .start, rfl⟩
  | succ fuel ih =>
      have hstep : ∀ {i s'}, s.step? i = some s' →
          ∃ past, Run s past (Scheduler.settleFor fuel (some i) s') ∧
            (Scheduler.settleFor fuel (some i) s').now = s.now := by
        intro i s' h
        obtain ⟨past, run, hnow⟩ := ih (some i) s'
        exact ⟨_, (single (.turn i) h).trans run, hnow.trans (Scheduler.persists_step h).now⟩
      rw [Scheduler.settleFor]
      split
      · rename_i i s' h
        obtain ⟨k, -, hk⟩ := Option.bind_eq_some_iff.mp h
        obtain ⟨t, ht, heq⟩ := Option.map_eq_some_iff.mp hk
        cases heq
        exact hstep ht
      · split
        · rename_i i s' h
          exact hstep (firstStep h)
        · exact ⟨[], .start, rfl⟩

theorem settle (s : Scheduler) : ∃ past, Run s past s.settle ∧ s.settle.now = s.now :=
  settleFor _ _ s

theorem nextDeadline {stop t : Int} (h : s.nextDeadline? stop = some t) :
    s.now < t ∧ t ≤ stop := by
  have hmem := (List.min?_eq_some_iff.mp h).1
  have hbounds := (List.mem_filter.mp hmem).2
  simpa using hbounds

theorem advanceFor (fuel : Nat) (s : Scheduler) (stop : Int) (hstop : s.now ≤ stop) :
    ∃ past, Run s past (Scheduler.advanceFor fuel s stop) := by
  induction fuel generalizing s with
  | zero => exact setClock hstop
  | succ fuel ih =>
      rw [Scheduler.advanceFor]
      split
      · exact setClock hstop
      · rename_i t h
        obtain ⟨hlt, hle⟩ := nextDeadline h
        obtain ⟨past, clock⟩ := setClock (Int.le_of_lt hlt)
        obtain ⟨past', turns, hnow⟩ := settle { s with now := t }
        obtain ⟨past'', rest⟩ :=
          ih { s with now := t }.settle (Int.le_trans (Int.le_of_eq hnow) hle)
        exact ⟨_, (clock.trans turns).trans rest⟩

theorem advance (s : Scheduler) (ms : Nat) : ∃ past, Run s past (s.advance ms) := by
  obtain ⟨past, turns, hnow⟩ := settle s
  have hstop : s.settle.now ≤ waitUntil s.now ms := hnow ▸ le_waitUntil s.now ms
  obtain ⟨past', rest⟩ := advanceFor ms s.settle _ hstop
  exact ⟨_, turns.trans rest⟩

theorem perform (s : Scheduler) (step : Step) : ∃ past, Run s past (s.perform step).1 := by
  cases step with
  | call c => exact ⟨_, single (.call c) rfl⟩
  | settle =>
      obtain ⟨past, turns, -⟩ := settle s
      exact ⟨past, turns⟩
  | advance ms => exact advance s ms
  | stall ms => exact ⟨_, single (.pass ms) rfl⟩
  | shutdown => exact ⟨_, single .shutdown rfl⟩

theorem play (s : Scheduler) (steps : List Step) : ∃ past, Run s past (s.play steps).1 := by
  induction steps generalizing s with
  | nil => exact ⟨[], .start⟩
  | cons step rest ih =>
      obtain ⟨past, first⟩ := perform s step
      obtain ⟨past', last⟩ := ih (s.perform step).1
      exact ⟨_, first.trans last⟩

end Run

end JobScheduler
