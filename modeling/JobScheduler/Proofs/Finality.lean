import JobScheduler.Proofs.RecordSignals

/-!
What it means that a record is finalised: it stays so whatever is done, and neither channel is given
a signal any more. A record that was ended has both channels closed, of which each gives what was
left in it and nothing else, and to end it again changes nothing (`Record.finalisation_absorbs`).
-/

namespace JobScheduler.Record

/-- What a receive finds, if a use is one. -/
def Use.receipt? (receive : Operation) (u : Use) : Option Receipt :=
  match u.reply with
  | .receipt found => if u.op = receive then some found else none
  | _ => none

/-- What is found on one of the receivers, one time after another. -/
def receipts (receive : Operation) (us : List Use) : List Receipt :=
  us.filterMap (Use.receipt? receive)

/-- Whether a use leaves a record as final as it was: it stays finalised, it is neither cancelled
nor run, and neither channel is given a signal. -/
structure Use.Idle (u : Use) : Prop where
  finalised : u.next.finalised = true
  cancel : u.op = .cancel → u.reply = .flag false
  run : u.op = .triggerRun → ∃ e, u.reply = .result (.error e)
  running : u.next.running.pending = true → u.record.running.pending = true
  cancelling : u.next.cancelling.pending = true → u.record.cancelling.pending = true

theorem Use.idle {u : Use} (hf : u.record.finalised = true) : u.Idle where
  finalised := (finalised_next u).mpr (.inl hf)
  cancel := by
    obtain ⟨r, op⟩ := u
    rintro rfl
    exact congrArg (Reply.flag ∘ Prod.snd) (if_pos hf)
  run := by
    obtain ⟨r, op⟩ := u
    rintro rfl
    rcases r.triggerRun_cases with ⟨e, h⟩ | ⟨-, hopen, -⟩
    · exact ⟨e, congrArg (Reply.result ∘ Prod.snd) h⟩
    · exact absurd hf (by simp [hopen])
  running := by
    refine wiring_running.pending_of_next fun hplace => ?_
    obtain ⟨r, op⟩ := u
    have hfinal : r.finalised = true := hf
    cases op <;> simp [runMove, hfinal] at hplace
  cancelling := by
    refine wiring_cancelling.pending_of_next fun hplace => ?_
    exact absurd hf (by simp [((cancelMove_eq_place_iff u).mp hplace).2])

variable {r : Record}

theorem idle_of_mem (hf : r.finalised = true) {ops : List Operation} {u : Use}
    (h : u ∈ r.uses ops) : u.Idle := by
  induction ops generalizing r with
  | nil => exact absurd h List.not_mem_nil
  | cons op rest ih =>
      rcases List.mem_cons.mp h with rfl | h
      · exact Use.idle hf
      · exact ih ((Use.finalised_next ⟨r, op⟩).mpr (.inl hf)) h

theorem finalise_finalise (r : Record) : r.finalise.finalise = r.finalise := rfl

theorem finalise_of_closed (hf : r.finalised = true) (hr : r.running.sending = false)
    (hc : r.cancelling.sending = false) : r.finalise = r.deactivate := by
  have hrunning : r.running.close = r.running := by
    rw [Channel.close, ← hr]
  have hcancelling : r.cancelling.close = r.cancelling := by
    rw [Channel.close, ← hc]
  rw [finalise, deactivate, hrunning, hcancelling, ← hf]

namespace Wiring

variable {channel : Record → Channel} {move : Use → Channel.Move} {receive drop : Operation}

theorem receipts_eq (h : Wiring channel move receive drop) (r : Record) (ops : List Operation) :
    receipts receive (r.uses ops) =
      Channel.receipts ((channel r).course ((r.uses ops).map move)) := by
  induction ops generalizing r with
  | nil => rfl
  | cons op rest ih =>
      have hrest := ih (Use.mk r op).next
      rw [h.next] at hrest
      rw [uses, receipts, List.map_cons]
      by_cases hop : op = receive
      · have hfound : (Use.mk r op).receipt? receive = some (channel r).receipt := by
          rw [Use.receipt?, h.reply ⟨r, op⟩ hop]
          exact if_pos hop
        have htake : move ⟨r, op⟩ = .take := (h.take_iff _).mpr hop
        rw [htake] at hrest
        rw [List.filterMap_cons_some hfound, htake, Channel.receipts_take]
        exact congrArg ((channel r).receipt :: ·) hrest
      · have hnone : (Use.mk r op).receipt? receive = none := by
          unfold Use.receipt?
          split
          · exact if_neg hop
          · rfl
        rw [List.filterMap_cons_none hnone, Channel.receipts_of_ne _ (mt (h.take_iff _).mp hop)]
        exact hrest

theorem receipts_of_closed (h : Wiring channel move receive drop)
    (hs : (channel r).sending = false) (hl : (channel r).listening = true) {ops : List Operation}
    (hdrop : drop ∉ ops) :
    receipts receive (r.uses ops) = (channel r).lastReceipts (ops.count receive) := by
  have hmoves : .drop ∉ (r.uses ops).map move := by rwa [mem_moves_iff h.drop_iff]
  have hcount : ((r.uses ops).map move).count .take = ops.count receive := by
    conv_rhs => rw [← map_op_uses r ops]
    simp only [List.count, List.countP_map]
    apply List.countP_congr
    intro u _
    simp [h.take_iff]
  rw [h.receipts_eq, Channel.receipts_of_closed hs hl hmoves, hcount]

end Wiring

section Fresh

variable (l : String × String × Bool) (ops more : List Operation)

/-- Once a record is finalised, every later use leaves it so, with nothing placed into a channel.
Once it was ended, each receiver that exists finds at most what was in its slot then, and after that
only that the channel is closed; to end it again does no more than to make it inactive, and right
away it does nothing. Channels are closed only by ending the record. -/
theorem finalisation_absorbs :
    (((fresh l).after ops).finalised = true →
      ∀ u ∈ ((fresh l).after ops).uses more, u.Idle) ∧
    (((fresh l).after ops).running.listening = true → .dropRun ∉ more →
      receipts .receiveRun (((fresh l).after ops).finalise.uses more) =
        ((fresh l).after ops).running.lastReceipts (more.count .receiveRun)) ∧
    (((fresh l).after ops).cancelling.listening = true → .dropCancel ∉ more →
      receipts .receiveCancel (((fresh l).after ops).finalise.uses more) =
        ((fresh l).after ops).cancelling.lastReceipts (more.count .receiveCancel)) ∧
    (((fresh l).after ops).finalise.after more).finalise =
      (((fresh l).after ops).finalise.after more).deactivate ∧
    (∀ r : Record, r.finalise.finalise = r.finalise) ∧
    (((fresh l).after ops).running.sending = false ↔ .finalise ∈ ops) ∧
    (((fresh l).after ops).cancelling.sending = false ↔ .finalise ∈ ops) := by
  refine ⟨fun hf u hu => idle_of_mem hf hu, ?_, ?_, ?_, finalise_finalise,
    wiring_running.sending_after rfl ops, wiring_cancelling.sending_after rfl ops⟩
  · intro hl hdrop
    have hfound := wiring_running.receipts_of_closed (r := ((fresh l).after ops).finalise) rfl hl
      hdrop
    exact hfound.trans (Channel.lastReceipts_close _ _)
  · intro hl hdrop
    have hfound := wiring_cancelling.receipts_of_closed (r := ((fresh l).after ops).finalise) rfl hl
      hdrop
    exact hfound.trans (Channel.lastReceipts_close _ _)
  · have hall : (((fresh l).after ops).finalise.after more) =
        (fresh l).after (ops ++ .finalise :: more) := by
      rw [after, after, after, List.foldl_append]
      rfl
    have hmem : .finalise ∈ ops ++ .finalise :: more :=
      List.mem_append_right _ List.mem_cons_self
    rw [hall]
    exact finalise_of_closed ((finalised_after _ _).mpr (.inr (.inr hmem)))
      ((wiring_running.sending_after rfl _).mpr hmem)
      ((wiring_cancelling.sending_after rfl _).mpr hmem)

end Fresh

theorem found_of_ended :
    receipts .receiveRun
      (((fresh ("a", "c", false)).after [.triggerRun]).finalise.uses
        [.receiveRun, .cancel, .receiveRun]) = [.signal, .closed] :=
  (finalisation_absorbs ("a", "c", false) [.triggerRun] [.receiveRun, .cancel, .receiveRun]).2.1 rfl
    (by decide)

end JobScheduler.Record
