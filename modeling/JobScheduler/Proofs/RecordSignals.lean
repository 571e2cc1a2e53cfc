import JobScheduler.Proofs.NoFurtherRuns
import JobScheduler.Proofs.Delivery

/-!
A record, its two channels and any operations on them, also in orders in which no runner does them.
No run signal is lost or made up, a record is cancelled once and its runner told once
(`Record.signals_accounted`), and a request to run is all or nothing (`Record.run_all_or_nothing`).
-/

namespace JobScheduler.Record

/-- The record with a label that nothing was done to. -/
def fresh (label : String × String × Bool) : Record :=
  { name := label.1, cls := label.2.1, periodic := label.2.2 }

/-- The record after operations. -/
def after (r : Record) (ops : List Operation) : Record := ops.foldl (fun r op => (r.perform op).1) r

/-- An operation with the record that it is done to. -/
structure Use where
  record : Record
  op : Operation

/-- The operations, each with the record that it is done to. -/
def uses (r : Record) : List Operation → List Use
  | [] => []
  | op :: rest => ⟨r, op⟩ :: (r.perform op).1.uses rest

namespace Use

def reply (u : Use) : Reply := (u.record.perform u.op).2

def next (u : Use) : Record := (u.record.perform u.op).1

/-- Whether a request to run is accepted. -/
def accepts (u : Use) : Bool :=
  match u.op, u.reply with
  | .triggerRun, .result (.ok _) => true
  | _, _ => false

/-- Whether the record is cancelled. -/
def cancels (u : Use) : Bool :=
  match u.op, u.reply with
  | .cancel, .flag true => true
  | _, _ => false

/-- Whether a run signal is received. -/
def receives (u : Use) : Bool :=
  match u.op, u.reply with
  | .receiveRun, .receipt .signal => true
  | _, _ => false

/-- Whether the receiver of run signals is dropped while there is one for it. -/
def loses (u : Use) : Bool := u.op = .dropRun && u.record.running.pending

/-- What is done to the channel of run signals. -/
def runMove (u : Use) : Channel.Move :=
  match u.op with
  | .triggerRun => if u.record.active || u.record.finalised then .rest else .place
  | .receiveRun => .take
  | .dropRun => .drop
  | .finalise => .close
  | _ => .rest

/-- What is done to the channel by which the runner is told to stop. -/
def cancelMove (u : Use) : Channel.Move :=
  match u.op with
  | .cancel => if u.record.finalised then .rest else .place
  | .receiveCancel => .take
  | .dropCancel => .drop
  | .finalise => .close
  | _ => .rest

end Use

variable {r : Record} {op : Operation}

theorem uses_append (r : Record) (ops more : List Operation) :
    r.uses (ops ++ more) = r.uses ops ++ (r.after ops).uses more := by
  induction ops generalizing r with
  | nil => rfl
  | cons op rest ih => exact congrArg (⟨r, op⟩ :: ·) (ih _)

theorem uses_eq_append {before since : List Use} {ops : List Operation}
    (h : r.uses ops = before ++ since) : ∃ first last, ops = first ++ last ∧
      r.uses first = before ∧ (r.after first).uses last = since := by
  induction before generalizing r ops with
  | nil => exact ⟨[], ops, rfl, rfl, h⟩
  | cons u before ih =>
      cases ops with
      | nil => exact absurd h nofun
      | cons op rest =>
          obtain ⟨rfl, hrest⟩ := List.cons.inj h
          obtain ⟨first, last, rfl, rfl, hlast⟩ := ih hrest
          exact ⟨op :: first, last, rfl, rfl, hlast⟩

theorem map_op_uses (r : Record) (ops : List Operation) : (r.uses ops).map Use.op = ops := by
  induction ops generalizing r with
  | nil => rfl
  | cons op rest ih => exact congrArg (op :: ·) (ih _)

/-- What operations answer is what the uses of the record answer. -/
theorem performAll_eq (r : Record) (ops : List Operation) :
    r.performAll ops = (r.uses ops).map fun u => (u.reply, u.next) := by
  induction ops generalizing r with
  | nil => rfl
  | cons op rest ih => exact congrArg (((r.perform op).2, (r.perform op).1) :: ·) (ih _)

theorem running_triggerRun (ha : r.active = false) (hf : r.finalised = false) :
    r.triggerRun.1.running = r.running.move .place := by
  cases hsend : r.running.send? with
  | none => rw [triggerRun_of_send?_eq_none ha hsend, Channel.move, hsend, Option.getD_none]
  | some c => simp [triggerRun, tryActivate, ha, hf, hsend, Channel.move]

theorem triggerRun_eq_ok_iff (r : Record) : r.triggerRun.2 = .ok () ↔
    r.active = false ∧ r.finalised = false ∧ r.running.send?.isSome = true := by
  cases ha : r.active with
  | true => simp [triggerRun_of_active ha]
  | false =>
      cases hf : r.finalised with
      | true => simp [triggerRun_of_finalised ha hf]
      | false =>
          cases hsend : r.running.send? with
          | none => simp [triggerRun_of_send?_eq_none ha hsend]
          | some c => simp [triggerRun, tryActivate, ha, hf, hsend]

theorem triggerRun_of_inactive (ha : r.active = false) :
    r.triggerRun.2 = .ok () ∨ r.triggerRun.2 = .error (.jobFinalised r.name) := by
  cases hf : r.finalised with
  | true => exact .inr (congrArg Prod.snd (triggerRun_of_finalised ha hf))
  | false =>
      cases hsend : r.running.send? with
      | none => exact .inr (congrArg Prod.snd (triggerRun_of_send?_eq_none ha hsend))
      | some c => exact .inl ((triggerRun_eq_ok_iff r).mpr ⟨ha, hf, Option.isSome_of_eq_some hsend⟩)

namespace Use

theorem running_next (u : Use) : u.next.running = u.record.running.move u.runMove := by
  obtain ⟨r, op⟩ := u
  cases op with
  | triggerRun =>
      show r.triggerRun.1.running = _
      cases ha : r.active with
      | true => simp [triggerRun_of_active ha, runMove, ha, Channel.move]
      | false =>
          cases hf : r.finalised with
          | true => simp [triggerRun_of_finalised ha hf, runMove, hf, Channel.move]
          | false => simp [running_triggerRun ha hf, runMove, ha, hf]
  | cancel => exact pending_cancel r
  | tryActivate =>
      show r.tryActivate.1.running = _
      unfold tryActivate
      split <;> rfl
  | _ => rfl

theorem cancelling_next (u : Use) : u.next.cancelling = u.record.cancelling.move u.cancelMove := by
  obtain ⟨r, op⟩ := u
  cases op with
  | triggerRun =>
      show r.triggerRun.1.cancelling = _
      rcases r.triggerRun_cases with ⟨e, h⟩ | ⟨-, -, -, h⟩ <;> rw [h] <;> rfl
  | cancel =>
      show r.cancel.1.cancelling = _
      cases hf : r.finalised <;> simp [cancel, hf, cancelMove, Channel.move]
  | tryActivate =>
      show r.tryActivate.1.cancelling = _
      unfold tryActivate
      split <;> rfl
  | _ => rfl

theorem cancels_eq (u : Use) : u.cancels = (u.op = .cancel && !u.record.finalised) := by
  obtain ⟨r, op⟩ := u
  cases op with
  | cancel => cases hf : r.finalised <;> simp [cancels, reply, perform, cancel, hf]
  | _ => rfl

theorem accepts_eq (u : Use) : u.accepts = Channel.places (u.record.running, u.runMove) := by
  obtain ⟨r, op⟩ := u
  cases op with
  | triggerRun =>
      have hok : (Use.mk r .triggerRun).accepts = true ↔ r.triggerRun.2 = .ok () := by
        cases h : r.triggerRun.2 <;> simp [accepts, reply, perform, h]
      rw [Bool.eq_iff_iff, hok, triggerRun_eq_ok_iff]
      cases ha : r.active <;> cases hf : r.finalised <;> simp [runMove, ha, hf, Channel.places]
  | _ => rfl

theorem receives_eq (u : Use) : u.receives = Channel.delivers (u.record.running, u.runMove) := by
  obtain ⟨r, op⟩ := u
  cases op with
  | triggerRun =>
      cases ha : r.active <;> cases hf : r.finalised <;>
        simp [receives, runMove, ha, hf, Channel.delivers]
  | receiveRun =>
      cases h : r.running.receipt <;>
        simp [receives, reply, perform, runMove, h, Channel.delivers]
  | _ => rfl

theorem loses_eq (u : Use) : u.loses = Channel.loses (u.record.running, u.runMove) := by
  obtain ⟨r, op⟩ := u
  cases op with
  | triggerRun =>
      cases ha : r.active <;> cases hf : r.finalised <;>
        simp [loses, runMove, ha, hf, Channel.loses]
  | _ => simp [loses, runMove, Channel.loses]

theorem finalised_next (u : Use) : u.next.finalised = true ↔
    u.record.finalised = true ∨ u.op = .cancel ∨ u.op = .finalise := by
  obtain ⟨r, op⟩ := u
  cases op with
  | triggerRun =>
      show r.triggerRun.1.finalised = true ↔ _
      simp [finalised_triggerRun]
  | cancel => simp [next, perform, finalised_cancel]
  | tryActivate =>
      show r.tryActivate.1.finalised = true ↔ _
      unfold tryActivate
      split <;> simp
  | _ => simp [next, perform, deactivate, finalise, takeRun, takeCancel]

end Use

/-- A channel of records, with the move that each use is for it and the operations by which its
receiver is read and dropped. -/
structure Wiring (channel : Record → Channel) (move : Use → Channel.Move)
    (receive drop : Operation) : Prop where
  next : ∀ u : Use, channel u.next = (channel u.record).move (move u)
  take_iff : ∀ u, move u = .take ↔ u.op = receive
  drop_iff : ∀ u, move u = .drop ↔ u.op = drop
  close_iff : ∀ u, move u = .close ↔ u.op = .finalise
  reply : ∀ u : Use, u.op = receive → u.reply = .receipt (channel u.record).receipt

theorem wiring_running : Wiring running Use.runMove .receiveRun .dropRun where
  next := Use.running_next
  take_iff u := by
    obtain ⟨r, op⟩ := u
    cases op <;> simp [Use.runMove, ite_eq_iff]
  drop_iff u := by
    obtain ⟨r, op⟩ := u
    cases op <;> simp [Use.runMove, ite_eq_iff]
  close_iff u := by
    obtain ⟨r, op⟩ := u
    cases op <;> simp [Use.runMove, ite_eq_iff]
  reply := by
    rintro ⟨r, op⟩ rfl
    rfl

theorem wiring_cancelling : Wiring cancelling Use.cancelMove .receiveCancel .dropCancel where
  next := Use.cancelling_next
  take_iff u := by
    obtain ⟨r, op⟩ := u
    cases op <;> simp [Use.cancelMove, ite_eq_iff]
  drop_iff u := by
    obtain ⟨r, op⟩ := u
    cases op <;> simp [Use.cancelMove, ite_eq_iff]
  close_iff u := by
    obtain ⟨r, op⟩ := u
    cases op <;> simp [Use.cancelMove, ite_eq_iff]
  reply := by
    rintro ⟨r, op⟩ rfl
    rfl

namespace Wiring

variable {channel : Record → Channel} {move : Use → Channel.Move} {receive drop : Operation}

theorem after_eq (h : Wiring channel move receive drop) (r : Record) (ops : List Operation) :
    channel (r.after ops) = (channel r).after ((r.uses ops).map move) := by
  induction ops generalizing r with
  | nil => rfl
  | cons op rest ih =>
      have hrest := ih (Use.mk r op).next
      rwa [h.next] at hrest

theorem course_eq (h : Wiring channel move receive drop) (r : Record) (ops : List Operation) :
    (channel r).course ((r.uses ops).map move) =
      (r.uses ops).map fun u => (channel u.record, move u) := by
  induction ops generalizing r with
  | nil => rfl
  | cons op rest ih =>
      have hrest := ih (Use.mk r op).next
      rw [h.next] at hrest
      exact congrArg ((channel r, move ⟨r, op⟩) :: ·) hrest

theorem mem_moves_iff {m : Channel.Move} (hm : ∀ u, move u = m ↔ u.op = op) (r : Record)
    (ops : List Operation) : m ∈ (r.uses ops).map move ↔ op ∈ ops := by
  conv_rhs => rw [← map_op_uses r ops]
  simp only [List.mem_map, hm]

theorem pending_of_next (h : Wiring channel move receive drop) {u : Use} (hm : move u ≠ .place)
    (hp : (channel u.next).pending = true) : (channel u.record).pending = true := by
  rw [h.next, Channel.pending_move] at hp
  rcases hp with hplaced | ⟨hkept, -⟩
  · exact absurd (Channel.eq_place_of_places hplaced) hm
  · exact hkept

theorem pending_iff (h : Wiring channel move receive drop) (hempty : (channel r).pending = false)
    (ops : List Operation) : (channel (r.after ops)).pending = true ↔
      ∃ before op since, ops = before ++ op :: since ∧ move ⟨r.after before, op⟩ = .place ∧
        (channel (r.after before)).send?.isSome = true ∧ receive ∉ since ∧ drop ∉ since := by
  rw [h.after_eq, Channel.pending_iff hempty]
  constructor
  · rintro ⟨before, since, hsplit, hsent, htake, hdrop⟩
    obtain ⟨first, last, huses, rfl, hlast⟩ := List.map_eq_append_iff.mp hsplit
    obtain ⟨u, rest, rfl, hplace, rfl⟩ := List.map_eq_cons_iff.mp hlast
    obtain ⟨before, after, rfl, rfl, hafter⟩ := uses_eq_append huses
    cases after with
    | nil => exact absurd hafter nofun
    | cons op since =>
        obtain ⟨rfl, rfl⟩ := List.cons.inj hafter
        rw [← h.after_eq] at hsent
        rw [mem_moves_iff h.take_iff] at htake
        rw [mem_moves_iff h.drop_iff] at hdrop
        exact ⟨before, op, since, rfl, hplace, hsent, htake, hdrop⟩
  · rintro ⟨before, op, since, rfl, hplace, hsent, htake, hdrop⟩
    refine ⟨(r.uses before).map move, ((Use.mk (r.after before) op).next.uses since).map move, ?_,
      ?_, ?_, ?_⟩
    · rw [uses_append, List.map_append, ← hplace]
      rfl
    · rwa [← h.after_eq]
    · rwa [mem_moves_iff h.take_iff]
    · rwa [mem_moves_iff h.drop_iff]

theorem proper_after (h : Wiring channel move receive drop) (hproper : (channel r).Proper)
    (ops : List Operation) : (channel (r.after ops)).Proper := by
  rw [h.after_eq]
  exact Channel.proper_after hproper _

theorem sending_after (h : Wiring channel move receive drop) (hopen : (channel r).sending = true)
    (ops : List Operation) : (channel (r.after ops)).sending = false ↔ .finalise ∈ ops := by
  rw [h.after_eq, Channel.sending_after, hopen, mem_moves_iff h.close_iff]
  simp

end Wiring

theorem finalised_after (r : Record) (ops : List Operation) : (r.after ops).finalised = true ↔
    r.finalised = true ∨ .cancel ∈ ops ∨ .finalise ∈ ops := by
  induction ops generalizing r with
  | nil => simp [after]
  | cons op rest ih =>
      have hfirst := Use.finalised_next ⟨r, op⟩
      have hafter : r.after (op :: rest) = (Use.mk r op).next.after rest := rfl
      rw [hafter, ih, hfirst, List.mem_cons, List.mem_cons, eq_comm (a := op), eq_comm (a := op)]
      tauto

theorem cancelMove_eq_place_iff (u : Use) :
    u.cancelMove = .place ↔ u.op = .cancel ∧ u.record.finalised = false := by
  obtain ⟨r, op⟩ := u
  cases op <;> simp [Use.cancelMove]

theorem cancel_answers_iff (r : Record) :
    (r.perform .cancel).2 = .flag true ↔ r.finalised = false := by
  rw [perform, Reply.flag.injEq]
  cases hf : r.finalised <;> simp [cancel, hf]

theorem label_after (r : Record) (ops : List Operation) : (r.after ops).label = r.label := by
  induction ops generalizing r with
  | nil => rfl
  | cons op rest ih =>
      have hfirst : (r.perform op).1.label = r.label := by
        cases op with
        | triggerRun => exact r.label_triggerRun
        | cancel => exact r.label_cancel
        | tryActivate => exact r.label_tryActivate
        | _ => rfl
      exact (ih _).trans hfirst

theorem countP_cancels_of_finalised (hf : r.finalised = true) (ops : List Operation) :
    (r.uses ops).countP Use.cancels = 0 := by
  induction ops generalizing r with
  | nil => rfl
  | cons op rest ih =>
      have hnext := (Use.finalised_next ⟨r, op⟩).mpr (.inl hf)
      have hfirst : (Use.mk r op).cancels = false := by simp [Use.cancels_eq, hf]
      rw [uses, List.countP_cons_of_neg (by simp [hfirst])]
      exact ih hnext

theorem countP_cancels_le (r : Record) (ops : List Operation) :
    (r.uses ops).countP Use.cancels ≤ 1 := by
  induction ops generalizing r with
  | nil => exact Nat.zero_le 1
  | cons op rest ih =>
      rw [uses]
      cases hfirst : (Use.mk r op).cancels with
      | false =>
          rw [List.countP_cons_of_neg (by simp [hfirst])]
          exact ih _
      | true =>
          have hcancel : op = .cancel := by
            rw [Use.cancels_eq] at hfirst
            exact of_decide_eq_true (Bool.and_eq_true_iff.mp hfirst).1
          have hnext := (Use.finalised_next ⟨r, op⟩).mpr (.inr (.inl hcancel))
          rw [List.countP_cons_of_pos hfirst]
          exact Nat.le_of_eq (congrArg (· + 1) (countP_cancels_of_finalised hnext rest))

/-- Each run signal that is placed is received, lost with its receiver, or still in the slot. -/
theorem accepted_eq (hproper : r.running.Proper) (ops : List Operation) :
    (r.uses ops).countP Use.accepts + r.running.slot =
      (r.uses ops).countP Use.receives + (if (r.uses ops).any Use.loses then 1 else 0) +
        (r.after ops).running.slot := by
  have hall := Channel.delivered hproper ((r.uses ops).map Use.runMove)
  have hlost := Channel.countP_loses hproper ((r.uses ops).map Use.runMove)
  rw [hlost, wiring_running.course_eq, ← wiring_running.after_eq] at hall
  simpa only [List.countP_map, List.any_map, Function.comp_def, ← Use.accepts_eq,
    ← Use.receives_eq, ← Use.loses_eq] using hall

section Fresh

variable (l : String × String × Bool) (ops : List Operation)

theorem open_of_not_finalised (h : ((fresh l).after ops).finalised = false) :
    ((fresh l).after ops).running.sending = true ∧
      ((fresh l).after ops).cancelling.sending = true ∧
      ((fresh l).after ops).cancelling.pending = false := by
  have hnone : Operation.cancel ∉ ops ∧ Operation.finalise ∉ ops := by
    constructor <;> intro hmem <;>
      exact Bool.false_ne_true (h.symm.trans ((finalised_after _ ops).mpr (by simp [hmem])))
  refine ⟨?_, ?_, ?_⟩
  · apply (Bool.not_eq_false _).mp
    rw [wiring_running.sending_after rfl]
    exact hnone.2
  · apply (Bool.not_eq_false _).mp
    rw [wiring_cancelling.sending_after rfl]
    exact hnone.2
  · apply Bool.eq_false_iff.mpr
    rw [ne_eq, wiring_cancelling.pending_iff rfl]
    rintro ⟨before, op, since, rfl, hplace, -⟩
    obtain rfl := ((cancelMove_eq_place_iff _).mp hplace).1
    exact hnone.1 (List.mem_append_right _ List.mem_cons_self)

/-- A receive finds a signal to stop if and only if it is the first since the record was cancelled
with a receiver. -/
theorem told_iff : (((fresh l).after ops).perform .receiveCancel).2 = .receipt .signal ↔
    ∃ before since, ops = before ++ .cancel :: since ∧
      (((fresh l).after before).perform .cancel).2 = .flag true ∧
      ((fresh l).after before).cancelling.listening = true ∧
      .receiveCancel ∉ since ∧ .dropCancel ∉ since := by
  have hpending : (((fresh l).after ops).perform .receiveCancel).2 = .receipt .signal ↔
      ((fresh l).after ops).cancelling.pending = true := by
    rw [perform, Reply.receipt.injEq, Channel.receipt_eq_signal_iff]
    have hproper : ((fresh l).after ops).cancelling.Proper :=
      wiring_cancelling.proper_after (fun _ => rfl) ops
    cases hl : ((fresh l).after ops).cancelling.listening with
    | false => simp [hproper hl]
    | true => simp
  rw [hpending, wiring_cancelling.pending_iff rfl]
  constructor
  · rintro ⟨before, op, since, rfl, hplace, hsent, hreceive, hdrop⟩
    obtain ⟨rfl, hf⟩ := (cancelMove_eq_place_iff _).mp hplace
    exact ⟨before, since, rfl, (cancel_answers_iff _).mpr hf,
      (Channel.isSome_send?_iff.mp hsent).2.1, hreceive, hdrop⟩
  · rintro ⟨before, since, rfl, hcancel, hl, hreceive, hdrop⟩
    have hf := (cancel_answers_iff _).mp hcancel
    obtain ⟨-, hs, hp⟩ := open_of_not_finalised l before hf
    exact ⟨before, .cancel, since, rfl, (cancelMove_eq_place_iff _).mpr ⟨rfl, hf⟩,
      Channel.isSome_send?_iff.mpr ⟨hs, hl, hp⟩, hreceive, hdrop⟩

theorem name_after : ((fresh l).after ops).name = l.1 :=
  congrArg Prod.fst (label_after (fresh l) ops)

/-- Whatever is done to a record and its receivers: the accepted requests to run are as many as the
run signals received, and one more if a signal is in the slot or was there when its receiver was
dropped. The record is cancelled at most once, if and only if it was not finalised before, and then
no signal to stop is in the slot. So a receive finds one if and only if it is the first after the
record was cancelled with a receiver. -/
theorem signals_accounted :
    ((fresh l).uses ops).countP Use.accepts =
      ((fresh l).uses ops).countP Use.receives +
        (if ((fresh l).after ops).running.pending then 1 else 0) +
        (if ((fresh l).uses ops).any Use.loses then 1 else 0) ∧
    ((fresh l).uses ops).countP Use.cancels ≤ 1 ∧
    ((((fresh l).after ops).perform .cancel).2 = .flag true ↔
      ((fresh l).after ops).finalised = false) ∧
    (((fresh l).after ops).finalised = false →
      ((fresh l).after ops).cancelling.pending = false) ∧
    ((((fresh l).after ops).perform .receiveCancel).2 = .receipt .signal ↔
      ∃ before since, ops = before ++ .cancel :: since ∧
        (((fresh l).after before).perform .cancel).2 = .flag true ∧
        ((fresh l).after before).cancelling.listening = true ∧
        .receiveCancel ∉ since ∧ .dropCancel ∉ since) := by
  refine ⟨?_, countP_cancels_le _ ops, ?_, ?_, ?_⟩
  · have hall := accepted_eq (r := fresh l) (fun _ => rfl) ops
    have hempty : (fresh l).running.slot = 0 := rfl
    rw [hempty] at hall
    exact hall.trans (Nat.add_right_comm _ _ _)
  · exact cancel_answers_iff _
  · exact fun h => (open_of_not_finalised l ops h).2.2
  · exact told_iff l ops

/-- A runner finds that its job was cancelled also when the record was ended since. -/
theorem told_of_cancelled :
    (((fresh ("a", "c", false)).after [.triggerRun, .cancel, .finalise]).perform
      .receiveCancel).2 = .receipt .signal :=
  (signals_accounted ("a", "c", false) [.triggerRun, .cancel, .finalise]).2.2.2.2.mpr
    ⟨[.triggerRun], [.finalise], rfl, rfl, rfl, by decide, by decide⟩

/-- A request to run a record, whatever was done to it, is accepted if and only if the record is
neither active nor finalised and the receiver of run signals exists with nothing in the slot, and
then it makes the record active and places one signal. It is refused as running if and only if the
record is active, and as finalised in all other cases, and a refusal changes nothing. -/
theorem run_all_or_nothing :
    (((fresh l).after ops).triggerRun.2 = .ok () ↔
      ((fresh l).after ops).active = false ∧ ((fresh l).after ops).finalised = false ∧
        ((fresh l).after ops).running.listening = true ∧
        ((fresh l).after ops).running.pending = false) ∧
    (((fresh l).after ops).triggerRun.2 = .ok () →
      ((fresh l).after ops).triggerRun.1 =
        { (fresh l).after ops with
          active := true
          running := { ((fresh l).after ops).running with pending := true } }) ∧
    (((fresh l).after ops).triggerRun.2 = .error (.jobRunning l.1) ↔
      ((fresh l).after ops).active = true) ∧
    (((fresh l).after ops).triggerRun.2 = .error (.jobFinalised l.1) ↔
      ((fresh l).after ops).active = false ∧
        ¬(((fresh l).after ops).finalised = false ∧
          ((fresh l).after ops).running.listening = true ∧
          ((fresh l).after ops).running.pending = false)) ∧
    ∀ e, ((fresh l).after ops).triggerRun.2 = .error e →
      ((fresh l).after ops).triggerRun.1 = (fresh l).after ops := by
  have hname := name_after l ops
  have hopen := open_of_not_finalised l ops
  generalize (fresh l).after ops = r at hname hopen
  have hok : r.triggerRun.2 = .ok () ↔ r.active = false ∧ r.finalised = false ∧
      r.running.listening = true ∧ r.running.pending = false := by
    rw [triggerRun_eq_ok_iff, Channel.isSome_send?_iff]
    constructor
    · rintro ⟨ha, hf, -, hl, hp⟩
      exact ⟨ha, hf, hl, hp⟩
    · rintro ⟨ha, hf, hl, hp⟩
      exact ⟨ha, hf, (hopen hf).1, hl, hp⟩
  refine ⟨hok, ?_, ?_, ?_, ?_⟩
  · intro h
    obtain ⟨ha, hf, hl, hp⟩ := hok.mp h
    rw [triggerRun_of_listening ha hf (hopen hf).1 hl hp]
  · constructor
    · intro h
      by_contra ha
      rcases triggerRun_of_inactive (Bool.eq_false_iff.mpr ha) with h' | h' <;>
        exact absurd (h.symm.trans h') (by simp)
    · intro ha
      rw [triggerRun_of_active ha, hname]
  · constructor
    · intro h
      have hrefused : r.triggerRun.2 ≠ .ok () := by simp [h]
      have ha : r.active = false := by
        apply Bool.eq_false_iff.mpr
        intro ha
        rw [triggerRun_of_active ha] at h
        exact absurd h (by simp)
      exact ⟨ha, fun hrest => hrefused (hok.mpr ⟨ha, hrest⟩)⟩
    · rintro ⟨ha, hrest⟩
      rcases triggerRun_of_inactive ha with h | h
      · exact absurd (hok.mp h).2 hrest
      · rw [h, hname]
  · intro e h
    rcases r.triggerRun_cases with ⟨e', hrefused⟩ | ⟨-, -, -, haccepted⟩
    · rw [hrefused]
    · rw [haccepted] at h
      exact absurd h (by simp)

/-- A record with a signal in the slot refuses a run although it is not active, and stays as it
was. -/
theorem unchanged_of_full :
    ((fresh ("a", "c", true)).after [.triggerRun, .deactivate]).triggerRun.2 =
        .error (.jobFinalised "a") ∧
      ((fresh ("a", "c", true)).after [.triggerRun, .deactivate]).triggerRun.1 =
        (fresh ("a", "c", true)).after [.triggerRun, .deactivate] := by
  obtain ⟨-, -, -, hrefused, hsame⟩ :=
    run_all_or_nothing ("a", "c", true) [.triggerRun, .deactivate]
  have h := hrefused.mpr ⟨rfl, by decide⟩
  exact ⟨h, hsame _ h⟩

end Fresh

end JobScheduler.Record
