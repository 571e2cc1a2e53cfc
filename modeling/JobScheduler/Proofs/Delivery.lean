import JobScheduler.Channel
import Mathlib.Data.List.Induction

/-!
What becomes of the signals in a channel, whatever its two sides do. Each signal that is placed is
taken once, is still in the slot, or was lost when the receiver was dropped with it in the slot
(`Channel.delivered`). A signal is in the slot if and only if one was placed and none was taken
since then (`Channel.pending_iff`), and a closed channel gives what was in its slot and no more
(`Channel.receipts_of_closed`).
-/

namespace JobScheduler.Channel

/-- What one of the sides does to a channel. -/
inductive Move where
  | place
  | take
  | drop
  | close
  | rest
deriving DecidableEq, Repr

def move (c : Channel) : Move → Channel
  | .place => c.send?.getD c
  | .take => c.take
  | .drop => c.drop
  | .close => c.close
  | .rest => c

/-- The channel after moves. -/
def after (c : Channel) (moves : List Move) : Channel := moves.foldl move c

/-- The moves, each with the channel before it. -/
def course (c : Channel) : List Move → List (Channel × Move)
  | [] => []
  | m :: rest => (c, m) :: (c.move m).course rest

/-- Whether a signal is placed. -/
def places : Channel × Move → Bool
  | (c, .place) => c.send?.isSome
  | _ => false

/-- Whether a signal is found. -/
def delivers : Channel × Move → Bool
  | (c, .take) => c.receipt = .signal
  | _ => false

/-- Whether a signal is dropped with the receiver. -/
def loses : Channel × Move → Bool
  | (c, .drop) => c.pending
  | _ => false

/-- How many signals are in the slot. -/
def slot (c : Channel) : Nat := if c.pending then 1 else 0

/-- A signal is in the slot only while the receiver exists. -/
def Proper (c : Channel) : Prop := c.listening = false → c.pending = false

variable {c : Channel} {m : Move}

theorem after_concat (c : Channel) (moves : List Move) (m : Move) :
    c.after (moves ++ [m]) = (c.after moves).move m := by
  rw [after, List.foldl_append]
  rfl

theorem isSome_send?_iff : c.send?.isSome = true ↔
    c.sending = true ∧ c.listening = true ∧ c.pending = false := by
  unfold send?
  cases c.sending <;> cases c.listening <;> cases c.pending <;> simp

theorem move_place (c : Channel) :
    c.move .place = { c with pending := c.pending || c.send?.isSome } := by
  unfold move send?
  cases c with
  | mk sending pending listening =>
      cases sending <;> cases pending <;> cases listening <;> rfl

theorem receipt_eq_signal_iff : c.receipt = .signal ↔ c.listening = true ∧ c.pending = true := by
  unfold receipt
  cases c.listening <;> cases c.pending <;> cases c.sending <;> simp

theorem sending_move (c : Channel) (m : Move) :
    (c.move m).sending = false ↔ c.sending = false ∨ m = .close := by
  cases m with
  | place => simp [move_place]
  | _ => simp [move, take, drop, close]

theorem listening_move (c : Channel) (m : Move) :
    (c.move m).listening = false ↔ c.listening = false ∨ m = .drop := by
  cases m with
  | place => simp [move_place]
  | _ => simp [move, take, drop, close]

theorem pending_move (c : Channel) (m : Move) : (c.move m).pending = true ↔
    places (c, m) = true ∨ c.pending = true ∧ m ≠ .take ∧ m ≠ .drop := by
  cases m with
  | place => simp [move_place, places, or_comm]
  | _ => simp [move, take, drop, close, places]

theorem eq_place_of_places (h : places (c, m) = true) : m = .place := by
  cases m with
  | place => rfl
  | _ => exact absurd h Bool.false_ne_true

theorem proper_move (h : c.Proper) (m : Move) : (c.move m).Proper := by
  intro hl
  apply Bool.eq_false_iff.mpr
  intro hp
  rcases (pending_move c m).mp hp with hplaced | ⟨hstays, -, hdrop⟩
  · obtain rfl := eq_place_of_places hplaced
    have hlistening := (isSome_send?_iff.mp hplaced).2.1
    rw [move_place] at hl
    exact Bool.false_ne_true (hl.symm.trans hlistening)
  · rcases (listening_move c m).mp hl with hl | hm
    · exact Bool.false_ne_true ((h hl).symm.trans hstays)
    · exact hdrop hm

theorem proper_after (h : c.Proper) (moves : List Move) : (c.after moves).Proper := by
  induction moves generalizing c with
  | nil => exact h
  | cons m rest ih => exact ih (proper_move h m)

/-- What goes into the slot with one move, and what comes out of it. -/
theorem balance (h : c.Proper) (m : Move) :
    (places (c, m)).toNat + c.slot =
      (delivers (c, m)).toNat + (loses (c, m)).toNat + (c.move m).slot := by
  cases m with
  | place =>
      rw [move_place]
      cases hs : c.send?.isSome with
      | false => simp [places, delivers, loses, slot, hs]
      | true =>
          obtain ⟨-, -, hp⟩ := isSome_send?_iff.mp hs
          simp [places, delivers, loses, slot, hs, hp]
  | take =>
      have hfound : c.receipt = .signal ↔ c.pending = true := by
        rw [receipt_eq_signal_iff]
        cases hl : c.listening with
        | false => simp [h hl]
        | true => simp
      cases hp : c.pending <;> simp [places, delivers, loses, slot, move, take, hfound, hp]
  | drop => cases hp : c.pending <;> simp [places, delivers, loses, slot, move, drop, hp]
  | close => rfl
  | rest => rfl

theorem countP_course_cons (p : Channel × Move → Bool) (c : Channel) (m : Move)
    (rest : List Move) :
    (c.course (m :: rest)).countP p = (p (c, m)).toNat + ((c.move m).course rest).countP p := by
  rw [course, List.countP_cons]
  cases p (c, m) <;> simp [Nat.add_comm]

/-- Each signal that is placed is taken, lost with the receiver, or still in the slot. -/
theorem delivered (h : c.Proper) (moves : List Move) :
    (c.course moves).countP places + c.slot =
      (c.course moves).countP delivers + (c.course moves).countP loses + (c.after moves).slot := by
  induction moves generalizing c with
  | nil => simp [course, after]
  | cons m rest ih =>
      have hfirst := balance h m
      have hrest := ih (proper_move h m)
      have hafter : c.after (m :: rest) = (c.move m).after rest := rfl
      rw [hafter]
      simp only [countP_course_cons]
      omega

theorem not_loses_of_deaf (h : c.Proper) (hl : c.listening = false) (moves : List Move) :
    (c.course moves).any loses = false := by
  induction moves generalizing c with
  | nil => rfl
  | cons m rest ih =>
      have hrest := ih (proper_move h m) ((listening_move c m).mpr (.inl hl))
      have hfirst : loses (c, m) = false := by
        cases m with
        | drop => exact h hl
        | _ => rfl
      rw [course, List.any_cons, hfirst, hrest]
      rfl

theorem countP_loses (h : c.Proper) (moves : List Move) :
    (c.course moves).countP loses = if (c.course moves).any loses then 1 else 0 := by
  induction moves generalizing c with
  | nil => rfl
  | cons m rest ih =>
      have hrest := ih (proper_move h m)
      rw [countP_course_cons, course, List.any_cons, hrest]
      cases hm : loses (c, m) with
      | false => rw [Bool.false_or, Bool.toNat_false, Nat.zero_add]
      | true =>
          have hdrop : m = .drop := by
            cases m with
            | drop => rfl
            | _ => exact absurd hm Bool.false_ne_true
          rw [not_loses_of_deaf (proper_move h m) ((listening_move c m).mpr (.inr hdrop))]
          rfl

/-- A signal is in the slot if and only if one was placed, and none was taken and the receiver not
dropped since then. -/
theorem pending_iff (hempty : c.pending = false) (moves : List Move) :
    (c.after moves).pending = true ↔ ∃ before since, moves = before ++ .place :: since ∧
      (c.after before).send?.isSome = true ∧ .take ∉ since ∧ .drop ∉ since := by
  induction moves using List.reverseRecOn with
  | nil => simp [after, hempty]
  | append_singleton moves m ih =>
      rw [after_concat, pending_move, ih]
      constructor
      · rintro (hplaced | ⟨⟨before, since, rfl, hsent, htake, hdrop⟩, hm⟩)
        · obtain rfl := eq_place_of_places hplaced
          exact ⟨moves, [], rfl, hplaced, nofun, nofun⟩
        · refine ⟨before, since ++ [m], by simp, hsent, ?_, ?_⟩
          · simp [htake, hm.1.symm]
          · simp [hdrop, hm.2.symm]
      · rintro ⟨before, since, hsplit, hsent, htake, hdrop⟩
        -- The signal was placed by the last move or by one before it.
        rcases List.eq_nil_or_concat since with rfl | ⟨since, last, rfl⟩
        · obtain ⟨rfl, hm⟩ := List.append_inj' hsplit rfl
          obtain rfl : m = .place := List.singleton_inj.mp hm
          exact .inl hsent
        · rw [List.concat_eq_append, ← List.cons_append, ← List.append_assoc] at hsplit
          obtain ⟨rfl, hm⟩ := List.append_inj' hsplit rfl
          obtain rfl : m = last := List.singleton_inj.mp hm
          simp only [List.concat_eq_append, List.mem_append, List.mem_singleton,
            not_or] at htake hdrop
          exact .inr ⟨⟨before, since, rfl, hsent, htake.1, hdrop.1⟩, Ne.symm htake.2,
            Ne.symm hdrop.2⟩

theorem sending_after (c : Channel) (moves : List Move) :
    (c.after moves).sending = false ↔ c.sending = false ∨ .close ∈ moves := by
  induction moves generalizing c with
  | nil => simp [after]
  | cons m rest ih =>
      have hafter : c.after (m :: rest) = (c.move m).after rest := rfl
      rw [hafter, ih, sending_move, List.mem_cons, or_assoc, eq_comm (a := m)]

theorem not_places_of_closed (hs : c.sending = false) (m : Move) : places (c, m) = false := by
  apply Bool.eq_false_iff.mpr
  intro h
  obtain rfl := eq_place_of_places h
  exact absurd (isSome_send?_iff.mp h).1 (Bool.eq_false_iff.mp hs)

/-- What the takes among moves find. -/
def receipts : List (Channel × Move) → List Receipt
  | [] => []
  | (c, .take) :: rest => c.receipt :: receipts rest
  | _ :: rest => receipts rest

theorem receipts_take (c : Channel) (rest : List Move) :
    receipts (c.course (.take :: rest)) = c.receipt :: receipts (c.take.course rest) := rfl

theorem receipts_of_ne (c : Channel) (hm : m ≠ .take) (rest : List Move) :
    receipts (c.course (m :: rest)) = receipts ((c.move m).course rest) := by
  cases m with
  | take => exact absurd rfl hm
  | _ => rfl

/-- What takes from a closed channel find: first the signal in its slot, if there is one, and then
only that it is closed. -/
def lastReceipts (c : Channel) : Nat → List Receipt
  | 0 => []
  | n + 1 => (if c.pending then .signal else .closed) :: List.replicate n .closed

theorem lastReceipts_of_empty (hp : c.pending = false) (n : Nat) :
    c.lastReceipts n = List.replicate n .closed := by
  cases n with
  | zero => rfl
  | succ n => rw [lastReceipts, hp, List.replicate_succ]; rfl

theorem lastReceipts_close (c : Channel) (n : Nat) : c.close.lastReceipts n = c.lastReceipts n := by
  cases n <;> rfl

theorem receipt_of_closed (hs : c.sending = false) (hl : c.listening = true) :
    c.receipt = if c.pending then .signal else .closed := by
  simp [receipt, hs, hl]

theorem receipts_of_closed (hs : c.sending = false) (hl : c.listening = true) {moves : List Move}
    (hdrop : .drop ∉ moves) : receipts (c.course moves) = c.lastReceipts (moves.count .take) := by
  induction moves generalizing c with
  | nil => rfl
  | cons m rest ih =>
      have hm : m ≠ .drop := fun h => hdrop (h ▸ List.mem_cons_self)
      have hsent : (c.move m).sending = false := (sending_move c m).mpr (.inl hs)
      have hheard : (c.move m).listening = true := by
        apply (Bool.not_eq_false _).mp
        intro h
        rcases (listening_move c m).mp h with h | h
        · exact Bool.false_ne_true (h.symm.trans hl)
        · exact hm h
      have hrest := ih hsent hheard fun h => hdrop (List.mem_cons_of_mem _ h)
      by_cases htake : m = .take
      · subst htake
        rw [receipts_take, List.count_cons_self, lastReceipts, ← receipt_of_closed hs hl]
        exact congrArg (c.receipt :: ·) (hrest.trans (lastReceipts_of_empty rfl _))
      · have hkept : (c.move m).pending = c.pending := by
          rw [Bool.eq_iff_iff, pending_move, not_places_of_closed hs]
          simp [htake, hm]
        have hsame : (c.move m).lastReceipts = c.lastReceipts := by
          funext n
          cases n with
          | zero => rfl
          | succ n => rw [lastReceipts, lastReceipts, hkept]
        rw [receipts_of_ne c htake, hrest, List.count_cons_of_ne htake, hsame]

end JobScheduler.Channel
