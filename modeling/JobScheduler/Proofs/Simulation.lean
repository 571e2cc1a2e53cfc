import Mathlib.Data.List.Forall2
import JobScheduler.Proofs.Performance

/-!
Two schedulers side by side, move for move. Where two scripts differ in nothing but their calls, and
related calls and equal turns lead from related states to related states, every performance of the
one script is matched by a performance of the other (`Performance.matched`).
-/

namespace JobScheduler

theorem forall₂_getElem? {α β : Type} {R : α → β → Prop} {xs : List α} {ys : List β}
    (h : List.Forall₂ R xs ys) (k : Nat) :
    xs[k]? = none ∧ ys[k]? = none ∨ ∃ x y, xs[k]? = some x ∧ ys[k]? = some y ∧ R x y := by
  induction h generalizing k with
  | nil => exact .inl ⟨rfl, rfl⟩
  | cons hxy _ ih =>
      cases k with
      | zero => exact .inr ⟨_, _, rfl, rfl, hxy⟩
      | succ k =>
          rw [List.getElem?_cons_succ, List.getElem?_cons_succ]
          exact ih k

theorem forall₂_modify {α : Type} {R : α → α → Prop} {f f' : α → α} {xs ys : List α}
    (h : List.Forall₂ R xs ys) (i : Nat) (hf : ∀ {x y}, R x y → R (f x) (f' y)) :
    List.Forall₂ R (xs.modify i f) (ys.modify i f') := by
  induction h generalizing i with
  | nil => simp
  | cons hxy hrest ih =>
      cases i with
      | zero =>
          rw [List.modify_zero_cons, List.modify_zero_cons]
          exact .cons (hf hxy) hrest
      | succ i =>
          rw [List.modify_succ_cons, List.modify_succ_cons]
          exact .cons hxy (ih i)

theorem Option.rel_refl {α : Type} {R : α → α → Prop} (h : ∀ x, R x x) (x : Option α) :
    Option.Rel R x x := by
  cases x with
  | none => exact .none
  | some x => exact .some (h x)

section

variable (C : Call → Call → Prop)

/-- Whether two moves are the same, except for calls that `C` relates. -/
inductive Move.Rel : Move → Move → Prop where
  | call {c c' : Call} : C c c' → Move.Rel (.call c) (.call c')
  | turn (i : JobId) : Move.Rel (.turn i) (.turn i)
  | pass (ms : Nat) : Move.Rel (.pass ms) (.pass ms)
  | shutdown : Move.Rel .shutdown .shutdown

/-- Whether two steps of scripts are the same, except for calls that `C` relates. -/
inductive Step.Rel : Step → Step → Prop where
  | call {c c' : Call} : C c c' → Step.Rel (.call c) (.call c')
  | settle : Step.Rel .settle .settle
  | advance (ms : Nat) : Step.Rel (.advance ms) (.advance ms)
  | stall (ms : Nat) : Step.Rel (.stall ms) (.stall ms)
  | shutdown : Step.Rel .shutdown .shutdown

end

section

variable {C : Call → Call → Prop}

theorem Move.Rel.flip {m m' : Move} (h : Move.Rel C m m') : Move.Rel (fun c' c => C c c') m' m := by
  cases h with
  | call hc => exact .call hc
  | turn i => exact .turn i
  | pass ms => exact .pass ms
  | shutdown => exact .shutdown

theorem Step.Rel.flip {step step' : Step} (h : Step.Rel C step step') :
    Step.Rel (fun c' c => C c c') step' step := by
  cases h with
  | call hc => exact .call hc
  | settle => exact .settle
  | advance ms => exact .advance ms
  | stall ms => exact .stall ms
  | shutdown => exact .shutdown

theorem Move.Rel.refl (hC : ∀ c, C c c) (m : Move) : Move.Rel C m m := by
  cases m with
  | call c => exact .call (hC c)
  | turn i => exact .turn i
  | pass ms => exact .pass ms
  | shutdown => exact .shutdown

theorem Step.Rel.refl (hC : ∀ c, C c c) (step : Step) : Step.Rel C step step := by
  cases step with
  | call c => exact .call (hC c)
  | settle => exact .settle
  | advance ms => exact .advance ms
  | stall ms => exact .stall ms
  | shutdown => exact .shutdown

theorem Move.Rel.eq {m m' : Move} (h : Move.Rel (· = ·) m m') : m = m' := by
  rcases h with rfl | _ | _ | _ <;> rfl

theorem Step.Rel.eq {step step' : Step} (h : Step.Rel (· = ·) step step') : step = step' := by
  rcases h with rfl | _ | _ | _ | _ <;> rfl

end

/-- A relation of schedulers that related moves keep, where one of them can be made if and only if
the other can. -/
structure Bisimulation where
  state : Scheduler → Scheduler → Prop
  call : Call → Call → Prop
  now : ∀ {s t}, state s t → t.now = s.now
  move : ∀ {s t m m'}, state s t → Move.Rel call m m' →
    Option.Rel state (s.move? m) (t.move? m')
  due : ∀ {s t}, state s t → ∀ stop u, t.Due stop u ↔ s.Due stop u

namespace Bisimulation

variable (B : Bisimulation)

/-- Whether two scripts are as far, with related states and related steps to come. -/
structure Stage (p p' : Progress) : Prop where
  state : B.state p.scheduler p'.scheduler
  stop : p'.until? = p.until?
  rest : List.Forall₂ (Step.Rel B.call) p.rest p'.rest

/-- Whether two entries of runs are related moves, made from related states. -/
structure Matches (e e' : Scheduler × Move) : Prop where
  state : B.state e.1 e'.1
  move : Move.Rel B.call e.2 e'.2

/-- The same, seen from the other side. -/
def flip : Bisimulation where
  state t s := B.state s t
  call c' c := B.call c c'
  now h := (B.now h).symm
  move h hm := by
    have hflip : ∀ {x y : Option Scheduler}, Option.Rel B.state x y →
        Option.Rel (fun t s => B.state s t) y x := by
      rintro _ _ (hst | _)
      · exact .some hst
      · exact .none
    exact hflip (B.move h hm.flip)
  due h stop u := (B.due h stop u).symm

variable {B} {s s' t : Scheduler}

theorem Stage.flip {p p' : Progress} (h : B.Stage p p') : B.flip.Stage p' p where
  state := h.state
  stop := h.stop.symm
  rest := h.rest.flip.imp fun _ _ => Step.Rel.flip

theorem Matches.of_flip {e e' : Scheduler × Move} (h : B.flip.Matches e' e) : B.Matches e e' where
  state := h.state
  move := h.move.flip

theorem moved (h : B.state s t) {m m' : Move} (hm : Move.Rel B.call m m')
    (hs : s.move? m = some s') : ∃ t', t.move? m' = some t' ∧ B.state s' t' := by
  have hmove := B.move h hm
  rw [hs] at hmove
  cases ht : t.move? m' with
  | none =>
      rw [ht] at hmove
      exact absurd hmove nofun
  | some t' =>
      rw [ht] at hmove
      cases hmove with
      | some hst => exact ⟨t', rfl, hst⟩

theorem settled (h : B.state s t) (hs : s.Settled) : t.Settled := by
  intro i
  have hmove := B.move h (.turn i)
  rw [show s.move? (.turn i) = none from hs i] at hmove
  cases ht : t.step? i with
  | none => rfl
  | some t' =>
      rw [show t.move? (.turn i) = some t' from ht] at hmove
      exact absurd hmove nofun

theorem nextDeadline? (h : B.state s t) (stop : Int) :
    t.nextDeadline? stop = s.nextDeadline? stop := by
  cases hnext : s.nextDeadline? stop with
  | none =>
      rw [Scheduler.nextDeadline?_eq_none_iff] at hnext ⊢
      simpa only [B.due h] using hnext
  | some u =>
      rw [Scheduler.nextDeadline?_eq_some_iff] at hnext ⊢
      simpa only [B.due h] using hnext

end Bisimulation

variable {B : Bisimulation} {past : List (Scheduler × Move)}

theorem Run.matched {a b s : Scheduler} (hself : ∀ c, B.call c c) (hab : B.state a b)
    (run : Run a past s) :
    ∃ past' t, Run b past' t ∧ B.state s t ∧ List.Forall₂ B.Matches past past' := by
  induction run with
  | start => exact ⟨[], b, .start, hab, .nil⟩
  | next m _ hm ih =>
      obtain ⟨past', t, run', hst, hpast⟩ := ih
      have hsame : Move.Rel B.call m m := Move.Rel.refl hself m
      obtain ⟨t', hm', hst'⟩ := Bisimulation.moved hst hsame hm
      exact ⟨_, t', run'.next m hm', hst', .cons ⟨hst, hsame⟩ hpast⟩

variable {first first' p : Progress}

/-- What can be performed from a stage can be performed from a related stage. -/
theorem Performance.matched (hfirst : B.Stage first first') (h : Performance first past p) :
    ∃ past' p', Performance first' past' p' ∧ B.Stage p p' ∧ List.Forall₂ B.Matches past past' := by
  induction h with
  | start => exact ⟨[], first', .start, hfirst, .nil⟩
  | call _ ih =>
      obtain ⟨past', ⟨t, _, _⟩, h', ⟨hst, rfl, hrest⟩, hpast⟩ := ih
      rcases hrest with _ | ⟨⟨hc⟩, hrest⟩
      obtain ⟨t', ht', hst'⟩ := Bisimulation.moved hst (.call hc) rfl
      cases ht'
      exact ⟨_, _, h'.call, ⟨hst', rfl, hrest⟩, .cons ⟨hst, .call hc⟩ hpast⟩
  | stall _ ih =>
      obtain ⟨past', ⟨t, _, _⟩, h', ⟨hst, rfl, hrest⟩, hpast⟩ := ih
      rcases hrest with _ | ⟨⟨⟩, hrest⟩
      obtain ⟨t', ht', hst'⟩ := Bisimulation.moved hst (.pass _) rfl
      cases ht'
      exact ⟨_, _, h'.stall, ⟨hst', rfl, hrest⟩, .cons ⟨hst, .pass _⟩ hpast⟩
  | shutdown _ ih =>
      obtain ⟨past', ⟨t, _, _⟩, h', ⟨hst, rfl, hrest⟩, hpast⟩ := ih
      rcases hrest with _ | ⟨⟨⟩, hrest⟩
      obtain ⟨t', ht', hst'⟩ := Bisimulation.moved hst .shutdown rfl
      cases ht'
      exact ⟨_, _, h'.shutdown, ⟨hst', rfl, hrest⟩, .cons ⟨hst, .shutdown⟩ hpast⟩
  | settle _ ih =>
      obtain ⟨past', ⟨t, _, _⟩, h', ⟨hst, rfl, hrest⟩, hpast⟩ := ih
      rcases hrest with _ | ⟨⟨⟩, hrest⟩
      exact ⟨past', _, h'.settle, ⟨hst, congrArg some (B.now hst), hrest⟩, hpast⟩
  | @advance _ s ms _ _ ih =>
      obtain ⟨past', ⟨t, _, _⟩, h', ⟨hst, rfl, hrest⟩, hpast⟩ := ih
      rcases hrest with _ | ⟨⟨⟩, hrest⟩
      have hstop : some (waitUntil t.now ms) = some (waitUntil s.now ms) := by rw [B.now hst]
      exact ⟨past', _, h'.advance, ⟨hst, hstop, hrest⟩, hpast⟩
  | turn _ hstep ih =>
      obtain ⟨past', ⟨t, _, _⟩, h', ⟨hst, rfl, hrest⟩, hpast⟩ := ih
      obtain ⟨t', ht', hst'⟩ := Bisimulation.moved hst (.turn _) hstep
      exact ⟨_, _, h'.turn ht', ⟨hst', rfl, hrest⟩, .cons ⟨hst, .turn _⟩ hpast⟩
  | @wait _ s _ u _ _ hs hnext ih =>
      obtain ⟨past', ⟨t, _, _⟩, h', ⟨hst, rfl, hrest⟩, hpast⟩ := ih
      -- No runner can go on in either, and the next deadline is the same.
      obtain ⟨t', ht', hst'⟩ := Bisimulation.moved hst (.pass (u - s.now).toNat) rfl
      cases ht'
      rw [← Bisimulation.nextDeadline? hst] at hnext
      have hwait := h'.wait (Bisimulation.settled hst hs) hnext
      rw [B.now hst] at hwait
      exact ⟨_, _, hwait, ⟨hst', rfl, hrest⟩, .cons ⟨hst, .pass _⟩ hpast⟩
  | @finish _ s stop _ _ hs hnext ih =>
      obtain ⟨past', ⟨t, _, _⟩, h', ⟨hst, rfl, hrest⟩, hpast⟩ := ih
      obtain ⟨t', ht', hst'⟩ := Bisimulation.moved hst (.pass (stop - s.now).toNat) rfl
      cases ht'
      rw [← Bisimulation.nextDeadline? hst] at hnext
      have hfinish := h'.finish (Bisimulation.settled hst hs) hnext
      rw [B.now hst] at hfinish
      exact ⟨_, _, hfinish, ⟨hst', rfl, hrest⟩, .cons ⟨hst, .pass _⟩ hpast⟩

theorem Performance.matched_back {past' : List (Scheduler × Move)} {p' : Progress}
    (hfirst : B.Stage first first') (h' : Performance first' past' p') :
    ∃ past p, Performance first past p ∧ B.Stage p p' ∧ List.Forall₂ B.Matches past past' := by
  obtain ⟨past, p, h, hstage, hpast⟩ := h'.matched hfirst.flip
  exact ⟨past, p, h, hstage.flip, hpast.flip.imp fun _ _ => Bisimulation.Matches.of_flip⟩

end JobScheduler
