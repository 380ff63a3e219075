import Mathlib.Data.Nat.Basic
import Mathlib.Order.Basic

/-!
# Leases that a log grants

A log grants leases to holders, at some of its positions. Each has a time that it starts and a time
that it ends. The leases need not lie apart, since a holder may renew its lease before it ends, but
a lease that goes to another holder starts when the one before it has ended. `Orderly` asks this of
each lease and the next. It then holds of every two, so that at no time two holders have a lease.

Nothing here fixes who the holders are, what the time is or how the log is written.
-/

namespace Lease

/-- A lease of a holder from a time up to another one. -/
structure Grant (H T : Type*) [LE T] where
  holder : H
  start : T
  stop : T
  /-- It does not end before it starts. -/
  start_le_stop : start ≤ stop

variable {H T : Type*} [Preorder T] {a b c : Grant H T}

/-- The lease runs at the time. -/
def Grant.Covers (a : Grant H T) (t : T) : Prop := a.start ≤ t ∧ t < a.stop

/-- A later lease: it does not start or end earlier, and starts after the end where it goes to
another holder. -/
structure Grant.Precedes (a b : Grant H T) : Prop where
  start : a.start ≤ b.start
  stop : a.stop ≤ b.stop
  apart : a.holder ≠ b.holder → a.stop ≤ b.start

/-- A lease that renews one of the same holder comes after it. -/
theorem Grant.Precedes.of_renewed (hstart : a.start ≤ b.start) (hstop : a.stop ≤ b.stop)
    (hholder : a.holder = b.holder) : a.Precedes b :=
  ⟨hstart, hstop, fun hne => absurd hholder hne⟩

theorem Grant.Precedes.of_ended (h : a.stop ≤ b.start) : a.Precedes b where
  start := a.start_le_stop.trans h
  stop := h.trans b.start_le_stop
  apart _ := h

theorem Grant.Precedes.trans (hab : a.Precedes b) (hbc : b.Precedes c) : a.Precedes c := by
  refine ⟨hab.start.trans hbc.start, hab.stop.trans hbc.stop, fun hne => ?_⟩
  by_cases h : a.holder = b.holder
  · -- The holder changes after `b`, which ends no earlier than `a`.
    exact hab.stop.trans (hbc.apart (h ▸ hne))
  · exact (hab.apart h).trans hbc.start

/-- The leases of a log, which grants at most one at each position, each preceding the next. -/
structure Orderly (G : ℕ → Grant H T → Prop) : Prop where
  unique : ∀ i a b, G i a → G i b → a = b
  next : ∀ i k a b, G i a → G k b → i < k → (∀ j c, i < j → j < k → ¬ G j c) → a.Precedes b

namespace Orderly

variable {G : ℕ → Grant H T → Prop}

/-- Every lease precedes every later one. -/
theorem precedes (h : Orderly G) {i k : ℕ} (ha : G i a) (hb : G k b) (hik : i < k) :
    a.Precedes b := by
  -- Induction on the distance; a lease in between splits it.
  induction hd : k - i using Nat.strong_induction_on generalizing i k a b with
  | _ d ih =>
    by_cases hmid : ∃ j c, i < j ∧ j < k ∧ G j c
    · obtain ⟨j, c, hij, hjk, hc⟩ := hmid
      have hfirst : a.Precedes c := ih (j - i) (by omega) ha hc hij rfl
      have hsecond : c.Precedes b := ih (k - j) (by omega) hc hb hjk rfl
      exact hfirst.trans hsecond
    · refine h.next i k a b ha hb hik fun j c hij hjk hc => ?_
      exact hmid ⟨j, c, hij, hjk, hc⟩

/-- A lease runs until a later one of another holder starts, and no longer. -/
theorem not_covers_both (h : Orderly G) {i k : ℕ} (ha : G i a) (hb : G k b) (hik : i < k)
    (hne : a.holder ≠ b.holder) {t : T} (hat : a.Covers t) : ¬ b.Covers t := by
  intro hbt
  have hend : a.stop ≤ t := ((h.precedes ha hb hik).apart hne).trans hbt.1
  exact absurd hat.2 (not_lt_of_ge hend)

/-- **At no time two holders have a lease.** -/
theorem holder_eq (h : Orderly G) {i k : ℕ} (ha : G i a) (hb : G k b) {t : T} (hat : a.Covers t)
    (hbt : b.Covers t) : a.holder = b.holder := by
  by_contra hne
  rcases lt_trichotomy i k with hlt | rfl | hgt
  · exact h.not_covers_both ha hb hlt hne hat hbt
  · exact hne (congrArg Grant.holder (h.unique i a b ha hb))
  · exact h.not_covers_both hb ha hgt (Ne.symm hne) hbt hat

end Orderly

end Lease
