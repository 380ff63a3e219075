import Mathlib.NumberTheory.LucasLehmer
import Mathlib.Logic.Function.Iterate

/-!
# Multiplicative congruential generators

A Lehmer generator multiplies its state by a constant, modulo a number that the constant is prime
to. The states are the residues other than zero, which the multiplication keeps: `Lehmer.State`
carries this, and `Lehmer.iterate_next` has the state after any number of steps. The modulus need
not be prime.

Modulo `2^w - 1` a number is congruent to the sum of its two parts at the bit `w`
(`modEq_mersenne`). `reduce` takes the remainder this way, with one subtraction instead of a
division, and `reduce_eq_mod` says for which numbers this is enough.
-/

/-- A generator: the modulus, and a multiplier that is prime to it. -/
structure Lehmer where
  modulus : ℕ
  multiplier : ℕ
  /-- The factor is a unit modulo the modulus, so that no two states become one. -/
  coprime : Nat.Coprime modulus multiplier

namespace Lehmer

/-! ## The sequence -/

/-- A state of the generator: a residue other than zero. -/
structure State (g : Lehmer) where
  value : ℕ
  /-- A state of zero would never change, and is excluded. -/
  pos : 0 < value
  lt : value < g.modulus

variable {g : Lehmer}

theorem State.not_dvd_mul (x : g.State) : ¬g.modulus ∣ x.value * g.multiplier := by
  intro hdvd
  exact Nat.not_dvd_of_pos_of_lt x.pos x.lt (g.coprime.dvd_of_dvd_mul_right hdvd)

/-- A step of the generator. -/
def next (x : g.State) : g.State where
  value := x.value * g.multiplier % g.modulus
  pos := Nat.pos_of_ne_zero fun hzero => x.not_dvd_mul (Nat.dvd_of_mod_eq_zero hzero)
  lt := Nat.mod_lt _ (x.pos.trans x.lt)

/-- The state after `k` steps is the product with the `k`-th power of the factor. -/
theorem iterate_next (k : ℕ) (x : g.State) :
    (next^[k] x).value = x.value * g.multiplier ^ k % g.modulus := by
  induction k with
  | zero =>
    rw [pow_zero, mul_one]
    exact (Nat.mod_eq_of_lt x.lt).symm
  | succ k ih =>
    calc (next^[k + 1] x).value
        = (next^[k] x).value * g.multiplier % g.modulus := by
          rw [Function.iterate_succ_apply']
          rfl
      _ = x.value * g.multiplier ^ k * g.multiplier % g.modulus := by
          rw [ih, Nat.mod_mul_mod]
      _ = x.value * g.multiplier ^ (k + 1) % g.modulus := by
          rw [pow_succ, mul_assoc]

/-! ## The remainder without a division -/

variable {w x : ℕ}

/-- The two parts of a number at the bit `w`, added. -/
def fold (w x : ℕ) : ℕ := x / 2 ^ w + x % 2 ^ w

/-- The sum of the parts, less the modulus once where it is above it. -/
def reduce (w x : ℕ) : ℕ :=
  if 2 ^ w - 1 < fold w x then fold w x - (2 ^ w - 1) else fold w x

/-- The sum of the parts is not above twice the modulus, if the high part is below it. -/
theorem fold_le (hx : x < (2 ^ w - 1) * 2 ^ w) : fold w x ≤ 2 * (2 ^ w - 1) := by
  have hhigh : x / 2 ^ w < 2 ^ w - 1 := Nat.div_lt_of_lt_mul (by rwa [mul_comm])
  have hlow : x % 2 ^ w < 2 ^ w := Nat.mod_lt _ (Nat.two_pow_pos w)
  unfold fold
  omega

theorem reduce_modEq (w x : ℕ) : reduce w x ≡ x [MOD 2 ^ w - 1] := by
  have hfold : fold w x ≡ x [MOD 2 ^ w - 1] := (modEq_mersenne w x).symm
  unfold reduce
  split_ifs with hlt
  · refine Nat.ModEq.trans ?_ hfold
    exact (Nat.modEq_iff_dvd' (Nat.sub_le _ _)).mpr (by rw [Nat.sub_sub_self hlt.le])
  · exact hfold

/-- `reduce` is the remainder of a number with a high part below the modulus, unless the modulus
divides it. For a multiple other than zero it is the modulus itself. -/
theorem reduce_eq_mod (hx : x < (2 ^ w - 1) * 2 ^ w) (hdvd : ¬2 ^ w - 1 ∣ x) :
    reduce w x = x % (2 ^ w - 1) := by
  have hle : reduce w x ≤ 2 ^ w - 1 := by
    have hfold := fold_le hx
    unfold reduce
    split_ifs with hlt
    · omega
    · exact Nat.le_of_not_lt hlt
  have hne : reduce w x ≠ 2 ^ w - 1 := by
    intro heq
    have hmod := reduce_modEq w x
    rw [heq] at hmod
    exact hdvd ((Nat.ModEq.dvd_iff hmod dvd_rfl).mp dvd_rfl)
  calc reduce w x
      = reduce w x % (2 ^ w - 1) := (Nat.mod_eq_of_lt (lt_of_le_of_ne hle hne)).symm
    _ = x % (2 ^ w - 1) := reduce_modEq w x

end Lehmer
