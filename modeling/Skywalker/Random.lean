import Skywalker.Library.Lehmer

/-!
# The random numbers

`Random` of `util/random.h`, from which the proposer and the learner take the delays of their
timers. `Next` multiplies by 16807 modulo `2^31 - 1`, in words of 64 and 32 bits: it adds the two
parts of the product at bit 31 and subtracts the modulus once, if need be.

The words are related to the states of `Lehmer` by `Holds`, and `Holds.next` is the step: no word
overflows, so that the sum is `Lehmer.fold`, and the product is no multiple of the modulus, so that
the sum is reduced. `Random.after_new` has what follows for any seed and any number of calls.
-/

namespace Skywalker

/-- The class `Random` with its only field. -/
structure Random where
  /-- `seed_`: the last number that was drawn. -/
  seed : UInt32
deriving DecidableEq, Repr

namespace Random

/-- The constant `M` of `Next`, the modulus. -/
def M : UInt32 := 2147483647

/-- The constant `A` of `Next`, the multiplier. -/
def A : UInt64 := 16807

/-- The constructor `Random(s)`, which avoids the two seeds that never change. -/
def new (s : UInt32) : Random :=
  let seed := s &&& 0x7fffffff
  if seed = 0 ∨ seed = 2147483647 then ⟨1⟩ else ⟨seed⟩

/-- The variable `product` of `Next`. -/
def product (r : Random) : UInt64 := r.seed.toUInt64 * A

/-- The sum that `Next` casts to 32 bits. -/
def sum (r : Random) : UInt64 := (r.product >>> 31) + (r.product &&& M.toUInt64)

/-- `Next`, with the number that it returns. -/
def next (r : Random) : UInt32 × Random :=
  let seed := r.sum.toUInt32
  let seed := if M < seed then seed - M else seed
  (seed, ⟨seed⟩)

/-- The generator after `k` calls of `Next`. -/
def after (k : ℕ) (r : Random) : Random := (fun r => r.next.2)^[k] r

/-! ## The words of a call -/

/-- In the next call of `Next` every word has the number that it has without a bound. -/
structure Exact (r : Random) : Prop where
  /-- The product is below `2^64`. -/
  product : r.product.toNat = r.seed.toNat * 16807
  /-- So is the sum of its parts. -/
  sum : r.sum.toNat = Lehmer.fold 31 (r.seed.toNat * 16807)
  /-- The cast to 32 bits loses nothing. -/
  cast : r.sum.toUInt32.toNat = r.sum.toNat
  /-- The subtraction does not borrow. -/
  sub : M < r.sum.toUInt32 → (r.sum.toUInt32 - M).toNat + (2 ^ 31 - 1) = r.sum.toNat

variable {r : Random}

theorem toNat_product (r : Random) : r.product.toNat = r.seed.toNat * 16807 := by
  have hseed : r.seed.toNat < 2 ^ 32 := r.seed.toNat_lt
  have hA : A.toNat = 16807 := rfl
  rw [product, UInt64.toNat_mul, UInt32.toNat_toUInt64, hA]
  exact Nat.mod_eq_of_lt (by omega)

/-- The shift and the mask are the two parts of the product. -/
theorem toNat_sum (r : Random) : r.sum.toNat = Lehmer.fold 31 (r.seed.toNat * 16807) := by
  have hshift : (r.product >>> 31).toNat = r.product.toNat / 2 ^ 31 := by
    rw [UInt64.toNat_shiftRight, Nat.shiftRight_eq_div_pow]
    rfl
  have hmask : (r.product &&& M.toUInt64).toNat = r.product.toNat % 2 ^ 31 := by
    rw [UInt64.toNat_and]
    exact Nat.and_two_pow_sub_one_eq_mod _ 31
  have hproduct : r.product.toNat < 2 ^ 64 := r.product.toNat_lt
  rw [sum, UInt64.toNat_add, hshift, hmask, Nat.mod_eq_of_lt (by omega), toNat_product]
  rfl

/-- No word of a call overflows, for a state that is not above the modulus. -/
theorem exact_of_le (h : r.seed.toNat ≤ 2 ^ 31 - 1) : r.Exact := by
  have hsum := toNat_sum r
  have hcast : r.sum.toUInt32.toNat = r.sum.toNat := by
    rw [UInt64.toNat_toUInt32, hsum, Lehmer.fold]
    exact Nat.mod_eq_of_lt (by omega)
  refine ⟨toNat_product r, hsum, hcast, fun hlt => ?_⟩
  have hM : M.toNat = 2 ^ 31 - 1 := rfl
  have hlt' := UInt32.lt_iff_toNat_lt.mp hlt
  rw [UInt32.toNat_sub_of_le _ _ (UInt32.le_of_lt hlt), hcast, hM]
  rw [hcast, hM] at hlt'
  exact Nat.sub_add_cancel hlt'.le

/-- `Next` returns the reduced product. -/
theorem Exact.toNat_next (h : r.Exact) :
    r.next.1.toNat = Lehmer.reduce 31 (r.seed.toNat * 16807) := by
  have hM : M.toNat = 2 ^ 31 - 1 := rfl
  have hiff : M < r.sum.toUInt32 ↔ 2 ^ 31 - 1 < Lehmer.fold 31 (r.seed.toNat * 16807) := by
    rw [UInt32.lt_iff_toNat_lt, hM, h.cast, h.sum]
  unfold next Lehmer.reduce
  by_cases hlt : M < r.sum.toUInt32
  · rw [if_pos (hiff.mp hlt), ← h.sum, ← h.sub hlt]
    simp only [if_pos hlt, Nat.add_sub_cancel]
  · rw [if_neg (mt hiff.mpr hlt), ← h.sum, ← h.cast]
    simp only [if_neg hlt]

/-! ## The sequence -/

/-- The generator that `Next` steps. -/
def minstd : Lehmer where
  modulus := 2 ^ 31 - 1
  multiplier := 16807
  coprime := by decide +kernel

/-- The word has a state of the generator. -/
def Holds (r : Random) (x : minstd.State) : Prop := r.seed.toNat = x.value

variable {x : minstd.State}

/-- A word that has a state is below the modulus, so that a call is exact. -/
theorem Holds.exact (h : r.Holds x) : r.Exact := by
  have hlt : x.value < 2 ^ 31 - 1 := x.lt
  exact exact_of_le (by rw [h]; exact hlt.le)

theorem Holds.next (h : r.Holds x) : r.next.2.Holds (Lehmer.next x) := by
  have hlt : x.value < 2 ^ 31 - 1 := x.lt
  calc r.next.2.seed.toNat
      = Lehmer.reduce 31 (x.value * 16807) := by rw [← h, ← h.exact.toNat_next]; rfl
    _ = x.value * 16807 % (2 ^ 31 - 1) := Lehmer.reduce_eq_mod (by omega) x.not_dvd_mul

theorem Holds.after (h : r.Holds x) (k : ℕ) : (r.after k).Holds (Lehmer.next^[k] x) := by
  induction k with
  | zero => exact h
  | succ k ih =>
    unfold Random.after
    rw [Function.iterate_succ_apply', Function.iterate_succ_apply']
    exact ih.next

/-- The seed without its sign bit, or one for the two numbers that are no states. -/
theorem toNat_new (s : UInt32) :
    (new s).seed.toNat =
      if s.toNat % 2 ^ 31 = 0 ∨ s.toNat % 2 ^ 31 = 2 ^ 31 - 1 then 1 else s.toNat % 2 ^ 31 := by
  have hmask : (s &&& 0x7fffffff).toNat = s.toNat % 2 ^ 31 := by
    rw [UInt32.toNat_and]
    exact Nat.and_two_pow_sub_one_eq_mod _ 31
  have hzero : s &&& 0x7fffffff = 0 ↔ s.toNat % 2 ^ 31 = 0 := by
    rw [← UInt32.toNat_inj, hmask]
    rfl
  have hM : s &&& 0x7fffffff = 2147483647 ↔ s.toNat % 2 ^ 31 = 2 ^ 31 - 1 := by
    rw [← UInt32.toNat_inj, hmask]
    rfl
  simp only [new, hzero, hM]
  split_ifs with h
  · rfl
  · exact hmask

theorem exists_holds_new (s : UInt32) : ∃ x : minstd.State, (new s).Holds x := by
  have hlt : s.toNat % 2 ^ 31 < 2 ^ 31 := Nat.mod_lt _ (by decide)
  have hrange : 0 < (new s).seed.toNat ∧ (new s).seed.toNat < 2 ^ 31 - 1 := by
    rw [toNat_new]
    split_ifs with h
    · decide
    · omega
  exact ⟨⟨_, hrange.1, hrange.2⟩, rfl⟩

/-- For every seed and every number of calls the state is the one of the Lehmer sequence from the
normalised seed. It is never zero nor the modulus, and no word of the next call overflows. -/
theorem after_new (s : UInt32) (k : ℕ) :
    (new s).seed.toNat =
      (if s.toNat % 2 ^ 31 = 0 ∨ s.toNat % 2 ^ 31 = 2 ^ 31 - 1 then 1 else s.toNat % 2 ^ 31) ∧
    ((new s).after k).seed.toNat = (new s).seed.toNat * 16807 ^ k % (2 ^ 31 - 1) ∧
    1 ≤ ((new s).after k).seed.toNat ∧ ((new s).after k).seed.toNat ≤ 2 ^ 31 - 2 ∧
    ((new s).after k).Exact := by
  obtain ⟨x, hx⟩ := exists_holds_new s
  have hk := hx.after k
  refine ⟨toNat_new s, ?_, ?_, ?_, hk.exact⟩
  · rw [hk, hx]
    exact Lehmer.iterate_next k x
  · rw [hk]
    exact (Lehmer.next^[k] x).pos
  · rw [hk]
    exact Nat.le_pred_of_lt (Lehmer.next^[k] x).lt

-- The first numbers from the seed 0, which is made 1.
example : (List.range 4).map (fun k => ((new 0).after k).seed) =
    [1, 16807, 282475249, 1622650073] := by
  decide +kernel

end Random

end Skywalker
