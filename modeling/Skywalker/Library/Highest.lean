import Mathlib.Order.Lattice

/-!
# The highest entry

A running maximum over entries with a key: an entry replaces the one that is held when its key is
greater. The entries of a list come newest first. `highest_spec` says what is held in the end, and
where entries with equal keys are equal, this does not depend on the order of the entries or on how
often each one comes (`highest_congr`).
-/

namespace Highest

variable {K V : Type*} [LinearOrder K]

/-- The entry that is held after `e` comes, when `s` was held before. -/
def raise (s e : K × V) : K × V := if s.1 < e.1 then e else s

/-- The entry that is held after the entries of a list. -/
def highest (s : K × V) (l : List (K × V)) : K × V := l.foldr (fun e s => raise s e) s

variable {s e : K × V} {l l' : List (K × V)}

theorem highest_append : highest s (l ++ l') = highest (highest s l') l :=
  List.foldr_append

/-- No key is above the one that is held, which is that of an entry or the first one. -/
theorem highest_spec (s : K × V) (l : List (K × V)) :
    s.1 ≤ (highest s l).1 ∧ (∀ e ∈ l, e.1 ≤ (highest s l).1) ∧
      (highest s l = s ∨ highest s l ∈ l ∧ s.1 < (highest s l).1) := by
  induction l with
  | nil => exact ⟨le_refl _, fun e he => absurd he List.not_mem_nil, .inl rfl⟩
  | cons e l ih =>
    obtain ⟨hs, hl, hheld⟩ := ih
    have hcons : highest s (e :: l) = raise (highest s l) e := rfl
    rw [hcons]
    unfold raise
    split_ifs with hlt
    · -- The new entry is held.
      refine ⟨hs.trans hlt.le, fun f hf => ?_, .inr ⟨List.mem_cons_self, hs.trans_lt hlt⟩⟩
      obtain rfl | hf := List.mem_cons.mp hf
      · exact le_refl _
      · exact (hl f hf).trans hlt.le
    · refine ⟨hs, fun f hf => ?_, hheld.imp id fun h => ⟨List.mem_cons_of_mem e h.1, h.2⟩⟩
      obtain rfl | hf := List.mem_cons.mp hf
      · exact not_lt.mp hlt
      · exact hl f hf

theorem highest_of_le (h : ∀ e ∈ l, e.1 ≤ s.1) : highest s l = s := by
  obtain ⟨-, -, hheld | ⟨hmem, hlt⟩⟩ := highest_spec s l
  · exact hheld
  · exact absurd (h _ hmem) (not_le.mpr hlt)

theorem highest_of_max (he : e ∈ l) (hlt : s.1 < e.1) (hmax : ∀ f ∈ l, f.1 ≤ e.1)
    (heq : ∀ f ∈ l, f.1 = e.1 → f = e) : highest s l = e := by
  obtain ⟨-, hl, hheld | ⟨hmem, -⟩⟩ := highest_spec s l
  · have hle := hl e he
    rw [hheld] at hle
    exact absurd hle (not_le.mpr hlt)
  · exact heq _ hmem (le_antisymm (hmax _ hmem) (hl e he))

/-- Only the set of the entries matters, where those with equal keys are equal. -/
theorem highest_congr (hmem : ∀ e, e ∈ l ↔ e ∈ l') (heq : ∀ e ∈ l, ∀ f ∈ l, e.1 = f.1 → e = f) :
    highest s l = highest s l' := by
  obtain ⟨-, hl, hheld | ⟨hin, hlt⟩⟩ := highest_spec s l
  · rw [hheld] at hl ⊢
    exact (highest_of_le fun e he => hl e ((hmem e).mpr he)).symm
  · refine (highest_of_max ((hmem _).mp hin) hlt (fun f hf => hl f ((hmem f).mpr hf)) ?_).symm
    exact fun f hf hkey => heq f ((hmem f).mpr hf) _ hin hkey

end Highest
