import Mathlib.Data.List.Sort

/-!
# Ordered sets, and taking them apart from the front

`OrderedSet` is a finite set as the list of its elements in increasing order. `drain` takes the
first element of a set that is part of a state, again and again, until the first element is not due.
Taking an element may change the state in any way, as long as it adds nothing that is due
(`drain_spec`).
-/

/-- A finite set, held as the list of its elements in increasing order. -/
structure OrderedSet (α : Type*) [LinearOrder α] where
  toList : List α
  sorted : toList.Pairwise (· < ·)

namespace OrderedSet

variable {α σ : Type*} [LinearOrder α]

instance : Membership α (OrderedSet α) where
  mem s a := a ∈ s.toList

instance (a : α) (s : OrderedSet α) : Decidable (a ∈ s) :=
  inferInstanceAs (Decidable (a ∈ s.toList))

instance : EmptyCollection (OrderedSet α) where
  emptyCollection := ⟨[], .nil⟩

theorem pairwise_orderedInsert {a : α} {l : List α} (hl : l.Pairwise (· < ·)) (ha : a ∉ l) :
    (l.orderedInsert (· ≤ ·) a).Pairwise (· < ·) := by
  have hle : (l.orderedInsert (· ≤ ·) a).Pairwise (· ≤ ·) :=
    (hl.imp le_of_lt).orderedInsert a l
  have hnodup : (l.orderedInsert (· ≤ ·) a).Nodup :=
    (l.perm_orderedInsert (· ≤ ·) a).nodup_iff.mpr (List.nodup_cons.mpr ⟨ha, hl.imp ne_of_lt⟩)
  exact (hle.and hnodup).imp fun h => lt_of_le_of_ne h.1 h.2

/-- The set with one more element. -/
def insert (a : α) (s : OrderedSet α) : OrderedSet α :=
  if h : a ∈ s.toList then s
  else ⟨s.toList.orderedInsert (· ≤ ·) a, pairwise_orderedInsert s.sorted h⟩

/-- The set without an element. -/
def erase (a : α) (s : OrderedSet α) : OrderedSet α :=
  ⟨s.toList.erase a, s.sorted.sublist List.erase_sublist⟩

/-- The least element, if there is one. -/
def first? (s : OrderedSet α) : Option α := s.toList.head?

theorem nodup (s : OrderedSet α) : s.toList.Nodup := s.sorted.imp ne_of_lt

variable {s : OrderedSet α}

@[simp]
theorem mem_toList {a : α} : a ∈ s.toList ↔ a ∈ s := Iff.rfl

@[simp]
theorem not_mem_empty (a : α) : a ∉ (∅ : OrderedSet α) := List.not_mem_nil

@[simp]
theorem mem_insert {a b : α} : b ∈ s.insert a ↔ b = a ∨ b ∈ s := by
  unfold insert
  split_ifs with h
  · refine ⟨.inr, ?_⟩
    rintro (rfl | hb)
    · exact h
    · exact hb
  · exact List.mem_orderedInsert (· ≤ ·)

@[simp]
theorem mem_erase {a b : α} : b ∈ s.erase a ↔ b ≠ a ∧ b ∈ s :=
  s.nodup.mem_erase_iff

theorem first?_eq_none : s.first? = none ↔ ∀ a, a ∉ s := by
  rw [first?, List.head?_eq_none_iff, List.eq_nil_iff_forall_not_mem]
  rfl

theorem mem_of_first? {a : α} (h : s.first? = some a) : a ∈ s :=
  List.mem_of_mem_head? h

theorem le_of_first? {a b : α} (h : s.first? = some a) (hb : b ∈ s) :
    a ≤ b := by
  obtain ⟨l, hl⟩ := List.head?_eq_some_iff.mp h
  have hsorted : (a :: l).Pairwise (· < ·) := hl ▸ s.sorted
  rw [← mem_toList, hl] at hb
  obtain rfl | hmem := List.mem_cons.mp hb
  · exact le_rfl
  · exact ((List.pairwise_cons.mp hsorted).1 b hmem).le

/-! ## Taking a set apart -/

/-- Takes the first element as long as it is due. `none` if that does not end in the given number of
passes. -/
def drain (pending : σ → OrderedSet α) (due : α → Bool) (take : σ → α → σ) : ℕ → σ → Option σ
  | 0, _ => none
  | n + 1, s =>
    match (pending s).first? with
    | none => some s
    | some a => if due a then drain pending due take n (take s a) else some s

/-- The number of elements that are due. -/
def dueCount (due : α → Bool) (s : OrderedSet α) : ℕ := (s.toList.filter due).length

/-- A set that has lost an element that is due, and gained none, has fewer of them. -/
theorem dueCount_lt {due : α → Bool} {t : OrderedSet α} {a : α} (ha : a ∈ s) (hdue : due a = true)
    (hsub : ∀ b ∈ t, due b = true → b ∈ s ∧ b ≠ a) :
    t.dueCount due < s.dueCount due := by
  have hnotin : a ∉ t.toList.filter due := fun h => by
    rw [List.mem_filter] at h
    exact (hsub a h.1 h.2).2 rfl
  have hsubset : a :: t.toList.filter due ⊆ s.toList.filter due := by
    intro b hb
    rw [List.mem_filter]
    obtain rfl | hb := List.mem_cons.mp hb
    · exact ⟨ha, hdue⟩
    · rw [List.mem_filter] at hb
      exact ⟨(hsub b hb.1 hb.2).1, hb.2⟩
  have hnodup : (a :: t.toList.filter due).Nodup :=
    List.nodup_cons.mpr ⟨hnotin, t.nodup.filter due⟩
  exact (List.subperm_of_subset hnodup hsubset).length_le

variable {pending : σ → OrderedSet α} {due : α → Bool} {take : σ → α → σ}

theorem not_due_of_first? (hdown : ∀ a b, a ≤ b → due b = true → due a = true) {a : α}
    (hfirst : s.first? = some a) (hdue : due a ≠ true) :
    ∀ b ∈ s, due b = false := by
  intro b hb
  by_contra hb'
  exact hdue (hdown a b (le_of_first? hfirst hb) (by simpa using hb'))

/-- The rule for `drain`: when taking a due element keeps a property and leaves only elements due
that were there, there is an end, with the property and nothing due. -/
theorem drain_spec {I : σ → Prop} (hdown : ∀ a b, a ≤ b → due b = true → due a = true)
    (hkeep : ∀ s a, I s → (pending s).first? = some a → due a = true → I (take s a))
    (hsub : ∀ s a, I s → (pending s).first? = some a → due a = true →
      ∀ b ∈ pending (take s a), due b = true → b ∈ pending s ∧ b ≠ a)
    {n : ℕ} {s : σ} (hs : I s) (hn : (pending s).dueCount due < n) :
    ∃ t, drain pending due take n s = some t ∧ I t ∧ ∀ b ∈ pending t, due b = false := by
  induction n generalizing s with
  | zero => exact absurd hn (Nat.not_lt_zero _)
  | succ n ih =>
    unfold drain
    cases hfirst : (pending s).first? with
    | none => exact ⟨s, rfl, hs, fun b hb => absurd hb (first?_eq_none.mp hfirst b)⟩
    | some a =>
      by_cases hdue : due a = true
      · simp only [hdue, if_true]
        refine ih (hkeep s a hs hfirst hdue) ?_
        exact lt_of_lt_of_le (dueCount_lt (mem_of_first? hfirst) hdue (hsub s a hs hfirst hdue))
          (Nat.le_of_lt_succ hn)
      · simp only [hdue]
        exact ⟨s, rfl, hs, not_due_of_first? hdown hfirst hdue⟩

/-- An end of `drain` has what taking due elements keeps, and nothing is due there. -/
theorem drain_invariant {I : σ → Prop} (hdown : ∀ a b, a ≤ b → due b = true → due a = true)
    (hkeep : ∀ s a, I s → (pending s).first? = some a → due a = true → I (take s a))
    {n : ℕ} {s t : σ} (hs : I s) (h : drain pending due take n s = some t) :
    I t ∧ ∀ b ∈ pending t, due b = false := by
  induction n generalizing s with
  | zero => cases h
  | succ n ih =>
    unfold drain at h
    cases hfirst : (pending s).first? with
    | none =>
      simp only [hfirst, Option.some.injEq] at h
      subst h
      exact ⟨hs, fun b hb => absurd hb (first?_eq_none.mp hfirst b)⟩
    | some a =>
      simp only [hfirst] at h
      split_ifs at h with hdue
      · exact ih (hkeep s a hs hfirst hdue) h
      · obtain rfl := Option.some.inj h
        exact ⟨hs, not_due_of_first? hdown hfirst hdue⟩

end OrderedSet
