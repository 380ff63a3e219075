import Mathlib.Data.List.Sort

/-!
# Tables that are sorted by their keys

A table holds its entries in the order of a comparator, with at most one entry of keys that compare
equal. The comparator is given by a rank: two keys compare as their ranks do, so that keys with the
same rank are one key to the table.

A write is seen by the reads of its key only (`get_put`, `get_erase`), and the entries are what the
reads find (`get_of_mem`, `mem_of_get`).
-/

/-- A table of keys and values, in the order of the ranks of the keys. -/
structure SortedTable {κ ι : Type*} [LinearOrder ι] (υ : Type*) (rank : κ → ι) where
  /-- The entries in the order of their keys. -/
  entries : List (κ × υ)
  sorted : entries.Pairwise fun a b => rank a.1 < rank b.1

namespace SortedTable

variable {κ ι υ : Type*} [LinearOrder ι] {rank : κ → ι}

instance : EmptyCollection (SortedTable υ rank) where
  emptyCollection := ⟨[], .nil⟩

/-- The value of a key. -/
def get (t : SortedTable υ rank) (k : κ) : Option υ :=
  (t.entries.find? fun e => rank e.1 = rank k).map Prod.snd

/-- The entries before a key, the new entry and the entries after the key are sorted. -/
theorem sorted_put (t : SortedTable υ rank) (k : κ) (v : υ) :
    (t.entries.filter (fun e => rank e.1 < rank k) ++
      (k, v) :: t.entries.filter fun e => rank k < rank e.1).Pairwise
        fun a b => rank a.1 < rank b.1 := by
  refine List.pairwise_append.mpr ⟨t.sorted.filter _, ?_, ?_⟩
  · refine List.pairwise_cons.mpr ⟨fun e he => ?_, t.sorted.filter _⟩
    simpa using (List.mem_filter.mp he).2
  · intro a ha b hb
    have hak : rank a.1 < rank k := by simpa using (List.mem_filter.mp ha).2
    rcases List.mem_cons.mp hb with rfl | hb
    · exact hak
    · have hkb : rank k < rank b.1 := by simpa using (List.mem_filter.mp hb).2
      exact hak.trans hkb

/-- The table with an entry, in the place of one of the same key. -/
def put (t : SortedTable υ rank) (k : κ) (v : υ) : SortedTable υ rank :=
  ⟨_, t.sorted_put k v⟩

/-- The table without a key. -/
def erase (t : SortedTable υ rank) (k : κ) : SortedTable υ rank :=
  ⟨t.entries.filter fun e => rank e.1 ≠ rank k, t.sorted.filter _⟩

theorem find?_filter_of_imp {l : List (κ × υ)} {p q : κ × υ → Bool}
    (h : ∀ e, p e = true → q e = true) : (l.filter q).find? p = l.find? p := by
  rw [List.find?_filter]
  congr
  funext e
  cases hp : p e with
  | false => simp
  | true => simp [h e hp]

/-- **A read after a write** sees the write if it is of the same key. -/
theorem get_put (t : SortedTable υ rank) (k : κ) (v : υ) (j : κ) :
    (t.put k v).get j = if rank j = rank k then some v else t.get j := by
  unfold get put
  rw [List.find?_append, List.find?_cons]
  rcases lt_trichotomy (rank j) (rank k) with hlt | heq | hgt
  · -- The entry of `j` comes before.
    have hbefore := find?_filter_of_imp (l := t.entries) (p := fun e => rank e.1 = rank j)
      (q := fun e => rank e.1 < rank k) fun e he => by
        have heq : rank e.1 = rank j := by simpa using he
        simpa [heq] using hlt
    have hafter : (t.entries.filter fun e => rank k < rank e.1).find?
        (fun e => rank e.1 = rank j) = none := by
      refine List.find?_eq_none.mpr fun e he => ?_
      have hke : rank k < rank e.1 := by simpa using (List.mem_filter.mp he).2
      simpa using (hlt.trans hke).ne'
    rw [hbefore, hafter, if_neg hlt.ne]
    simp [hlt.ne']
  · have hbefore : (t.entries.filter fun e => rank e.1 < rank k).find?
        (fun e => rank e.1 = rank j) = none := by
      refine List.find?_eq_none.mpr fun e he => ?_
      have hek : rank e.1 < rank k := by simpa using (List.mem_filter.mp he).2
      simpa [heq] using hek.ne
    rw [hbefore, if_pos heq]
    simp [heq]
  · -- The entry of `j` comes after.
    have hafter := find?_filter_of_imp (l := t.entries) (p := fun e => rank e.1 = rank j)
      (q := fun e => rank k < rank e.1) fun e he => by
        have heq : rank e.1 = rank j := by simpa using he
        simpa [heq] using hgt
    have hbefore : (t.entries.filter fun e => rank e.1 < rank k).find?
        (fun e => rank e.1 = rank j) = none := by
      refine List.find?_eq_none.mpr fun e he => ?_
      have hek : rank e.1 < rank k := by simpa using (List.mem_filter.mp he).2
      simpa using (hek.trans hgt).ne
    rw [hbefore, hafter, if_neg hgt.ne']
    simp [hgt.ne]

/-- **A read after a deletion** finds nothing if it is of the same key. -/
theorem get_erase (t : SortedTable υ rank) (k j : κ) :
    (t.erase k).get j = if rank j = rank k then none else t.get j := by
  unfold get erase
  split
  case isTrue heq =>
    have hnone : (t.entries.filter fun e => rank e.1 ≠ rank k).find?
        (fun e => rank e.1 = rank j) = none := by
      refine List.find?_eq_none.mpr fun e he => ?_
      simpa [heq] using (List.mem_filter.mp he).2
    rw [hnone]
    rfl
  case isFalse hne =>
    rw [find?_filter_of_imp fun e he => ?_]
    have heq : rank e.1 = rank j := by simpa using he
    simpa [heq] using hne

/-- An entry of the table is what its key is read as. -/
theorem get_of_mem (t : SortedTable υ rank) {e : κ × υ} (h : e ∈ t.entries) :
    t.get e.1 = some e.2 := by
  obtain ⟨entries, sorted⟩ := t
  unfold get
  dsimp only at h ⊢
  induction entries with
  | nil => cases h
  | cons a l ih =>
    rw [List.pairwise_cons] at sorted
    rcases List.mem_cons.mp h with rfl | hmem
    · rw [List.find?_cons_of_pos (by simp)]
      rfl
    · have hne := (sorted.1 e hmem).ne
      rw [List.find?_cons_of_neg (by simpa using hne)]
      exact ih sorted.2 hmem

theorem mem_of_get {t : SortedTable υ rank} {k : κ} {v : υ} (h : t.get k = some v) :
    ∃ e ∈ t.entries, rank e.1 = rank k ∧ e.2 = v := by
  obtain ⟨e, he, rfl⟩ := Option.map_eq_some_iff.mp h
  exact ⟨e, List.mem_of_find?_eq_some he, by simpa using List.find?_some he, rfl⟩

end SortedTable
