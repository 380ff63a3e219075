import Skywalker.Library.SortedTable

/-!
# Ordered key-value stores

The interface of a store that keeps its entries in the order of a comparator: single writes, batches
of writes, reads, and the entries from the first to the last. A call may be reported as failed.
`KeyValueStore.Lawful` is what a client relies on; nothing is said about how the store keeps its
entries. Sorted tables are a store that has these laws (`SortedTable.store_lawful`).
-/

/-- A write of a batch. -/
inductive BatchUpdate (κ υ : Type*) where
  /-- The key gets a value. -/
  | put (k : κ) (v : υ)
  /-- The key is removed, if it was there. -/
  | delete (k : κ)

/-- What a read of the key `j` finds after a write of a batch, with what it found before. -/
def BatchUpdate.effect {κ υ : Type*} (compare : κ → κ → ℤ) (j : κ) (found : Option υ) :
    BatchUpdate κ υ → Option υ
  | .put k v => if compare j k = 0 then some v else found
  | .delete k => if compare j k = 0 then none else found

/-- The calls of a store whose states are of type `T`. The flag of a write says whether the store
reports success. -/
structure KeyValueStore (κ υ T : Type*) where
  /-- The store without any keys. -/
  empty : T
  /-- A read of one key. -/
  get : T → κ → Option υ
  /-- A write of one key. -/
  put : Bool → κ → υ → T → T
  /-- The writes of a batch. -/
  write : Bool → List (BatchUpdate κ υ) → T → T
  /-- The entries, in the order in which an iterator passes them from the first one on. -/
  entries : T → List (κ × υ)

/-- What the interface of an ordered store promises. -/
structure KeyValueStore.Lawful {κ υ T : Type*} (S : KeyValueStore κ υ T) (compare : κ → κ → ℤ) :
    Prop where
  /-- A new store has no entry. -/
  get_empty : ∀ k, S.get S.empty k = none
  /-- A write is seen by the reads of its key only. -/
  get_put : ∀ t k v j, S.get (S.put true k v t) j = if compare j k = 0 then some v else S.get t j
  /-- The writes of a batch are made in their order. -/
  get_write : ∀ t batch j,
    S.get (S.write true batch t) j = batch.foldl (BatchUpdate.effect compare j) (S.get t j)
  /-- A write that is reported as failed has changed nothing. -/
  put_failed : ∀ t k v, S.put false k v t = t
  /-- A batch that is reported as failed has changed nothing. -/
  write_failed : ∀ t batch, S.write false batch t = t
  /-- The entries are in the order of the comparator. -/
  sorted : ∀ t, (S.entries t).Pairwise fun a b => compare a.1 b.1 < 0
  /-- The entries are what the reads find. -/
  get_eq_some_iff : ∀ t k v, S.get t k = some v ↔ ∃ e ∈ S.entries t, compare k e.1 = 0 ∧ e.2 = v

/-- The last element with a property comes after all others that have it. -/
theorem List.Pairwise.of_find?_reverse {α : Type*} {r : α → α → Prop} {l : List α}
    (h : l.Pairwise r) {p : α → Bool} {e : α} (hfind : l.reverse.find? p = some e) {a : α}
    (ha : a ∈ l) (hp : p a = true) : a = e ∨ r a e := by
  obtain ⟨before, after, hsplit, hbefore⟩ := (List.find?_eq_some_iff_append.mp hfind).2
  have hrev : l.reverse.Pairwise fun a b => r b a := List.pairwise_reverse.mpr h
  rw [hsplit, List.pairwise_append, List.pairwise_cons] at hrev
  have ha : a ∈ before ++ e :: after := hsplit ▸ List.mem_reverse.mpr ha
  rcases List.mem_append.mp ha with ha | ha
  · exact absurd hp (by simpa using hbefore a ha)
  · rcases List.mem_cons.mp ha with rfl | ha
    · exact .inl rfl
    · exact .inr (hrev.2.1.1 a ha)

namespace SortedTable

variable {κ ι υ : Type*} [LinearOrder ι] {rank : κ → ι}

/-- A write of a batch to a table. -/
def update (t : SortedTable υ rank) : BatchUpdate κ υ → SortedTable υ rank
  | .put k v => t.put k v
  | .delete k => t.erase k

/-- Sorted tables as a store. -/
def store (υ : Type*) (rank : κ → ι) : KeyValueStore κ υ (SortedTable υ rank) where
  empty := ∅
  get := get
  put ok k v t := if ok then t.put k v else t
  write ok batch t := if ok then batch.foldl update t else t
  entries := entries

/-- A read after a write of a batch. -/
theorem get_update {compare : κ → κ → ℤ} (hzero : ∀ a b, compare a b = 0 ↔ rank a = rank b)
    (t : SortedTable υ rank) (w : BatchUpdate κ υ) (j : κ) :
    (t.update w).get j = w.effect compare j (t.get j) := by
  cases w with
  | put k v => simp only [update, BatchUpdate.effect, get_put, hzero]
  | delete k => simp only [update, BatchUpdate.effect, get_erase, hzero]

/-- Sorted tables have the laws, for every comparator that orders keys by their ranks. -/
theorem store_lawful {compare : κ → κ → ℤ} (hzero : ∀ a b, compare a b = 0 ↔ rank a = rank b)
    (hneg : ∀ a b, compare a b < 0 ↔ rank a < rank b) : (store υ rank).Lawful compare where
  get_empty _ := rfl
  get_put t k v j := by
    simp only [store, if_true, get_put, hzero]
  get_write t batch j := by
    simp only [store, if_true]
    induction batch generalizing t with
    | nil => rfl
    | cons w batch ih => rw [List.foldl_cons, List.foldl_cons, ih, get_update hzero]
  put_failed _ _ _ := rfl
  write_failed _ _ := rfl
  sorted t := t.sorted.imp fun h => (hneg _ _).mpr h
  get_eq_some_iff t k v := by
    simp only [hzero]
    constructor
    · intro h
      obtain ⟨e, he, hrank, hvalue⟩ := mem_of_get h
      exact ⟨e, he, hrank.symm, hvalue⟩
    · rintro ⟨e, he, hrank, rfl⟩
      rw [← get_of_mem t he]
      simp only [store, get, hrank]

end SortedTable
