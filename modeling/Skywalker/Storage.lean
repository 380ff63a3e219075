import Skywalker.Message
import Mathlib.Data.List.Basic

/-!
# The log store

`DB` of `storage/db.cc` keeps one record per instance in a LevelDB table ordered by instance id,
and the oldest instance of the log under a key of its own. LevelDB is not part of the repository;
it is modelled as the ordered map that its interface documents. The model keeps the writes in a
list, newest first, so that a later `Put` hides an earlier one.
-/

namespace Skywalker

/-- The table: the records that were put, newest first, and the value under `kMinChosenKey`. -/
structure DB where
  /-- Instance ids with their records. -/
  records : List (ℕ × PaxosInstance) := []
  /-- The instance that `SetMinChosenInstanceId` wrote last, if any. -/
  minChosen : Option ℕ := none
deriving DecidableEq, Repr

namespace DB

/-- A call of `DB::Put` that succeeds. -/
def put (db : DB) (instanceId : ℕ) (r : PaxosInstance) : DB :=
  { db with records := (instanceId, r) :: db.records }

/-- `DB::Get`: the record, or nothing when the key is not found. -/
def get (db : DB) (instanceId : ℕ) : Option PaxosInstance :=
  db.records.lookup instanceId

/-- The batch of `WriteBatch::Delete` for every id of a range. -/
def deleteRange (db : DB) (fromId toId : ℕ) : DB :=
  { db with records := db.records.filter fun e => e.1 < fromId || toId ≤ e.1 }

/-- `DB::GetMaxInstanceId`: the last key of the table besides `kMinChosenKey`. -/
def getMaxInstanceId (db : DB) : Option ℕ := (db.records.map Prod.fst).max?

theorem lookup_cons_of_ne {i k : ℕ} (r : PaxosInstance) (es : List (ℕ × PaxosInstance))
    (h : i ≠ k) : List.lookup i ((k, r) :: es) = List.lookup i es := by
  have hb : (i == k) = false := beq_eq_false_iff_ne.mpr h
  rw [List.lookup_cons, hb]

@[simp]
theorem get_put_self (db : DB) (i : ℕ) (r : PaxosInstance) : (db.put i r).get i = some r := by
  simp [put, get]

theorem get_put_of_ne (db : DB) {i j : ℕ} (r : PaxosInstance) (h : j ≠ i) :
    (db.put i r).get j = db.get j :=
  lookup_cons_of_ne r db.records h

/-- An instance has a record exactly when its id is a key of the table. -/
theorem get_isSome_iff (db : DB) (i : ℕ) : (db.get i).isSome ↔ i ∈ db.records.map Prod.fst := by
  unfold get
  induction db.records with
  | nil => simp
  | cons e es ih =>
    obtain ⟨k, r⟩ := e
    by_cases h : i = k
    · subst h; simp
    · rw [lookup_cons_of_ne r es h, ih]
      simp [h]

theorem getMaxInstanceId_eq_some {db : DB} {m : ℕ} (h : db.getMaxInstanceId = some m) :
    (∃ r, db.get m = some r) ∧ ∀ i r, db.get i = some r → i ≤ m := by
  unfold getMaxInstanceId at h
  rw [List.max?_eq_some_iff] at h
  refine ⟨Option.isSome_iff_exists.mp ((get_isSome_iff db m).mpr h.1), ?_⟩
  intro i r hi
  exact h.2 i ((get_isSome_iff db i).mp (by rw [hi]; rfl))

theorem getMaxInstanceId_eq_none {db : DB} (h : db.getMaxInstanceId = none) (i : ℕ) :
    db.get i = none := by
  unfold getMaxInstanceId at h
  rw [List.max?_eq_none_iff] at h
  by_contra hne
  have hmem := (get_isSome_iff db i).mp (Option.ne_none_iff_isSome.mp hne)
  rw [h] at hmem
  simp at hmem

/-- A deletion keeps a record outside its range and removes one inside. -/
theorem get_deleteRange (db : DB) (a b i : ℕ) :
    (db.deleteRange a b).get i = if i < a ∨ b ≤ i then db.get i else none := by
  unfold deleteRange get
  dsimp only
  induction db.records with
  | nil => simp
  | cons e es ih =>
    obtain ⟨k, r⟩ := e
    by_cases hk : k < a ∨ b ≤ k
    · have hkeep : (decide (k < a) || decide (b ≤ k)) = true := by simpa using hk
      rw [List.filter_cons_of_pos (by simpa using hkeep)]
      by_cases h : i = k
      · subst h; simp [hk]
      · rw [lookup_cons_of_ne r _ h, lookup_cons_of_ne r _ h, ih]
    · have hdrop : (decide (k < a) || decide (b ≤ k)) = false := by simpa using hk
      rw [List.filter_cons_of_neg (by simp [hdrop]), ih]
      by_cases h : i = k
      · subst h; simp [hk]
      · rw [lookup_cons_of_ne r _ h]

end DB

end Skywalker
