import Skywalker.Library.KeyValueStore
import Skywalker.Library.Simulation
import Skywalker.Records
import Skywalker.Storage

/-!
# The log store as bytes

`DB` of `storage/db.cc` over a LevelDB table: keys are eight bytes, compared as the numbers that
they encode, and values are serialised records. The oldest instance of the log is in the same table,
under the largest key. LevelDB and protobuf are parameters. Of the one the laws of an ordered store
with the comparator of the code are assumed (`KeyValueStore.Lawful`), of the other that it reads a
record back (`RecordCodec.RoundTrips`).

`Stores` relates a table to the records of `Storage`. Every call keeps it and gives the same answer
on both (`store_refines`), as long as no instance has the id of the largest key.
-/

namespace Skywalker

open TransitionSystem

variable {id : ℕ} {r : PaxosInstance}

/-! ## Keys -/

/-- The number that a key encodes. -/
def keyNumber (key : List UInt8) : ℕ := (decodeFixed64 key).toNat

/-- `SComparator::Compare` on the numbers that two keys encode. -/
def sComparator (a b : List UInt8) : ℤ :=
  let key := decodeFixed64 a
  let key2 := decodeFixed64 b
  if key = key2 then 0 else if key2 < key then 1 else -1

/-- The comparator orders keys by their numbers. -/
theorem sComparator_spec (a b : List UInt8) :
    (sComparator a b = 0 ↔ keyNumber a = keyNumber b) ∧
      (sComparator a b < 0 ↔ keyNumber a < keyNumber b) := by
  have hnumber : decodeFixed64 a = decodeFixed64 b ↔ keyNumber a = keyNumber b :=
    UInt64.toNat_inj.symm
  have hless : decodeFixed64 b < decodeFixed64 a ↔ keyNumber b < keyNumber a := Iff.rfl
  unfold sComparator
  simp only [hnumber, hless]
  split_ifs with heq hlt
  · simp [heq]
  · simp [heq, hlt.le]
  · simp [heq, lt_of_le_of_ne (Nat.le_of_not_lt hlt) heq]

theorem keyNumber_putFixed64 (id : UInt64) : keyNumber (putFixed64 id) = id.toNat := by
  have h := decodeFixed64_putFixed64 id []
  rw [List.append_nil] at h
  rw [keyNumber, h]

/-! ## The table -/

/-- LevelDB on tables of type `T`. -/
abbrev LevelDB (T : Type*) := KeyValueStore (List UInt8) (List UInt8) T

/-- A write of a `WriteBatch`. -/
inductive BatchWrite where
  /-- A call of `WriteBatch::Put`. -/
  | put (instanceId : UInt64) (value : List UInt8)
  /-- A call of `WriteBatch::Delete`. -/
  | delete (instanceId : UInt64)
deriving DecidableEq, Repr

/-- What `WriteBatch` adds to the batch of LevelDB. -/
def BatchWrite.encode : BatchWrite → BatchUpdate (List UInt8) (List UInt8)
  | .put instanceId value => .put (putFixed64 instanceId) value
  | .delete instanceId => .delete (putFixed64 instanceId)

namespace TableDB

variable {T : Type*} (L : LevelDB T)

/-- The key `kMinChosenKey`, the largest number of 64 bits. -/
def kMinChosenKey : UInt64 := .ofNat (2 ^ 64 - 1)

/-- The result for the status of a write. -/
def writeCode (ok : Bool) : ℤ := if ok then 0 else -1

/-- `DB::Put`: the result and the table. -/
def put (ok : Bool) (instanceId : UInt64) (value : List UInt8) (t : T) : ℤ × T :=
  (writeCode ok, L.put ok (putFixed64 instanceId) value t)

/-- `DB::Write`: the result and the table. -/
def write (ok : Bool) (batch : List BatchWrite) (t : T) : ℤ × T :=
  (writeCode ok, L.write ok (batch.map BatchWrite.encode) t)

/-- `DB::Get`: the result, and the value if there is one. -/
def get (ok : Bool) (instanceId : UInt64) (t : T) : ℤ × Option (List UInt8) :=
  if ok then
    match L.get t (putFixed64 instanceId) with
    | some value => (0, some value)
    | none => (1, none)
  else (-1, none)

/-- The loop of `DB::GetMaxInstanceId` from the last entry on. -/
def scan : List (List UInt8 × List UInt8) → Option UInt64
  | [] => none
  | e :: l =>
    let id := decodeFixed64 e.1
    if id = kMinChosenKey then scan l else some id

/-- `DB::GetMaxInstanceId`, with an iterator that meets no error. -/
def getMaxInstanceId (t : T) : ℤ × Option UInt64 :=
  match scan (L.entries t).reverse with
  | some id => (0, some id)
  | none => (1, none)

/-- `DB::SetMinChosenInstanceId` writes the id under a key of its own. -/
def setMinChosenInstanceId (ok : Bool) (id : UInt64) (t : T) : ℤ × T :=
  put L ok kMinChosenKey (putFixed64 id) t

/-- `DB::GetMinChosenInstanceId` reads the id under that key. -/
def getMinChosenInstanceId (ok : Bool) (t : T) : ℤ × Option UInt64 :=
  let r := get L ok kMinChosenKey t
  (r.1, r.2.map decodeFixed64)

end TableDB

/-! ## Calls -/

/-- The calls that the components of a group make. -/
inductive StoreCall where
  /-- `WriteToDB` of the acceptor and of the learner. -/
  | writeToDB (r : PaxosInstance)
  /-- The batch of `LogCleaner::GCLoop`, which deletes the ids from one up to another. -/
  | clean (fromId toId : ℕ)
  /-- `LogManager::SetMinChosenInstanceId` with an id. -/
  | setMinChosen (id : ℕ)
  /-- `Get` and `ParseFromString` of a record. -/
  | read (id : ℕ)
  /-- `DB::GetMaxInstanceId` from the newest key on. -/
  | getMaxInstanceId
  /-- `DB::GetMinChosenInstanceId` of the oldest instance. -/
  | getMinChosen
deriving DecidableEq, Repr

/-- The results of the calls, with the data that they return. -/
inductive StoreAnswer where
  /-- The result of a write. -/
  | status (code : ℤ)
  /-- The result of a read, and the record. -/
  | record (code : ℤ) (r : Option PaxosInstance)
  /-- The result of a read, and the id. -/
  | id (code : ℤ) (id : Option ℕ)
deriving DecidableEq, Repr

/-- The writes of the batch of `GCLoop`. -/
def cleanBatch (fromId toId : ℕ) : List BatchWrite :=
  (List.range' fromId (toId - fromId)).map fun id => .delete (.ofNat id)

/-- A call on the table. The flag says whether LevelDB reports success. -/
def TableDB.call {T : Type*} (L : LevelDB T) (c : RecordCodec) (t : T) (a : Bool × StoreCall) :
    StoreAnswer × T :=
  match a.2 with
  | .writeToDB r =>
    let q := put L a.1 (.ofNat r.instanceId) (c.serialize r) t
    (.status q.1, q.2)
  | .clean fromId toId =>
    let q := write L a.1 (cleanBatch fromId toId) t
    (.status q.1, q.2)
  | .setMinChosen id =>
    let q := setMinChosenInstanceId L a.1 (.ofNat id) t
    (.status q.1, q.2)
  | .read id =>
    let q := get L a.1 (.ofNat id) t
    (.record q.1 (q.2.bind c.parse), t)
  | .getMaxInstanceId =>
    let q := getMaxInstanceId L t
    (.id q.1 (q.2.map UInt64.toNat), t)
  | .getMinChosen =>
    let q := getMinChosenInstanceId L a.1 t
    (.id q.1 (q.2.map UInt64.toNat), t)

/-- A result with what was found. -/
def foundCode {α : Type*} : Option α → ℤ
  | some _ => 0
  | none => 1

/-- The same call on the model with one record for each instance. -/
def DB.call (db : DB) (a : Bool × StoreCall) : StoreAnswer × DB :=
  match a.1, a.2 with
  | true, .writeToDB r => (.status 0, db.put r.instanceId r)
  | true, .clean fromId toId => (.status 0, db.deleteRange fromId toId)
  | true, .setMinChosen id => (.status 0, { db with minChosen := some id })
  | true, .read id => (.record (foundCode (db.get id)) (db.get id), db)
  | true, .getMinChosen => (.id (foundCode db.minChosen) db.minChosen, db)
  | _, .getMaxInstanceId => (.id (foundCode db.getMaxInstanceId) db.getMaxInstanceId, db)
  | false, .read _ => (.record (-1) none, db)
  | false, .getMinChosen => (.id (-1) none, db)
  | false, _ => (.status (-1), db)

/-- The record can be written and read back: its numbers fit into their types, it is below 2 GiB,
and its instance is not the number of the largest key. -/
def PaxosInstance.Storable (c : RecordCodec) (r : PaxosInstance) : Prop :=
  r.InRange ∧ (c.serialize r).length < 2 ^ 31 ∧ r.instanceId < 2 ^ 64 - 1

instance (c : RecordCodec) (r : PaxosInstance) : Decidable (r.Storable c) :=
  inferInstanceAs (Decidable (_ ∧ _))

/-- The calls of a group whose instances stay below the largest key. -/
def StoreCall.InRange (c : RecordCodec) : StoreCall → Prop
  | .writeToDB r => r.Storable c
  | .clean _ toId => toId < 2 ^ 64
  | .setMinChosen id => id < 2 ^ 64
  | .read id => id < 2 ^ 64 - 1
  | _ => True

instance (c : RecordCodec) (a : StoreCall) : Decidable (a.InRange c) :=
  match a with
  | .writeToDB r => inferInstanceAs (Decidable (r.Storable c))
  | .clean _ toId => inferInstanceAs (Decidable (toId < _))
  | .setMinChosen id => inferInstanceAs (Decidable (id < _))
  | .read id => inferInstanceAs (Decidable (id < _))
  | .getMaxInstanceId => inferInstanceAs (Decidable True)
  | .getMinChosen => inferInstanceAs (Decidable True)

/-! ## Refinement -/

/-- The table holds the records of the store, and the oldest instance beside them. -/
structure TableDB.Stores {T : Type*} (L : LevelDB T) (c : RecordCodec) (t : T) (db : DB) :
    Prop where
  record : ∀ id, id < 2 ^ 64 - 1 →
    L.get t (putFixed64 (.ofNat id)) = (db.get id).map c.serialize
  minChosen : L.get t (putFixed64 TableDB.kMinChosenKey) =
    db.minChosen.map fun id => putFixed64 (.ofNat id)
  /-- The records can be read back. -/
  storable : ∀ id r, db.get id = some r → r.Storable c ∧ r.instanceId = id
  minInRange : ∀ id, db.minChosen = some id → id < 2 ^ 64

namespace TableDB

variable {T : Type*} {L : LevelDB T} {c : RecordCodec} {t : T} {db : DB}

theorem keyNumber_key (h : id < 2 ^ 64) : keyNumber (putFixed64 (.ofNat id)) = id := by
  rw [keyNumber_putFixed64, UInt64.toNat_ofNat', Nat.mod_eq_of_lt h]

theorem keyNumber_kMinChosenKey : keyNumber (putFixed64 kMinChosenKey) = 2 ^ 64 - 1 :=
  keyNumber_key (by decide)

/-- A key compares equal to the one of an id just if it has the number of the id. -/
theorem sComparator_key (h : id < 2 ^ 64) (key : List UInt8) :
    sComparator key (putFixed64 (.ofNat id)) = 0 ↔ keyNumber key = id := by
  rw [(sComparator_spec _ _).1, keyNumber_key h]

/-- A read after a `Put` under an id. -/
theorem get_put_key (hL : L.Lawful sComparator) (h : id < 2 ^ 64) (value key : List UInt8) :
    L.get (L.put true (putFixed64 (.ofNat id)) value t) key =
      if keyNumber key = id then some value else L.get t key := by
  rw [hL.get_put]
  exact if_congr (sComparator_key h key) rfl rfl

/-- What a read finds after a batch of deletions. -/
theorem foldl_deletes {ids : List ℕ} (h : ∀ id ∈ ids, id < 2 ^ 64) (key : List UInt8)
    (found : Option (List UInt8)) :
    ((ids.map fun id => BatchWrite.delete (.ofNat id)).map BatchWrite.encode).foldl
      (BatchUpdate.effect sComparator key) found =
        if keyNumber key ∈ ids then none else found := by
  induction ids generalizing found with
  | nil => simp
  | cons id ids ih =>
    rw [List.map_cons, List.map_cons, List.foldl_cons,
      ih fun i hi => h i (List.mem_cons_of_mem _ hi)]
    simp only [BatchWrite.encode, BatchUpdate.effect, sComparator_key (h id List.mem_cons_self),
      List.mem_cons]
    split_ifs <;> simp_all

/-- A read after the batch of `GCLoop`. -/
theorem get_cleanBatch (hL : L.Lawful sComparator) {fromId toId : ℕ} (h : toId < 2 ^ 64)
    (key : List UInt8) :
    L.get (L.write true ((cleanBatch fromId toId).map BatchWrite.encode) t) key =
      if fromId ≤ keyNumber key ∧ keyNumber key < toId then none else L.get t key := by
  have hids : ∀ id ∈ List.range' fromId (toId - fromId), id < 2 ^ 64 := by
    intro id hid
    have := List.mem_range'_1.mp hid
    omega
  rw [hL.get_write, cleanBatch, foldl_deletes hids]
  refine if_congr ?_ rfl rfl
  rw [List.mem_range'_1]
  omega

/-- The loop finds the last entry that is not under `kMinChosenKey`. -/
theorem scan_eq (l : List (List UInt8 × List UInt8)) :
    scan l = (l.find? fun e => decodeFixed64 e.1 ≠ kMinChosenKey).map fun e =>
      decodeFixed64 e.1 := by
  induction l with
  | nil => rfl
  | cons e l ih =>
    rw [scan, List.find?_cons]
    by_cases h : decodeFixed64 e.1 = kMinChosenKey
    · simp [h, ih]
    · simp [h]

theorem Stores.empty (hL : L.Lawful sComparator) : Stores L c L.empty {} where
  record _ _ := hL.get_empty _
  minChosen := hL.get_empty _
  storable _ _ h := absurd h (Option.some_ne_none _).symm
  minInRange _ h := absurd h (Option.some_ne_none _).symm

/-- The entry of a key that is not the largest one is the record of its number. -/
theorem Stores.get_of_mem (hL : L.Lawful sComparator) (h : Stores L c t db)
    {e : List UInt8 × List UInt8} (he : e ∈ L.entries t) (hlt : keyNumber e.1 < 2 ^ 64 - 1) :
    ∃ r, db.get (keyNumber e.1) = some r := by
  have hget : L.get t (putFixed64 (.ofNat (keyNumber e.1))) = some e.2 := by
    refine (hL.get_eq_some_iff _ _ _).mpr ⟨e, he, ?_, rfl⟩
    rw [(sComparator_spec _ _).1, keyNumber_key (by omega)]
  rw [h.record _ hlt] at hget
  obtain ⟨r, hr, -⟩ := Option.map_eq_some_iff.mp hget
  exact ⟨r, hr⟩

theorem Stores.mem_of_get (hL : L.Lawful sComparator) (h : Stores L c t db)
    (hr : db.get id = some r) :
    ∃ e ∈ L.entries t, keyNumber e.1 = id ∧ id < 2 ^ 64 - 1 := by
  obtain ⟨⟨-, -, hlt⟩, rfl⟩ := h.storable id r hr
  have hget := h.record _ hlt
  rw [hr, Option.map_some] at hget
  obtain ⟨e, he, hkey, -⟩ := (hL.get_eq_some_iff _ _ _).mp hget
  rw [(sComparator_spec _ _).1, keyNumber_key (by omega)] at hkey
  exact ⟨e, he, hkey.symm, hlt⟩

/-- The entries of the records are those that the loop of `GetMaxInstanceId` does not pass over. -/
theorem decode_ne_iff (e : List UInt8 × List UInt8) :
    decodeFixed64 e.1 ≠ kMinChosenKey ↔ keyNumber e.1 < 2 ^ 64 - 1 := by
  have hlt : keyNumber e.1 < 2 ^ 64 := (decodeFixed64 e.1).toNat_lt
  have hmax : kMinChosenKey.toNat = 2 ^ 64 - 1 := by decide
  rw [Ne, ← UInt64.toNat_inj, hmax]
  change ¬keyNumber e.1 = _ ↔ _
  omega

/-- An id is found as the largest just if it has a record and no larger one has. -/
theorem Stores.getMaxInstanceId (hL : L.Lawful sComparator) (h : Stores L c t db) :
    (scan (L.entries t).reverse).map UInt64.toNat = db.getMaxInstanceId := by
  rw [scan_eq, Option.map_map]
  cases hlast : (L.entries t).reverse.find? fun e => decodeFixed64 e.1 ≠ kMinChosenKey with
  | none =>
    rw [Option.map_none]
    cases hmax : db.getMaxInstanceId with
    | none => rfl
    | some m =>
      obtain ⟨⟨r, hr⟩, -⟩ := DB.getMaxInstanceId_eq_some hmax
      obtain ⟨e, he, rfl, hlt⟩ := h.mem_of_get hL hr
      have hnot := List.find?_eq_none.mp hlast e (List.mem_reverse.mpr he)
      exact absurd ((decode_ne_iff e).mpr hlt) (by simpa using hnot)
  | some e =>
    have he : e ∈ L.entries t := List.mem_reverse.mp (List.mem_of_find?_eq_some hlast)
    have hlt := (decode_ne_iff e).mp (by simpa using List.find?_some hlast)
    obtain ⟨r, hr⟩ := h.get_of_mem hL he hlt
    cases hmax : db.getMaxInstanceId with
    | none => exact absurd (DB.getMaxInstanceId_eq_none hmax (keyNumber e.1)) (by simp [hr])
    | some m =>
      obtain ⟨⟨r', hr'⟩, hupper⟩ := DB.getMaxInstanceId_eq_some hmax
      obtain ⟨e', he', hm, hlt'⟩ := h.mem_of_get hL hr'
      have hp' := (decode_ne_iff e').mpr (hm ▸ hlt')
      have hge : keyNumber e'.1 ≤ keyNumber e.1 := by
        rcases (hL.sorted t).of_find?_reverse hlast he' (by simpa using hp') with rfl | hless
        · exact Nat.le_refl _
        · exact Nat.le_of_lt ((sComparator_spec _ _).2.mp hless)
      have hle := hupper (keyNumber e.1) r hr
      rw [Option.map_some]
      congr 1
      change keyNumber e.1 = m
      omega

/-- A record that is written is in the table and in the store. -/
theorem Stores.writeToDB (hL : L.Lawful sComparator) (h : Stores L c t db) (hr : r.Storable c) :
    Stores L c (L.put true (putFixed64 (.ofNat r.instanceId)) (c.serialize r) t)
      (db.put r.instanceId r) := by
  have hlt := hr.2.2
  refine ⟨fun id hid => ?_, ?_, fun id r' hget => ?_, h.minInRange⟩
  · rw [get_put_key hL (by omega), keyNumber_key (by omega)]
    split
    case isTrue heq => rw [heq, DB.get_put_self, Option.map_some]
    case isFalse hne => rw [DB.get_put_of_ne db r hne, h.record id hid]
  · rw [get_put_key hL (by omega), keyNumber_kMinChosenKey, if_neg (by omega)]
    exact h.minChosen
  · by_cases heq : id = r.instanceId
    · subst heq
      rw [DB.get_put_self] at hget
      obtain rfl := Option.some.inj hget
      exact ⟨hr, rfl⟩
    · rw [DB.get_put_of_ne db r heq] at hget
      exact h.storable id r' hget

/-- A range that is deleted in one batch is gone from the table and from the store. -/
theorem Stores.clean (hL : L.Lawful sComparator) (h : Stores L c t db) {fromId toId : ℕ}
    (hlt : toId < 2 ^ 64) :
    Stores L c (L.write true ((cleanBatch fromId toId).map BatchWrite.encode) t)
      (db.deleteRange fromId toId) := by
  refine ⟨fun id hid => ?_, ?_, fun id r hget => ?_, h.minInRange⟩
  · rw [get_cleanBatch hL hlt, keyNumber_key (by omega), DB.get_deleteRange, h.record id hid]
    split_ifs with hin hout hout
    · omega
    · rfl
    · rfl
    · omega
  · rw [get_cleanBatch hL hlt, keyNumber_kMinChosenKey, if_neg (by omega)]
    exact h.minChosen
  · rw [DB.get_deleteRange] at hget
    split_ifs at hget
    exact h.storable id r hget

/-- The oldest instance is written. -/
theorem Stores.setMinChosen (hL : L.Lawful sComparator) (h : Stores L c t db) (hlt : id < 2 ^ 64) :
    Stores L c (L.put true (putFixed64 kMinChosenKey) (putFixed64 (.ofNat id)) t)
      { db with minChosen := some id } where
  record i hi := by
    have hput := get_put_key (t := t) hL (show 2 ^ 64 - 1 < 2 ^ 64 by decide)
      (putFixed64 (.ofNat id)) (putFixed64 (.ofNat i))
    rw [keyNumber_key (by omega), if_neg (by omega)] at hput
    exact hput.trans (h.record i hi)
  minChosen := by
    have hput := get_put_key (t := t) hL (show 2 ^ 64 - 1 < 2 ^ 64 by decide)
      (putFixed64 (.ofNat id)) (putFixed64 kMinChosenKey)
    rw [keyNumber_kMinChosenKey, if_pos rfl] at hput
    exact hput
  storable := h.storable
  minInRange i hi := by
    obtain rfl := Option.some.inj hi
    exact hlt

theorem Stores.answers_read (hc : c.RoundTrips) (h : Stores L c t db) (hlt : id < 2 ^ 64 - 1) :
    (TableDB.call L c t (true, .read id)).1 = (db.call (true, .read id)).1 := by
  simp only [TableDB.call, DB.call, get, h.record id hlt, if_true]
  cases hget : db.get id with
  | none => rfl
  | some r =>
    obtain ⟨⟨hrange, hlength, -⟩, -⟩ := h.storable id r hget
    simp only [Option.map_some, foundCode, Option.bind_some, hc r hrange hlength]

theorem Stores.answers_getMaxInstanceId (hL : L.Lawful sComparator) (h : Stores L c t db)
    {ok : Bool} :
    (TableDB.call L c t (ok, .getMaxInstanceId)).1 = (db.call (ok, .getMaxInstanceId)).1 := by
  have hdb : (db.call (ok, .getMaxInstanceId)).1 =
      .id (foundCode db.getMaxInstanceId) db.getMaxInstanceId := by
    cases ok <;> rfl
  rw [hdb, ← h.getMaxInstanceId hL]
  simp only [TableDB.call, TableDB.getMaxInstanceId]
  cases scan (L.entries t).reverse <;> rfl

/-- The oldest instance is read. -/
theorem Stores.answers_getMinChosen (h : Stores L c t db) :
    (TableDB.call L c t (true, .getMinChosen)).1 = (db.call (true, .getMinChosen)).1 := by
  simp only [TableDB.call, DB.call, getMinChosenInstanceId, get, h.minChosen, if_true]
  cases hmin : db.minChosen with
  | none => rfl
  | some id =>
    have hread := decodeFixed64_putFixed64 (.ofNat id) []
    rw [List.append_nil] at hread
    simp only [Option.map_some, foundCode, hread, UInt64.toNat_ofNat',
      Nat.mod_eq_of_lt (h.minInRange id hmin)]

theorem call_failed (hL : L.Lawful sComparator) (t : T) (a : StoreCall) :
    (TableDB.call L c t (false, a)).2 = t := by
  cases a with
  | writeToDB r => exact hL.put_failed _ _ _
  | clean fromId toId => exact hL.write_failed _ _
  | setMinChosen id => exact hL.put_failed _ _ _
  | _ => rfl

/-- **One call** gives the same answer on the table and on the records that it stores, and the table
stores the records afterwards. -/
theorem Stores.call (hL : L.Lawful sComparator) (hc : c.RoundTrips) (h : Stores L c t db)
    {a : Bool × StoreCall} (ha : a.2.InRange c) :
    (TableDB.call L c t a).1 = (db.call a).1 ∧
      Stores L c (TableDB.call L c t a).2 (db.call a).2 := by
  obtain ⟨ok, a⟩ := a
  cases ok with
  | false =>
    rw [call_failed hL]
    cases a with
    | getMaxInstanceId => exact ⟨h.answers_getMaxInstanceId hL, h⟩
    | _ => exact ⟨rfl, h⟩
  | true =>
    cases a with
    | writeToDB r => exact ⟨rfl, h.writeToDB hL ha⟩
    | clean fromId toId => exact ⟨rfl, h.clean hL ha⟩
    | setMinChosen id => exact ⟨rfl, h.setMinChosen hL ha⟩
    | read id => exact ⟨h.answers_read hc ha, h⟩
    | getMaxInstanceId => exact ⟨h.answers_getMaxInstanceId hL, h⟩
    | getMinChosen => exact ⟨h.answers_getMinChosen, h⟩

end TableDB

/-- **The table refines the store.** Whatever calls the components of a group make, and whichever of
them fail, the table of bytes gives the answers of the records. -/
theorem store_refines {T : Type*} {L : LevelDB T} (hL : L.Lawful sComparator) {c : RecordCodec}
    (hc : c.RoundTrips) {calls : List (Bool × StoreCall)} (h : ∀ a ∈ calls, a.2.InRange c) :
    answers (TableDB.call L c) L.empty calls = answers DB.call {} calls :=
  answers_eq (fun _ _ _ hst ha => hst.call hL hc ha) (TableDB.Stores.empty hL) h

theorem sortedTable_lawful :
    (SortedTable.store (List UInt8) keyNumber).Lawful sComparator :=
  SortedTable.store_lawful (fun a b => (sComparator_spec a b).1) fun a b => (sComparator_spec a b).2

/-- Records of two instances, of which the first is cleaned, and a write that fails. -/
theorem store_refines_clean :
    answers (TableDB.call (SortedTable.store (List UInt8) keyNumber) protoRecords) ∅
      [(true, .writeToDB { instanceId := 256 }), (true, .writeToDB { instanceId := 3 }),
        (true, .setMinChosen 4), (true, .clean 3 4), (false, .writeToDB { instanceId := 300 }),
        (true, .getMaxInstanceId), (true, .read 3)] =
      [.status 0, .status 0, .status 0, .status 0, .status (-1), .id 0 (some 256),
        .record 1 none] := by
  refine (store_refines sortedTable_lawful protoRecords_roundTrips (by decide +kernel)).trans ?_
  decide +kernel

end Skywalker
