import Mathlib.Data.List.Basic

/-!
# Devices that log writes

The interface of a device that appends writes to a log. A write may ask to be synced, a process that
ends leaves the log to the next one, and the power may fail. `LogDevice.Lawful` is what a client
relies on: a synced write survives together with all writes before it, and a power failure takes the
newest writes only. When the other writes become durable is not said, and opening the log again need
not make them so.

`pending` are the writes that a power failure may take. Only a write adds to them, and a synced one
leaves none (`Lawful.pending_write`, `Lawful.pending_sync`). A file with a part that has reached the
disk is a device with these laws (`LogDevice.file_lawful`).
-/

/-- A log of writes of type `W`, with states of type `D`. -/
structure LogDevice (W D : Type*) where
  /-- The log without any writes. -/
  empty : D
  /-- The writes in the log, oldest first. -/
  writes : D → List W
  /-- The number of the first writes that no power failure takes. -/
  durable : D → ℕ
  /-- A write, with whether it is to be synced and whether the device reports success. -/
  write : (sync ok : Bool) → W → D → D
  /-- A process ends, and the next one opens the log. -/
  reopen : D → D
  /-- What the device may do by itself. -/
  Idles : D → D → Prop
  /-- What a power failure may leave to the process that opens the log after it. -/
  PowerFails : D → D → Prop

namespace LogDevice

variable {W D : Type*}

/-- The writes that a power failure may take. -/
def pending (L : LogDevice W D) (d : D) : List W := (L.writes d).drop (L.durable d)

/-- What the interface of a log promises. -/
structure Lawful (L : LogDevice W D) : Prop where
  /-- A new log has no write. -/
  writes_empty : L.writes L.empty = []
  /-- A write that succeeds is appended to the log. -/
  writes_write : ∀ sync w d, L.writes (L.write sync true w d) = L.writes d ++ [w]
  /-- A write that is reported as failed has changed nothing. -/
  write_failed : ∀ sync w d, L.write sync false w d = d
  /-- A write leaves durable what was. -/
  durable_write : ∀ sync w d, L.durable d ≤ L.durable (L.write sync true w d)
  /-- A synced write is durable, and so are all before it. -/
  durable_sync : ∀ w d, (L.writes d).length + 1 ≤ L.durable (L.write true true w d)
  /-- The next process finds all writes. -/
  writes_reopen : ∀ d, L.writes (L.reopen d) = L.writes d
  durable_reopen : ∀ d, L.durable d ≤ L.durable (L.reopen d)
  /-- By itself the device changes nothing but which writes are durable. -/
  writes_idle : ∀ d e, L.Idles d e → L.writes e = L.writes d
  durable_idle : ∀ d e, L.Idles d e → L.durable d ≤ L.durable e
  /-- A power failure takes the newest writes only, and none that is durable. -/
  writes_powerFails : ∀ d e, L.PowerFails d e → L.writes e <+: L.writes d
  length_powerFails : ∀ d e, L.PowerFails d e → L.durable d ≤ (L.writes e).length
  durable_powerFails : ∀ d e, L.PowerFails d e → L.durable d ≤ L.durable e

namespace Lawful

variable {L : LogDevice W D} {d e : D}

theorem pending_empty (h : L.Lawful) : L.pending L.empty = [] := by
  rw [pending, h.writes_empty, List.drop_nil]

theorem pending_write (h : L.Lawful) (sync : Bool) (w : W) (d : D) :
    (L.pending (L.write sync true w d)).Sublist (L.pending d ++ [w]) := by
  unfold pending
  rw [h.writes_write]
  refine (List.drop_sublist_drop_left _ (h.durable_write sync w d)).trans ?_
  rw [List.drop_append]
  exact (List.Sublist.refl _).append (List.drop_sublist _ _)

theorem pending_sync (h : L.Lawful) (w : W) (d : D) : L.pending (L.write true true w d) = [] := by
  refine List.drop_eq_nil_of_le ?_
  rw [h.writes_write, List.length_append, List.length_singleton]
  exact h.durable_sync w d

theorem pending_reopen (h : L.Lawful) (d : D) : (L.pending (L.reopen d)).Sublist (L.pending d) := by
  unfold pending
  rw [h.writes_reopen]
  exact List.drop_sublist_drop_left _ (h.durable_reopen d)

theorem pending_idle (h : L.Lawful) (hidle : L.Idles d e) :
    (L.pending e).Sublist (L.pending d) := by
  unfold pending
  rw [h.writes_idle d e hidle]
  exact List.drop_sublist_drop_left _ (h.durable_idle d e hidle)

/-- A power failure takes pending writes, and leaves only such ones pending. -/
theorem exists_lost (h : L.Lawful) (hfail : L.PowerFails d e) :
    ∃ lost, L.writes d = L.writes e ++ lost ∧ lost.Sublist (L.pending d) ∧
      (L.pending e).Sublist (L.pending d) := by
  obtain ⟨lost, hlost⟩ := h.writes_powerFails d e hfail
  have hpending : L.pending d = (L.writes e).drop (L.durable d) ++ lost := by
    rw [pending, ← hlost, List.drop_append, Nat.sub_eq_zero_of_le (h.length_powerFails d e hfail),
      List.drop_zero]
  refine ⟨lost, hlost.symm, hpending ▸ List.sublist_append_right _ _, ?_⟩
  rw [hpending]
  exact (List.drop_sublist_drop_left _ (h.durable_powerFails d e hfail)).trans
    (List.sublist_append_left _ _)

end Lawful

/-- A file of which a part has reached the disk, and the rest has not. -/
def file (W : Type*) : LogDevice W (List W × List W) where
  empty := ([], [])
  writes d := d.1 ++ d.2
  durable d := d.1.length
  write sync ok w d :=
    if ok then if sync then (d.1 ++ d.2 ++ [w], []) else (d.1, d.2 ++ [w]) else d
  reopen d := d
  Idles d e := ∃ n, e = (d.1 ++ d.2.take n, d.2.drop n)
  PowerFails d e := ∃ n, e = (d.1 ++ d.2.take n, [])

/-- Such a file has the laws. -/
theorem file_lawful (W : Type*) : (file W).Lawful where
  writes_empty := rfl
  writes_write sync w d := by cases sync <;> simp [file]
  write_failed _ _ _ := rfl
  durable_write sync w d := by cases sync <;> simp [file]
  durable_sync w d := by simp [file, Nat.add_assoc]
  writes_reopen _ := rfl
  durable_reopen _ := Nat.le_refl _
  writes_idle := by
    rintro d _ ⟨n, rfl⟩
    simp [file]
  durable_idle := by
    rintro d _ ⟨n, rfl⟩
    simp [file]
  writes_powerFails := by
    rintro d _ ⟨n, rfl⟩
    refine ⟨d.2.drop n, ?_⟩
    simp [file]
  length_powerFails := by
    rintro d _ ⟨n, rfl⟩
    simp [file]
  durable_powerFails := by
    rintro d _ ⟨n, rfl⟩
    simp [file]

end LogDevice
