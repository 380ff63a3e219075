import Skywalker.Library.LogDevice
import Skywalker.Library.Run
import Skywalker.Storage
import Mathlib.Data.List.Basic
import Mathlib.Tactic.NormNum

/-!
# What a power failure loses

LevelDB is a parameter, of which the laws of a log are assumed (`LogDevice.Lawful`): a write with
`sync` survives a power failure together with all writes before it, and a power failure takes the
newest writes only. Nothing is assumed about when the other writes become durable, in particular not
that opening the table again makes them so.

Of the writes of a group, `SetMinChosenInstanceId` is synced, those of the learner and the batch of
`GCLoop` are not, and those of the acceptor are synced as `Acceptor::WriteToDB` counts: with
`log_sync` the one after each `sync_interval` others. The counter is one of the process. So a power
failure loses at most `sync_interval` writes of the acceptor of each process, and the oldest
instance of the log never (`power_failure_loses`).
-/

namespace Skywalker

open TransitionSystem

/-! ## Writes -/

/-- The writes of a group. -/
inductive LogWrite where
  /-- `Acceptor::WriteToDB` writes the record of an instance. -/
  | acceptor (r : PaxosInstance)
  /-- `Learner::WriteToDB` writes the record of a learned value. -/
  | learner (r : PaxosInstance)
  /-- `LogCleaner::GCLoop` deletes a range in one batch. -/
  | clean (fromId toId : ℕ)
  /-- `DB::SetMinChosenInstanceId` writes the oldest instance. -/
  | setMinChosen (id : ℕ)
deriving DecidableEq, Repr

/-- The store after a write. -/
def LogWrite.apply (db : DB) : LogWrite → DB
  | .acceptor r => db.put r.instanceId r
  | .learner r => db.put r.instanceId r
  | .clean fromId toId => db.deleteRange fromId toId
  | .setMinChosen id => { db with minChosen := some id }

/-- A write with the number of the process that made it. -/
structure IssuedWrite where
  process : ℕ
  write : LogWrite
deriving DecidableEq, Repr

/-- Whether a write is one of the acceptor in the process `p`. -/
def IssuedWrite.isAcceptorOf (p : ℕ) (w : IssuedWrite) : Bool :=
  match w.write with
  | .acceptor _ => w.process = p
  | _ => false

/-- The store that the writes leave, applied in their order. -/
def storeOf (writes : List IssuedWrite) : DB :=
  writes.foldl (fun db w => w.write.apply db) {}

/-- `options.sync` of `Acceptor::WriteToDB`, and `log_sync_count_` after it. -/
def Acceptor.syncOption (logSync : Bool) (syncInterval count : UInt32) : Bool × UInt32 :=
  if logSync then
    let count := count + 1
    if syncInterval < count then (true, 0) else (false, count)
  else (false, count)

/-! ## The log of a group -/

/-- The table of a group, with the counter of the acceptor that writes to it. -/
structure GroupLog (D : Type*) where
  /-- The log of LevelDB below the table. -/
  device : D
  process : ℕ := 0
  /-- `log_sync_count_`: the acceptor's writes since the last synced one. -/
  logSyncCount : UInt32 := 0
deriving DecidableEq, Repr

/-- What happens to the table. -/
inductive LogEvent (D : Type*) where
  /-- `Acceptor::WriteToDB`, with the result of the write. -/
  | acceptorWrite (r : PaxosInstance) (ok : Bool)
  /-- `Learner::WriteToDB`, with its result. -/
  | learnerWrite (r : PaxosInstance) (ok : Bool)
  /-- The batch of `GCLoop`, with its result. -/
  | clean (fromId toId : ℕ) (ok : Bool)
  /-- `SetMinChosenInstanceId`, with its result. -/
  | setMinChosen (id : ℕ) (ok : Bool)
  /-- LevelDB does something by itself. -/
  | idle (d : D)
  /-- The process ends, and a new one opens the table. -/
  | restart
  /-- The power fails, and a new process opens what is left. -/
  | powerFailure (d : D)
deriving DecidableEq, Repr

namespace GroupLog

variable {D : Type*} (L : LogDevice IssuedWrite D)

/-- A write of the process. -/
def append (sync ok : Bool) (w : LogWrite) (f : GroupLog D) : GroupLog D :=
  { f with device := L.write sync ok ⟨f.process, w⟩ f.device }

/-- One event, with the options of the group. -/
def step (logSync : Bool) (syncInterval : UInt32) (f : GroupLog D) :
    LogEvent D → Option (GroupLog D)
  | .acceptorWrite r ok =>
    let o := Acceptor.syncOption logSync syncInterval f.logSyncCount
    some (append L o.1 ok (.acceptor r) { f with logSyncCount := o.2 })
  | .learnerWrite r ok => some (append L false ok (.learner r) f)
  | .clean fromId toId ok => some (append L false ok (.clean fromId toId) f)
  | .setMinChosen id ok => some (append L true ok (.setMinChosen id) f)
  | .idle d => some { f with device := d }
  | .restart => some { device := L.reopen f.device, process := f.process + 1 }
  | .powerFailure d => some { device := d, process := f.process + 1 }

/-- The events of the runs: LevelDB does what it may, and a write that the acceptor wants synced
does not fail. -/
def Possible (logSync : Bool) (syncInterval : UInt32) (f : GroupLog D) : LogEvent D → Prop
  | .acceptorWrite _ ok =>
    ok = true ∨ (Acceptor.syncOption logSync syncInterval f.logSyncCount).1 = false
  | .idle d => L.Idles f.device d
  | .powerFailure d => L.PowerFails f.device d
  | _ => True

/-! ## What is pending -/

/-- The counter bounds the pending writes of the acceptor of the process, those of the earlier
processes are at most `sync_interval` each, and the oldest instance of the log is not pending. -/
structure Bounded (syncInterval : UInt32) (f : GroupLog D) : Prop where
  count : f.logSyncCount ≤ syncInterval
  current : (L.pending f.device).countP (IssuedWrite.isAcceptorOf f.process) ≤
    f.logSyncCount.toNat
  earlier : ∀ p, p < f.process →
    (L.pending f.device).countP (IssuedWrite.isAcceptorOf p) ≤ syncInterval.toNat
  /-- No write is one of a process to come. -/
  issued : ∀ w ∈ L.pending f.device, w.process ≤ f.process
  minChosen : ∀ w ∈ L.pending f.device, ∀ id, w.write ≠ .setMinChosen id

variable {L} {syncInterval : UInt32} {f g : GroupLog D}

/-- The counter grows by one, or a sync is asked for. -/
theorem syncOption_cases (hmax : syncInterval.toNat < 2 ^ 32 - 1) {count : UInt32}
    (hcount : count ≤ syncInterval) :
    (Acceptor.syncOption true syncInterval count = (true, 0)) ∨
      (Acceptor.syncOption true syncInterval count = (false, count + 1) ∧
        (count + 1).toNat = count.toNat + 1 ∧ count + 1 ≤ syncInterval) := by
  have hle : count.toNat ≤ syncInterval.toNat := UInt32.le_iff_toNat_le.mp hcount
  -- The counter does not wrap around.
  have hnext : (count + 1).toNat = count.toNat + 1 := by
    have hone : (1 : UInt32).toNat = 1 := rfl
    rw [UInt32.toNat_add, hone]
    exact Nat.mod_eq_of_lt (by omega)
  unfold Acceptor.syncOption
  rw [if_pos rfl]
  dsimp only
  split
  case isTrue => exact .inl rfl
  case isFalse h => exact .inr ⟨rfl, hnext, UInt32.not_lt.mp h⟩

/-- A table with nothing pending is bounded, whatever the counter is within its limit. -/
theorem Bounded.of_pending_nil (hcount : f.logSyncCount ≤ syncInterval)
    (hnil : L.pending f.device = []) : Bounded L syncInterval f where
  count := hcount
  current := by rw [hnil]; exact Nat.zero_le _
  earlier _ _ := by rw [hnil]; exact Nat.zero_le _
  issued _ hw := by rw [hnil] at hw; cases hw
  minChosen _ hw := by rw [hnil] at hw; cases hw

theorem Bounded.of_sublist (h : Bounded L syncInterval f) {d : D}
    (hsub : (L.pending d).Sublist (L.pending f.device)) :
    Bounded L syncInterval { f with device := d } where
  count := h.count
  current := hsub.countP_le.trans h.current
  earlier p hp := hsub.countP_le.trans (h.earlier p hp)
  issued w hw := h.issued w (hsub.subset hw)
  minChosen w hw := h.minChosen w (hsub.subset hw)

/-- What is pending of one process is at most `sync_interval` writes of the acceptor. -/
theorem Bounded.countP_le (h : Bounded L syncInterval f) (p : ℕ) :
    (L.pending f.device).countP (IssuedWrite.isAcceptorOf p) ≤ syncInterval.toNat := by
  rcases Nat.lt_trichotomy p f.process with hp | rfl | hp
  · exact h.earlier p hp
  · exact h.current.trans (UInt32.le_iff_toNat_le.mp h.count)
  · have hnone : (L.pending f.device).countP (IssuedWrite.isAcceptorOf p) = 0 := by
      refine List.countP_eq_zero.mpr fun w hw hacceptor => ?_
      have hle := h.issued w hw
      unfold IssuedWrite.isAcceptorOf at hacceptor
      split at hacceptor
      case h_1 => exact absurd (of_decide_eq_true hacceptor) (by omega)
      case h_2 => cases hacceptor
    rw [hnone]
    exact Nat.zero_le _

/-- The next process starts to count anew. -/
theorem Bounded.next (h : Bounded L syncInterval f) {d : D}
    (hsub : (L.pending d).Sublist (L.pending f.device)) :
    Bounded L syncInterval { device := d, process := f.process + 1 } where
  count := UInt32.zero_le
  current := by
    refine Nat.le_of_eq (List.countP_eq_zero.mpr fun w hw hacceptor => ?_)
    have hle := h.issued w (hsub.subset hw)
    unfold IssuedWrite.isAcceptorOf at hacceptor
    split at hacceptor
    case h_1 => exact absurd (of_decide_eq_true hacceptor) (by dsimp only; omega)
    case h_2 => cases hacceptor
  earlier p _ := hsub.countP_le.trans (h.countP_le p)
  issued w hw := Nat.le_succ_of_le (h.issued w (hsub.subset hw))
  minChosen w hw := h.minChosen w (hsub.subset hw)

/-- A write that is not synced and not of the oldest instance, with the counter after it. One of the
acceptor is counted. -/
theorem Bounded.append (hL : L.Lawful) (h : Bounded L syncInterval f) {w : LogWrite}
    {count : UInt32} (hcount : count ≤ syncInterval)
    (hle : f.logSyncCount.toNat + (if IssuedWrite.isAcceptorOf f.process ⟨f.process, w⟩ then 1
      else 0) ≤ count.toNat)
    (hmin : ∀ id, w ≠ .setMinChosen id) :
    Bounded L syncInterval (append L false true w { f with logSyncCount := count }) := by
  have hsub := hL.pending_write false ⟨f.process, w⟩ f.device
  refine ⟨hcount, ?_, fun p hp => ?_, fun v hv => ?_, fun v hv => ?_⟩
  · refine hsub.countP_le.trans ?_
    rw [List.countP_append, List.countP_singleton]
    exact (Nat.add_le_add_right h.current _).trans hle
  · refine hsub.countP_le.trans ?_
    -- The new write is not one of an earlier process.
    have hother : IssuedWrite.isAcceptorOf p ⟨f.process, w⟩ = false := by
      cases w with
      | acceptor r => exact decide_eq_false (Nat.ne_of_gt hp)
      | _ => rfl
    rw [List.countP_append, List.countP_singleton, hother]
    exact h.earlier p hp
  · rcases List.mem_append.mp (hsub.subset hv) with hv | hv
    · exact h.issued v hv
    · rw [List.mem_singleton.mp hv]
      exact Nat.le_refl _
  · rcases List.mem_append.mp (hsub.subset hv) with hv | hv
    · exact h.minChosen v hv
    · rw [List.mem_singleton.mp hv]
      exact hmin

/-- A write of the learner or of the cleaner. -/
theorem Bounded.appendOther (hL : L.Lawful) (h : Bounded L syncInterval f) {w : LogWrite}
    (hw : ∀ r, w ≠ .acceptor r) (hmin : ∀ id, w ≠ .setMinChosen id) (ok : Bool) :
    Bounded L syncInterval (GroupLog.append L false ok w f) := by
  cases ok with
  | false => exact h.of_sublist (by rw [hL.write_failed])
  | true =>
    refine h.append hL h.count ?_ hmin
    cases w with
    | acceptor r => exact absurd rfl (hw r)
    | _ => exact Nat.le_refl _

/-- A write of the acceptor is synced, or the counter counts it. -/
theorem Bounded.acceptorWrite (hL : L.Lawful) (hmax : syncInterval.toNat < 2 ^ 32 - 1)
    (h : Bounded L syncInterval f) {r : PaxosInstance} {ok : Bool}
    (hok : Possible L true syncInterval f (.acceptorWrite r ok)) :
    Bounded L syncInterval
      (GroupLog.append L (Acceptor.syncOption true syncInterval f.logSyncCount).1 ok (.acceptor r)
        { f with logSyncCount := (Acceptor.syncOption true syncInterval f.logSyncCount).2 }) := by
  rcases syncOption_cases hmax h.count with hsync | ⟨hcount, hnext, hle⟩
  · rw [Possible, hsync] at hok
    obtain rfl : ok = true := hok.resolve_right Bool.noConfusion
    rw [hsync]
    exact .of_pending_nil UInt32.zero_le (hL.pending_sync _ _)
  · rw [hcount]
    cases ok with
    | false =>
      -- A failed write is counted as well.
      have hmore : Bounded L syncInterval { f with logSyncCount := f.logSyncCount + 1 } :=
        ⟨hle, h.current.trans (hnext ▸ Nat.le_succ _), h.earlier, h.issued, h.minChosen⟩
      exact hmore.of_sublist (by rw [hL.write_failed])
    | true =>
      refine h.append hL hle ?_ fun _ => LogWrite.noConfusion
      rw [hnext]
      exact Nat.add_le_add_left (by split <;> decide) _

/-- **One event** keeps the bounds. -/
theorem Bounded.step (hL : L.Lawful) (hmax : syncInterval.toNat < 2 ^ 32 - 1)
    (h : Bounded L syncInterval f) {e : LogEvent D} (hok : Possible L true syncInterval f e)
    (hstep : f.step L true syncInterval e = some g) : Bounded L syncInterval g := by
  cases e with
  | acceptorWrite r ok =>
    obtain rfl := Option.some.inj hstep
    exact h.acceptorWrite hL hmax hok
  | learnerWrite r ok | clean fromId toId ok =>
    obtain rfl := Option.some.inj hstep
    exact h.appendOther hL (fun _ => LogWrite.noConfusion) (fun _ => LogWrite.noConfusion) ok
  | setMinChosen id ok =>
    obtain rfl := Option.some.inj hstep
    cases ok with
    | false => exact h.of_sublist (by rw [hL.write_failed])
    | true => exact .of_pending_nil h.count (hL.pending_sync _ _)
  | idle d =>
    obtain rfl := Option.some.inj hstep
    exact h.of_sublist (hL.pending_idle hok)
  | restart =>
    obtain rfl := Option.some.inj hstep
    exact h.next (hL.pending_reopen _)
  | powerFailure d =>
    obtain rfl := Option.some.inj hstep
    obtain ⟨-, -, -, hsub⟩ := hL.exists_lost hok
    exact h.next hsub

/-- Writes other than `SetMinChosenInstanceId` leave the oldest instance. -/
theorem minChosen_foldl {lost : List IssuedWrite}
    (h : ∀ w ∈ lost, ∀ id, w.write ≠ .setMinChosen id) (db : DB) :
    (lost.foldl (fun db w => w.write.apply db) db).minChosen = db.minChosen := by
  induction lost generalizing db with
  | nil => rfl
  | cons w lost ih =>
    rw [List.foldl_cons, ih fun v hv => h v (List.mem_cons_of_mem _ hv)]
    obtain ⟨p, w⟩ := w
    cases w with
    | setMinChosen id => exact absurd rfl (h _ List.mem_cons_self id)
    | _ => rfl

/-- **What a power failure loses.** With `log_sync`, as long as no write fails that the acceptor
wants synced, a power failure at any time loses the newest writes only: at most `sync_interval` of
the acceptor of each process among them, and never the oldest instance of the log. -/
theorem power_failure_loses (hL : L.Lawful) (hmax : syncInterval.toNat < 2 ^ 32 - 1)
    (hrun : Reaches (GroupLog.step L true syncInterval) (Possible L true syncInterval)
      { device := L.empty } f) {d : D} (hfail : L.PowerFails f.device d) :
    ∃ lost, L.writes f.device = L.writes d ++ lost ∧
      (∀ p, lost.countP (IssuedWrite.isAcceptorOf p) ≤ syncInterval.toNat) ∧
      (∀ w ∈ lost, ∀ id, w.write ≠ .setMinChosen id) ∧
      (storeOf (L.writes d)).minChosen = (storeOf (L.writes f.device)).minChosen := by
  have hinv : Bounded L syncInterval f :=
    hrun.invariant (.of_pending_nil UInt32.zero_le hL.pending_empty)
      fun _ _ _ hs hok hstep => hs.step hL hmax hok hstep
  obtain ⟨lost, hsplit, hsub, -⟩ := hL.exists_lost hfail
  have hmin : ∀ w ∈ lost, ∀ id, w.write ≠ .setMinChosen id :=
    fun w hw => hinv.minChosen w (hsub.subset hw)
  refine ⟨lost, hsplit, fun p => hsub.countP_le.trans (hinv.countP_le p), hmin, ?_⟩
  rw [hsplit, storeOf, storeOf, List.foldl_append, minChosen_foldl hmin]

/-- With an interval of one the promises of two processes are pending, and a power failure loses
both. -/
theorem power_failure_loses_two :
    ∃ (f : GroupLog (List IssuedWrite × List IssuedWrite)) (d : List IssuedWrite × List IssuedWrite)
      (lost : List IssuedWrite), (LogDevice.file IssuedWrite).PowerFails f.device d ∧
      f.device.1 ++ f.device.2 = d.1 ++ d.2 ++ lost ∧
      (storeOf (d.1 ++ d.2)).minChosen = some 3 ∧ lost.length = 2 ∧
      ∀ p, lost.countP (IssuedWrite.isAcceptorOf p) ≤ 1 := by
  have hstart : (run (GroupLog.step (LogDevice.file IssuedWrite) true 1) { device := ([], []) }
      [.setMinChosen 3 true, .acceptorWrite { instanceId := 3 } true, .restart,
        .acceptorWrite { instanceId := 4 } true]).map GroupLog.device =
      some ([⟨0, .setMinChosen 3⟩],
        [⟨0, .acceptor { instanceId := 3 }⟩, ⟨1, .acceptor { instanceId := 4 }⟩]) := by
    decide +kernel
  obtain ⟨f, hrun, hf⟩ := Option.map_eq_some_iff.mp hstart
  have hreach : Reaches (GroupLog.step (LogDevice.file IssuedWrite) true 1)
      (Possible (LogDevice.file IssuedWrite) true 1) { device := ([], []) } f := by
    refine .of_run _ (fun e he s => ?_) hrun
    simp only [List.mem_cons, List.not_mem_nil, or_false] at he
    rcases he with rfl | rfl | rfl | rfl
    all_goals first | trivial | exact .inl rfl
  have hfail : (LogDevice.file IssuedWrite).PowerFails f.device ([⟨0, .setMinChosen 3⟩], []) :=
    ⟨0, by rw [hf]; rfl⟩
  obtain ⟨lost, hsplit, hcount, -, -⟩ :=
    power_failure_loses (LogDevice.file_lawful IssuedWrite) (by decide) hreach hfail
  refine ⟨f, _, lost, hfail, hsplit, rfl, ?_, hcount⟩
  have hlength := congrArg List.length hsplit
  rw [hf, List.length_append] at hlength
  exact (Nat.add_left_cancel (n := 1) hlength).symm

end GroupLog

end Skywalker
