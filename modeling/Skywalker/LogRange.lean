import Skywalker.Checkpoints
import Skywalker.Serving

/-!
# The advertised range of the log

`SendNowInstanceId` tells a learner the smallest instance that a node can serve, `min_chosen_id_`,
and `ASyncSend` then reads one record after the other up to the node's own instance. A record of
each is there when nothing skips an instance without a record and nothing deletes one without
raising the minimum. Acceptor and learner write the record of an instance before it is executed. The
cleaner raises the minimum after it has deleted, in a write of its own: between the two writes the
records are there from the minimum on that the cleaner is about to set (`Node.lowest`).

A process may die at any point. `System.lifeStep` adds such crashes to the steps of the system: from
a given write on, nothing that an event does reaches the disk.
-/

namespace Skywalker

open TransitionSystem Relation

variable {c i m n : ℕ} {x y : Node} {dirs : List (ℕ × Machines)} {E : Env} {db : DB} {C : Setup}
  {s t : Sys} {ev : NodeEvent}

/-! ## The disk -/

/-- The log has a record of each instance from `low` up to `i`. There is no instance 0. -/
def DB.Covered (db : DB) (low i : ℕ) : Prop :=
  ∀ j, max 1 low ≤ j → j ≤ i → ∃ r, db.get j = some r

/-- From `low` on, the log has no gap below a record or below a checkpoint. -/
structure Unbroken (low : ℕ) (db : DB) (dirs : List (ℕ × Machines)) : Prop where
  keys : ∀ i r, db.get i = some r → r.instanceId = i
  records : ∀ i r, db.get i = some r → db.Covered low i
  dirs : ∀ d ∈ dirs, db.Covered low d.1

section

variable {db' : DB} {low low' : ℕ}

/-- What is covered stays covered from `low'` on when no record from there on is lost. -/
theorem DB.Covered.of_kept (h : db.Covered low i) (hlow : max 1 low ≤ max 1 low')
    (hkept : ∀ j r, max 1 low' ≤ j → db.get j = some r → ∃ r', db'.get j = some r') :
    db'.Covered low' i := by
  intro j hj hji
  obtain ⟨r, hr⟩ := h j (le_trans hlow hj) hji
  exact hkept j r hj hr

theorem DB.Covered.put (h : db.Covered low i) (k : ℕ) (r : PaxosInstance) :
    (db.put k r).Covered low i :=
  h.of_kept (le_refl _) fun _ _ _ hr => DB.exists_get_put r hr

namespace Unbroken

/-- A `Put` after the last covered instance. -/
theorem put (h : Unbroken low db dirs) {k : ℕ} {r : PaxosInstance} (hkey : r.instanceId = k)
    (hbelow : db.Covered low (k - 1)) : Unbroken low (db.put k r) dirs where
  keys i q hq := by
    rcases DB.get_put_cases hq with ⟨rfl, rfl⟩ | hold
    · exact hkey
    · exact h.keys i q hold
  records i q hq := by
    rcases DB.get_put_cases hq with ⟨rfl, rfl⟩ | hold
    · intro j hj hji
      by_cases heq : j = i
      · exact ⟨q, by rw [heq, DB.get_put_self]⟩
      · exact (hbelow.put i q) j hj (by omega)
    · exact (h.records i q hold).put k r
  dirs d hd := (h.dirs d hd).put k r

/-- A disk without gaps stays so above `low'` when only records below it are deleted. -/
theorem of_kept (h : Unbroken low db dirs) (hlow : max 1 low ≤ max 1 low')
    (hsub : ∀ j r, db'.get j = some r → db.get j = some r)
    (hkept : ∀ j r, max 1 low' ≤ j → db.get j = some r → ∃ r', db'.get j = some r') :
    Unbroken low' db' dirs where
  keys i r hr := h.keys i r (hsub i r hr)
  records i r hr := (h.records i r (hsub i r hr)).of_kept hlow hkept
  dirs d hd := (h.dirs d hd).of_kept hlow hkept

end Unbroken

end

/-! ## One node -/

/-- The minimum of the node, or the one that `GCLoop` is about to set. -/
def Node.lowest (x : Node) : ℕ := x.cleanedTo.getD x.minChosenId

/-- Whether `GCLoop` has deleted a record that the node still advertises. -/
def Node.cleaning (x : Node) : Bool := x.cleanedTo.any fun m => max 1 x.minChosenId < m

/-- Otherwise the two minima say the same of the records. -/
theorem Node.lowest_le_of_not_cleaning (h : x.cleaning = false) :
    max 1 x.lowest ≤ max 1 x.minChosenId := by
  unfold Node.cleaning at h
  unfold Node.lowest
  cases hto : x.cleanedTo with
  | none => exact le_refl _
  | some m =>
    rw [hto] at h
    simp only [Option.any_some, decide_eq_false_iff_not] at h
    simp only [Option.getD_some]
    omega

/-- The log of a node between two events. -/
structure Node.Ranged (x : Node) : Prop where
  unbroken : Unbroken x.lowest x.db x.checkpoints
  positive : 1 ≤ x.instanceId
  below : ∀ i r, x.db.get i = some r → i ≤ x.instanceId
  /-- Every instance that the node has left has a record, down to the minimum. -/
  complete : x.db.Covered x.lowest (x.instanceId - 1)
  /-- So has its own instance, once something is accepted or learned there. -/
  accepted : 0 < x.acceptor.acceptedBallot.proposalId → ∃ r, x.db.get x.instanceId = some r
  learned : x.learner.hasLearned = true → ∃ r, x.db.get x.instanceId = some r
  /-- The minimum in memory is the one on disk. -/
  minChosen : x.db.minChosen.getD 0 = x.minChosenId
  lowest : x.minChosenId ≤ x.lowest
  maxChosen : x.maxChosenId ≤ x.instanceId

/-- What a process leaves on the disk, when it does not end between the two writes of a `GCLoop`
that deletes an advertised record. -/
theorem Unbroken.settled (h : Unbroken x.lowest x.db x.checkpoints)
    (hmin : x.db.minChosen.getD 0 = x.minChosenId) (hquiet : x.cleaning = false) :
    Unbroken (x.db.minChosen.getD 0) x.db x.checkpoints := by
  rw [hmin]
  exact h.of_kept (Node.lowest_le_of_not_cleaning hquiet) (fun _ _ hr => hr)
    fun _ r _ hr => ⟨r, hr⟩

theorem LogCleaner.le_scan (keep maxChosenId checkpointId n m : ℕ) :
    m ≤ scan keep maxChosenId checkpointId n m := by
  induction n generalizing m with
  | zero => exact le_refl m
  | succ n ih =>
    unfold scan
    split_ifs
    · exact le_trans (Nat.le_succ m) (ih (m + 1))
    · exact le_refl m

section

variable {R : Rules} {net : PaxosMessage → Prop}

theorem Act.lowest_cases (h : Act R E net x y) :
    (R.clean ∧ y = LogCleaner.gcLoop E x) ∨
      (y.minChosenId = x.minChosenId ∧ y.cleanedTo = x.cleanedTo) := by
  cases h.outerChange with
  | same h => exact Or.inr ⟨h.minChosenId, h.cleanedTo⟩
  | gcLoop _ _ _ hrule => exact Or.inl ⟨hrule, rfl⟩
  | _ => exact Or.inr ⟨rfl, rfl⟩

/-- The minimum on disk is the one in memory after a part of `GCLoop`. -/
theorem LogCleaner.minChosen_gcLoop (E : Env) (hx : x.db.minChosen.getD 0 = x.minChosenId) :
    (gcLoop E x).db.minChosen.getD 0 = (gcLoop E x).minChosenId := by
  have hpart := gcLoop_part E x
  generalize gcLoop E x = y at hpart ⊢
  cases hpart with
  | idle | batch | unset => exact hx
  | set => rfl

/-- The two minima agree after every action. -/
theorem Act.minChosen_synced (h : Act R E net x y) (hw : x.WF)
    (hx : x.db.minChosen.getD 0 = x.minChosenId) : y.db.minChosen.getD 0 = y.minChosenId := by
  rcases h.lowest_cases with ⟨-, rfl⟩ | ⟨heq, -⟩
  · exact LogCleaner.minChosen_gcLoop E hx
  · rw [heq, ← hx]
    have hwrite : ∀ (ok : Bool) (r : PaxosInstance), (x.db.write ok r).minChosen = x.db.minChosen :=
      fun ok r => by cases ok <;> rfl
    cases h.storeChange hw with
    | same _ hdb => rw [hdb]
    | promised _ _ _ _ _ _ hdb | accepted _ _ _ _ _ _ hdb => rw [hdb, hwrite]
    | learned _ _ _ _ _ hdb => rw [hdb]
    | learnedValue _ _ _ _ _ _ hdb =>
      rw [hdb]
      rfl
    | executed _ _ _ _ hdb => rw [hdb]
    | cleaned _ hy => rw [hx, ← heq, hy, LogCleaner.minChosen_gcLoop E hx]

namespace Node.Ranged

/-- The directories may change to ones at or below the last executed instance. -/
theorem unbroken_of (h : x.Ranged) (hdirs : ∀ d ∈ dirs, d ∈ x.checkpoints ∨ d.1 = x.instanceId - 1)
    :
    Unbroken x.lowest x.db dirs where
  keys := h.unbroken.keys
  records := h.unbroken.records
  dirs d hd := by
    rcases hdirs d hd with hold | heq
    · exact h.unbroken.dirs d hold
    · rw [heq]
      exact h.complete

/-- The batch of `GCLoop` leaves the log without a gap from the new minimum on. -/
theorem batch (h : x.Ranged) (hidle : x.cleanedTo = none) (hle : x.minChosenId ≤ m)
    (hmax : m ≤ max x.minChosenId x.maxChosenId) :
    { x with db := x.db.deleteRange x.minChosenId m, cleanedTo := some m }.Ranged := by
  have hsub : ∀ j r, (x.db.deleteRange x.minChosenId m).get j = some r → x.db.get j = some r := by
    intro j r hr
    rw [DB.get_deleteRange] at hr
    split_ifs at hr
    exact hr
  have hkept : ∀ j r, max 1 m ≤ j → x.db.get j = some r →
      ∃ r', (x.db.deleteRange x.minChosenId m).get j = some r' := by
    intro j r hj hr
    exact ⟨r, by rw [DB.get_deleteRange, if_pos (by omega)]; exact hr⟩
  have hlow : max 1 x.lowest ≤ max 1 m := by
    rw [Node.lowest, hidle, Option.getD_none]
    omega
  -- The record of the node's own instance is not in the deleted range.
  have hown : (∃ r, x.db.get x.instanceId = some r) →
      ∃ r, (x.db.deleteRange x.minChosenId m).get x.instanceId = some r := by
    rintro ⟨r, hr⟩
    refine ⟨r, ?_⟩
    have hin := h.maxChosen
    rw [DB.get_deleteRange, if_pos (by omega)]
    exact hr
  exact ⟨h.unbroken.of_kept hlow hsub hkept, h.positive, fun i r hr => h.below i r (hsub i r hr),
    h.complete.of_kept hlow hkept, fun ha => hown (h.accepted ha), fun hl => hown (h.learned hl),
    h.minChosen, hle, h.maxChosen⟩

theorem set (h : x.Ranged) (hbatch : x.cleanedTo = some m) :
    { x with db := { x.db with minChosen := some m }, minChosenId := m, cleanedTo := none }.Ranged
    := by
  have hlow : x.lowest = m := by rw [Node.lowest, hbatch, Option.getD_some]
  have hunbroken := h.unbroken
  have hcomplete := h.complete
  rw [hlow] at hunbroken hcomplete
  exact ⟨⟨hunbroken.keys, hunbroken.records, hunbroken.dirs⟩, h.positive, h.below, hcomplete,
    h.accepted, h.learned, rfl, le_refl _, h.maxChosen⟩

/-- A part of `GCLoop`, when its write succeeds. -/
theorem gcLoop (h : x.Ranged) (hput : E.putOk x.trace.length = true) :
    (LogCleaner.gcLoop E x).Ranged := by
  have hpart := LogCleaner.gcLoop_part E x
  generalize LogCleaner.gcLoop E x = y at hpart ⊢
  cases hpart with
  | idle => exact h
  | batch m hidle hm =>
    exact h.batch hidle (hm ▸ LogCleaner.le_scan ..) (hm ▸ LogCleaner.scan_le ..)
  | set m hbatch => exact h.set hbatch
  | unset m _ hfail =>
    rw [hput] at hfail
    cases hfail

/-- **One action.** The log stays complete, or a write failed, and then the disk is as it was before
the record. -/
theorem act (h : x.Ranged) (hw : x.WF) (hpos : ∀ m, Announced net x m → 1 ≤ m.proposalId)
    (hclean : R.clean → ∀ k, E.putOk k = true) (hact : Act R E net x y) :
    y.Ranged ∨
      (Unbroken y.lowest y.db y.checkpoints ∧ ∃ k < y.trace.length, E.putOk k = false) := by
  rcases hact.lowest_cases with ⟨hrule, rfl⟩ | ⟨hminId, hto⟩
  · exact Or.inl (h.gcLoop (hclean hrule _))
  have hlow : y.lowest = x.lowest := by rw [Node.lowest, hminId, hto, Node.lowest]
  have hle : y.minChosenId ≤ y.lowest := by
    rw [hminId, hlow]
    exact h.lowest
  have hw' := hact.wf hw
  have hmin := hact.minChosen_synced hw h.minChosen
  have hmax := hact.maxChosenId_le hw h.maxChosen
  have hunbroken : Unbroken y.lowest x.db y.checkpoints := by
    rw [hlow]
    refine h.unbroken_of fun d hd => ?_
    rcases hact.checkpoints_cases hd with hold | ⟨rfl, -, -⟩
    · exact Or.inl hold
    · exact Or.inr rfl
  -- Nothing is written.
  have hsame : y.db = x.db → y.instanceId = x.instanceId →
      (0 < y.acceptor.acceptedBallot.proposalId → 0 < x.acceptor.acceptedBallot.proposalId) →
      (y.learner.hasLearned = true → ∃ r, x.db.get x.instanceId = some r) → y.Ranged := by
    intro hdb hid hacc hlearned
    refine ⟨?_, by rw [hid]; exact h.positive, ?_, ?_, ?_, ?_, hmin, hle, hmax⟩ <;> rw [hdb]
    · exact hunbroken
    · rw [hid]
      exact h.below
    · rw [hid, hlow]
      exact h.complete
    · rw [hid]
      exact fun ha => h.accepted (hacc ha)
    · rw [hid]
      exact hlearned
  -- The record of the instance is written.
  have hput : ∀ r : PaxosInstance, r.instanceId = x.instanceId → y.db = x.db.put x.instanceId r →
      y.instanceId = x.instanceId → y.Ranged := by
    intro r hkey hdb hid
    have hown : ∃ q, y.db.get y.instanceId = some q := ⟨r, by rw [hdb, hid, DB.get_put_self]⟩
    refine ⟨?_, by rw [hid]; exact h.positive, ?_, ?_, fun _ => hown, fun _ => hown, hmin, hle,
      hmax⟩
    · rw [hdb]
      exact hunbroken.put hkey (hlow ▸ h.complete)
    · intro i q hq
      rw [hdb] at hq
      rw [hid]
      rcases DB.get_put_cases hq with ⟨rfl, -⟩ | hold
      · exact le_refl _
      · exact h.below i q hold
    · rw [hdb, hid, hlow]
      exact h.complete.put _ _
  have hwrite : ∀ {k : ℕ}, k < y.trace.length → y.instanceId = x.instanceId →
      y.db = x.db.write (E.putOk k) y.acceptor.record →
      y.Ranged ∨
        (Unbroken y.lowest y.db y.checkpoints ∧ ∃ k < y.trace.length, E.putOk k = false) := by
    intro k hk hid hdb
    have hkey : y.acceptor.record.instanceId = x.instanceId := hw'.acceptorId.trans hid
    cases hok : E.putOk k with
    | true =>
      rw [hok, DB.write, if_pos rfl, hkey] at hdb
      exact Or.inl (hput _ hkey hdb hid)
    | false =>
      rw [hok] at hdb
      refine Or.inr ⟨?_, k, hk, hok⟩
      rw [hdb]
      exact hunbroken
  cases hact.storeChange hw with
  | same hacc hdb hid hl =>
    refine Or.inl (hsame hdb hid (by rw [hacc]; exact id) fun hy => ?_)
    exact h.learned (hl ▸ hy)
  | promised m k hm hle hkeep hacc hdb hid hl hv htrace hindex
  | accepted m k hm hle hkeep hacc hdb hid hl hv htrace hindex =>
    exact hwrite hindex.2 hid hdb
  | learned m hm hmid hballot hacc hdb hid =>
    refine Or.inl (hsame hdb hid (by rw [hacc]; exact id) fun _ => h.accepted ?_)
    rw [← hballot]
    exact hpos m hm
  | learnedValue m hm htype hmid hrule hacc hdb hid =>
    exact Or.inl (hput (Learner.record m) hmid (by rw [hdb, hmid]) hid)
  | executed hl hok hy hacc hdb hid hl' =>
    obtain ⟨r, hr⟩ := h.learned hl
    have hcovered : x.db.Covered x.lowest x.instanceId := h.unbroken.records _ r hr
    refine Or.inl ⟨?_, by omega, ?_, ?_, ?_, ?_, hmin, hle, hmax⟩
    · rw [hdb]
      exact hunbroken
    · intro i q hq
      rw [hdb] at hq
      exact le_trans (h.below i q hq) (by omega)
    · rw [hdb, hid, hlow]
      exact hcovered
    · intro ha
      rw [hacc, Acceptor.nextInstance_eq] at ha
      exact absurd ha (Nat.lt_irrefl 0)
    · intro hy
      rw [hl'] at hy
      cases hy
  | cleaned hrule hy =>
    rw [hy]
    exact Or.inl (h.gcLoop (hclean hrule _))

end Node.Ranged

/-- Once writes fail, the disk does not change any more. -/
theorem Act.disk_eq (hact : Act R E net x y) (hw : x.WF)
    (hfail : ∀ k, x.trace.length ≤ k → E.putOk k = false) (hclean : ¬ R.clean)
    (hcheckpoint : ¬ R.checkpoint) : y.db = x.db ∧ y.checkpoints = x.checkpoints := by
  have hdirs : y.checkpoints = x.checkpoints := by
    rcases hact.checkpoints_eq with hsame | ⟨-, -, -, hrule⟩
    · exact hsame
    · exact absurd hrule hcheckpoint
  have hwrite : ∀ {k : ℕ} {r : PaxosInstance}, x.trace.length ≤ k →
      y.db = x.db.write (E.putOk k) r → y.db = x.db := by
    intro k r hk hdb
    rw [hdb, hfail k hk]
    rfl
  refine ⟨?_, hdirs⟩
  cases hact.storeChange hw with
  | same hacc hdb => exact hdb
  | promised m k hm hle hkeep hacc hdb hid hl hv htrace hindex => exact hwrite hindex.1 hdb
  | accepted m k hm hle hkeep hacc hdb hid hl hv htrace hindex => exact hwrite hindex.1 hdb
  | learned m hm hmid hballot hacc hdb => exact hdb
  | learnedValue m hm htype hmid hrule hacc hdb hid hl hv hput =>
    rw [hfail _ (le_refl _)] at hput
    cases hput
  | executed hl hok hy hacc hdb => exact hdb
  | cleaned hrule => exact absurd hrule hclean

end

/-! ## Recovery -/

/-- The new process has the minimum on disk. -/
theorem Node.Recovered.lowest {config : Config} {trace : List Event} {a : Acceptor}
    (h : Node.Recovered E config db dirs trace a y) : y.lowest = db.minChosen.getD 0 := by
  rw [Node.lowest, h.cleanedTo, Option.getD_none, h.minChosenId]

/-- **Recovery on an unbroken disk leaves the log complete.** -/
theorem Node.Ranged.of_recovered {config : Config} {trace : List Event} {a : Acceptor}
    (h : Unbroken (db.minChosen.getD 0) db dirs)
    (hrec : Node.Recovered E config db dirs trace a y) : y.Ranged := by
  have hinst := hrec.instanceId
  have hlow := hrec.lowest
  -- What the acceptor read is the newest record, if there is one.
  have hread : a = {} ∨ ∃ r, db.get a.instanceId = some r := by
    rcases Acceptor.readFromDB_spec hrec.read with ⟨ha, -⟩ | ⟨r, hr, -⟩
    · exact Or.inl ha
    · exact Or.inr ⟨r, hr⟩
  refine ⟨?_, by omega, ?_, ?_, ?_, ?_, ?_, ?_, ?_⟩
  · rw [hlow, hrec.db_eq, hrec.checkpoints]
    exact ⟨h.keys, h.records, fun d hd => h.dirs d (List.mem_of_mem_filter hd)⟩
  · intro i r hr
    rw [hrec.db_eq] at hr
    have hle := Acceptor.le_of_readFromDB hrec.read hr
    omega
  · rw [hlow, hrec.db_eq]
    intro j hj hji
    have hone : 1 ≤ j := le_trans (le_max_left _ _) hj
    by_cases hlog : j < a.instanceId
    · rcases hread with rfl | ⟨r, hr⟩
      · exact absurd hlog (Nat.not_lt_zero j)
      · exact h.records _ r hr j hj hlog.le
    · -- The instance is below the checkpoint.
      rcases MachineManager.recover_fst_mem E config dirs with hzero | ⟨d, hd, hlatest⟩
      · omega
      · exact h.dirs d hd j hj (by omega)
  · intro hacc
    rcases hrec.acceptor_cases with ⟨r, hr, -⟩ | ⟨-, hball, -⟩
    · rw [hrec.db_eq]
      exact ⟨r, hr⟩
    · rw [hball] at hacc
      exact absurd hacc (Nat.lt_irrefl 0)
  · intro hl
    rw [hrec.learner] at hl
    cases hl
  · rw [hrec.db_eq, hrec.minChosenId]
  · rw [hlow, hrec.minChosenId]
  · exact hrec.maxChosenId.le

/-- The first process of a node has left no instance. -/
theorem Node.Ranged.fresh (config : Config) : (Node.fresh config).Ranged where
  unbroken := ⟨nofun, nofun, nofun⟩
  positive := le_refl 1
  below := nofun
  complete j hj hji := by
    have hzero : j ≤ 0 := hji
    have hone : 1 ≤ j := le_trans (le_max_left _ _) hj
    omega
  accepted ha := absurd ha (Nat.lt_irrefl 0)
  learned := nofun
  minChosen := rfl
  lowest := le_refl 0
  maxChosen := le_refl 1

/-! ## Crashes -/

/-- The environment in which nothing reaches the disk from the position `c` of the trace on. -/
def Env.cut (E : Env) (c : ℕ) : Env := { E with putOk := fun k => E.putOk k && decide (k < c) }

/-- What can happen to the system when processes may die at any point. -/
inductive LifeLabel where
  /-- A step between whose parts no process dies. -/
  | step (l : Label)
  /-- A node dies while it handles an event, before the write at the position `c` of its trace, and
  a new process recovers. -/
  | crash (n : ℕ) (ev : NodeEvent) (c : ℕ)
  /-- A node dies after `UpdateCheckpoint` has renamed a checkpoint and `CleanCheckpoint` has
  deleted `j` directories, and a new process recovers. -/
  | crashInClean (n j : ℕ)
deriving DecidableEq, Repr

/-- The node whose disk `UpdateCheckpoint` and the first `j` deletions of `CleanCheckpoint` have
changed. -/
def MachineManager.partlyCleaned (j : ℕ) (x : Node) : Node :=
  let dirs := (x.instanceId - 1, x.machines) :: x.checkpoints
  let c := cleanCheckpoint x.config.keepCheckpointCount (dirs.map Prod.fst)
  { x with checkpoints := dirs.filter fun d => d.1 ∉ c.deleted.reverse.take j }

/-- One step of the system with crashes. What a dying node would still have sent counts as sent. -/
def System.lifeStep (s : Sys) (a : Env × LifeLabel) : Option Sys :=
  match a.2 with
  | .step l => System.step s (a.1, l)
  | .crash n ev c =>
    (System.step s (a.1.cut c, .node n ev)).bind fun t => System.step t (a.1, .restart n)
  | .crashInClean n j =>
    if 1 < (s n).instanceId ∧ (s n).instanceId - 1 ∉ (s n).checkpoints.map Prod.fst then
      System.step (Function.update s n (MachineManager.partlyCleaned j (s n))) (a.1, .restart n)
    else none

/-- The condition on a step: a checkpoint of another node does not take the node past an instance
that it has no record of, and no process ends between the two writes of a `GCLoop` that deletes an
advertised record. -/
def keepsRange (s : Sys) (a : Env × LifeLabel) : Bool :=
  match a.2 with
  | .step (.restart n) => !(s n).cleaning
  | .step (.install n _ c) => !(s n).cleaning &&
      (c < (s n).instanceId || (c = (s n).instanceId && ((s n).db.get c).isSome))
  | .crash n ev c =>
    -- The part of `GCLoop` that the process dies after is done if its write comes before the crash.
    if ev = .gcLoop ∧ (s n).trace.length < c then !(LogCleaner.gcLoop a.1 (s n)).cleaning
    else !(s n).cleaning
  | .crashInClean n _ => !(s n).cleaning
  | _ => true

/-- A part of `GCLoop` whose write does not reach the disk leaves the disk as it was. -/
theorem LogCleaner.disk_gcLoop (hfail : E.putOk x.trace.length = false) :
    (gcLoop E x).db = x.db ∧ (gcLoop E x).checkpoints = x.checkpoints := by
  have hpart := gcLoop_part E x
  generalize gcLoop E x = y at hpart ⊢
  cases hpart with
  | idle | unset => exact ⟨rfl, rfl⟩
  | batch m _ _ hput | set m _ hput =>
    rw [hfail] at hput
    cases hput

/-- A part of `GCLoop` depends on its one write. -/
theorem LogCleaner.gcLoop_congr {E' : Env} (h : E.putOk x.trace.length = E'.putOk x.trace.length) :
    gcLoop E x = gcLoop E' x := by
  unfold gcLoop deleteBatch LogManager.setMinChosenInstanceId
  simp only [h]

/-- A crash in `GCLoop` that meets the condition leaves the disk unbroken. -/
theorem Node.Ranged.gcLoop_cut (h : x.Ranged) (hput : ∀ k, E.putOk k = true)
    (hok : (if x.trace.length < c then LogCleaner.gcLoop E x else x).cleaning = false) :
    Unbroken ((LogCleaner.gcLoop (E.cut c) x).db.minChosen.getD 0)
      (LogCleaner.gcLoop (E.cut c) x).db (LogCleaner.gcLoop (E.cut c) x).checkpoints := by
  split_ifs at hok with hdone
  · have hsame : LogCleaner.gcLoop (E.cut c) x = LogCleaner.gcLoop E x :=
      LogCleaner.gcLoop_congr (by simp [Env.cut, hdone])
    rw [hsame]
    have hy := h.gcLoop (hput x.trace.length)
    exact hy.unbroken.settled hy.minChosen hok
  · obtain ⟨hdb, hdirs⟩ := LogCleaner.disk_gcLoop (E := E.cut c) (x := x) (by simp [Env.cut, hdone])
    rw [hdb, hdirs]
    exact h.unbroken.settled h.minChosen hok

/-! ## Runs -/

/-- What holds of a system between two steps. -/
structure Sys.Ranged (C : Setup) (s : Sys) : Prop where
  wf : s.WF C
  traced : Traced s
  ranged : ∀ n, (s n).Ranged

/-- The runs in which writes succeed, no process ends while its log is being cleaned and no
checkpoint takes a node past a gap. -/
def Policy.ranged : Policy where
  env E := ∀ k, E.putOk k = true
  restart s n := (s n).cleaning = false
  install s n _ c := (s n).cleaning = false ∧ (s n).db.Covered (s n).lowest c

/-- The policy of one event in one environment, which is not a part of `GCLoop`. -/
def Policy.event (E : Env) (checkpoint : Prop) : Policy where
  rules := { clean := False, checkpoint }
  env E' := E' = E
  restart _ _ := False
  install _ _ _ _ := False

/-- What an event does that is not a part of `GCLoop`, as actions. -/
theorem System.step_event (checkpoint : Prop) (hw : s.WF C) (hgc : ev ≠ .gcLoop)
    (hcheckpoint : ev = .finishCheckpoint → checkpoint)
    (hst : System.step s (E, .node n ev) = some t) :
    ReflTransGen (Micro (.event E checkpoint)) s t := by
  have hperm : (Policy.event E checkpoint).Permits s (E, .node n ev) := by
    refine ⟨rfl, fun hallowed => Rules.allows_of_net _ _ ev ?_ hgc hcheckpoint⟩
    rintro m rfl
    exact hallowed
  rcases System.step_cases hw hperm hst with hchain | ⟨k, dirs, acc, y, -, -, hwhy⟩
  · exact hchain
  · rcases hwhy with ⟨hf, -⟩ | ⟨_, _, _, hf, -⟩ <;> exact hf.elim

/-- Such an event changes no minimum, and leaves those on disk and in memory the same. -/
theorem System.minChosen_event (hw : s.WF C) (hgc : ev ≠ .gcLoop)
    (hst : System.step s (E, .node n ev) = some t) (k : ℕ) :
    (t k).minChosenId = (s k).minChosenId ∧ (t k).cleanedTo = (s k).cleanedTo ∧
      ((s k).db.minChosen.getD 0 = (s k).minChosenId →
        (t k).db.minChosen.getD 0 = (t k).minChosenId) := by
  have hchain := System.step_event True hw hgc (fun _ => trivial) hst
  refine (invariant_of_actions (P := fun u : Sys => u.WF C ∧ ∀ k,
    (u k).minChosenId = (s k).minChosenId ∧ (u k).cleanedTo = (s k).cleanedTo ∧
      ((s k).db.minChosen.getD 0 = (s k).minChosenId →
        (u k).db.minChosen.getD 0 = (u k).minChosenId)) ?_ hchain
    ⟨hw, fun k => ⟨rfl, rfl, id⟩⟩).2 k
  rintro u v ⟨hwu, hu⟩ huv
  refine ⟨hwu.micro huv, ?_⟩
  refine huv.forall_node (Q := fun k x => x.minChosenId = (s k).minChosenId ∧
    x.cleanedTo = (s k).cleanedTo ∧ ((s k).db.minChosen.getD 0 = (s k).minChosenId →
      x.db.minChosen.getD 0 = x.minChosenId)) hu fun k E' y _ hact => ?_
  obtain ⟨hmin, hto, hsync⟩ := hu k
  rcases hact.lowest_cases with ⟨hf, -⟩ | ⟨hmin', hto'⟩
  · exact hf.elim
  · exact ⟨hmin'.trans hmin, hto'.trans hto, fun h => hact.minChosen_synced (hwu k).1 (hsync h)⟩

namespace Sys.Ranged

/-- A step whose writes succeed keeps the range of the log. -/
theorem step {l : Label} (h : s.Ranged C) (hput : ∀ k, E.putOk k = true)
    (hok : keepsRange s (E, .step l) = true) (hst : System.step s (E, l) = some t) :
    t.Ranged C := by
  have hperm : Policy.ranged.Permits s (E, l) := by
    refine Policy.permits_free rfl hput ?_ ?_
    · rintro n hlabel
      obtain rfl : l = .restart n := hlabel
      exact Bool.eq_false_of_not_eq_true' hok
    rintro n source c hlabel
    obtain rfl : l = .install n source c := hlabel
    simp only [keepsRange, Bool.and_eq_true, Bool.not_eq_true', Bool.or_eq_true,
      decide_eq_true_eq] at hok
    have hx := h.ranged n
    refine ⟨hok.1, ?_⟩
    rcases hok.2 with hlt | ⟨rfl, hsome⟩
    · exact fun j hj hjc => hx.complete j hj (by omega)
    · obtain ⟨r, hr⟩ := Option.isSome_iff_exists.mp hsome
      exact hx.unbroken.records _ r hr
  rcases System.step_cases h.wf hperm hst with hchain | ⟨n, dirs, acc, y, hrec, rfl, hwhy⟩
  · refine invariant_of_actions (P := Sys.Ranged C) ?_ hchain h
    intro u v hu huv
    refine ⟨hu.wf.micro huv, hu.traced.micro hu.wf huv, ?_⟩
    refine huv.forall_node (Q := fun _ x => x.Ranged) hu.ranged fun n E y henv hact => ?_
    rcases (hu.ranged n).act (hu.wf n).1 (fun m hm => hu.traced.announced_pos hm) (fun _ => henv)
      hact with hy | ⟨-, k, -, hk⟩
    · exact hy
    · rw [henv k] at hk
      cases hk
  · obtain ⟨hw, htr⟩ := h.traced.step h.wf hst
    refine ⟨hw, htr, Sys.forall_update (Q := fun _ x => x.Ranged) h.ranged ?_⟩
    refine Node.Ranged.of_recovered ?_ hrec
    have hx := h.ranged n
    rcases hwhy with ⟨hquiet, rfl⟩ | ⟨source, c, saved, ⟨hquiet, hcovered⟩, -, -, rfl⟩
    · exact hx.unbroken.settled hx.minChosen hquiet
    · have hdisk := hx.unbroken.settled hx.minChosen hquiet
      refine ⟨hdisk.keys, hdisk.records, fun d hd => ?_⟩
      rcases List.mem_cons.mp hd with rfl | hd
      · rw [hx.minChosen]
        exact hcovered.of_kept (Node.lowest_le_of_not_cleaning hquiet) fun _ r _ hr => ⟨r, hr⟩
      · exact hdisk.dirs d hd

/-- What an event that is not a part of `GCLoop` leaves on the disk of a process that dies in its
course. -/
theorem unbroken_event (h : s.Ranged C) (hput : ∀ k, E.putOk k = true) (hgc : ev ≠ .gcLoop)
    (hst : System.step s (E.cut c, .node n ev) = some t) :
    Unbroken (t n).lowest (t n).db (t n).checkpoints := by
  by_cases hfinish : ev = .finishCheckpoint
  · -- A checkpoint is one renaming.
    subst hfinish
    simp only [System.step, Node.step, Option.ite_none_right_eq_some, Option.map_eq_some_iff,
      Option.some.injEq] at hst
    obtain ⟨-, y, ⟨-, rfl⟩, rfl⟩ := hst
    rw [Function.update_self]
    refine (h.ranged n).unbroken_of fun d hd => ?_
    unfold MachineManager.finishCheckpoint at hd
    dsimp only at hd
    rcases List.mem_cons.mp (List.mem_of_mem_filter hd) with rfl | hold
    · exact Or.inr rfl
    · exact Or.inl hold
  -- Alive, a node keeps its range; from the entry at which it dies on, its disk stays as it is.
  have hchain := System.step_event False h.wf hgc hfinish hst
  have hend : t.WF C ∧ Traced t ∧ ∀ k, (t k).Ranged ∨
      (Unbroken (t k).lowest (t k).db (t k).checkpoints ∧ c ≤ (t k).trace.length) := by
    refine invariant_of_actions (P := fun t : Sys => t.WF C ∧ Traced t ∧ ∀ k, (t k).Ranged ∨
      (Unbroken (t k).lowest (t k).db (t k).checkpoints ∧ c ≤ (t k).trace.length)) ?_ hchain
      ⟨h.wf, h.traced, fun k => Or.inl (h.ranged k)⟩
    rintro u v ⟨hw, htr, hu⟩ huv
    refine ⟨hw.micro huv, htr.micro hw huv, ?_⟩
    refine huv.forall_node (Q := fun _ x => x.Ranged ∨
      (Unbroken x.lowest x.db x.checkpoints ∧ c ≤ x.trace.length)) hu ?_
    rintro k E' y rfl hact
    rcases hu k with halive | ⟨hdisk, hdead⟩
    · refine (halive.act (hw k).1 (fun m hm => htr.announced_pos hm) False.elim hact).imp id ?_
      rintro ⟨hy, j, hj, hfail⟩
      simp only [Env.cut, hput, Bool.true_and, decide_eq_false_iff_not] at hfail
      exact ⟨hy, by omega⟩
    · -- The process is dead: nothing reaches the disk.
      have hfail : ∀ j, (u k).trace.length ≤ j → (E.cut c).putOk j = false := by
        intro j hj
        simp only [Env.cut, hput, Bool.true_and, decide_eq_false_iff_not]
        omega
      obtain ⟨hdb, hdirs⟩ := hact.disk_eq (hw k).1 hfail id id
      obtain ⟨l, hl, -⟩ := hact.newEvents (hw k).1
      refine Or.inr ⟨?_, by rw [hl, List.length_append]; omega⟩
      rcases hact.lowest_cases with ⟨hf, -⟩ | ⟨hmin, hto⟩
      · exact hf.elim
      · rw [hdb, hdirs, Node.lowest, hmin, hto]
        exact hdisk
  rcases hend.2.2 n with hy | hy
  · exact hy.unbroken
  · exact hy.1

/-- The disk that a process leaves when it dies in the course of an event. -/
theorem unbroken_crash (h : s.Ranged C) (hput : ∀ k, E.putOk k = true)
    (hok : keepsRange s (E, .crash n ev c) = true)
    (hst : System.step s (E.cut c, .node n ev) = some t) :
    Unbroken ((t n).db.minChosen.getD 0) (t n).db (t n).checkpoints := by
  by_cases hgc : ev = .gcLoop
  · subst hgc
    simp only [System.step, Option.ite_none_right_eq_some, Option.map_eq_some_iff] at hst
    obtain ⟨-, y, hy, rfl⟩ := hst
    obtain rfl := Option.some.inj hy
    rw [Function.update_self]
    refine (h.ranged n).gcLoop_cut hput ?_
    simp only [keepsRange, true_and] at hok
    split_ifs at hok ⊢ <;> simpa using hok
  · obtain ⟨hmin, hto, hsync⟩ := System.minChosen_event h.wf hgc hst n
    refine (h.unbroken_event hput hgc hst).settled (hsync (h.ranged n).minChosen) ?_
    have hquiet : (s n).cleaning = false := by simpa [keepsRange, hgc] using hok
    rw [Node.cleaning, hmin, hto]
    exact hquiet

/-- A new process on a disk without gaps has a log without gaps. -/
theorem restart (hw : s.WF C) (htr : Traced s)
    (hdisk : Unbroken ((s n).db.minChosen.getD 0) (s n).db (s n).checkpoints)
    (hothers : ∀ k, k ≠ n → (s k).Ranged) (hst : System.step s (E, .restart n) = some t) :
    t.Ranged C := by
  obtain ⟨hw', htr'⟩ := htr.step hw hst
  simp only [System.step, Option.map_eq_some_iff] at hst
  obtain ⟨y, hy, rfl⟩ := hst
  obtain ⟨a, hrec⟩ := Node.recover_spec hy
  refine ⟨hw', htr', Sys.forall_of_others (Q := fun _ x => x.Ranged)
    (fun k hk => Function.update_of_ne hk y s) hothers ?_⟩
  rw [Function.update_self]
  exact .of_recovered hdisk hrec

/-- A step in which the process may die keeps the range as well. -/
theorem lifeStep {a : Env × LifeLabel} (h : s.Ranged C) (hput : ∀ k, a.1.putOk k = true)
    (hok : keepsRange s a = true) (hst : System.lifeStep s a = some t) : t.Ranged C := by
  obtain ⟨E, l⟩ := a
  cases l with
  | step l => exact h.step hput hok hst
  | crash n ev c =>
    simp only [System.lifeStep, Option.bind_eq_some_iff] at hst
    obtain ⟨u, hu, hst⟩ := hst
    obtain ⟨hw, htr⟩ := h.traced.step h.wf hu
    refine restart hw htr (h.unbroken_crash hput hok hu) (fun k hk => ?_) hst
    obtain ⟨y, rfl, -⟩ := System.step_target hu
    have hne : k ≠ Label.target (.node n ev) := hk
    rw [Function.update_of_ne hne]
    exact h.ranged k
  | crashInClean n j =>
    simp only [System.lifeStep, Option.ite_none_right_eq_some] at hst
    obtain ⟨-, hst⟩ := hst
    have hx := h.ranged n
    have hquiet : (s n).cleaning = false := by simpa [keepsRange] using hok
    refine restart ?_ ?_ ?_ (fun k hk => ?_) hst
    · have hwn := (h.wf n).1
      exact h.wf.update ⟨hwn.acceptorId, hwn.learnerId, hwn.proposerId, hwn.phase, hwn.proposalId,
        hwn.learnTasks⟩ rfl
    · refine h.traced.recover (Sys.trace_update fun _ he => he) fun k e he => Or.inl ?_
      exact Sys.forall_update (s := s) (n := n) (y := MachineManager.partlyCleaned j (s n))
        (Q := fun k x => ∀ e ∈ x.trace, e ∈ (s k).trace) (fun _ _ he => he) (fun _ he => he) k e he
    · rw [Function.update_self]
      refine Unbroken.settled (x := MachineManager.partlyCleaned j (s n)) ?_ hx.minChosen hquiet
      refine hx.unbroken_of fun d hd => ?_
      unfold MachineManager.partlyCleaned at hd
      dsimp only at hd
      rcases List.mem_cons.mp (List.mem_of_mem_filter hd) with rfl | hold
      · exact Or.inr rfl
      · exact Or.inl hold
    · rw [Function.update_of_ne hk]
      exact h.ranged k

end Sys.Ranged

/-- `ASyncSend` serves the instances that the log has records of, one in each pass of its loop. -/
theorem Learner.runLearnLoop_serves (x : Node) (dest : ℕ) (ts : List LearnTask) (n i : ℕ)
    (hrec : ∀ j, i ≤ j → j < i + n → ∃ r, x.db.get j = some r) :
    ∃ l, runLearnLoop^[n] { x with learnTasks := .aSyncSend dest i (i + n) :: ts } =
        { x with learnTasks := .aSyncSend dest (i + n) (i + n) :: ts, trace := l ++ x.trace } ∧
      ∀ j r, i ≤ j → j < i + n → x.db.get j = some r →
        .send dest (learnedMessage x r) ∈ l := by
  induction n generalizing x i with
  | zero => exact ⟨[], rfl, fun j r h1 h2 => by omega⟩
  | succ n ih =>
    obtain ⟨r, hr⟩ := hrec i (le_refl i) (by omega)
    obtain ⟨l, hl, hserved⟩ := ih (x.sendMessage dest (learnedMessage x r)) (i + 1)
      fun j h1 h2 => hrec j (by omega) (by omega)
    have hnext : i + 1 + n = i + (n + 1) := by omega
    refine ⟨l ++ [.send dest (learnedMessage x r)], ?_, ?_⟩
    · rw [Function.iterate_succ_apply]
      have hpass : runLearnLoop { x with learnTasks := .aSyncSend dest i (i + (n + 1)) :: ts } =
          { x.sendMessage dest (learnedMessage x r) with
            learnTasks := .aSyncSend dest (i + 1) (i + 1 + n) :: ts } := by
        have hlt : i < i + (n + 1) := by omega
        simp only [runLearnLoop, if_pos hlt, hr, hnext]
        rfl
      rw [hpass, hl, hnext]
      simp [Node.sendMessage, Node.emit]
    · intro j q h1 h2 hq
      rcases Nat.eq_or_lt_of_le h1 with rfl | hlt
      · obtain rfl : r = q := Option.some.inj (hr.symm.trans hq)
        exact List.mem_append_right _ (List.mem_singleton_self _)
      · exact List.mem_append_left _ (hserved j q hlt (by omega) hq)

/-- Whether `GCLoop` of the node `n` deletes no record from `k` on. -/
def spares (n k : ℕ) (s : Sys) (a : Env × LifeLabel) : Bool :=
  match a.2 with
  | .step (.node m .gcLoop) => m ≠ n || (LogCleaner.gcLoop a.1 (s n)).lowest ≤ k
  | _ => true

namespace Sys.Ranged

variable {k : ℕ}

/-- The minimum on disk after an event is not above the one that was about to be set. -/
theorem minChosen_le (h : s.Ranged C) (hst : System.step s (E, .node m ev) = some t) :
    (t n).db.minChosen.getD 0 ≤ (s n).lowest := by
  have hx := h.ranged n
  by_cases hgc : ev = .gcLoop
  · subst hgc
    simp only [System.step, Option.ite_none_right_eq_some, Option.map_eq_some_iff] at hst
    obtain ⟨-, y, hy, rfl⟩ := hst
    obtain rfl := Option.some.inj hy
    refine Sys.forall_update (Q := fun j x => x.db.minChosen.getD 0 ≤ (s j).lowest)
      (fun j => (h.ranged j).minChosen ▸ (h.ranged j).lowest) ?_ n
    have hold := (h.ranged m).minChosen ▸ (h.ranged m).lowest
    have hpart := LogCleaner.gcLoop_part E (s m)
    generalize LogCleaner.gcLoop E (s m) = y at hpart ⊢
    cases hpart with
    | idle | batch | unset => exact hold
    | set i hbatch => rw [Node.lowest, hbatch, Option.getD_some, Option.getD_some]
  · obtain ⟨hmin, -, hsync⟩ := System.minChosen_event h.wf hgc hst n
    rw [hsync hx.minChosen, hmin]
    exact hx.lowest

/-- Only the node that takes the step has to be looked at, if it is this one at all. -/
theorem lowest_update {y : Node} (hlow : (s n).lowest ≤ k) (hy : m = n → y.lowest ≤ k) :
    (Function.update s m y n).lowest ≤ k := by
  refine Sys.forall_update (s := s) (Q := fun j x => j = n → x.lowest ≤ k) ?_ hy n rfl
  rintro j rfl
  exact hlow

/-- A new process does not go beyond the minimum on disk. -/
theorem lowest_restart (hlow : (s n).lowest ≤ k) (hdisk : (s m).db.minChosen.getD 0 ≤ k ∨ m ≠ n)
    (hst : System.step s (E, .restart m) = some t) : (t n).lowest ≤ k := by
  simp only [System.step, Option.map_eq_some_iff] at hst
  obtain ⟨y, hy, rfl⟩ := hst
  obtain ⟨a, hrec⟩ := Node.recover_spec hy
  refine lowest_update hlow fun hm => ?_
  rw [hrec.lowest]
  exact hdisk.resolve_right (not_not.mpr hm)

/-- What was not deleted from `k` on stays, in every step in which `GCLoop` spares it. -/
theorem lowest_lifeStep {a : Env × LifeLabel} (h : s.Ranged C) (hlow : (s n).lowest ≤ k)
    (hspares : spares n k s a = true) (hst : System.lifeStep s a = some t) :
    (t n).lowest ≤ k := by
  obtain ⟨E, l⟩ := a
  -- A new process starts from the minimum on disk, which is not above the one in memory.
  have hdisk : ∀ j, (s j).db.minChosen.getD 0 ≤ k ∨ j ≠ n := by
    intro j
    by_cases hj : j = n
    · subst hj
      exact Or.inl (((h.ranged j).minChosen ▸ (h.ranged j).lowest).trans hlow)
    · exact Or.inr hj
  cases l with
  | step l =>
    cases l with
    | node m ev =>
      by_cases hgc : ev = .gcLoop
      · subst hgc
        simp only [System.lifeStep, System.step, Option.ite_none_right_eq_some,
          Option.map_eq_some_iff] at hst
        obtain ⟨-, y, hy, rfl⟩ := hst
        obtain rfl := Option.some.inj hy
        refine lowest_update hlow ?_
        rintro rfl
        simpa [spares] using hspares
      · obtain ⟨hmin, hto, -⟩ := System.minChosen_event h.wf hgc hst n
        rw [Node.lowest, hmin, hto]
        exact hlow
    | restart m => exact lowest_restart hlow (hdisk m) hst
    | install m source c =>
      simp only [System.lifeStep, System.step, Option.ite_none_left_eq_some,
        Option.bind_eq_some_iff, Option.map_eq_some_iff] at hst
      obtain ⟨-, saved, -, y, hy, rfl⟩ := hst
      obtain ⟨a, hrec⟩ := Node.recover_spec hy
      refine lowest_update hlow fun hm => ?_
      rw [hrec.lowest]
      exact (hdisk m).resolve_right (not_not.mpr hm)
  | crash m ev c =>
    simp only [System.lifeStep, Option.bind_eq_some_iff] at hst
    obtain ⟨u, hu, hst⟩ := hst
    by_cases hm : m = n
    · -- What the batch deleted is not advertised by the new process.
      subst hm
      simp only [System.step, Option.map_eq_some_iff] at hst
      obtain ⟨y, hy, rfl⟩ := hst
      obtain ⟨a, hrec⟩ := Node.recover_spec hy
      rw [Function.update_self, hrec.lowest]
      exact (h.minChosen_le hu).trans hlow
    · obtain ⟨y, rfl, -⟩ := System.step_target hu
      have hne : n ≠ Label.target (.node m ev) := fun heq => hm heq.symm
      exact lowest_restart (by rwa [Function.update_of_ne hne]) (Or.inr hm) hst
  | crashInClean m j =>
    simp only [System.lifeStep, Option.ite_none_right_eq_some] at hst
    -- `CleanCheckpoint` deletes directories: the log and its minimum stay.
    refine lowest_restart (m := m) (lowest_update hlow ?_) ?_ hst.2
    · rintro rfl
      exact hlow
    · rw [Function.update_self]
      exact hdisk m

/-- A queued `ASyncSend` from an instance on that is not deleted serves all its instances. -/
theorem serves (h : s.Ranged C) (hlow : (s n).lowest ≤ k) (hk : 1 ≤ k) {dest toId : ℕ}
    {ts : List LearnTask} (htasks : (s n).learnTasks = .aSyncSend dest i toId :: ts) (hi : k ≤ i)
    (hle : i ≤ toId) :
    ∃ l, Learner.runLearnLoop^[toId - i] (s n) =
        { s n with learnTasks := .aSyncSend dest toId toId :: ts, trace := l ++ (s n).trace } ∧
      ∀ j, i ≤ j → j < toId → ∃ r, (s n).db.get j = some r ∧ r.instanceId = j ∧
        .send dest (Learner.learnedMessage (s n) r) ∈ l := by
  have hx := h.ranged n
  have hbound : toId ≤ (s n).instanceId :=
    (h.wf n).1.learnTasks (.aSyncSend dest i toId) (by rw [htasks]; exact List.mem_cons_self)
  have hget : ∀ j, i ≤ j → j < toId → ∃ r, (s n).db.get j = some r := fun j h1 h2 =>
    hx.complete j (by omega) (by omega)
  have hend : i + (toId - i) = toId := Nat.add_sub_cancel' hle
  obtain ⟨l, hpasses, hsent⟩ := Learner.runLearnLoop_serves (s n) dest ts (toId - i) i
    fun j h1 h2 => hget j h1 (by omega)
  rw [hend, ← htasks] at hpasses
  refine ⟨l, hpasses, fun j h1 h2 => ?_⟩
  obtain ⟨r, hr⟩ := hget j h1 h2
  exact ⟨r, hr, hx.unbroken.keys j r hr, hsent j r h1 (by omega) hr⟩

end Sys.Ranged

/-- **The advertised log range is there.** In every run in which processes die at any point and new
ones recover, writes succeed up to such a crash, and the steps meet the condition: a node that is
not between the two writes of a `GCLoop` has a record of every instance from its minimum up to its
own instance. A learner at the instance `k` that it tells so can be served: when `GCLoop` spares the
records from `k` on from there on, `ASyncSend` finds and sends each instance that it is queued for.
-/
theorem log_range_held {C : Setup} {s : Sys}
    (hrun : Reaches System.lifeStep (fun s a => (∀ k, a.1.putOk k = true) ∧ keepsRange s a = true)
      (System.init C) s) (n : ℕ) :
    ((s n).cleaning = false → ∀ i, max 1 (s n).minChosenId ≤ i → i < (s n).instanceId →
      ∃ r, (s n).db.get i = some r ∧ r.instanceId = i) ∧
    ∀ k t, 1 ≤ k → (s n).lowest ≤ k →
      Reaches System.lifeStep (fun s a =>
        ((∀ j, a.1.putOk j = true) ∧ keepsRange s a = true) ∧ spares n k s a = true) s t →
      ∀ dest i toId ts, (t n).learnTasks = .aSyncSend dest i toId :: ts → k ≤ i → i ≤ toId →
        ∃ l, Learner.runLearnLoop^[toId - i] (t n) =
            { t n with learnTasks := .aSyncSend dest toId toId :: ts, trace := l ++ (t n).trace } ∧
          ∀ j, i ≤ j → j < toId → ∃ r, (t n).db.get j = some r ∧ r.instanceId = j ∧
            .send dest (Learner.learnedMessage (t n) r) ∈ l := by
  have hinv : s.Ranged C := by
    refine hrun.invariant ⟨System.wf_init C, .init C, fun n => .fresh _⟩ ?_
    exact fun s t a h hok hst => h.lifeStep hok.1 hok.2 hst
  constructor
  · intro hquiet i hi hlt
    have hx := hinv.ranged n
    obtain ⟨r, hr⟩ := hx.complete i ((Node.lowest_le_of_not_cleaning hquiet).trans hi) (by omega)
    exact ⟨r, hr, hx.unbroken.keys i r hr⟩
  · intro k t hk hlow hlater dest i toId ts htasks hi hle
    have hend : t.Ranged C ∧ (t n).lowest ≤ k := by
      refine hlater.invariant (P := fun u => u.Ranged C ∧ (u n).lowest ≤ k) ⟨hinv, hlow⟩ ?_
      exact fun u v a hu hok hst =>
        ⟨hu.1.lifeStep hok.1.1 hok.1.2 hst, hu.1.lowest_lifeStep hu.2 hok.2 hst⟩
    exact hend.1.serves hend.2 hk htasks hi hle

/-- A group of one node that keeps one checkpoint and two instances of the log. -/
def soloKeeper : Config := { solo with keepCheckpointCount := 1, keepLogCount := 2 }

/-- Two instances are executed, a checkpoint is made, and two more instances are executed. -/
def fourthExecuted : List (Env × LifeLabel) :=
  [({}, .step (.node 1 (.propose 7 [1] none 256))), ({}, .step (.node 1 (.propose 7 [2] none 256))),
   ({}, .step (.node 1 .finishCheckpoint)), ({}, .step (.node 1 (.propose 7 [3] none 256))),
   ({}, .step (.node 1 (.propose 7 [4] none 256)))]

/-- The log is cleaned, and the node dies in its fifth instance before anything is written there. -/
def cleanedAndCrashed : List (Env × LifeLabel) := fourthExecuted ++
  ([({}, .step (.node 1 .gcLoop)), ({}, .step (.node 1 .gcLoop)),
    ({}, .crash 1 (.propose 7 [5] none 256) 0)] : List (Env × LifeLabel))

/-- The first instance is not advertised any more, and the second is there. -/
theorem log_range_held_solo : ∃ s,
    Reaches System.lifeStep (fun s a => (∀ k, a.1.putOk k = true) ∧ keepsRange s a = true)
      (System.init (.uniform soloKeeper)) s ∧
    (s 1).minChosenId = 2 ∧ (s 1).instanceId = 4 ∧ (s 1).db.get 1 = none ∧
    ∃ r, (s 1).db.get 2 = some r ∧ r.instanceId = 2 := by
  have hend : (runChecked System.lifeStep keepsRange (System.init (.uniform soloKeeper))
      cleanedAndCrashed).map (fun s => ((s 1).minChosenId, (s 1).instanceId, (s 1).db.get 1,
        (s 1).cleaning)) = some (2, 4, none, false) := by
    decide +kernel
  obtain ⟨s, hs, hfields⟩ := Option.map_eq_some_iff.mp hend
  simp only [Prod.mk.injEq] at hfields
  obtain ⟨hmin, hid, hnone, hquiet⟩ := hfields
  have hrun := reaches_of_default (n := 8) rfl hs
  have hrecord := (log_range_held hrun 1).1 hquiet 2
  rw [hmin, hid] at hrecord
  exact ⟨s, hrun, hmin, hid, hnone, hrecord (by decide) (by decide)⟩

/-- `GCLoop` has deleted the batch and not yet set the new minimum. -/
def betweenWrites : List (Env × LifeLabel) := fourthExecuted ++
  ([({}, .step (.node 1 .gcLoop))] : List (Env × LifeLabel))

/-- The node dies between the two writes of `GCLoop`. -/
def crashedInGC : List (Env × LifeLabel) := betweenWrites ++
  ([({}, .step (.restart 1))] : List (Env × LifeLabel))

/-- Node 3, which has heard nothing, installs the checkpoint of node 1. -/
def installedAhead : List (Env × LifeLabel) :=
  firstServed.map (fun a => (a.1, .step a.2)) ++
    ([({}, .step (.install 3 1 1))] : List (Env × LifeLabel))

/-- The answer of node 1 to the question of node 3 at that point. -/
def toldRange : PaxosMessage :=
  { type := .sendNowInstanceId, nodeId := 1, instanceId := 1, nowInstanceId := 5,
    minChosenInstanceId := 0 }

/-- Node 3 asks node 1, which tells it its range. Then `GCLoop` runs, and node 3 confirms. -/
def cleanedAfterTold : List (Env × LifeLabel) := fourthExecuted ++
  ([({}, .node 3 (.syncData false)),
    ({}, .node 1 (.paxosMessage { type := .askForLearn, nodeId := 3, instanceId := 1 })),
    ({}, .node 1 .learnLoop), ({}, .node 1 .gcLoop), ({}, .node 1 .gcLoop),
    ({}, .node 3 (.paxosMessage toldRange)),
    ({}, .node 1 (.paxosMessage { type := .comfirmAskForLearn, nodeId := 3, instanceId := 1 }))] :
    List (Env × Label)).map (fun a => (a.1, .step a.2))

/-- In the first three cases the node advertises the first instance and has no record of it: between
the two writes, in the process after a crash there, and after it has installed a checkpoint. In the
last one it has told a learner at the first instance so, and is about to serve it without the
record. -/
theorem advertised_record_missing :
    (∃ s, run System.lifeStep (System.init (.uniform soloKeeper)) betweenWrites = some s ∧
      (s 1).minChosenId = 0 ∧ 1 < (s 1).instanceId ∧ (s 1).db.get 1 = none) ∧
    (∃ s, run System.lifeStep (System.init (.uniform soloKeeper)) crashedInGC = some s ∧
      (s 1).minChosenId = 0 ∧ 1 < (s 1).instanceId ∧ (s 1).db.get 1 = none) ∧
    (∃ s, run System.lifeStep (System.init (.uniform trioMember)) installedAhead = some s ∧
      (s 3).minChosenId = 0 ∧ 1 < (s 3).instanceId ∧ (s 3).db.get 1 = none) ∧
    ∃ s, run System.lifeStep (System.init (.uniform soloKeeper)) cleanedAfterTold = some s ∧
      (s 1).learnTasks = [.aSyncSend 3 1 5] ∧ (s 1).db.get 1 = none := by
  have hmissing : ∀ {C : Setup} {l : List (Env × LifeLabel)} {n : ℕ},
      (run System.lifeStep (System.init C) l).map (fun s =>
        ((s n).minChosenId, decide (1 < (s n).instanceId), (s n).db.get 1)) =
          some (0, true, none) →
      ∃ s, run System.lifeStep (System.init C) l = some s ∧ (s n).minChosenId = 0 ∧
        1 < (s n).instanceId ∧ (s n).db.get 1 = none := by
    intro C l n h
    obtain ⟨s, hs, hfields⟩ := Option.map_eq_some_iff.mp h
    simp only [Prod.mk.injEq, decide_eq_true_eq] at hfields
    exact ⟨s, hs, hfields⟩
  have htold : (run System.lifeStep (System.init (.uniform soloKeeper)) cleanedAfterTold).map
      (fun s => ((s 1).learnTasks, (s 1).db.get 1)) = some ([.aSyncSend 3 1 5], none) := by
    decide +kernel
  obtain ⟨s, hs, hfields⟩ := Option.map_eq_some_iff.mp htold
  rw [Prod.mk.injEq] at hfields
  refine ⟨hmissing ?_, hmissing ?_, hmissing ?_, s, hs, hfields⟩ <;> decide +kernel

end Skywalker
