import Skywalker.Checkpoints

/-!
# A restart and live execution

The storage of one node: the log records, the checkpoint directories, and the machines that are
rebuilt from them. The I/O loop writes records and executes, makes checkpoints and cleans them, the
clean loop deletes records, and the process may end between any two of these steps. A new process
restores a checkpoint and replays the log from there.

The machines are the membership machine and any deterministic machines of the user. Their
checkpoints are the states they had when the round was started. Writes to the log and to files
succeed, and every live `Execute` does. `value` gives the chosen value of each instance.

What carries the proof is `floor`: the smallest directory that no pass of `CleanCheckpoint` will
delete. No record above it is ever deleted while the node needs it, and what is restored is never
below it.
-/

namespace Skywalker

open TransitionSystem

variable {υ : Type}

/-! ## Machines -/

/-- The state of the machines. -/
structure LocalMachines (υ : Type) where
  /-- The members that `MembershipMachine` holds. -/
  membership : Membership
  /-- The machines of the user. -/
  users : υ

/-- The machines and the options of a node. -/
structure LocalConfig (υ : Type) where
  /-- The option `KeepCheckpointCount`. -/
  keepCheckpointCount : ℕ
  /-- The option `KeepLogCount`. -/
  keepLogCount : ℕ
  /-- The functions that parse membership changes. -/
  codec : Codec
  /-- The machines of a new process. -/
  initial : LocalMachines υ
  /-- `Execute` of the user's machine with a given id, false where there is none. -/
  userExecute : ℕ → ℕ → List UInt8 → υ → Bool × υ

/-- `MachineManager::Execute`. A value for the master machine changes no other. -/
def LocalConfig.execute (C : LocalConfig υ) (instanceId : ℕ) (value : PaxosValue)
    (ms : LocalMachines υ) : Bool × LocalMachines υ :=
  if value.machineId = membershipMachineId then
    let r := ms.membership.execute C.codec instanceId value.userData
    (r.1, { ms with membership := r.2 })
  else if value.machineId = masterMachineId then (true, ms)
  else
    let r := C.userExecute value.machineId instanceId value.userData ms.users
    (r.1, { ms with users := r.2 })

/-- The machines after the values of the instances `1 .. n`, executed in order. -/
def LocalConfig.stateAt (C : LocalConfig υ) (value : ℕ → PaxosValue) : ℕ → LocalMachines υ
  | 0 => C.initial
  | n + 1 => (C.execute (n + 1) (value (n + 1)) (stateAt C value n)).2

/-! ## The node -/

/-- Where the I/O loop is. -/
inductive Phase where
  /-- The loop is between two callbacks. -/
  | running
  /-- In `CleanCheckpoint`, before the test of the loop, with the vector `checkpoints_`. -/
  | cleaning (checkpoints : List ℕ)
  /-- In the body of the loop, deleting the directory of the front. -/
  | deleting (checkpoints : List ℕ)
  /-- The process has ended, and none has started yet. -/
  | crashed
deriving DecidableEq, Repr

/-- Where the clean loop is in `GCLoop`. -/
inductive GCPhase where
  /-- The loop is between two runs of `GCLoop`. -/
  | idle
  /-- The batch is made, up to the id where the scan ended. -/
  | scanned (upTo : ℕ)
  /-- The batch is written, and the minimum is still to be set. -/
  | deleted (upTo : ℕ)
deriving DecidableEq, Repr

/-- A node with its disk, its machines and its two loops. -/
structure LocalNode (υ : Type) where
  db : DB := {}
  /-- The checkpoint directories with the states in them, `none` where files are gone. -/
  dirs : List (ℕ × Option (LocalMachines υ)) := []
  /-- The present instance; after a crash, that of the process before. -/
  instanceId : ℕ := 1
  machines : LocalMachines υ
  /-- `latest_checkpoint_instance_id_`: the newest directory. -/
  latest : ℕ := 0
  /-- `oldest_checkpoint_instance_id_`: the oldest directory that is kept. -/
  oldest : ℕ := 0
  /-- `min_chosen_id_`: the first instance that the log advertises. -/
  minChosenId : ℕ := 0
  /-- `max_chosen_id_`: the instance that `GCLoop` counts back from. -/
  maxChosenId : ℕ := 1
  /-- The checkpoint round in progress, with the states that the machines save. -/
  round : Option (ℕ × LocalMachines υ) := none
  /-- Where the I/O loop is. -/
  phase : Phase := .running
  /-- Where the clean loop is. -/
  gc : GCPhase := .idle

/-- The steps of the two loops, and the end and the start of a process. -/
inductive LocalLabel where
  /-- The acceptor or the learner writes the record of the present instance. -/
  | put (r : PaxosInstance)
  /-- The chosen value is executed, and `MakeCheckpoint` called with a draw of `distribution_`. -/
  | execute (drawn : ℕ)
  /-- The last machine has reported: the directory is renamed, and `CleanCheckpoint` called. -/
  | publish
  /-- The test of the loop of `CleanCheckpoint`. -/
  | cleanNext
  /-- Files of the front directory are deleted. -/
  | deleteFiles
  /-- The front directory is deleted. -/
  | deleteDir
  /-- `GCLoop` scans, with what it read of `max_chosen_id_` and `oldest_checkpoint_instance_id_`. -/
  | gcScan (maxChosenId oldest : ℕ)
  /-- `GCLoop` writes the batch that it has made. -/
  | gcDelete
  /-- `GCLoop` sets the new minimum. -/
  | gcSetMin
  /-- The process ends at any point. -/
  | crash
  /-- A new process recovers from the disk. -/
  | recover
  /-- A new process ends in `CleanCheckpoint`, after some passes and maybe in another one. -/
  | crashInRecover (passes : ℕ) (partly : Bool)
deriving DecidableEq

namespace LocalNode

/-- The ids of the checkpoint directories. -/
def ids (s : LocalNode υ) : List ℕ := s.dirs.map Prod.fst

/-- `ReplayLog` for `n` instances from `instanceId` on. -/
def replayLog (C : LocalConfig υ) (db : DB) : ℕ → ℕ → LocalMachines υ → Option (LocalMachines υ)
  | 0, _, ms => some ms
  | n + 1, instanceId, ms =>
    match db.get instanceId with
    | none => none
    | some temp => replayLog C db n (instanceId + 1) (C.execute instanceId temp.acceptedValue ms).2

/-- What `MachineManager::Recover` restores. A directory that misses files does not restore the
machines. -/
def restore (C : LocalConfig υ) (latest : ℕ) (dirs : List (ℕ × Option (LocalMachines υ))) :
    Option (LocalMachines υ) :=
  if latest = 0 then some C.initial
  else
    match dirs.lookup latest with
    | none => some C.initial
    | some saved => saved

/-- `Group::Recover` of a new process: `MachineManager::Recover`, `Acceptor::Recover` and
`LogManager::Recover`. -/
def recover (C : LocalConfig υ) (s : LocalNode υ) : Option (LocalNode υ) :=
  let c := cleanCheckpoint C.keepCheckpointCount s.ids
  let latest := c.checkpoints.getLastD 0
  let dirs := s.dirs.filter fun d => d.1 ∉ c.deleted
  (restore C latest dirs).bind fun ms =>
    (Acceptor.readFromDB s.db).bind fun a =>
      let instanceId := max (latest + 1) a.instanceId
      (replayLog C s.db (a.instanceId - (latest + 1)) (latest + 1) ms).map fun machines =>
        { db := s.db, dirs, instanceId, machines, latest, oldest := c.oldest
          minChosenId := s.db.minChosen.getD 0, maxChosenId := instanceId }

/-- The directories after some passes of `CleanCheckpoint` in `Recover`, and a part of another. -/
def partlyCleaned (s : LocalNode υ) (passes : ℕ) (partly : Bool) :
    List (ℕ × Option (LocalMachines υ)) :=
  let sorted := s.ids.insertionSort (· ≤ ·)
  let c := CleanState.loop passes { checkpoints := sorted, oldest := sorted.headD 0, deleted := [] }
  (s.dirs.filter fun d => d.1 ∉ c.deleted).map fun d =>
    if partly && d.1 = c.checkpoints.headD 0 then (d.1, none) else d

/-- A step. The I/O loop does one thing at a time, and the clean loop runs beside it. -/
def step (C : LocalConfig υ) (value : ℕ → PaxosValue) (s : LocalNode υ) :
    LocalLabel → Option (LocalNode υ)
  | .put r =>
    if s.phase = .running ∧ r.instanceId = s.instanceId then
      some { s with db := s.db.put s.instanceId r }
    else none
  | .execute drawn =>
    -- the learner executes what the acceptor has accepted, or what it has itself just written
    let r := C.execute s.instanceId (value s.instanceId) s.machines
    if s.phase = .running ∧ r.1 = true ∧
        (s.db.get s.instanceId).map PaxosInstance.acceptedValue = some (value s.instanceId) then
      some { s with
        machines := r.2
        instanceId := s.instanceId + 1
        maxChosenId := s.instanceId
        round :=
          if s.round.isNone && C.keepLogCount / 2 + drawn ≤ s.instanceId - s.latest then
            some (s.instanceId, r.2)
          else s.round }
    else none
  | .publish =>
    match s.round with
    | none => none
    | some (c, saved) =>
      if s.phase = .running then
        -- renaming fails where the directory is there already
        let s' := if c ∈ s.ids then s
          else { s with dirs := s.dirs ++ [(c, some saved)], latest := c }
        let sorted := s'.ids.insertionSort (· ≤ ·)
        some { s' with round := none, phase := .cleaning sorted, oldest := sorted.headD 0 }
      else none
  | .cleanNext =>
    match s.phase with
    | .cleaning v =>
      if C.keepCheckpointCount < v.length then
        some { s with phase := .deleting v, oldest := v.getD 1 0 }
      else some { s with phase := .running }
    | _ => none
  | .deleteFiles =>
    match s.phase with
    | .deleting v =>
      some { s with dirs := s.dirs.map fun d => if d.1 = v.headD 0 then (d.1, none) else d }
    | _ => none
  | .deleteDir =>
    match s.phase with
    | .deleting v =>
      some { s with
        dirs := s.dirs.filter fun d => d.1 ≠ v.headD 0, phase := .cleaning (swapPop v) }
    | _ => none
  | .gcScan maxChosenId oldest =>
    let upTo := LogCleaner.scan C.keepLogCount maxChosenId (oldest + 1) maxChosenId s.minChosenId
    if s.phase ≠ .crashed ∧ s.gc = .idle ∧ maxChosenId ≤ s.maxChosenId ∧ oldest ≤ s.oldest ∧
        upTo ≠ s.minChosenId then
      some { s with gc := .scanned upTo }
    else none
  | .gcDelete =>
    match s.gc with
    | .scanned upTo =>
      some { s with db := s.db.deleteRange s.minChosenId upTo, gc := .deleted upTo }
    | _ => none
  | .gcSetMin =>
    match s.gc with
    | .deleted upTo =>
      some { s with db := { s.db with minChosen := some upTo }, minChosenId := upTo, gc := .idle }
    | _ => none
  | .crash => some { s with phase := .crashed, gc := .idle, round := none }
  | .recover => if s.phase = .crashed then s.recover C else none
  | .crashInRecover passes partly =>
    if s.phase = .crashed ∧
        passes + (if partly then 1 else 0) ≤ s.ids.length - C.keepCheckpointCount then
      some { s with dirs := s.partlyCleaned passes partly }
    else none

/-- The first process of a node, on an empty disk. -/
def fresh (C : LocalConfig υ) : LocalNode υ := { machines := C.initial }

end LocalNode

/-! ## The directories that stay -/

/-- The ids that the passes of `CleanCheckpoint` leave, when at most one is to be made. -/
def keptIds (keep : ℕ) (ids : List ℕ) : List ℕ := ids.drop (ids.length - keep)

/-- The smallest of them, zero where there is none. -/
def floorOf (keep : ℕ) (ids : List ℕ) : ℕ := (keptIds keep ids).headD 0

section Kept

variable {keep : ℕ} {ids : List ℕ}

theorem keptIds_of_le (h : ids.length ≤ keep) : keptIds keep ids = ids := by
  rw [keptIds, Nat.sub_eq_zero_of_le h, List.drop_zero]

theorem keptIds_of_succ (h : ids.length = keep + 1) : keptIds keep ids = ids.tail := by
  rw [keptIds, h, Nat.add_sub_cancel_left, List.drop_one]

theorem headD_le_of_mem (hsorted : ids.Pairwise (· ≤ ·)) {c : ℕ} (hc : c ∈ ids) :
    ids.headD 0 ≤ c := by
  cases ids with
  | nil => cases hc
  | cons a l =>
    obtain rfl | hc := List.mem_cons.mp hc
    · exact le_refl _
    · exact (List.pairwise_cons.mp hsorted).1 c hc

theorem floorOf_le (hsorted : ids.Pairwise (· < ·)) {c : ℕ} (hc : c ∈ keptIds keep ids) :
    floorOf keep ids ≤ c :=
  headD_le_of_mem ((hsorted.imp Nat.le_of_lt).sublist (List.drop_sublist _ _)) hc

/-- The floor is one of those that stay. -/
theorem floorOf_mem (hkeep : 1 ≤ keep) (hne : ids ≠ []) : floorOf keep ids ∈ keptIds keep ids := by
  have hlen : 0 < (keptIds keep ids).length := by
    have := List.length_pos_of_ne_nil hne
    rw [keptIds, List.length_drop]
    omega
  unfold floorOf
  generalize keptIds keep ids = l at hlen
  cases l with
  | nil => cases hlen
  | cons a l => exact List.mem_cons_self

/-- Making a directory that is newer than the others does not lower the floor. -/
theorem floorOf_append (hkeep : 1 ≤ keep) (hfew : ids.length ≤ keep)
    (hsorted : ids.Pairwise (· < ·)) {c : ℕ} (hc : ∀ i ∈ ids, i < c) :
    floorOf keep ids ≤ floorOf keep (ids ++ [c]) := by
  have hmem : floorOf keep (ids ++ [c]) ∈ ids ++ [c] :=
    List.mem_of_mem_drop (floorOf_mem hkeep (by simp))
  cases ids with
  | nil =>
    rw [floorOf, keptIds_of_le hfew]
    exact Nat.zero_le _
  | cons a l =>
    have hle : ∀ i ∈ a :: l, floorOf keep (a :: l) ≤ i := fun i hi =>
      floorOf_le hsorted (by rwa [keptIds_of_le hfew])
    obtain hold | hnew := List.mem_append.mp hmem
    · exact hle _ hold
    · rw [List.mem_singleton.mp hnew]
      exact (hle a List.mem_cons_self).trans (hc a List.mem_cons_self).le

/-- Deleting the first directory, where there is one too many, leaves the floor. -/
theorem floorOf_tail (h : ids.length = keep + 1) : floorOf keep ids.tail = floorOf keep ids := by
  rw [floorOf, floorOf, keptIds_of_succ h, keptIds_of_le (by rw [List.length_tail]; omega)]

theorem swapPop_perm_tail (h : ids ≠ []) : (swapPop ids).Perm ids.tail := by
  have hperm := swapPop_perm h
  cases ids with
  | nil => exact absurd rfl h
  | cons a l => exact hperm.cons_inv

/-- What `CleanCheckpoint` does when it makes at most one pass. -/
theorem cleanCheckpoint_cases (hfew : ids.length ≤ keep + 1) (hsorted : ids.Pairwise (· < ·)) :
    ids.length ≤ keep ∧ cleanCheckpoint keep ids = ⟨ids, ids.headD 0, []⟩ ∨
      ids.length = keep + 1 ∧
        cleanCheckpoint keep ids = ⟨swapPop ids, ids.getD 1 0, [ids.headD 0]⟩ := by
  have hself : ids.insertionSort (· ≤ ·) = ids := (hsorted.imp Nat.le_of_lt).insertionSort_eq
  obtain hle | hlt := Nat.lt_or_ge keep ids.length |>.symm
  · refine .inl ⟨hle, ?_⟩
    rw [cleanCheckpoint_of_le hle, hself]
  · have hlen : ids.length = keep + 1 := by omega
    refine .inr ⟨hlen, ?_⟩
    rw [cleanCheckpoint, hself, hlen, Nat.add_sub_cancel_left]
    rfl

/-- The back of the vector is a directory that stays. -/
theorem getLastD_mem_keptIds (hkeep : 1 ≤ keep) (hfew : ids.length ≤ keep + 1)
    (hsorted : ids.Pairwise (· < ·)) (hne : ids ≠ []) :
    (cleanCheckpoint keep ids).checkpoints.getLastD 0 ∈ keptIds keep ids := by
  -- both vectors have the ids that stay, in one order or another
  have hperm : (cleanCheckpoint keep ids).checkpoints.Perm (keptIds keep ids) := by
    obtain ⟨hle, heq⟩ | ⟨hlen, heq⟩ := cleanCheckpoint_cases hfew hsorted
    · rw [heq, keptIds_of_le hle]
    · rw [heq, keptIds_of_succ hlen]
      exact swapPop_perm_tail hne
  have hpos : (cleanCheckpoint keep ids).checkpoints ≠ [] := by
    intro hnil
    rw [hnil] at hperm
    have hmem := floorOf_mem hkeep hne
    rw [List.nil_perm.mp hperm] at hmem
    cases hmem
  rw [List.getLastD_eq_getLast?, List.getLast?_eq_getLast_of_ne_nil hpos, Option.getD_some]
  exact hperm.subset (List.getLast_mem hpos)

/-- `oldest_checkpoint_instance_id_` is the floor after `CleanCheckpoint`. -/
theorem cleanCheckpoint_oldest (hfew : ids.length ≤ keep + 1) (hsorted : ids.Pairwise (· < ·)) :
    (cleanCheckpoint keep ids).oldest = floorOf keep ids := by
  obtain ⟨hle, heq⟩ | ⟨hlen, heq⟩ := cleanCheckpoint_cases hfew hsorted
  · rw [heq, floorOf, keptIds_of_le hle]
  · rw [heq, floorOf, keptIds_of_succ hlen]
    cases ids with
    | nil => rfl
    | cons a l => cases l <;> rfl

end Kept

/-! ## What holds of the storage -/

namespace LocalNode

/-- The floor of the node's directories. -/
def floor (C : LocalConfig υ) (s : LocalNode υ) : ℕ := floorOf C.keepCheckpointCount s.ids

/-- The record of an instance holds its chosen value. -/
def Holds (db : DB) (value : ℕ → PaxosValue) (i : ℕ) : Prop :=
  ∃ r, db.get i = some r ∧ r.acceptedValue = value i

/-- What holds of the checkpoint directories in every run. -/
structure Directories (C : LocalConfig υ) (value : ℕ → PaxosValue) (s : LocalNode υ) : Prop where
  /-- They are listed from the oldest to the newest. -/
  sorted : s.ids.Pairwise (· < ·)
  /-- A checkpoint is of an instance. -/
  positive : ∀ c ∈ s.ids, 0 < c
  /-- At most one is too many, and none between two callbacks of the I/O loop. -/
  few : s.ids.length ≤ C.keepCheckpointCount + 1
  running : s.phase = .running → s.ids.length ≤ C.keepCheckpointCount
  /-- The vector of `CleanCheckpoint`: sorted before a pass, and short after it. -/
  cleaning : ∀ v, s.phase = .cleaning v →
    v.length = s.ids.length ∧ (v.length ≤ C.keepCheckpointCount ∨ v = s.ids)
  deleting : ∀ v, s.phase = .deleting v →
    v = s.ids ∧ s.ids.length = C.keepCheckpointCount + 1
  /-- The saved states are those of their instances. -/
  saved : ∀ d ∈ s.dirs, ∀ st, d.2 = some st → st = C.stateAt value d.1
  /-- Files are missing only in the oldest, where it is one too many. -/
  whole : ∀ d ∈ s.dirs, d.2 = none →
    s.ids.length = C.keepCheckpointCount + 1 ∧ d.1 = s.ids.headD 0
  /-- No checkpoint is of an instance to come. -/
  below : ∀ c ∈ s.ids, c ≤ s.instanceId
  /-- The round in progress is newer than the directories. -/
  round : ∀ c st, s.round = some (c, st) →
    st = C.stateAt value c ∧ 0 < c ∧ c < s.instanceId ∧ ∀ i ∈ s.ids, i ≤ c

/-- The log and its cleaning. -/
structure Log (C : LocalConfig υ) (value : ℕ → PaxosValue) (s : LocalNode υ) : Prop where
  /-- Instances are counted from one. -/
  positive : 1 ≤ s.instanceId
  /-- No record is of an instance to come. -/
  keys : ∀ i r, s.db.get i = some r → 1 ≤ i ∧ i ≤ s.instanceId
  /-- The records from the floor on. -/
  covered : ∀ i, s.floor C < i → i < s.instanceId → Holds s.db value i
  /-- There is a record of the present instance or of the last one. -/
  newest : 2 ≤ s.instanceId → ∃ r, s.db.get s.instanceId = some r ∨
    s.db.get (s.instanceId - 1) = some r
  /-- What `GCLoop` reads as the oldest checkpoint is not above the floor. -/
  oldest : s.phase ≠ .crashed → s.oldest ≤ s.floor C
  maxChosen : s.phase ≠ .crashed → s.maxChosenId ≤ s.instanceId
  /-- What `GCLoop` is about to delete. -/
  scanned : ∀ u, s.gc = .scanned u → u ≤ s.floor C + 1 ∧ u + 2 ≤ s.instanceId

/-- What holds in every run. -/
structure Sound (C : LocalConfig υ) (value : ℕ → PaxosValue) (s : LocalNode υ) : Prop where
  /-- The checkpoint directories are in order. -/
  dirs : s.Directories C value
  /-- The log is in order. -/
  log : s.Log C value
  /-- The machines are where live execution brings them. -/
  machines : s.phase ≠ .crashed → s.machines = C.stateAt value (s.instanceId - 1)
  /-- After a crash, the checkpoints are of instances that the node had left. -/
  crashed : s.phase = .crashed → ∀ c ∈ s.ids, c < s.instanceId

variable {C : LocalConfig υ} {value : ℕ → PaxosValue} {s s' : LocalNode υ}
  {dirs : List (ℕ × Option (LocalMachines υ))}

/-- The first process of a node is sound. -/
theorem Sound.fresh (C : LocalConfig υ) (value : ℕ → PaxosValue) : (fresh C).Sound C value where
  dirs :=
    { sorted := List.Pairwise.nil
      positive := fun c hc => absurd hc List.not_mem_nil
      few := Nat.zero_le _
      running := fun _ => Nat.zero_le _
      cleaning := fun v hv => absurd hv (by simp [LocalNode.fresh])
      deleting := fun v hv => absurd hv (by simp [LocalNode.fresh])
      saved := fun d hd => absurd hd List.not_mem_nil
      whole := fun d hd => absurd hd List.not_mem_nil
      below := fun c hc => absurd hc List.not_mem_nil
      round := fun c st h => absurd h (by simp [LocalNode.fresh]) }
  log :=
    { positive := Nat.le_refl 1
      keys := fun i r h => absurd h (by simp [LocalNode.fresh, DB.get])
      covered := fun i hi hlt => absurd hi (by simp only [LocalNode.fresh] at hlt; omega)
      newest := fun h => absurd h (by simp [LocalNode.fresh])
      oldest := fun _ => Nat.zero_le _
      maxChosen := fun _ => Nat.le_refl 1
      scanned := fun u h => absurd h (by simp [LocalNode.fresh]) }
  machines := fun _ => rfl
  crashed := fun h => absurd h (by simp [LocalNode.fresh])

/-! ## The I/O loop -/

/-- Writing the record of the present instance. -/
theorem Sound.put (h : s.Sound C value) (r : PaxosInstance) :
    ({ s with db := s.db.put s.instanceId r } : LocalNode υ).Sound C value where
  dirs := { h.dirs with }
  log :=
    { h.log with
      keys := fun i q hq => by
        by_cases hi : i = s.instanceId
        · exact ⟨hi ▸ h.log.positive, hi.le⟩
        · exact h.log.keys i q (by rwa [DB.get_put_of_ne _ _ hi] at hq)
      covered := fun i hi hlt => by
        obtain ⟨q, hq, hval⟩ := h.log.covered i hi hlt
        exact ⟨q, (DB.get_put_of_ne _ _ (Nat.ne_of_lt hlt)).trans hq, hval⟩
      newest := fun _ => ⟨r, .inl (DB.get_put_self _ _ _)⟩ }
  machines := h.machines
  crashed := h.crashed

/-- Executing the chosen value of the present instance. -/
theorem Sound.execute (h : s.Sound C value) (hrun : s.phase = .running)
    (hrec : Holds s.db value s.instanceId) {round : Option (ℕ × LocalMachines υ)}
    (hround : round = s.round ∨
      round = some (s.instanceId, (C.execute s.instanceId (value s.instanceId) s.machines).2)) :
    ({ s with
        machines := (C.execute s.instanceId (value s.instanceId) s.machines).2
        instanceId := s.instanceId + 1
        maxChosenId := s.instanceId
        round } : LocalNode υ).Sound C value := by
  have hpos := h.log.positive
  have hnew : (C.execute s.instanceId (value s.instanceId) s.machines).2 =
      C.stateAt value s.instanceId := by
    rw [h.machines (by simp [hrun])]
    obtain ⟨n, hn⟩ := Nat.exists_eq_add_of_le' hpos
    rw [hn]
    rfl
  constructor
  · refine { h.dirs with below := ?_, round := ?_ }
    · exact fun c hc => Nat.le_succ_of_le (h.dirs.below c hc)
    · intro c st hst
      obtain rfl | rfl := hround
      · obtain ⟨hval, hc, hlt, hle⟩ := h.dirs.round c st hst
        exact ⟨hval, hc, Nat.lt_succ_of_lt hlt, hle⟩
      · obtain ⟨rfl, rfl⟩ := Prod.mk.inj (Option.some.inj hst)
        exact ⟨hnew, hpos, Nat.lt_succ_self _, h.dirs.below⟩
  · obtain ⟨r, hr, hval⟩ := hrec
    constructor
    · exact Nat.le_succ_of_le hpos
    · exact fun i q hq => ⟨(h.log.keys i q hq).1, Nat.le_succ_of_le (h.log.keys i q hq).2⟩
    · intro i hi hlt
      by_cases heq : i = s.instanceId
      · rw [heq]
        exact ⟨r, hr, hval⟩
      · exact h.log.covered i hi (by dsimp only at hlt; omega)
    · exact fun _ => ⟨r, .inr hr⟩
    · exact h.log.oldest
    · exact fun _ => Nat.le_succ _
    · exact fun u hu => ⟨(h.log.scanned u hu).1, Nat.le_succ_of_le (h.log.scanned u hu).2⟩
  · exact fun _ => hnew
  · exact fun hcr => absurd hcr (by simp [hrun])

/-- Renaming the finished directory. It is newer than the others, or it is there already. -/
theorem Sound.publish (hkeep : 1 ≤ C.keepCheckpointCount) (h : s.Sound C value)
    (hrun : s.phase = .running) {c : ℕ} {st : LocalMachines υ} (hround : s.round = some (c, st))
    {latest : ℕ} (hdirs : dirs = s.dirs ∨ c ∉ s.ids ∧ dirs = s.dirs ++ [(c, some st)]) :
    ({ s with
        dirs, latest, round := none
        phase := .cleaning ((dirs.map Prod.fst).insertionSort (· ≤ ·))
        oldest := ((dirs.map Prod.fst).insertionSort (· ≤ ·)).headD 0 } : LocalNode υ).Sound C
      value := by
  obtain ⟨hval, hpos, hlt, hle⟩ := h.dirs.round c st hround
  have hfew := h.dirs.running hrun
  have hnewer : c ∉ s.ids → ∀ i ∈ s.ids, i < c := fun hnew i hi =>
    lt_of_le_of_ne (hle i hi) fun heq => hnew (heq ▸ hi)
  -- the ids are sorted, with the new one at the end
  have hsorted : (dirs.map Prod.fst).Pairwise (· < ·) := by
    obtain rfl | ⟨hnew, rfl⟩ := hdirs
    · exact h.dirs.sorted
    · rw [List.map_append, List.map_singleton, List.pairwise_append]
      refine ⟨h.dirs.sorted, List.pairwise_singleton _ _, fun i hi j hj => ?_⟩
      rw [List.mem_singleton.mp hj]
      exact hnewer hnew i hi
  have hself : (dirs.map Prod.fst).insertionSort (· ≤ ·) = dirs.map Prod.fst :=
    (hsorted.imp Nat.le_of_lt).insertionSort_eq
  have hmem : ∀ i ∈ dirs.map Prod.fst, i ∈ s.ids ∨ i = c := by
    obtain rfl | ⟨-, rfl⟩ := hdirs
    · exact fun i hi => .inl hi
    · intro i hi
      rwa [List.map_append, List.map_singleton, List.mem_append, List.mem_singleton] at hi
  have hlen : (dirs.map Prod.fst).length ≤ C.keepCheckpointCount + 1 := by
    obtain rfl | ⟨-, rfl⟩ := hdirs
    · exact Nat.le_succ_of_le hfew
    · rw [List.map_append, List.length_append]
      exact Nat.succ_le_succ hfew
  have hfloor : s.floor C ≤ floorOf C.keepCheckpointCount (dirs.map Prod.fst) := by
    obtain rfl | ⟨hnew, rfl⟩ := hdirs
    · exact Nat.le_refl _
    · rw [List.map_append, List.map_singleton]
      exact floorOf_append hkeep hfew h.dirs.sorted (hnewer hnew)
  rw [hself]
  constructor
  · constructor
    · exact hsorted
    · exact fun i hi => (hmem i hi).elim (h.dirs.positive i) fun heq => heq ▸ hpos
    · exact hlen
    · exact fun hr => absurd hr (by simp)
    · intro v hv
      obtain rfl := Phase.cleaning.inj hv
      exact ⟨rfl, .inr rfl⟩
    · exact fun v hv => absurd hv (by simp)
    · intro d hd st' hst'
      obtain rfl | ⟨-, rfl⟩ := hdirs
      · exact h.dirs.saved d hd st' hst'
      · obtain hd | hd := List.mem_append.mp hd
        · exact h.dirs.saved d hd st' hst'
        · obtain rfl := List.mem_singleton.mp hd
          exact (Option.some.inj hst').symm.trans hval
    · intro d hd hnone
      have hold : d ∈ s.dirs := by
        obtain rfl | ⟨-, rfl⟩ := hdirs
        · exact hd
        · refine (List.mem_append.mp hd).resolve_right fun hd => ?_
          obtain rfl := List.mem_singleton.mp hd
          cases hnone
      have := (h.dirs.whole d hold hnone).1
      omega
    · exact fun i hi => (hmem i hi).elim (h.dirs.below i) fun heq => heq ▸ hlt.le
    · exact fun c' st' hst' => absurd hst' (by simp)
  · refine { h.log with covered := ?_, oldest := ?_, maxChosen := ?_, scanned := ?_ }
    · exact fun i hi hlt => h.log.covered i (lt_of_le_of_lt hfloor hi) hlt
    · intro _
      -- the front is the smallest id, and so not above the floor
      change (dirs.map Prod.fst).headD 0 ≤ floorOf C.keepCheckpointCount (dirs.map Prod.fst)
      by_cases hnil : dirs.map Prod.fst = []
      · rw [hnil]
        exact Nat.zero_le _
      · have hfl : floorOf C.keepCheckpointCount (dirs.map Prod.fst) ∈ dirs.map Prod.fst :=
          List.mem_of_mem_drop (floorOf_mem hkeep hnil)
        exact headD_le_of_mem (hsorted.imp Nat.le_of_lt) hfl
    · exact fun _ => h.log.maxChosen (by simp [hrun])
    · exact fun u hu => ⟨(h.log.scanned u hu).1.trans (Nat.succ_le_succ hfloor),
        (h.log.scanned u hu).2⟩
  · exact fun _ => h.machines (by simp [hrun])
  · exact fun hcr => absurd hcr (by simp)

/-- The test of the loop of `CleanCheckpoint` ends it. -/
theorem Sound.cleanEnd (h : s.Sound C value) {v : List ℕ} (hphase : s.phase = .cleaning v)
    (hle : v.length ≤ C.keepCheckpointCount) :
    ({ s with phase := .running } : LocalNode υ).Sound C value where
  dirs :=
    { h.dirs with
      running := fun _ => (h.dirs.cleaning v hphase).1 ▸ hle
      cleaning := fun _ hv => absurd hv (by simp)
      deleting := fun _ hv => absurd hv (by simp) }
  log :=
    { h.log with
      oldest := fun _ => h.log.oldest (by simp [hphase])
      maxChosen := fun _ => h.log.maxChosen (by simp [hphase]) }
  machines := fun _ => h.machines (by simp [hphase])
  crashed := fun hcr => absurd hcr (by simp)

/-- The test of the loop of `CleanCheckpoint` begins a pass. -/
theorem Sound.cleanPass (h : s.Sound C value) {v : List ℕ} (hphase : s.phase = .cleaning v)
    (hlt : C.keepCheckpointCount < v.length) :
    ({ s with phase := .deleting v, oldest := v.getD 1 0 } : LocalNode υ).Sound C value := by
  obtain ⟨hlen, hshort⟩ := h.dirs.cleaning v hphase
  obtain rfl : v = s.ids := hshort.resolve_left (by omega)
  have hmany : s.ids.length = C.keepCheckpointCount + 1 := by
    have := h.dirs.few
    omega
  constructor
  · refine { h.dirs with running := ?_, cleaning := ?_, deleting := ?_ }
    · exact fun hr => absurd hr (by simp)
    · exact fun v hv => absurd hv (by simp)
    · intro v hv
      obtain rfl := Phase.deleting.inj hv
      exact ⟨rfl, hmany⟩
  · refine { h.log with oldest := ?_, maxChosen := ?_ }
    · intro _
      change s.ids.getD 1 0 ≤ floorOf C.keepCheckpointCount s.ids
      rw [floorOf, keptIds_of_succ hmany]
      cases s.ids with
      | nil => exact Nat.le_refl _
      | cons a l => cases l <;> exact Nat.le_refl _
    · exact fun _ => h.log.maxChosen (by simp [hphase])
  · exact fun _ => h.machines (by simp [hphase])
  · exact fun hcr => absurd hcr (by simp)

/-- What holds depends on the directories only through their ids and the states in them. -/
theorem Sound.of_ids (h : s.Sound C value) (hids : dirs.map Prod.fst = s.ids)
    (hsaved : ∀ d ∈ dirs, ∀ st, d.2 = some st → st = C.stateAt value d.1)
    (hwhole : ∀ d ∈ dirs, d.2 = none →
      s.ids.length = C.keepCheckpointCount + 1 ∧ d.1 = s.ids.headD 0) :
    ({ s with dirs } : LocalNode υ).Sound C value := by
  generalize ht : ({ s with dirs } : LocalNode υ) = t
  have hi : t.ids = s.ids := ht ▸ hids
  have hf : t.floor C = s.floor C := by rw [floor, floor, hi]
  obtain rfl := ht
  constructor
  · constructor
    · exact hi ▸ h.dirs.sorted
    · exact hi ▸ h.dirs.positive
    · exact hi ▸ h.dirs.few
    · rw [hi]
      exact h.dirs.running
    · rw [hi]
      exact h.dirs.cleaning
    · rw [hi]
      exact h.dirs.deleting
    · exact hsaved
    · rw [hi]
      exact hwhole
    · rw [hi]
      exact h.dirs.below
    · rw [hi]
      exact h.dirs.round
  · refine { h.log with covered := ?_, oldest := ?_, scanned := ?_ }
    · rw [hf]
      exact h.log.covered
    · rw [hf]
      exact h.log.oldest
    · rw [hf]
      exact h.log.scanned
  · exact h.machines
  · rw [hi]
    exact h.crashed

/-- Deleting files of the oldest directory, where it is one too many. -/
theorem Sound.loseFiles (h : s.Sound C value)
    (hmany : s.ids.length = C.keepCheckpointCount + 1) :
    ({ s with
        dirs := s.dirs.map fun d => if d.1 = s.ids.headD 0 then (d.1, none) else d } :
      LocalNode υ).Sound C value := by
  refine h.of_ids ?_ (fun d hd st hst => ?_) fun d hd hnone => ?_
  · rw [List.map_map]
    refine List.map_congr_left fun d _ => ?_
    rw [Function.comp_apply]
    split <;> rfl
  · obtain ⟨d₀, hd₀, rfl⟩ := List.mem_map.mp hd
    split at hst
    · cases hst
    case isFalse hne =>
      rw [if_neg hne]
      exact h.dirs.saved d₀ hd₀ st hst
  · obtain ⟨d₀, hd₀, rfl⟩ := List.mem_map.mp hd
    split at hnone
    case isTrue heq =>
      rw [if_pos heq]
      exact ⟨hmany, heq⟩
    case isFalse hne =>
      rw [if_neg hne]
      exact h.dirs.whole d₀ hd₀ hnone

/-- Without the directory of the front, the directories are those of the tail. -/
theorem filter_ne_headD (h : s.ids.Pairwise (· < ·)) :
    s.dirs.filter (fun d => d.1 ≠ s.ids.headD 0) = s.dirs.tail := by
  unfold ids at h ⊢
  generalize s.dirs = dirs at h ⊢
  cases dirs with
  | nil => rfl
  | cons d l =>
    rw [List.map_cons, List.headD_cons, List.filter_cons_of_neg (by simp), List.tail_cons]
    rw [List.map_cons, List.pairwise_cons] at h
    refine List.filter_eq_self.mpr fun d' hd' => ?_
    have := h.1 d'.1 (List.mem_map_of_mem hd')
    simp only [ne_eq, decide_not, Bool.not_eq_true', decide_eq_false_iff_not]
    omega

/-- Deleting the oldest directory, where it is one too many. The I/O loop is then again before the
test of the loop, or the process has ended. -/
theorem Sound.dropOldest (hkeep : 1 ≤ C.keepCheckpointCount) (h : s.Sound C value)
    (hmany : s.ids.length = C.keepCheckpointCount + 1) {p : Phase}
    (hphase : s.phase ≠ .crashed ∧ p = .cleaning (swapPop s.ids) ∨
      s.phase = .crashed ∧ p = .crashed) :
    ({ s with dirs := s.dirs.filter fun d => d.1 ≠ s.ids.headD 0, phase := p } :
      LocalNode υ).Sound C value := by
  rw [filter_ne_headD h.dirs.sorted]
  generalize ht : ({ s with dirs := s.dirs.tail, phase := p } : LocalNode υ) = t
  have hi : t.ids = s.ids.tail := ht ▸ List.map_tail
  have hf : t.floor C = s.floor C := by rw [floor, floor, hi, floorOf_tail hmany]
  have hlen : t.ids.length = C.keepCheckpointCount := by
    rw [hi, List.length_tail]
    omega
  have hsub : t.ids ⊆ s.ids := hi ▸ List.tail_subset _
  obtain rfl := ht
  have hlive : p ≠ .crashed → s.phase ≠ .crashed := fun hp =>
    hphase.elim And.left fun hcr => absurd hcr.2 hp
  constructor
  · constructor
    · exact hi ▸ h.dirs.sorted.tail
    · exact fun c hc => h.dirs.positive c (hsub hc)
    · omega
    · exact fun _ => hlen.le
    · rintro v (rfl : p = _)
      obtain ⟨-, hv⟩ | ⟨-, hv⟩ := hphase
      · obtain rfl := Phase.cleaning.inj hv
        have hne : s.ids ≠ [] := List.ne_nil_of_length_pos (by omega)
        have hperm := (swapPop_perm_tail hne).length_eq
        rw [hi]
        rw [hi] at hlen
        exact ⟨hperm, .inl (by omega)⟩
      · cases hv
    · rintro v (rfl : p = _)
      obtain ⟨-, hv⟩ | ⟨-, hv⟩ := hphase <;> cases hv
    · exact fun d hd => h.dirs.saved d (List.mem_of_mem_tail hd)
    · intro d hd hnone
      -- only the front misses files, and the front is not in the tail
      have hhead := (h.dirs.whole d (List.mem_of_mem_tail hd) hnone).2
      have hmem : d.1 ∈ s.ids.tail := by
        rw [← hi]
        exact List.mem_map_of_mem hd
      have hsorted := h.dirs.sorted
      generalize s.ids = l at hhead hmem hsorted
      cases l with
      | nil => cases hmem
      | cons a l =>
        have := (List.pairwise_cons.mp hsorted).1 d.1 hmem
        rw [List.headD_cons] at hhead
        omega
    · exact fun c hc => h.dirs.below c (hsub hc)
    · intro c st hst
      obtain ⟨hval, hpos, hlt, hle⟩ := h.dirs.round c st hst
      exact ⟨hval, hpos, hlt, fun i hi => hle i (hsub hi)⟩
  · refine { h.log with covered := ?_, oldest := ?_, maxChosen := ?_, scanned := ?_ }
    · rw [hf]
      exact h.log.covered
    · rw [hf]
      exact fun hp => h.log.oldest (hlive hp)
    · exact fun hp => h.log.maxChosen (hlive hp)
    · rw [hf]
      exact h.log.scanned
  · exact fun hp => h.machines (hlive hp)
  · intro hp c hc
    have hcr : s.phase = .crashed := by
      obtain ⟨-, hv⟩ | ⟨hcr, -⟩ := hphase
      · rw [hv] at hp
        cases hp
      · exact hcr
    exact h.crashed hcr c (hsub hc)

/-! ## The clean loop -/

/-- The scan stops at the oldest checkpoint and leaves as many records as are to be kept. -/
theorem scan_le {keep maxChosenId oldest : ℕ} (n m : ℕ)
    (h : LogCleaner.scan keep maxChosenId (oldest + 1) n m ≠ m) :
    LogCleaner.scan keep maxChosenId (oldest + 1) n m ≤ oldest + 1 ∧
      LogCleaner.scan keep maxChosenId (oldest + 1) n m + keep ≤ maxChosenId := by
  induction n generalizing m with
  | zero => exact absurd rfl h
  | succ n ih =>
    rw [LogCleaner.scan] at h ⊢
    split at h
    case isTrue hpass =>
      rw [if_pos hpass]
      by_cases hstop : LogCleaner.scan keep maxChosenId (oldest + 1) n (m + 1) = m + 1
      · rw [hstop]
        omega
      · exact ih (m + 1) hstop
    case isFalse => exact absurd rfl h

/-- The scan of `GCLoop` stops below what is needed after the oldest kept checkpoint. -/
theorem Sound.gcScan (hkeep : 2 ≤ C.keepLogCount) (h : s.Sound C value) (hlive : s.phase ≠ .crashed)
    {maxChosenId oldest : ℕ} (hmax : maxChosenId ≤ s.maxChosenId) (hold : oldest ≤ s.oldest)
    (hnew : LogCleaner.scan C.keepLogCount maxChosenId (oldest + 1) maxChosenId s.minChosenId ≠
      s.minChosenId) :
    ({ s with
        gc := .scanned (LogCleaner.scan C.keepLogCount maxChosenId (oldest + 1) maxChosenId
          s.minChosenId) } : LocalNode υ).Sound C value where
  dirs := { h.dirs with }
  log :=
    { h.log with
      scanned := fun u hu => by
        obtain rfl := GCPhase.scanned.inj hu
        obtain ⟨hle, hkept⟩ := scan_le _ _ hnew
        have hfloor := h.log.oldest hlive
        have hinst := h.log.maxChosen hlive
        exact ⟨by change _ ≤ s.floor C + 1; omega, by dsimp only; omega⟩ }
  machines := h.machines
  crashed := h.crashed

/-- Writing the batch of `GCLoop` keeps the node sound. -/
theorem Sound.gcDelete (h : s.Sound C value) {u : ℕ} (hgc : s.gc = .scanned u) :
    ({ s with db := s.db.deleteRange s.minChosenId u, gc := .deleted u } : LocalNode υ).Sound C
      value := by
  obtain ⟨hle, hinst⟩ := h.log.scanned u hgc
  -- what is deleted is not above the floor, and not one of the two newest
  have hkept : ∀ i, u ≤ i → (s.db.deleteRange s.minChosenId u).get i = s.db.get i := fun i hi => by
    rw [DB.get_deleteRange, if_pos (.inr hi)]
  refine ⟨{ h.dirs with }, { h.log with keys := ?_, covered := ?_, newest := ?_, scanned := ?_ },
    h.machines, h.crashed⟩
  · intro i r hr
    dsimp only at hr
    rw [DB.get_deleteRange] at hr
    split at hr
    · exact h.log.keys i r hr
    · cases hr
  · intro i hi hlt
    obtain ⟨r, hr, hval⟩ := h.log.covered i hi hlt
    have hu : u ≤ i := le_trans hle hi
    exact ⟨r, (hkept i hu).trans hr, hval⟩
  · intro htwo
    obtain ⟨r, hr⟩ := h.log.newest htwo
    refine ⟨r, ?_⟩
    dsimp only
    rwa [hkept _ (by omega), hkept _ (by omega)]
  · exact fun u' hu' => absurd hu' (by simp)

theorem Sound.gcSetMin (h : s.Sound C value) (u : ℕ) :
    ({ s with db := { s.db with minChosen := some u }, minChosenId := u, gc := .idle } :
      LocalNode υ).Sound C value where
  dirs := { h.dirs with }
  log := { h.log with scanned := fun u' hu' => absurd hu' (by simp) }
  machines := h.machines
  crashed := h.crashed

/-! ## A crash and recovery -/

/-- The process ends, with checkpoints that are behind it. -/
theorem Sound.crash (h : s.Sound C value) (hbehind : ∀ c ∈ s.ids, c < s.instanceId) :
    ({ s with phase := .crashed, gc := .idle, round := none } : LocalNode υ).Sound C value where
  dirs :=
    { h.dirs with
      running := fun hp => absurd hp (by simp)
      cleaning := fun v hp => absurd hp (by simp)
      deleting := fun v hp => absurd hp (by simp)
      round := fun c st hst => absurd hst (by simp) }
  log :=
    { h.log with
      oldest := fun hp => absurd rfl hp
      maxChosen := fun hp => absurd rfl hp
      scanned := fun u hu => absurd hu (by simp) }
  machines := fun hp => absurd rfl hp
  crashed := fun _ => hbehind

/-- A new process that ends in `CleanCheckpoint` leaves the directories as they were, without some
files of the oldest, or without the oldest. -/
theorem Sound.crashInRecover (hkeep : 1 ≤ C.keepCheckpointCount) (h : s.Sound C value)
    (hcr : s.phase = .crashed) {passes : ℕ} {partly : Bool}
    (hle : passes + (if partly then 1 else 0) ≤ s.ids.length - C.keepCheckpointCount) :
    ({ s with dirs := s.partlyCleaned passes partly } : LocalNode υ).Sound C value := by
  have hself : s.ids.insertionSort (· ≤ ·) = s.ids :=
    (h.dirs.sorted.imp Nat.le_of_lt).insertionSort_eq
  have hfew := h.dirs.few
  have hdirs : s.partlyCleaned passes partly = s.dirs ∨
      s.ids.length = C.keepCheckpointCount + 1 ∧
        (s.partlyCleaned passes partly =
            s.dirs.map (fun d => if d.1 = s.ids.headD 0 then (d.1, none) else d) ∨
          s.partlyCleaned passes partly = s.dirs.filter fun d => d.1 ≠ s.ids.headD 0) := by
    unfold partlyCleaned
    rw [hself]
    cases partly with
    | true =>
      obtain rfl : passes = 0 := by simp at hle; omega
      refine .inr ⟨by simp at hle; omega, .inl ?_⟩
      simp [CleanState.loop]
    | false =>
      obtain rfl | rfl : passes = 0 ∨ passes = 1 := by simp at hle; omega
      · refine .inl ?_
        simp [CleanState.loop]
      · refine .inr ⟨by simp at hle; omega, .inr ?_⟩
        simp [CleanState.loop]
  obtain heq | ⟨hmany, heq | heq⟩ := hdirs <;> rw [heq]
  · exact h
  · exact h.loseFiles hmany
  · have hdrop := h.dropOldest hkeep hmany (.inr ⟨hcr, rfl⟩)
    rwa [← hcr] at hdrop

/-- Replaying records that hold the chosen values executes these. -/
theorem replayLog_eq (db : DB) (n k : ℕ) (h : ∀ i, k < i → i ≤ k + n → Holds db value i) :
    replayLog C db n (k + 1) (C.stateAt value k) = some (C.stateAt value (k + n)) := by
  induction n generalizing k with
  | zero => rfl
  | succ n ih =>
    obtain ⟨r, hr, hval⟩ := h (k + 1) (Nat.lt_succ_self k) (by omega)
    simp only [replayLog, hr, hval]
    have hrest := ih (k + 1) fun i hi hle => h i (by omega) (by omega)
    have hsum : k + 1 + n = k + (n + 1) := by omega
    rw [hsum] at hrest
    exact hrest

/-- The acceptor reads the newest record, which is of the present instance or of the one before. -/
theorem Log.readFromDB (h : s.Log C value) :
    ∃ a, Acceptor.readFromDB s.db = some a ∧ a.instanceId ≤ s.instanceId ∧
      (∀ i r, s.db.get i = some r → i ≤ a.instanceId) ∧
      (2 ≤ s.instanceId →
        s.instanceId ≤ a.instanceId + 1 ∧ ∃ r, s.db.get a.instanceId = some r) := by
  unfold Acceptor.readFromDB
  cases hmax : s.db.getMaxInstanceId with
  | none =>
    have hnone := DB.getMaxInstanceId_eq_none hmax
    refine ⟨{}, rfl, Nat.zero_le _, fun i r hr => absurd hr (by simp [hnone i]), fun htwo => ?_⟩
    obtain ⟨r, hr | hr⟩ := h.newest htwo <;> simp [hnone] at hr
  | some m =>
    obtain ⟨⟨r, hr⟩, hle⟩ := DB.getMaxInstanceId_eq_some hmax
    simp only [hr]
    refine ⟨_, rfl, (h.keys m r hr).2, hle, fun htwo => ⟨?_, r, hr⟩⟩
    obtain ⟨q, hq | hq⟩ := h.newest htwo
    · exact Nat.le_succ_of_le (hle _ q hq)
    · have := hle _ q hq
      dsimp only
      omega

/-- The directories after `CleanCheckpoint` of `Recover`: those that stay. -/
theorem Sound.cleaned (hkeep : 1 ≤ C.keepCheckpointCount) (h : s.Sound C value)
    (hcr : s.phase = .crashed) (hdirs : dirs = s.dirs.filter fun d =>
      d.1 ∉ (cleanCheckpoint C.keepCheckpointCount s.ids).deleted) :
    ({ s with dirs } : LocalNode υ).Sound C value ∧
      dirs.map Prod.fst = keptIds C.keepCheckpointCount s.ids ∧
      dirs.length ≤ C.keepCheckpointCount := by
  obtain ⟨hle, heq⟩ | ⟨hmany, heq⟩ := cleanCheckpoint_cases h.dirs.few h.dirs.sorted
  · have hall : dirs = s.dirs := by
      rw [hdirs, heq]
      exact List.filter_eq_self.mpr fun d _ => by simp
    rw [hall, keptIds_of_le hle]
    exact ⟨h, rfl, by rwa [ids, List.length_map] at hle⟩
  · have htail : dirs = s.dirs.filter fun d => d.1 ≠ s.ids.headD 0 := by
      rw [hdirs, heq]
      simp
    have hdrop := h.dropOldest hkeep hmany (.inr ⟨hcr, rfl⟩)
    rw [← htail, ← hcr] at hdrop
    have hids : dirs.map Prod.fst = s.ids.tail := by
      rw [htail, filter_ne_headD h.dirs.sorted, List.map_tail]
      rfl
    refine ⟨hdrop, by rw [hids, keptIds_of_succ hmany], ?_⟩
    rw [← List.length_map (f := Prod.fst), hids, List.length_tail]
    omega

/-- The checkpoint that is restored: its machines are those of its instance, and it is not below the
floor. -/
theorem Sound.restore (hkeep : 1 ≤ C.keepCheckpointCount) (h : s.Sound C value)
    (hcr : s.phase = .crashed) {latest : ℕ}
    (hlatest : latest = (cleanCheckpoint C.keepCheckpointCount s.ids).checkpoints.getLastD 0)
    (hdirs : dirs = s.dirs.filter fun d =>
      d.1 ∉ (cleanCheckpoint C.keepCheckpointCount s.ids).deleted) :
    LocalNode.restore C latest dirs = some (C.stateAt value latest) ∧ s.floor C ≤ latest ∧
      latest < s.instanceId := by
  by_cases hnil : s.ids = []
  · have hzero : latest = 0 := by
      rw [hlatest, hnil, cleanCheckpoint_of_le (Nat.zero_le _)]
      rfl
    subst hzero
    refine ⟨by simp [LocalNode.restore, LocalConfig.stateAt], ?_, h.log.positive⟩
    rw [floor, hnil, floorOf, keptIds_of_le (Nat.zero_le _)]
    exact Nat.le_refl _
  · obtain ⟨hclean, hkept, hfew⟩ := h.cleaned hkeep hcr hdirs
    have hmem := getLastD_mem_keptIds hkeep h.dirs.few h.dirs.sorted hnil
    rw [← hlatest] at hmem
    refine ⟨?_, floorOf_le h.dirs.sorted hmem, h.crashed hcr latest (List.mem_of_mem_drop hmem)⟩
    rw [← hkept] at hmem
    have hpos := hclean.dirs.positive latest hmem
    -- its directory is there, and no files are missing where none is one too many
    unfold LocalNode.restore
    rw [if_neg (by omega)]
    cases hlook : dirs.lookup latest with
    | none =>
      obtain ⟨d, hd, rfl⟩ := List.mem_map.mp hmem
      exact absurd (List.lookup_eq_none_iff.mp hlook d hd) (by simp)
    | some saved =>
      obtain ⟨l₁, l₂, hsplit, -⟩ := List.lookup_eq_some_iff.mp hlook
      have hd : (latest, saved) ∈ dirs := by rw [hsplit]; simp
      cases saved with
      | none =>
        have hlen := (hclean.dirs.whole _ hd rfl).1
        rw [ids, List.length_map] at hlen
        exact absurd hlen (by dsimp only; omega)
      | some st => exact congrArg some (hclean.dirs.saved _ hd st rfl)

/-- A new process recovers at the instance of the process before it or the one before that, with the
machines where live execution brings them. -/
theorem Sound.recover (hkeep : 1 ≤ C.keepCheckpointCount) (h : s.Sound C value)
    (hcr : s.phase = .crashed) :
    ∃ s', s.recover C = some s' ∧ s'.phase = .running ∧ s'.Sound C value ∧
      (s'.instanceId = s.instanceId ∨ s'.instanceId + 1 = s.instanceId) := by
  unfold LocalNode.recover
  dsimp only
  rw [cleanCheckpoint_oldest h.dirs.few h.dirs.sorted]
  generalize hlatest :
    (cleanCheckpoint C.keepCheckpointCount s.ids).checkpoints.getLastD 0 = latest
  generalize hdirs : (s.dirs.filter fun d =>
    d.1 ∉ (cleanCheckpoint C.keepCheckpointCount s.ids).deleted) = dirs
  obtain ⟨hrestore, hfloor, hlt⟩ := h.restore hkeep hcr hlatest.symm hdirs.symm
  obtain ⟨hclean, hkept, hfew⟩ := h.cleaned hkeep hcr hdirs.symm
  obtain ⟨a, hread, hale, hmax, hnewest⟩ := h.log.readFromDB
  have hpos := h.log.positive
  -- Every record between the checkpoint and the newest one is there to be replayed.
  have hreplay := replayLog_eq (C := C) s.db (a.instanceId - (latest + 1)) latest
    fun i hi hle => h.log.covered i (lt_of_le_of_lt hfloor hi) (by omega)
  have hinst : latest + (a.instanceId - (latest + 1)) = max (latest + 1) a.instanceId - 1 := by
    omega
  rw [hinst] at hreplay
  rw [hrestore, Option.bind_some, hread, Option.bind_some, hreplay, Option.map_some]
  -- The newest record is of the last process's instance or of the one before it.
  have hk : max (latest + 1) a.instanceId = s.instanceId ∨
      max (latest + 1) a.instanceId + 1 = s.instanceId := by
    by_cases htwo : 2 ≤ s.instanceId
    · have := (hnewest htwo).1
      omega
    · omega
  refine ⟨_, rfl, rfl, ?_, hk⟩
  have hak : a.instanceId ≤ max (latest + 1) a.instanceId := Nat.le_max_right _ _
  have hkpos : 1 ≤ max (latest + 1) a.instanceId := by omega
  generalize max (latest + 1) a.instanceId = k at hk hak hkpos
  have hfl : floorOf C.keepCheckpointCount (dirs.map Prod.fst) = s.floor C := by
    rw [floorOf, keptIds_of_le (by rwa [List.length_map]), hkept]
    rfl
  have hbelow := hclean.crashed hcr
  constructor
  · refine { hclean.dirs with
      running := ?_, cleaning := ?_, deleting := ?_, below := ?_, round := ?_ }
    · intro _
      rwa [ids, List.length_map]
    · exact fun v hv => absurd hv (by simp)
    · exact fun v hv => absurd hv (by simp)
    · intro c hc
      have := hbelow c hc
      dsimp only at this ⊢
      omega
    · exact fun c st hst => absurd hst (by simp)
  · constructor
    · exact hkpos
    · exact fun i r hr => ⟨(h.log.keys i r hr).1, (hmax i r hr).trans hak⟩
    · intro i hi hik
      rw [floor, ids, hfl] at hi
      dsimp only at hik
      exact h.log.covered i hi (by omega)
    · intro htwo
      dsimp only at htwo ⊢
      obtain ⟨hge, r, hr⟩ := hnewest (by omega)
      obtain heq | heq : a.instanceId = k ∨ a.instanceId = k - 1 := by omega
      · exact ⟨r, .inl (heq ▸ hr)⟩
      · exact ⟨r, .inr (heq ▸ hr)⟩
    · exact fun _ => hfl.ge
    · exact fun _ => Nat.le_refl k
    · exact fun u hu => absurd hu (by simp)
  · exact fun _ => rfl
  · exact fun hp => absurd hp (by simp)

/-! ## Runs -/

/-- A step keeps what holds, when no checkpoint is of the present instance at a crash. -/
theorem Sound.step (hkeep : 1 ≤ C.keepCheckpointCount) (hlog : 2 ≤ C.keepLogCount)
    (h : s.Sound C value) {a : LocalLabel}
    (hcrash : a = .crash → ∀ c ∈ s.ids, c < s.instanceId)
    (hs : LocalNode.step C value s a = some s') : s'.Sound C value := by
  cases a with
  | put r =>
    obtain ⟨-, hs⟩ := Option.ite_none_right_eq_some.mp hs
    obtain rfl := Option.some.inj hs
    exact h.put r
  | execute drawn =>
    -- The draw of the machine manager decides whether the instance starts a checkpoint.
    obtain ⟨⟨hrun, -, hval⟩, hs⟩ := Option.ite_none_right_eq_some.mp hs
    obtain rfl := Option.some.inj hs
    refine h.execute hrun (Option.map_eq_some_iff.mp hval) ?_
    split
    · exact .inr rfl
    · exact .inl rfl
  | publish =>
    simp only [LocalNode.step] at hs
    split at hs
    · cases hs
    case h_2 c saved hround =>
      obtain ⟨hrun, hs⟩ := Option.ite_none_right_eq_some.mp hs
      obtain rfl := Option.some.inj hs
      split
      · exact h.publish hkeep hrun hround (.inl rfl)
      case isFalse hnew => exact h.publish hkeep hrun hround (.inr ⟨hnew, rfl⟩)
  | cleanNext =>
    simp only [LocalNode.step] at hs
    split at hs
    case h_1 v hphase =>
      split at hs
      case isTrue hlt =>
        obtain rfl := Option.some.inj hs
        exact h.cleanPass hphase hlt
      case isFalse hle =>
        obtain rfl := Option.some.inj hs
        exact h.cleanEnd hphase (Nat.le_of_not_lt hle)
    case h_2 => cases hs
  | deleteFiles =>
    simp only [LocalNode.step] at hs
    split at hs
    case h_1 v hphase =>
      obtain ⟨rfl, hmany⟩ := h.dirs.deleting v hphase
      obtain rfl := Option.some.inj hs
      exact h.loseFiles hmany
    case h_2 => cases hs
  | deleteDir =>
    simp only [LocalNode.step] at hs
    split at hs
    case h_1 v hphase =>
      obtain ⟨rfl, hmany⟩ := h.dirs.deleting v hphase
      obtain rfl := Option.some.inj hs
      exact h.dropOldest hkeep hmany (.inl ⟨by simp [hphase], rfl⟩)
    case h_2 => cases hs
  | gcScan maxChosenId oldest =>
    obtain ⟨⟨hlive, -, hmax, hold, hnew⟩, hs⟩ := Option.ite_none_right_eq_some.mp hs
    obtain rfl := Option.some.inj hs
    exact h.gcScan hlog hlive hmax hold hnew
  | gcDelete =>
    simp only [LocalNode.step] at hs
    split at hs
    case h_1 u hgc =>
      obtain rfl := Option.some.inj hs
      exact h.gcDelete hgc
    case h_2 => cases hs
  | gcSetMin =>
    simp only [LocalNode.step] at hs
    split at hs
    case h_1 u hgc =>
      obtain rfl := Option.some.inj hs
      exact h.gcSetMin u
    case h_2 => cases hs
  | crash =>
    obtain rfl := Option.some.inj hs
    exact h.crash (hcrash rfl)
  | recover =>
    obtain ⟨hcr, hs⟩ := Option.ite_none_right_eq_some.mp hs
    obtain ⟨t, ht, -, hsound, -⟩ := h.recover hkeep hcr
    obtain rfl : t = s' := Option.some.inj (ht.symm.trans hs)
    exact hsound
  | crashInRecover passes partly =>
    obtain ⟨⟨hcr, hle⟩, hs⟩ := Option.ite_none_right_eq_some.mp hs
    obtain rfl := Option.some.inj hs
    exact h.crashInRecover hkeep hcr hle

end LocalNode

/-- **A restart resumes live execution.** Whenever the process has ended, a new one recovers; it
resumes at the instance `k` at which the process before it was, or at `k - 1`, and the machines are
then as live execution brings them there. -/
theorem restart_resumes {C : LocalConfig υ} {value : ℕ → PaxosValue}
    (hkeep : 1 ≤ C.keepCheckpointCount) (hlog : 2 ≤ C.keepLogCount) {s : LocalNode υ}
    (hs : Reaches (LocalNode.step C value)
      (fun s a => a = .crash → ∀ c ∈ s.ids, c < s.instanceId) (LocalNode.fresh C) s)
    (hcr : s.phase = .crashed) :
    ∃ s', s.recover C = some s' ∧
      (s'.instanceId = s.instanceId ∨ s'.instanceId + 1 = s.instanceId) ∧
      s'.machines = C.stateAt value (s'.instanceId - 1) := by
  have hsound : s.Sound C value :=
    hs.invariant (LocalNode.Sound.fresh C value) fun _ _ _ h hok hstep =>
      h.step hkeep hlog hok hstep
  obtain ⟨s', hrec, hrun, hsound', hk⟩ := hsound.recover hkeep hcr
  exact ⟨s', hrec, hk, hsound'.machines (by simp [hrun])⟩

/-- Two checkpoints and two records are kept, and one machine adds up the instances it executes. -/
def summingConfig : LocalConfig ℕ where
  keepCheckpointCount := 2
  keepLogCount := 2
  codec := .empty
  initial := { membership := { members := [], nodup := List.nodup_nil }, users := 0 }
  userExecute _ instanceId _ sum := (true, sum + instanceId)

/-- The values of the instances, for the user's machine. -/
def summingValue (instanceId : ℕ) : PaxosValue := { valueId := instanceId, machineId := 5 }

/-- The record of an instance is written, and its value executed. -/
def executeInstance (instanceId : ℕ) : List LocalLabel :=
  [.put { instanceId, acceptedValue := summingValue instanceId }, .execute 1]

/-- Checkpoints of the instances 2, 4 and 6. The process ends when the third directory has been
renamed, before `CleanCheckpoint` deletes the first. -/
def endedInClean : List LocalLabel :=
  executeInstance 1 ++ executeInstance 2 ++ [.publish, .cleanNext] ++
    executeInstance 3 ++ executeInstance 4 ++ [.publish, .cleanNext] ++
    executeInstance 5 ++ executeInstance 6 ++ [.publish, .crash]

/-- The node was at instance 7, and a new process resumes at 6 with the sum of the first five. -/
theorem restart_resumes_in_clean :
    ∃ s : LocalNode ℕ, s.instanceId = 7 ∧ ∃ s', s.recover summingConfig = some s' ∧
      (s'.instanceId = s.instanceId ∨ s'.instanceId + 1 = s.instanceId) ∧
      s'.machines = summingConfig.stateAt summingValue (s'.instanceId - 1) := by
  have hrun : (runChecked (LocalNode.step summingConfig summingValue)
      (fun s a => decide (a = .crash → ∀ c ∈ s.ids, c < s.instanceId))
      (LocalNode.fresh summingConfig) endedInClean).map (fun s => (s.phase, s.instanceId)) =
        some (.crashed, 7) := by
    decide +kernel
  obtain ⟨s, hs, hval⟩ := Option.map_eq_some_iff.mp hrun
  obtain ⟨hphase, hinst⟩ := Prod.mk.inj hval
  exact ⟨s, hinst, restart_resumes (by decide) (by decide)
    (Reaches.of_runChecked endedInClean (fun _ _ _ hok => of_decide_eq_true hok) hs) hphase⟩

/-- The new process has restored the second checkpoint, since the vector that `CleanCheckpoint`
leaves is not sorted. It is at instance 6, of which there is a checkpoint; when it ends there, the
next one restores that checkpoint and resumes at 7. -/
theorem restart_skips_instance :
    (run (LocalNode.step summingConfig summingValue) (LocalNode.fresh summingConfig)
        (endedInClean ++ [.recover, .crash])).map
      (fun s => (s.phase, s.instanceId, (s.recover summingConfig).map LocalNode.instanceId)) =
        some (.crashed, 6, some 7) := by
  decide +kernel

end Skywalker
