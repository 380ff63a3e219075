import Skywalker.Transfer
import Mathlib.Data.List.Basic

/-!
# Making a checkpoint

`MachineManager::MakeCheckpoint` starts a round: it clears the temporary directory, as far as
`DeleteTempCheckpoint` finds what is in it, and lets each machine write a checkpoint into its
subdirectory. A machine reports by `FinishMakeCheckpoint`, which queues a callback in the I/O loop;
the callback that empties `make_checkpoint_result_` renames the directory. The code numbers neither
rounds nor callbacks; here each remembers its round.

`published_checkpoint_complete` is about the rounds of one node. The temporary directory is also the
one that a peer's checkpoint is received into: `paths_never_mix` is about both together.
-/

namespace Skywalker

open TransitionSystem

variable {ids machines : List ℕ} {i keepLogCount : ℕ} {F : FileEnv} {session : Session}
  {msg : CheckpointMessage}

/-! ## Rounds -/

/-- A machine that was asked for a checkpoint and has not reported. -/
structure Task where
  /-- The number of the round that the machine works for. -/
  round : ℕ
  instanceId : ℕ
  machineId : ℕ
  /-- Whether the machine has finished a file. -/
  written : Bool := false
deriving DecidableEq, Repr

/-- A report of a machine, as `FinishMakeCheckpoint` queues it. -/
structure Report where
  /-- The round that the machine was asked in. -/
  round : ℕ
  instanceId : ℕ
  machineId : ℕ
  /-- Whether the machine succeeded. -/
  result : Bool
deriving DecidableEq, Repr

/-- A call of `UpdateCheckpoint` by `FinishMakeCheckpoint`. -/
structure Update where
  /-- The round that is open at the call. -/
  round : ℕ
  /-- The instance that `UpdateCheckpoint` is called with. -/
  instanceId : ℕ
  /-- What is in the temporary directory. -/
  writes : List Write
deriving DecidableEq, Repr

/-- `MachineManager` as far as it makes checkpoints, with the machines at work and the queue of the
I/O loop. -/
structure MachineCheckpoints where
  /-- The temporary directory and the renamed ones. -/
  disk : Disk := {}
  /-- `make_checkpoint_`: whether a round is open. -/
  makeCheckpoint : Bool := false
  /-- `make_checkpoint_result_`: the machines that have not reported. -/
  result : List ℕ := []
  /-- `latest_checkpoint_instance_id_`: the instance of the last renamed directory. -/
  latest : ℕ := 0
  /-- The machines that are at work in their threads. -/
  tasks : List Task := []
  /-- The callbacks in the queue of the I/O loop, oldest first. -/
  queue : List Report := []
  /-- How many rounds have started. -/
  round : ℕ := 0
  /-- All reports that were made so far. -/
  reports : List Report := []
  /-- All calls of `UpdateCheckpoint` so far. -/
  updates : List Update := []
deriving DecidableEq, Repr

namespace MachineManager

/-- The loop of `MakeCheckpoint` over the machines: it stops at the first one whose directory cannot
be created or whose `MakeCheckpoint` returns false. -/
def askMachines (instanceId : ℕ) (dirs : ℕ → FileEnv) (accepts : ℕ → Bool) :
    List ℕ → MachineCheckpoints → Bool × MachineCheckpoints
  | [], s => (true, s)
  | m :: l, s =>
    let d := s.disk.createDir (dirs m) m
    if d.1 && accepts m then
      askMachines instanceId dirs accepts l
        { s with
          disk := d.2
          tasks := s.tasks ++ [⟨s.round, instanceId, m, false⟩]
          result := m :: s.result }
    else (false, { s with disk := d.2 })

/-- `MakeCheckpoint`, with the number that `distribution_` draws. -/
def makeCheckpoint (machines : List ℕ) (keepLogCount instanceId drawn : ℕ) (F : FileEnv)
    (dirs : ℕ → FileEnv) (accepts : ℕ → Bool) (s : MachineCheckpoints) : MachineCheckpoints :=
  if s.makeCheckpoint then s
  else if instanceId - s.latest < keepLogCount / 2 + drawn then s
  else
    let d := s.disk.deleteTempCheckpoint F
    if d.1 then
      let r := askMachines instanceId dirs accepts machines
        { s with disk := d.2, result := [], round := s.round + 1 }
      if r.1 && !r.2.result.isEmpty then { r.2 with makeCheckpoint := true } else r.2
    else { s with disk := d.2 }

/-- The callback that `FinishMakeCheckpoint` queues. -/
def finishMakeCheckpoint (F : FileEnv) (b : Report) (s : MachineCheckpoints) :
    MachineCheckpoints :=
  if !s.makeCheckpoint then s
  else if !b.result then { s with makeCheckpoint := false }
  else
    let left := s.result.filter (· ≠ b.machineId)
    if left.isEmpty then
      let d := s.disk.updateCheckpoint F .finishMakeCheckpoint b.instanceId
      { s with
        result := left
        disk := d.2
        latest := if d.1 then b.instanceId else s.latest
        updates := ⟨s.round, b.instanceId, s.disk.writes⟩ :: s.updates
        makeCheckpoint := false }
    else { s with result := left }

end MachineManager

/-- The steps of the I/O loop, of the machines' threads and of a new process. -/
inductive RoundLabel where
  /-- `MakeCheckpoint` is called after the execution of an instance. -/
  | makeCheckpoint (instanceId drawn : ℕ) (F : FileEnv) (dirs : ℕ → FileEnv) (accepts : ℕ → Bool)
  /-- The `i`-th machine at work finishes a file somewhere in its subdirectory. -/
  | write (i : ℕ) (place : Place)
  /-- The `i`-th machine at work reports. -/
  | report (i : ℕ) (result : Bool)
  /-- The I/O loop runs the next callback. -/
  | runCallback (F : FileEnv)
  /-- The process is started again. -/
  | restart

/-- A step. `MakeCheckpoint` asserts that the instance is later than the latest checkpoint, a file
is written where its directory exists, and a machine reports success only for a finished file. -/
def MachineCheckpoints.step (machines : List ℕ) (keepLogCount : ℕ) (s : MachineCheckpoints) :
    RoundLabel → Option MachineCheckpoints
  | .makeCheckpoint instanceId drawn F dirs accepts =>
    if s.latest < instanceId then
      some (MachineManager.makeCheckpoint machines keepLogCount instanceId drawn F dirs accepts s)
    else none
  | .write i place =>
    match s.tasks[i]? with
    | some t =>
      if !t.written && s.disk.hasDir t.machineId then
        some { s with
          disk := s.disk.write place (.machine t.round t.instanceId t.machineId)
          tasks := s.tasks.set i { t with written := true } }
      else none
    | none => none
  | .report i result =>
    match s.tasks[i]? with
    | some t =>
      if !result || t.written then
        let b : Report := ⟨t.round, t.instanceId, t.machineId, result⟩
        some { s with
          tasks := s.tasks.eraseIdx i, queue := s.queue ++ [b], reports := b :: s.reports }
      else none
    | none => none
  | .runCallback F =>
    match s.queue with
    | b :: q => some (MachineManager.finishMakeCheckpoint F b { s with queue := q })
    | [] => none
  | .restart => some { s with makeCheckpoint := false, result := [], tasks := [], queue := [] }

/-! ## What a step can do -/

/-- The outcomes of a step, with what is left of the files. -/
inductive RoundStep (machines : List ℕ) (s : MachineCheckpoints) :
    RoundLabel → MachineCheckpoints → Prop where
  /-- No round is started. Files may be gone, if none was open. -/
  | refused {a : RoundLabel} (disk : Disk) (hwrites : disk.writes ⊆ s.disk.writes)
      (hrenamed : disk.renamed = s.disk.renamed)
      (hopen : s.makeCheckpoint = true → disk = s.disk) : RoundStep machines s a { s with disk }
  /-- A round starts with some machines, and is open when these are all. The directory is empty if
  `DeleteTempCheckpoint` has found all files. -/
  | started (instanceId drawn : ℕ) (F : FileEnv) (dirs : ℕ → FileEnv) (accepts : ℕ → Bool)
      (disk : Disk) (asked : List ℕ) (opened : Bool) (hclosed : s.makeCheckpoint = false)
      (hsub : disk.writes ⊆ s.disk.writes) (hempty : s.disk.Listable F → disk.writes = [])
      (hrenamed : disk.renamed = s.disk.renamed)
      (hopened : opened = true → asked = machines ∧ machines ≠ []) :
      RoundStep machines s (.makeCheckpoint instanceId drawn F dirs accepts)
        { s with
          disk
          makeCheckpoint := opened
          result := asked.reverse
          tasks := s.tasks ++ asked.map fun m => ⟨s.round + 1, instanceId, m, false⟩
          round := s.round + 1 }
  /-- A machine finishes its file. -/
  | wrote (i : ℕ) (place : Place) (t : Task) (disk : Disk) (hget : s.tasks[i]? = some t)
      (hwrites : disk.writes = s.disk.writes ++ [.machine t.round t.instanceId t.machineId])
      (hrenamed : disk.renamed = s.disk.renamed) :
      RoundStep machines s (.write i place)
        { s with disk, tasks := s.tasks.set i { t with written := true } }
  /-- A machine reports, and its report is queued. -/
  | reported (i : ℕ) (t : Task) (result : Bool) (hget : s.tasks[i]? = some t)
      (hwritten : result = true → t.written = true) :
      RoundStep machines s (.report i result)
        { s with
          tasks := s.tasks.eraseIdx i
          queue := s.queue ++ [⟨t.round, t.instanceId, t.machineId, result⟩]
          reports := ⟨t.round, t.instanceId, t.machineId, result⟩ :: s.reports }
  /-- A callback finds no open round, or closes it. -/
  | closed (F : FileEnv) (b : Report) (q : List Report) (hqueue : s.queue = b :: q) :
      RoundStep machines s (.runCallback F) { s with queue := q, makeCheckpoint := false }
  /-- A callback is counted, and others are missing. -/
  | counted (F : FileEnv) (b : Report) (q : List Report) (hqueue : s.queue = b :: q)
      (hopen : s.makeCheckpoint = true) (hresult : b.result = true)
      (hleft : s.result.filter (· ≠ b.machineId) ≠ []) :
      RoundStep machines s (.runCallback F)
        { s with queue := q, result := s.result.filter (· ≠ b.machineId) }
  /-- The last callback is counted. The directory is renamed, if that succeeds. -/
  | completed (F : FileEnv) (b : Report) (q : List Report) (disk : Disk) (latest : ℕ)
      (hqueue : s.queue = b :: q) (hopen : s.makeCheckpoint = true) (hresult : b.result = true)
      (hleft : s.result.filter (· ≠ b.machineId) = [])
      (hdisk : disk = s.disk ∨ disk =
        ⟨none, ⟨.finishMakeCheckpoint, b.instanceId, s.disk.writes⟩ :: s.disk.renamed⟩) :
      RoundStep machines s (.runCallback F)
        { s with
          disk, latest, queue := q, result := [], makeCheckpoint := false
          updates := ⟨s.round, b.instanceId, s.disk.writes⟩ :: s.updates }
  /-- A new process knows of no round. -/
  | restarted : RoundStep machines s .restart
      { s with makeCheckpoint := false, result := [], tasks := [], queue := [] }

namespace MachineManager

/-- The loop asks some of the machines, in their order, and all of them when it succeeds. -/
theorem askMachines_spec (instanceId : ℕ) (dirs : ℕ → FileEnv) (accepts : ℕ → Bool) (l : List ℕ)
    (s : MachineCheckpoints) :
    ∃ disk asked, (askMachines instanceId dirs accepts l s).2 =
        { s with
          disk
          tasks := s.tasks ++ asked.map fun m => ⟨s.round, instanceId, m, false⟩
          result := asked.reverse ++ s.result } ∧
      disk.writes = s.disk.writes ∧ disk.renamed = s.disk.renamed ∧
      ((askMachines instanceId dirs accepts l s).1 = true → asked = l) := by
  induction l generalizing s with
  | nil => exact ⟨s.disk, [], by simp [askMachines], rfl, rfl, fun _ => rfl⟩
  | cons m l ih =>
    have hcreate := Disk.createDir_spec (dirs m) m s.disk
    rw [askMachines]
    split
    · obtain ⟨disk, asked, heq, hwrites, hrenamed, hall⟩ := ih
        { s with
          disk := (s.disk.createDir (dirs m) m).2
          tasks := s.tasks ++ [⟨s.round, instanceId, m, false⟩]
          result := m :: s.result }
      refine ⟨disk, m :: asked, ?_, hwrites.trans hcreate.2, hrenamed.trans hcreate.1,
        fun h => congrArg (m :: ·) (hall h)⟩
      rw [heq]
      simp
    · exact ⟨_, [], by simp, hcreate.2, hcreate.1, fun h => absurd h Bool.false_ne_true⟩

/-- `MakeCheckpoint` refuses or starts a round. -/
theorem makeCheckpoint_cases (machines : List ℕ) (keepLogCount instanceId drawn : ℕ) (F : FileEnv)
    (dirs : ℕ → FileEnv) (accepts : ℕ → Bool) (s : MachineCheckpoints) :
    RoundStep machines s (.makeCheckpoint instanceId drawn F dirs accepts)
      (makeCheckpoint machines keepLogCount instanceId drawn F dirs accepts s) := by
  obtain ⟨hrenamed, hsub, hempty⟩ := Disk.deleteTempCheckpoint_spec F s.disk
  unfold makeCheckpoint
  split
  · exact .refused s.disk (List.Subset.refl _) rfl fun _ => rfl
  case isFalse hclosed =>
    split
    · exact .refused s.disk (List.Subset.refl _) rfl fun _ => rfl
    dsimp only
    split
    case isTrue hdel =>
      obtain ⟨disk, asked, heq, hw, hr, hall⟩ := askMachines_spec instanceId dirs accepts machines
        { s with
          disk := (s.disk.deleteTempCheckpoint F).2, result := [], round := s.round + 1 }
      rw [heq, List.append_nil]
      split
      case isTrue hopen =>
        rw [Bool.and_eq_true] at hopen
        obtain rfl := hall hopen.1
        refine .started instanceId drawn F dirs accepts disk asked true
          (Bool.eq_false_iff.mpr hclosed) (hw ▸ hsub) (fun hlist => hw.trans (hempty hdel hlist))
          (hr.trans hrenamed) fun _ => ⟨rfl, ?_⟩
        rintro rfl
        simp at hopen
      case isFalse =>
        have hfalse : s.makeCheckpoint = false := Bool.eq_false_iff.mpr hclosed
        rw [hfalse]
        exact .started instanceId drawn F dirs accepts disk asked false hfalse (hw ▸ hsub)
          (fun hlist => hw.trans (hempty hdel hlist)) (hr.trans hrenamed)
          fun h => absurd h Bool.false_ne_true
    case isFalse => exact .refused _ hsub hrenamed fun hopen => absurd hopen hclosed

/-- A callback finds no open round, closes it, or is counted. -/
theorem finishMakeCheckpoint_cases (machines : List ℕ) (F : FileEnv) {b : Report} {q : List Report}
    {s : MachineCheckpoints} (hqueue : s.queue = b :: q) :
    RoundStep machines s (.runCallback F) (finishMakeCheckpoint F b { s with queue := q }) := by
  unfold finishMakeCheckpoint
  dsimp only
  split
  case isTrue hclosed =>
    rw [Bool.not_eq_true'] at hclosed
    rw [hclosed]
    exact .closed F b q hqueue
  case isFalse hopen =>
    rw [Bool.not_eq_true', Bool.not_eq_false] at hopen
    split
    · exact .closed F b q hqueue
    case isFalse hresult =>
      rw [Bool.not_eq_true', Bool.not_eq_false] at hresult
      split
      case isFalse hleft =>
        exact .counted F b q hqueue hopen hresult fun h => hleft (List.isEmpty_iff.mpr h)
      case isTrue hleft =>
        have hleft := List.isEmpty_iff.mp hleft
        rw [hleft]
        refine .completed F b q _ _ hqueue hopen hresult hleft ?_
        by_cases hupd : (s.disk.updateCheckpoint F .finishMakeCheckpoint b.instanceId).1 = true
        · exact .inr (Disk.updateCheckpoint_spec hupd).2
        · exact .inl (Disk.updateCheckpoint_of_false (Bool.eq_false_iff.mpr hupd))

end MachineManager

/-- Every step of a round of checkpoints is one of these. -/
theorem MachineCheckpoints.step_cases {s s' : MachineCheckpoints} {a : RoundLabel}
    (h : s.step machines keepLogCount a = some s') :
    RoundStep machines s a s' := by
  cases a with
  | makeCheckpoint instanceId drawn F dirs accepts =>
    obtain ⟨-, heq⟩ := Option.ite_none_right_eq_some.mp h
    obtain rfl := Option.some.inj heq
    exact MachineManager.makeCheckpoint_cases ..
  | write i place =>
    rw [MachineCheckpoints.step] at h
    split at h
    · rename_i t hget
      obtain ⟨hcan, heq⟩ := Option.ite_none_right_eq_some.mp h
      obtain rfl := Option.some.inj heq
      obtain ⟨d, hd⟩ := Disk.exists_of_hasDir (Bool.and_eq_true_iff.mp hcan).2
      exact .wrote i place t _ hget (Disk.writes_write hd _ _) rfl
    · cases h
  | report i result =>
    rw [MachineCheckpoints.step] at h
    split at h
    · rename_i t hget
      obtain ⟨hcan, heq⟩ := Option.ite_none_right_eq_some.mp h
      obtain rfl := Option.some.inj heq
      exact .reported i t result hget fun hres => by simpa [hres] using hcan
    · cases h
  | runCallback F =>
    rw [MachineCheckpoints.step] at h
    split at h
    · rename_i b q hqueue
      obtain rfl := Option.some.inj h
      exact MachineManager.finishMakeCheckpoint_cases machines F hqueue
    · cases h
  | restart =>
    obtain rfl := Option.some.inj h
    exact .restarted

namespace RoundStep

variable {s s' : MachineCheckpoints} {a : RoundLabel}

/-- A file that is there after a step was there before, or a machine has just finished it. -/
theorem mem_writes (h : RoundStep machines s a s') {w : Write} (hw : w ∈ s'.disk.writes) :
    w ∈ s.disk.writes ∨ ∃ i place t, a = .write i place ∧ s.tasks[i]? = some t ∧
      w = .machine t.round t.instanceId t.machineId := by
  cases h with
  | refused disk hwrites => exact .inl (hwrites hw)
  | started _ _ _ _ _ disk asked opened hclosed hsub => exact .inl (hsub hw)
  | wrote i place t disk hget hwrites =>
    have hmem : w ∈ disk.writes := hw
    rw [hwrites, List.mem_append, List.mem_singleton] at hmem
    exact hmem.imp_right fun heq => ⟨i, place, t, rfl, hget, heq⟩
  | reported | closed | counted | restarted => exact .inl hw
  | completed F b q disk latest _ _ _ _ hdisk =>
    obtain rfl | rfl := hdisk
    · exact .inl hw
    · cases hw

/-- A step that starts a round leaves no file, if `DeleteTempCheckpoint` has found them all. -/
theorem round_eq_of_mem (h : RoundStep machines s a s')
    (hlist : ∀ instanceId drawn F dirs accepts,
      a = .makeCheckpoint instanceId drawn F dirs accepts → s'.round ≠ s.round → s.disk.Listable F)
    {w : Write} (hw : w ∈ s'.disk.writes) : s'.round = s.round := by
  cases h with
  | started instanceId drawn F dirs accepts disk _ _ _ _ hempty =>
    have hmem : w ∈ disk.writes := hw
    rw [hempty (hlist instanceId drawn F dirs accepts rfl (Nat.succ_ne_self _))] at hmem
    cases hmem
  | refused | wrote | reported | closed | counted | completed | restarted => rfl

/-- A step renames at most the temporary directory, for the last report of the open round. -/
theorem renamed_cases (h : RoundStep machines s a s') :
    s'.disk.renamed = s.disk.renamed ∨ ∃ F b q, a = .runCallback F ∧ s.queue = b :: q ∧
      s.makeCheckpoint = true ∧ b.result = true ∧ s.result.filter (· ≠ b.machineId) = [] ∧
      s'.disk.renamed =
        ⟨.finishMakeCheckpoint, b.instanceId, s.disk.writes⟩ :: s.disk.renamed := by
  cases h with
  | refused disk _ hrenamed => exact .inl hrenamed
  | started _ _ _ _ _ disk _ _ _ _ _ hrenamed | wrote _ _ _ disk _ _ hrenamed => exact .inl hrenamed
  | reported | closed | counted | restarted => exact .inl rfl
  | completed F b q disk latest hqueue hopen hresult hleft hdisk =>
    obtain rfl | rfl := hdisk
    · exact .inl rfl
    · exact .inr ⟨F, b, q, rfl, hqueue, hopen, hresult, hleft, rfl⟩

end RoundStep

/-! ## Complete checkpoints -/

/-- The last write into the subdirectory of a machine. -/
def lastWrite (l : List Write) (machineId : ℕ) : Option Write :=
  (l.filter fun w => w.machineId = machineId).getLast?

theorem lastWrite_append (l : List Write) (w : Write) (machineId : ℕ) :
    lastWrite (l ++ [w]) machineId =
      if w.machineId = machineId then some w else lastWrite l machineId := by
  unfold lastWrite
  by_cases h : w.machineId = machineId <;> simp [List.filter_append, h]

/-- While a round is open, only machines of that round write, and only reports of that round are
counted. -/
def MachineCheckpoints.inRound (s : MachineCheckpoints) : RoundLabel → Bool
  | .write i _ => !s.makeCheckpoint || s.tasks[i]?.all fun t => t.round = s.round
  | .runCallback _ => !s.makeCheckpoint || s.queue.head?.all fun b =>
      !(b.result && s.result.contains b.machineId) || b.round = s.round
  | _ => true

namespace MachineCheckpoints

/-- The machine has finished its file for the open round, and nobody has written over it. -/
def Finished (s : MachineCheckpoints) (instanceId machineId : ℕ) : Prop :=
  lastWrite s.disk.writes machineId = some (.machine s.round instanceId machineId)

/-- What is known while a round for `instanceId` is open. -/
structure Open (machines : List ℕ) (instanceId : ℕ) (s : MachineCheckpoints) : Prop where
  /-- At least one machine has not reported. -/
  missing : s.result ≠ []
  /-- The machines at work in this round, with the files that are finished. -/
  tasks : ∀ t ∈ s.tasks, t.round = s.round →
    t.instanceId = instanceId ∧ (t.written = true → s.Finished instanceId t.machineId)
  /-- The reports of this round that have not been counted. -/
  queue : ∀ b ∈ s.queue, b.round = s.round → b.result = true →
    b.instanceId = instanceId ∧ b ∈ s.reports ∧ s.Finished instanceId b.machineId
  /-- The machines that are not missing have reported. -/
  counted : ∀ m ∈ machines, m ∉ s.result →
    ⟨s.round, instanceId, m, true⟩ ∈ s.reports ∧ s.Finished instanceId m

/-- What holds in every run. -/
structure Complete (machines : List ℕ) (s : MachineCheckpoints) : Prop where
  /-- No machine is at work for a round to come. -/
  tasks_le : ∀ t ∈ s.tasks, t.round ≤ s.round
  /-- No report is of a round to come. -/
  queue_le : ∀ b ∈ s.queue, b.round ≤ s.round
  /-- A round that is open is for one instance. -/
  opened : s.makeCheckpoint = true → ∃ instanceId, s.Open machines instanceId
  /-- What `UpdateCheckpoint` was called for. -/
  updates : ∀ u ∈ s.updates, ∀ m ∈ machines, ⟨u.round, u.instanceId, m, true⟩ ∈ s.reports ∧
    lastWrite u.writes m = some (.machine u.round u.instanceId m)
  /-- Every renamed directory comes from a call of `UpdateCheckpoint`. -/
  renamed : ∀ d ∈ s.disk.renamed,
    ∃ u ∈ s.updates, u.instanceId = d.instanceId ∧ u.writes = d.writes

/-- A machine that finishes its file in the open round. -/
theorem Open.write {instanceId : ℕ} {s : MachineCheckpoints} {t : Task} {disk : Disk}
    (h : s.Open machines instanceId) (hget : s.tasks[i]? = some t) (hround : t.round = s.round)
    (hwrites : disk.writes = s.disk.writes ++ [.machine t.round t.instanceId t.machineId]) :
    ({ s with disk, tasks := s.tasks.set i { t with written := true } }).Open machines
      instanceId := by
  obtain ⟨hinst, -⟩ := h.tasks t (List.mem_of_getElem? hget) hround
  -- files of this round stay finished: the new one is for the same round and instance
  have hkeep : ∀ m, s.Finished instanceId m →
      lastWrite disk.writes m = some (.machine s.round instanceId m) := by
    intro m hm
    rw [hwrites, lastWrite_append, hround, hinst]
    split
    case isTrue heq => rw [← heq]; rfl
    case isFalse => exact hm
  refine ⟨h.missing, fun t' ht' hr => ?_, fun b hb hr hres => ?_, fun m hm hleft => ?_⟩
  · obtain ht' | rfl := List.mem_or_eq_of_mem_set ht'
    · obtain ⟨hi, hw⟩ := h.tasks t' ht' hr
      exact ⟨hi, fun hwr => hkeep _ (hw hwr)⟩
    · refine ⟨hinst, fun _ => ?_⟩
      change lastWrite disk.writes t.machineId = some (.machine s.round instanceId t.machineId)
      rw [hwrites, lastWrite_append, hround, hinst]
      exact if_pos rfl
  · obtain ⟨hi, hrep, hfin⟩ := h.queue b hb hr hres
    exact ⟨hi, hrep, hkeep _ hfin⟩
  · obtain ⟨hrep, hfin⟩ := h.counted m hm hleft
    exact ⟨hrep, hkeep _ hfin⟩

/-- A report of a machine leaves the open round as it is. -/
theorem Open.report {instanceId : ℕ} {s : MachineCheckpoints} {t : Task} {result : Bool}
    (h : s.Open machines instanceId) (hget : s.tasks[i]? = some t)
    (hwritten : result = true → t.written = true) :
    ({ s with
        tasks := s.tasks.eraseIdx i
        queue := s.queue ++ [(⟨t.round, t.instanceId, t.machineId, result⟩ : Report)]
        reports := (⟨t.round, t.instanceId, t.machineId, result⟩ : Report) :: s.reports }).Open
      machines instanceId := by
  refine ⟨h.missing, fun t' ht' => h.tasks t' (List.mem_of_mem_eraseIdx ht'),
    fun b hb hr hres => ?_, fun m hm hleft => ?_⟩
  · obtain hb | hb := List.mem_append.mp hb
    · obtain ⟨hi, hrep, hfin⟩ := h.queue b hb hr hres
      exact ⟨hi, List.mem_cons_of_mem _ hrep, hfin⟩
    · obtain rfl := List.mem_singleton.mp hb
      obtain ⟨hi, hfin⟩ := h.tasks t (List.mem_of_getElem? hget) hr
      exact ⟨hi, List.mem_cons_self, hfin (hwritten hres)⟩
  · obtain ⟨hrep, hfin⟩ := h.counted m hm hleft
    exact ⟨List.mem_cons_of_mem _ hrep, hfin⟩

/-- Once the report is counted, the machines that are not missing have reported. -/
theorem Open.count {instanceId : ℕ} {s : MachineCheckpoints} {b : Report} {q : List Report}
    (h : s.Open machines instanceId) (hqueue : s.queue = b :: q) (hresult : b.result = true)
    (hround : b.machineId ∈ s.result → b.round = s.round) :
    ∀ m ∈ machines, m ∉ s.result.filter (· ≠ b.machineId) →
      ⟨s.round, instanceId, m, true⟩ ∈ s.reports ∧ s.Finished instanceId m := by
  intro m hm hleft
  by_cases hmem : m ∈ s.result
  · obtain rfl : m = b.machineId := by simpa [hmem] using hleft
    obtain ⟨hi, hrep, hfin⟩ := h.queue b (hqueue ▸ List.mem_cons_self) (hround hmem) hresult
    have hb : b = ⟨s.round, instanceId, b.machineId, true⟩ := by
      rw [← hround hmem, ← hi, ← hresult]
    exact ⟨hb ▸ hrep, hfin⟩
  · exact h.counted m hm hmem

/-- A report that is counted is of the open round. -/
theorem round_of_inRound {s : MachineCheckpoints} {b : Report} {q : List Report}
    (hok : s.inRound (.runCallback F) = true) (hqueue : s.queue = b :: q)
    (hopen : s.makeCheckpoint = true) (hresult : b.result = true) (hmem : b.machineId ∈ s.result) :
    b.round = s.round := by
  simpa [inRound, hqueue, hopen, hresult, hmem] using hok

/-- Every step in which only the open round writes and counts keeps checkpoints complete. -/
theorem Complete.step {s s' : MachineCheckpoints} {a : RoundLabel} (h : s.Complete machines)
    (hok : s.inRound a = true) (hstep : s.step machines keepLogCount a = some s') :
    s'.Complete machines := by
  cases step_cases hstep with
  | refused disk hwrites hrenamed hsame =>
    refine ⟨h.tasks_le, h.queue_le, fun hopen => ?_, h.updates, ?_⟩
    · obtain rfl := hsame hopen
      exact h.opened hopen
    · dsimp only
      rw [hrenamed]
      exact h.renamed
  | started instanceId _ _ _ _ disk asked opened hclosed _ _ hrenamed hopened =>
    -- no machine and no report is of the new round, except the machines just asked
    refine ⟨fun t ht => ?_, fun b hb => Nat.le_succ_of_le (h.queue_le b hb), fun hopen => ?_,
      h.updates, ?_⟩
    · obtain ht | ht := List.mem_append.mp ht
      · exact Nat.le_succ_of_le (h.tasks_le t ht)
      · obtain ⟨m, -, rfl⟩ := List.mem_map.mp ht
        exact Nat.le_refl _
    · obtain ⟨rfl, hne⟩ := hopened hopen
      refine ⟨instanceId, fun hnil => hne (List.reverse_eq_nil_iff.mp hnil), fun t ht hr => ?_,
        fun b hb hr => ?_, fun m hm hleft => absurd (List.mem_reverse.mpr hm) hleft⟩
      · obtain ht | ht := List.mem_append.mp ht
        · have := h.tasks_le t ht
          dsimp only at hr
          omega
        · obtain ⟨m, -, rfl⟩ := List.mem_map.mp ht
          exact ⟨rfl, fun hw => absurd hw Bool.false_ne_true⟩
      · have := h.queue_le b hb
        dsimp only at hr
        omega
    · dsimp only
      rw [hrenamed]
      exact h.renamed
  | wrote i place t disk hget hwrites hrenamed =>
    refine ⟨fun t' ht' => ?_, h.queue_le, fun hopen => ?_, h.updates, ?_⟩
    · obtain ht' | rfl := List.mem_or_eq_of_mem_set ht'
      · exact h.tasks_le t' ht'
      · exact h.tasks_le t (List.mem_of_getElem? hget)
    · obtain ⟨instanceId, ho⟩ := h.opened hopen
      have hround : t.round = s.round := by
        simpa [inRound, hget, show s.makeCheckpoint = true from hopen] using hok
      exact ⟨instanceId, ho.write hget hround hwrites⟩
    · dsimp only
      rw [hrenamed]
      exact h.renamed
  | reported i t result hget hwritten =>
    refine ⟨fun t' ht' => h.tasks_le t' (List.mem_of_mem_eraseIdx ht'), fun b hb => ?_,
      fun hopen => ?_, fun u hu m hm => ?_, h.renamed⟩
    · obtain hb | hb := List.mem_append.mp hb
      · exact h.queue_le b hb
      · obtain rfl := List.mem_singleton.mp hb
        exact h.tasks_le t (List.mem_of_getElem? hget)
    · obtain ⟨instanceId, ho⟩ := h.opened hopen
      exact ⟨instanceId, ho.report hget hwritten⟩
    · exact ⟨List.mem_cons_of_mem _ (h.updates u hu m hm).1, (h.updates u hu m hm).2⟩
  | closed F b q hqueue =>
    exact ⟨h.tasks_le, fun b' hb' => h.queue_le b' (hqueue ▸ List.mem_cons_of_mem _ hb'),
      fun hopen => absurd hopen Bool.false_ne_true, h.updates, h.renamed⟩
  | counted F b q hqueue hopen hresult hleft =>
    refine ⟨h.tasks_le, fun b' hb' => h.queue_le b' (hqueue ▸ List.mem_cons_of_mem _ hb'),
      fun _ => ?_, h.updates, h.renamed⟩
    obtain ⟨instanceId, ho⟩ := h.opened hopen
    refine ⟨instanceId, hleft, ho.tasks,
      fun b' hb' => ho.queue b' (hqueue ▸ List.mem_cons_of_mem _ hb'), ho.count hqueue hresult ?_⟩
    exact round_of_inRound hok hqueue hopen hresult
  | completed F b q disk latest hqueue hopen hresult hleft hdisk =>
    obtain ⟨instanceId, ho⟩ := h.opened hopen
    have hround := round_of_inRound hok hqueue hopen hresult
    -- the report takes the last machine away, so that it is counted
    obtain ⟨m₀, hm₀⟩ := List.exists_mem_of_ne_nil _ ho.missing
    have hmem : b.machineId ∈ s.result := by
      by_contra hnot
      have hkept : m₀ ∈ s.result.filter (· ≠ b.machineId) :=
        List.mem_filter.mpr ⟨hm₀, by simpa using fun heq : m₀ = b.machineId => hnot (heq ▸ hm₀)⟩
      rw [hleft] at hkept
      cases hkept
    have hinst := (ho.queue b (hqueue ▸ List.mem_cons_self) (hround hmem) hresult).1
    refine ⟨h.tasks_le, fun b' hb' => h.queue_le b' (hqueue ▸ List.mem_cons_of_mem _ hb'),
      fun hopen => absurd hopen Bool.false_ne_true, fun u hu m hm => ?_, fun d hd => ?_⟩
    · obtain rfl | hu := List.mem_cons.mp hu
      · dsimp only
        rw [hinst]
        exact ho.count hqueue hresult hround m hm (by rw [hleft]; exact List.not_mem_nil)
      · exact h.updates u hu m hm
    · have hold : ∀ d ∈ s.disk.renamed, ∃ u ∈ (⟨s.round, b.instanceId, s.disk.writes⟩ : Update) ::
          s.updates, u.instanceId = d.instanceId ∧ u.writes = d.writes := by
        intro d hd
        obtain ⟨u, hu, heq⟩ := h.renamed d hd
        exact ⟨u, List.mem_cons_of_mem _ hu, heq⟩
      obtain rfl | rfl := hdisk
      · exact hold d hd
      · obtain rfl | hd := List.mem_cons.mp hd
        · exact ⟨_, List.mem_cons_self, rfl, rfl⟩
        · exact hold d hd
  | restarted =>
    exact ⟨fun t ht => absurd ht List.not_mem_nil, fun b hb => absurd hb List.not_mem_nil,
      fun hopen => absurd hopen Bool.false_ne_true, h.updates, h.renamed⟩

end MachineCheckpoints

/-- In every run in which, while a round is open, only its machines write and only its reports are
counted: when `FinishMakeCheckpoint` calls `UpdateCheckpoint`, every machine has reported success
for that instance in the same round, and the directory holds the file that the machine finished for
it. -/
theorem published_checkpoint_complete {machines : List ℕ} {keepLogCount latest : ℕ}
    {temp : Option TempDir} {s : MachineCheckpoints}
    (h : Reaches (MachineCheckpoints.step machines keepLogCount) (fun s a => s.inRound a = true)
      { disk := { temp }, latest } s) :
    (∀ u ∈ s.updates, ∀ m ∈ machines, ⟨u.round, u.instanceId, m, true⟩ ∈ s.reports ∧
      lastWrite u.writes m = some (.machine u.round u.instanceId m)) ∧
    ∀ d ∈ s.disk.renamed, ∃ u ∈ s.updates, u.instanceId = d.instanceId ∧ u.writes = d.writes := by
  have hcomplete : s.Complete machines := by
    refine h.invariant ?_ fun s t a hs hok hstep => hs.step hok hstep
    exact ⟨fun t ht => absurd ht List.not_mem_nil, fun b hb => absurd hb List.not_mem_nil,
      fun hopen => absurd hopen Bool.false_ne_true, fun u hu => absurd hu List.not_mem_nil,
      fun d hd => absurd hd List.not_mem_nil⟩
  exact ⟨hcomplete.updates, hcomplete.renamed⟩

/-- A round that the second machine refuses, and one that both finish after the first machine's
report for the first round. -/
def refusedRun : List RoundLabel :=
  [.makeCheckpoint 5 1 {} (fun _ => {}) (· ≠ 2), .write 0 { name := "data" }, .report 0 true,
    .runCallback {}, .makeCheckpoint 6 1 {} (fun _ => {}) (fun _ => true),
    .write 0 { name := "data" }, .report 0 true, .write 0 { name := "data" }, .report 0 true,
    .runCallback {}, .runCallback {}]

/-- The checkpoint of the second round is complete. -/
theorem published_checkpoint_complete_pair :
    ∃ s : MachineCheckpoints, (∃ d ∈ s.disk.renamed, d.instanceId = 6) ∧
      (∀ u ∈ s.updates, ∀ m ∈ [1, 2], ⟨u.round, u.instanceId, m, true⟩ ∈ s.reports ∧
        lastWrite u.writes m = some (.machine u.round u.instanceId m)) := by
  have hrun : (runChecked (MachineCheckpoints.step [1, 2] 2) MachineCheckpoints.inRound {}
      refusedRun).map (fun s => s.disk.renamed.any fun d => d.instanceId = 6) = some true := by
    decide +kernel
  obtain ⟨s, hs, hval⟩ := Option.map_eq_some_iff.mp hrun
  obtain ⟨d, hd, hdir⟩ := List.any_eq_true.mp hval
  exact ⟨s, ⟨d, hd, of_decide_eq_true hdir⟩, (published_checkpoint_complete
    (Reaches.of_runChecked refusedRun (fun _ _ _ hok => hok) hs)).1⟩

/-- The second machine refuses the first round. In the second round the first machine's report for
the first one arrives, and then the second machine's. -/
def staleRun : List RoundLabel :=
  [.makeCheckpoint 5 1 {} (fun _ => {}) (· ≠ 2), .makeCheckpoint 6 1 {} (fun _ => {}) fun _ => true,
    .write 0 { name := "data" }, .report 0 true, .runCallback {}, .write 1 { name := "data" },
    .report 1 true, .runCallback {}]

/-- A report for an abandoned round is counted for the next one: `UpdateCheckpoint` is called for an
instance that the first machine has not reported, and the directory has its file for another. -/
theorem stale_report_published :
    ∃ s, run (MachineCheckpoints.step [1, 2] 2) {} staleRun = some s ∧
      ∃ d ∈ s.disk.renamed, d.instanceId = 6 ∧
        (∀ b ∈ s.reports, b.machineId = 1 → b.instanceId ≠ 6) ∧
        lastWrite d.writes 1 = some (.machine 1 5 1) := by
  have hrun : (run (MachineCheckpoints.step [1, 2] 2) {} staleRun).map (fun s =>
      (s.disk.renamed.any fun d =>
        d.instanceId = 6 && lastWrite d.writes 1 = some (.machine 1 5 1),
      s.reports.all fun b => !(b.machineId = 1 && b.instanceId = 6))) = some (true, true) := by
    decide +kernel
  obtain ⟨s, hs, hval⟩ := Option.map_eq_some_iff.mp hrun
  obtain ⟨hdir, hreports⟩ := Prod.mk.inj hval
  obtain ⟨d, hd, hdir⟩ := List.any_eq_true.mp hdir
  rw [Bool.and_eq_true, decide_eq_true_eq, decide_eq_true_eq] at hdir
  refine ⟨s, hs, d, hd, hdir.1, fun b hb hm hi => ?_, hdir.2⟩
  have := List.all_eq_true.mp hreports b hb
  simp [hm, hi] at this

/-! ## Local and received checkpoints -/

/-- Who fills the temporary directory. -/
inductive Owner where
  /-- A local round, by its number. -/
  | round (number : ℕ)
  /-- A session of a peer. -/
  | session (session : Session)
deriving DecidableEq, Repr

/-- The round or the session that made a write. -/
def Write.owner : Write → Owner
  | .machine r _ _ => .round r
  | .chunk session _ => .session session

/-- The instance that a write is for. -/
def Write.instanceId : Write → ℕ
  | .machine _ i _ => i
  | .chunk _ msg => msg.instanceId

/-- The path that a write belongs to. -/
def Write.path : Write → Path
  | .machine .. => .finishMakeCheckpoint
  | .chunk .. => .endToReceive

/-- A node that makes checkpoints and receives them. Both parts are on one disk. -/
structure Shared where
  /-- The peers and the receiver. -/
  transfer : Transfer := {}
  /-- The rounds of the node's own machines. -/
  machines : MachineCheckpoints := {}
  /-- Who last cleared the temporary directory to fill it. -/
  owner : Option Owner := none

/-- The steps of both parts of the node. -/
inductive SharedLabel where
  /-- A step of the machines. -/
  | machines (a : RoundLabel)
  /-- A step of the peers or of the receiver. -/
  | transfer (a : TransferLabel)

/-- The message that arrives in a step, with its session. -/
def Transfer.message (t : Transfer) : TransferLabel → Option (Session × CheckpointMessage)
  | .arrive n i _ => (t.sent n)[i]?
  | _ => none

/-- The session that the message begins, if the receiver takes it. -/
def Transfer.begun (t t' : Transfer) (a : TransferLabel) : Option Session :=
  match t.message a with
  | some (session, msg) =>
    if msg.type = .checkpointBegin && t'.state.session = some session then some session else none
  | none => none

namespace Shared

/-- A step. A restart is one of both parts. -/
def step (ids : List ℕ) (keepLogCount : ℕ) (s : Shared) : SharedLabel → Option Shared
  | .machines .restart => none
  | .machines a =>
    if s.transfer.state.exited then none
    else
      (s.machines.step ids keepLogCount a).map fun r =>
        { transfer :=
            { s.transfer with state := { s.transfer.state with disk := r.disk } }
          machines := r
          owner := if r.round = s.machines.round then s.owner else some (.round r.round) }
  | .transfer (.restart senderNodeId sequenceId) =>
    (s.transfer.step (.restart senderNodeId sequenceId)).map fun t =>
      { s with
        transfer := t
        machines :=
          { s.machines with makeCheckpoint := false, result := [], tasks := [], queue := [] } }
  | .transfer a =>
    (s.transfer.step a).map fun t =>
      { transfer := t
        machines := { s.machines with disk := t.state.disk }
        owner := ((s.transfer.begun t a).map Owner.session).or s.owner }

/-- Only the round or session that last cleared the temporary directory writes into it and renames
it, and who clears it has found all files. -/
def exclusive (ids : List ℕ) (keepLogCount : ℕ) (s : Shared) : SharedLabel → Bool
  | .machines (.makeCheckpoint instanceId drawn F dirs accepts) =>
      (MachineManager.makeCheckpoint ids keepLogCount instanceId drawn F dirs accepts
        s.machines).round = s.machines.round || decide (s.machines.disk.Listable F)
  | .machines (.write i _) => s.machines.tasks[i]?.all fun t => s.owner = some (.round t.round)
  | .machines (.runCallback _) => s.machines.queue.head?.all fun b =>
      !(s.machines.makeCheckpoint && b.result &&
        (s.machines.result.filter (· ≠ b.machineId)).isEmpty) || s.owner = some (.round b.round)
  | .transfer (.arrive n i F) => (s.transfer.message (.arrive n i F)).all fun p =>
      if p.2.type = .checkpointBegin then
        !(s.transfer.state.disk.deleteTempCheckpoint F).1 ||
          decide (s.transfer.state.disk.Listable F)
      else !(p.2.nodeId = s.transfer.state.receiver.senderNodeId &&
        p.2.sequenceId = s.transfer.state.receiver.sequenceId + 1) ||
          s.owner = some (.session p.1)
  | _ => true

end Shared

namespace Transfer

theorem lt_of_mem_messages {t : Transfer} (h : msg ∈ t.messages session) :
    session.number < (t.sessions session.sender).length := by
  by_contra hge
  rw [messages, List.getElem?_eq_none (Nat.not_lt.mp hge)] at h
  exact absurd h List.not_mem_nil

/-- The messages of a session are for one instance. -/
theorem Sourced.instanceId_eq {t : Transfer} (h : t.Sourced) {msg' : CheckpointMessage}
    (hmsg : msg ∈ t.messages session) (hmsg' : msg' ∈ t.messages session) :
    msg.instanceId = msg'.instanceId := by
  obtain ⟨src, hsrc⟩ := h.source (lt_of_mem_messages hmsg)
  rw [hsrc] at hmsg hmsg'
  exact (CheckpointSender.mem_sendCheckpoint hmsg).2.1.trans
    (CheckpointSender.mem_sendCheckpoint hmsg').2.1.symm

end Transfer

/-- The machines at work, their reports and their files are for the instance of their round. -/
structure MachineCheckpoints.Instances (s : MachineCheckpoints) (f : ℕ → ℕ) : Prop where
  /-- A machine at work is for the instance of its round. -/
  tasks : ∀ t ∈ s.tasks, t.round ≤ s.round ∧ t.instanceId = f t.round
  /-- A report in the queue is for the instance of its round. -/
  queue : ∀ b ∈ s.queue, b.round ≤ s.round ∧ b.instanceId = f b.round
  /-- A file of a machine is for the instance of its round. -/
  writes : ∀ r i m, .machine r i m ∈ s.disk.writes → r ≤ s.round ∧ i = f r

/-- A step keeps the instances of the rounds. -/
theorem MachineCheckpoints.Instances.step {s s' : MachineCheckpoints} {f : ℕ → ℕ} {a : RoundLabel}
    (h : s.Instances f) (hstep : RoundStep ids s a s') :
    ∃ f', s'.Instances f' := by
  have hwrites : ∀ r i m, .machine r i m ∈ s'.disk.writes → r ≤ s.round ∧ i = f r := by
    intro r i m hw
    obtain hold | ⟨j, place, t, -, hget, heq⟩ := hstep.mem_writes hw
    · exact h.writes r i m hold
    · obtain ⟨rfl, rfl, rfl⟩ := Write.machine.inj heq
      exact h.tasks t (List.mem_of_getElem? hget)
  cases hstep with
  | refused => exact ⟨f, h.tasks, h.queue, hwrites⟩
  | started instanceId _ _ _ _ disk asked =>
    -- the new round gets its instance, and no older one is the new round
    have hold : ∀ r, r ≤ s.round → Function.update f (s.round + 1) instanceId r = f r := fun r hr =>
      Function.update_of_ne (by omega) _ _
    refine ⟨Function.update f (s.round + 1) instanceId, fun t ht => ?_, fun b hb => ?_,
      fun r i m hw => ?_⟩
    · obtain ht | ht := List.mem_append.mp ht
      · obtain ⟨hle, heq⟩ := h.tasks t ht
        exact ⟨Nat.le_succ_of_le hle, heq.trans (hold _ hle).symm⟩
      · obtain ⟨m, -, rfl⟩ := List.mem_map.mp ht
        exact ⟨Nat.le_refl _, (Function.update_self (s.round + 1) instanceId f).symm⟩
    · obtain ⟨hle, heq⟩ := h.queue b hb
      exact ⟨Nat.le_succ_of_le hle, heq.trans (hold _ hle).symm⟩
    · obtain ⟨hle, heq⟩ := hwrites r i m hw
      exact ⟨Nat.le_succ_of_le hle, heq.trans (hold _ hle).symm⟩
  | wrote i place t disk hget =>
    refine ⟨f, fun t' ht' => ?_, h.queue, hwrites⟩
    obtain ht' | rfl := List.mem_or_eq_of_mem_set ht'
    · exact h.tasks t' ht'
    · exact h.tasks t (List.mem_of_getElem? hget)
  | reported i t result hget =>
    refine ⟨f, fun t' ht' => h.tasks t' (List.mem_of_mem_eraseIdx ht'), fun b hb => ?_, h.writes⟩
    obtain hb | hb := List.mem_append.mp hb
    · exact h.queue b hb
    · obtain rfl := List.mem_singleton.mp hb
      exact h.tasks t (List.mem_of_getElem? hget)
  | closed F b q hqueue | counted F b q hqueue | completed F b q disk latest hqueue =>
    exact ⟨f, h.tasks, fun b' hb' => h.queue b' (hqueue ▸ List.mem_cons_of_mem _ hb'), hwrites⟩
  | restarted =>
    exact ⟨f, fun t ht => absurd ht List.not_mem_nil, fun b hb => absurd hb List.not_mem_nil,
      h.writes⟩

namespace Shared

/-- What holds in every run in which the temporary directory has one owner at a time. -/
structure Unmixed (s : Shared) : Prop where
  /-- The machines and the receiver are on the same disk. -/
  disk : s.machines.disk = s.transfer.state.disk
  /-- The sessions are those of `SendCheckpoint`. -/
  sourced : s.transfer.Sourced
  /-- The rounds have an instance each. -/
  instances : ∃ f, s.machines.Instances f
  /-- What was received is for the instance of its session. -/
  chunks : ∀ session msg, .chunk session msg ∈ s.machines.disk.writes →
    ∃ msg' ∈ s.transfer.messages session, msg'.instanceId = msg.instanceId
  /-- All files are of the owner. -/
  owned : ∀ w ∈ s.machines.disk.writes, s.owner = some w.owner
  /-- The directories that were renamed. -/
  renamed : ∀ d ∈ s.machines.disk.renamed, ∀ w ∈ d.writes,
    w.path = d.path ∧ w.instanceId = d.instanceId

/-- A step of the machines keeps the paths apart. -/
theorem Unmixed.machines_step {s : Shared} {r : MachineCheckpoints} {a : RoundLabel} (h : s.Unmixed)
    (hok : s.exclusive ids keepLogCount (.machines a) = true)
    (hlist : ∀ instanceId drawn F dirs accepts,
      a = .makeCheckpoint instanceId drawn F dirs accepts → r.round ≠ s.machines.round →
        s.machines.disk.Listable F) (hstep : RoundStep ids s.machines a r) :
    ({ transfer := { s.transfer with state := { s.transfer.state with disk := r.disk } }
       machines := r
       owner := if r.round = s.machines.round then s.owner
         else some (.round r.round) } : Shared).Unmixed := by
  obtain ⟨f, hf⟩ := h.instances
  refine ⟨rfl, h.sourced, hf.step hstep, fun session msg hw => ?_, fun w hw => ?_,
    fun d hd w hw => ?_⟩
  · obtain hold | ⟨i, place, t, -, -, heq⟩ := hstep.mem_writes hw
    · exact h.chunks session msg hold
    · cases heq
  · dsimp only
    rw [if_pos (hstep.round_eq_of_mem hlist hw)]
    obtain hold | ⟨i, place, t, rfl, hget, rfl⟩ := hstep.mem_writes hw
    · exact h.owned w hold
    · simpa [exclusive, hget, Write.owner] using hok
  · dsimp only at hd
    obtain hsame | ⟨F, b, q, rfl, hqueue, hopen, hresult, hleft, hren⟩ := hstep.renamed_cases
    · exact h.renamed d (hsame ▸ hd) w hw
    rw [hren] at hd
    obtain rfl | hd := List.mem_cons.mp hd
    · -- the directory is of the round of the last report, and so is each of its files
      have howner : s.owner = some (.round b.round) := by
        simpa only [exclusive, hqueue, hopen, hresult, hleft, List.head?_cons, Option.all_some,
          List.isEmpty_nil, Bool.and_self, Bool.not_true, Bool.false_or, decide_eq_true_eq]
          using hok
      have hw' := (h.owned w hw).symm.trans howner
      cases w with
      | machine r i m =>
        obtain rfl : r = b.round := Owner.round.inj (Option.some.inj hw')
        refine ⟨rfl, ?_⟩
        calc i = f b.round := (hf.writes _ i m hw).2
          _ = b.instanceId := (hf.queue b (hqueue ▸ List.mem_cons_self)).2.symm
      | chunk session msg => exact Owner.noConfusion (Option.some.inj hw')
    · exact h.renamed d hd w hw

/-- A message that the receiver takes for the next one is of the owner. -/
theorem owner_of_exclusive {s : Shared} {n : ℕ}
    (hok : s.exclusive ids keepLogCount (.transfer (.arrive n i F)) = true)
    (hget : (s.transfer.sent n)[i]? = some (session, msg))
    (hnode : msg.nodeId = s.transfer.state.receiver.senderNodeId)
    (hseq : msg.sequenceId = s.transfer.state.receiver.sequenceId + 1)
    (htype : msg.type ≠ .checkpointBegin) : s.owner = some (.session session) := by
  simpa [exclusive, Transfer.message, hget, hnode, hseq, htype] using hok

/-- What the receiver leaves of the files, and the data of a message of the owner beside them, keep
the paths apart. -/
theorem Unmixed.of_writes {s : Shared} (h : s.Unmixed) (hmsg : msg ∈ s.transfer.messages session)
    {x : Receiving} (arrived : ℕ → ℕ)
    (hwrites : ∀ w ∈ x.disk.writes, w ∈ s.transfer.state.disk.writes ∨
      s.owner = some (.session session) ∧ ∃ data, w = .chunk session { msg with data })
    (hrenamed : x.disk.renamed = s.transfer.state.disk.renamed) :
    ({ transfer := { s.transfer with arrived, state := x }
       machines := { s.machines with disk := x.disk }
       owner := s.owner } : Shared).Unmixed := by
  obtain ⟨f, hf⟩ := h.instances
  rw [← h.disk] at hwrites hrenamed
  refine ⟨rfl, h.sourced, ⟨f, hf.tasks, hf.queue, fun r i m hw => ?_⟩, fun σ m hw => ?_,
    fun w hw => ?_, ?_⟩
  · obtain hw | ⟨-, data, hw⟩ := hwrites _ hw
    · exact hf.writes r i m hw
    · cases hw
  · obtain hw | ⟨-, data, hw⟩ := hwrites _ hw
    · exact h.chunks σ m hw
    · obtain ⟨rfl, rfl⟩ := Write.chunk.inj hw
      exact ⟨msg, hmsg, rfl⟩
  · obtain hw | ⟨howner, data, rfl⟩ := hwrites w hw
    · exact h.owned w hw
    · exact howner
  · dsimp only
    rw [hrenamed]
    exact h.renamed

/-- A message keeps the paths apart. -/
theorem Unmixed.receive {s : Shared} (h : s.Unmixed) {n : ℕ}
    (hok : s.exclusive ids keepLogCount (.transfer (.arrive n i F)) = true)
    (hget : (s.transfer.sent n)[i]? = some (session, msg)) {b : Bool} {x : Receiving}
    (arrived : ℕ → ℕ) (hrec : Received F session msg s.transfer.state b x) :
    ({ transfer := { s.transfer with arrived, state := x }
       machines := { s.machines with disk := x.disk }
       owner := ((s.transfer.begun { s.transfer with arrived, state := x } (.arrive n i F)).map
         Owner.session).or s.owner } : Shared).Unmixed := by
  have hmsg : msg ∈ s.transfer.messages session :=
    (Transfer.mem_sent (List.mem_of_getElem? hget)).2.2
  -- the owner changes only when a session begins
  have hsame : msg.type ≠ .checkpointBegin ∨ x.session = none →
      ((s.transfer.begun { s.transfer with arrived, state := x } (.arrive n i F)).map
        Owner.session).or s.owner = s.owner := by
    rintro (htype | hnone)
    · simp [Transfer.begun, Transfer.message, hget, htype]
    · simp [Transfer.begun, Transfer.message, hget, hnone]
  cases hrec with
  | ignored _ _ _ hbegin =>
    rw [hsame (.inl hbegin)]
    exact h.of_writes hmsg arrived (fun w hw => .inl hw) rfl
  | begun disk htype hdeleted _ hempty hren =>
    obtain ⟨f, hf⟩ := h.instances
    have hlist : s.transfer.state.disk.Listable F := by
      simpa [exclusive, Transfer.message, hget, htype, hdeleted] using hok
    have hnone : ∀ w, w ∉ disk.writes := fun w => hempty hlist ▸ List.not_mem_nil
    refine ⟨rfl, h.sourced, ⟨f, hf.tasks, hf.queue, fun r i m hw => absurd hw (hnone _)⟩,
      fun σ m hw => absurd hw (hnone _), fun w hw => absurd hw (hnone w), ?_⟩
    dsimp only
    rw [hren, ← h.disk]
    exact h.renamed
  | reset disk hren hwrites =>
    rw [hsame (.inr rfl)]
    refine h.of_writes hmsg arrived (fun w hw => (hwrites w hw).imp_right ?_) hren
    rintro ⟨htype, hnode, hseq, hdata⟩
    exact ⟨owner_of_exclusive hok hget hnode hseq (by simp [htype]), hdata⟩
  | appended disk dirs htype hnode hseq hwrites hren =>
    rw [hsame (.inl (by simp [htype]))]
    refine h.of_writes hmsg arrived (fun w hw => ?_) hren
    dsimp only at hw
    rw [hwrites, List.mem_append, List.mem_singleton] at hw
    exact hw.imp_right fun heq =>
      ⟨owner_of_exclusive hok hget hnode hseq (by simp [htype]), F.kept msg.data, heq⟩
  | published htype hnode hseq =>
    rw [hsame (.inl (by simp [htype]))]
    obtain ⟨f, hf⟩ := h.instances
    have hnone : ∀ w, w ∉ (⟨none, ⟨.endToReceive, msg.instanceId, s.transfer.state.disk.writes⟩ ::
        s.transfer.state.disk.renamed⟩ : Disk).writes := fun w => List.not_mem_nil
    refine ⟨rfl, h.sourced, ⟨f, hf.tasks, hf.queue, fun r i m hw => absurd hw (hnone _)⟩,
      fun σ m hw => absurd hw (hnone _), fun w hw => absurd hw (hnone w), fun d hd w hw => ?_⟩
    have howner := owner_of_exclusive hok hget hnode hseq (by simp [htype])
    obtain rfl | hd := List.mem_cons.mp hd
    · -- the directory is of the session that ends, and so is each of its files
      rw [← h.disk] at hw
      have hw' := (h.owned w hw).symm.trans howner
      cases w with
      | machine r i m => exact Owner.noConfusion (Option.some.inj hw')
      | chunk σ m =>
        obtain rfl : σ = session := Owner.session.inj (Option.some.inj hw')
        obtain ⟨msg', hmsg', heq⟩ := h.chunks σ m hw
        exact ⟨rfl, heq.symm.trans (h.sourced.instanceId_eq hmsg' hmsg)⟩
    · rw [← h.disk] at hd
      exact h.renamed d hd w hw

/-- Every step in which only the owner writes and renames keeps the paths apart. -/
theorem Unmixed.step {s s' : Shared} {a : SharedLabel} (h : s.Unmixed)
    (hok : s.exclusive ids keepLogCount a = true) (hstep : s.step ids keepLogCount a = some s') :
    s'.Unmixed := by
  cases a with
  | machines a =>
    have hmap : ∃ r, s.machines.step ids keepLogCount a = some r ∧
        s' = { transfer := { s.transfer with state := { s.transfer.state with disk := r.disk } }
               machines := r
               owner := if r.round = s.machines.round then s.owner
                 else some (.round r.round) } := by
      cases a with
      | restart => cases hstep
      | makeCheckpoint | write | report | runCallback =>
        obtain ⟨-, hstep⟩ := Option.ite_none_left_eq_some.mp hstep
        obtain ⟨r, hr, rfl⟩ := Option.map_eq_some_iff.mp hstep
        exact ⟨r, hr, rfl⟩
    obtain ⟨r, hr, rfl⟩ := hmap
    refine h.machines_step hok ?_ (MachineCheckpoints.step_cases hr)
    rintro instanceId drawn F dirs accepts rfl hround
    obtain ⟨-, heq⟩ := Option.ite_none_right_eq_some.mp hr
    obtain rfl := Option.some.inj heq
    simpa [exclusive, hround] using hok
  | transfer a =>
    cases a with
    | sendCheckpoint n src =>
      simp only [Shared.step] at hstep
      obtain ⟨t, ht, rfl⟩ := Option.map_eq_some_iff.mp hstep
      -- A new session is added behind those that the chunks on disk are of.
      have hkept {σ : Session} (hlt : σ.number < (s.transfer.sessions σ.sender).length) :=
        Transfer.messages_step ht hlt
      have hsourced := h.sourced.step ht
      obtain rfl := Option.some.inj ht
      refine ⟨rfl, hsourced, ?_, fun session msg hw => ?_, ?_, ?_⟩ <;> dsimp only
      · rw [← h.disk]
        exact h.instances
      · dsimp only at hw
        rw [← h.disk] at hw
        obtain ⟨msg', hmsg', heq⟩ := h.chunks session msg hw
        rw [(hkept (Transfer.lt_of_mem_messages hmsg')).2]
        exact ⟨msg', hmsg', heq⟩
      · rw [← h.disk]
        exact h.owned
      · rw [← h.disk]
        exact h.renamed
    | arrive n i F =>
      obtain ⟨t, ht, rfl⟩ := Option.map_eq_some_iff.mp hstep
      obtain ⟨session, msg, hget, -, rfl⟩ := Transfer.step_arrive ht
      exact h.receive hok hget _
        (CheckpointManager.receiveCheckpoint_cases F session msg s.transfer.state)
    | restart senderNodeId sequenceId =>
      simp only [Shared.step] at hstep
      obtain ⟨t, ht, rfl⟩ := Option.map_eq_some_iff.mp hstep
      obtain rfl := Option.some.inj ht
      obtain ⟨f, hf⟩ := h.instances
      exact ⟨h.disk, h.sourced, ⟨f, fun t ht => absurd ht List.not_mem_nil,
        fun b hb => absurd hb List.not_mem_nil, hf.writes⟩, h.chunks, h.owned, h.renamed⟩

/-- Before the first step there is no temporary directory, and the constructor of the receiver has
set neither field. -/
def start (senderNodeId sequenceId : ℕ) : Shared where
  transfer := Transfer.start senderNodeId sequenceId none

end Shared

/-- In every run in which only the round or session that last cleared the temporary directory writes
into it and renames it, and who cleared it had found all files, each renamed directory has only
files of the path that renamed it, for the instance in its name. -/
theorem paths_never_mix {ids : List ℕ} {keepLogCount senderNodeId sequenceId : ℕ} {s : Shared}
    (h : Reaches (Shared.step ids keepLogCount) (fun s a => s.exclusive ids keepLogCount a = true)
      (Shared.start senderNodeId sequenceId) s) :
    ∀ d ∈ s.transfer.state.disk.renamed, ∀ w ∈ d.writes,
      w.path = d.path ∧ w.instanceId = d.instanceId := by
  have hunmixed : s.Unmixed := by
    refine h.invariant ?_ fun s t a hs hok hstep => hs.step hok hstep
    exact ⟨rfl, fun n msgs hmsgs => absurd hmsgs List.not_mem_nil,
      ⟨fun _ => 0, fun t ht => absurd ht List.not_mem_nil, fun b hb => absurd hb List.not_mem_nil,
        fun r i m hw => absurd hw List.not_mem_nil⟩,
      fun session msg hw => absurd hw List.not_mem_nil, fun w hw => absurd hw List.not_mem_nil,
      fun d hd => absurd hd List.not_mem_nil⟩
  rw [← hunmixed.disk]
  exact hunmixed.renamed

/-- A local round, and then a session of a peer. -/
def separateRun : List SharedLabel :=
  [.machines (.makeCheckpoint 5 1 {} (fun _ => {}) fun _ => true),
    .machines (.write 0 { name := "data" }), .machines (.report 0 true),
    .machines (.runCallback {}), .transfer (.sendCheckpoint 9 laterSource),
    .transfer (.arrive 9 0 {}),
    .transfer (.arrive 9 1 {}), .transfer (.arrive 9 2 {}), .transfer (.arrive 9 3 {})]

/-- Both are published, each with its own files. -/
theorem paths_never_mix_separate :
    ∃ s : Shared, s.transfer.state.disk.renamed.map Renamed.instanceId = [6, 5] ∧
      ∀ d ∈ s.transfer.state.disk.renamed, ∀ w ∈ d.writes,
        w.path = d.path ∧ w.instanceId = d.instanceId := by
  have hrun : (runChecked (Shared.step [1] 2) (Shared.exclusive [1] 2) (Shared.start 0 0)
      separateRun).map (fun s => s.transfer.state.disk.renamed.map Renamed.instanceId) =
        some [6, 5] := by
    decide +kernel
  obtain ⟨s, hs, hval⟩ := Option.map_eq_some_iff.mp hrun
  exact ⟨s, hval, paths_never_mix
    (Reaches.of_runChecked separateRun (fun _ _ _ hok => hok) hs)⟩

/-- A peer's checkpoint begins to arrive while a local round is open, and then the machine, which
has written before, reports. -/
def mixingRun : List SharedLabel :=
  [.machines (.makeCheckpoint 5 1 {} (fun _ => {}) fun _ => true),
    .machines (.write 0 { name := "data" }), .transfer (.sendCheckpoint 9 laterSource),
    .transfer (.arrive 9 0 {}),
    .transfer (.arrive 9 1 {}), .machines (.report 0 true), .machines (.runCallback {})]

/-- The local round publishes what the peer sent: both paths fill and rename one directory. -/
theorem peer_files_published :
    ∃ s, run (Shared.step [1] 2) (Shared.start 0 0) mixingRun = some s ∧
      ∃ d ∈ s.transfer.state.disk.renamed, d.path = .finishMakeCheckpoint ∧ d.instanceId = 5 ∧
        ∃ w ∈ d.writes, w.path = .endToReceive ∧ w.instanceId = 6 := by
  have hrun : (run (Shared.step [1] 2) (Shared.start 0 0) mixingRun).map (fun s =>
      s.transfer.state.disk.renamed.any fun d =>
        d.path = .finishMakeCheckpoint && d.instanceId = 5 &&
          d.writes.any fun w => w.path = .endToReceive && w.instanceId = 6) = some true := by
    decide +kernel
  obtain ⟨s, hs, hval⟩ := Option.map_eq_some_iff.mp hrun
  obtain ⟨d, hd, hdir⟩ := List.any_eq_true.mp hval
  simp only [Bool.and_eq_true, decide_eq_true_eq, List.any_eq_true] at hdir
  obtain ⟨⟨hpath, hinst⟩, hwrite⟩ := hdir
  exact ⟨s, hs, d, hd, hpath, hinst, hwrite⟩

end Skywalker
