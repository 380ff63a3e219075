import Skywalker.Library.Run
import Skywalker.TempDirectory
import Mathlib.Data.List.Dedup
import Mathlib.Data.Nat.Notation
import Mathlib.Logic.Function.Basic

/-!
# Receiving a checkpoint

`CheckpointReceiver` appends the fragments that a peer sends to files under the temporary checkpoint
directory, which `CHECKPOINT_END` renames to a checkpoint.

A directory is the list of the writes into the files that are there, oldest first, so that the
content of a file is what was appended to it. Each write remembers who made it and each message the
session that sent it; the code has neither. What can go wrong in the file system is an input
(`FileEnv`). `DeleteTempCheckpoint` is the function of `TempDirectory` on the tree of these files:
it may return true and leave files, where a directory cannot be listed or a machine has made another
one in its own.

`Received` says once what a message can do, and `CheckpointManager.receiveCheckpoint_cases` that it
does one of these things.
-/

namespace Skywalker

open TransitionSystem

/-! ## Messages -/

/-- `CheckpointMessageType`: the kinds of messages of a session. -/
inductive CheckpointMessageType where
  | checkpointBegin
  | checkpointFile
  | checkpointEnd
  | checkpointComfirm
deriving DecidableEq, Repr

/-- `CheckpointMessage`, with the fields that a receiver reads. -/
structure CheckpointMessage where
  type : CheckpointMessageType
  nodeId : ℕ
  instanceId : ℕ := 0
  /-- The place of the message in its session. -/
  sequenceId : ℕ := 0
  /-- The machine whose file this is a part of. -/
  machineId : ℕ := 0
  file : String := ""
  data : List UInt8 := []
deriving DecidableEq, Repr

/-- A session: one call of `SendCheckpoint` on a node. No message carries it. -/
structure Session where
  sender : ℕ
  /-- How many sessions the node started before. -/
  number : ℕ
deriving DecidableEq, Repr

/-! ## The temporary directory -/

/-- A write into the temporary directory. -/
inductive Write where
  /-- The finished file of a machine for a local checkpoint. -/
  | machine (round instanceId machineId : ℕ)
  /-- The data of a `CHECKPOINT_FILE`, appended to its file. -/
  | chunk (session : Session) (msg : CheckpointMessage)
deriving DecidableEq, Repr

/-- The machine in whose subdirectory a write is. -/
def Write.machineId : Write → ℕ
  | .machine _ _ m => m
  | .chunk _ msg => msg.machineId

/-- The write is an append to the file `file` of the machine `machineId`. -/
def Write.isFile (machineId : ℕ) (file : String) : Write → Bool
  | .machine .. => false
  | .chunk _ msg => msg.machineId = machineId && msg.file = file

/-- The bytes that a write appends. -/
def Write.data : Write → List UInt8
  | .machine .. => []
  | .chunk _ msg => msg.data

/-- Where a file is in the directory of its machine. -/
structure Place where
  /-- The directory in the machine's own one that the file is below, if there is one. -/
  nested : Option String := none
  name : String
deriving DecidableEq, Repr

/-- A write with the file that it went into. -/
structure StoredWrite where
  /-- The file that was written to. -/
  place : Place
  write : Write
deriving DecidableEq, Repr

/-- The temporary directory into which a checkpoint is written. -/
structure TempDir where
  /-- The machines that have a subdirectory. -/
  subdirs : List ℕ := []
  /-- The writes into the files that are there, oldest first. -/
  files : List StoredWrite := []
deriving DecidableEq, Repr

/-- The name of the subdirectory of a machine. -/
def machineDir (machineId : ℕ) : String := "m" ++ toString machineId

namespace TempDir

/-- The writes, without the files that they are in. -/
def writes (t : TempDir) : List Write := t.files.map StoredWrite.write

/-- Writes with the same name together. -/
def groupBy (key : StoredWrite → String) (l : List StoredWrite) :
    List (String × List StoredWrite) :=
  (l.map key).dedup.map fun name => (name, l.filter fun f => key f = name)

/-- The files that writes into one directory make. -/
def fileEntries (l : List StoredWrite) : List (String × FileNode (List Write)) :=
  (groupBy (fun f => f.place.name) l).map fun g => (g.1, .file (g.2.map StoredWrite.write))

/-- What is in the subdirectory of a machine. -/
def machineEntries (t : TempDir) (machineId : ℕ) : List (String × FileNode (List Write)) :=
  let l := t.files.filter fun f => f.write.machineId = machineId
  fileEntries (l.filter fun f => f.place.nested.isNone) ++
    (groupBy (fun f => f.place.nested.getD "") (l.filter fun f => f.place.nested.isSome)).map
      fun g => (g.1, .dir (fileEntries g.2))

/-- The directory as a tree. -/
def tree (t : TempDir) : FileNode (List Write) :=
  .dir ((t.subdirs ++ t.writes.map Write.machineId).dedup.map fun m =>
    (machineDir m, .dir (t.machineEntries m)))

/-- The directory when a tree is left of it. -/
def left (t : TempDir) (node : FileNode (List Write)) : TempDir where
  subdirs := t.subdirs.filter fun m => (node.entry (machineDir m)).isSome
  files := t.files.filter fun f => ((node.entry (machineDir f.write.machineId)).bind
    (FileNode.entry (f.place.nested.getD f.place.name))).isSome

end TempDir

/-- The two callers of `UpdateCheckpoint`. -/
inductive Path where
  | finishMakeCheckpoint
  | endToReceive
deriving DecidableEq, Repr

/-- A directory that `UpdateCheckpoint` renamed to `checkpoint-<instanceId>`. -/
structure Renamed where
  /-- The function that renamed the directory. -/
  path : Path
  /-- The instance in the new name. -/
  instanceId : ℕ
  /-- What was written into it. -/
  writes : List Write
deriving DecidableEq, Repr

/-- The bytes of a file of the directory. -/
def Renamed.content (d : Renamed) (machineId : ℕ) (file : String) : List UInt8 :=
  (d.writes.filter (Write.isFile machineId file)).flatMap Write.data

/-- The results of file operations. -/
structure FileEnv where
  /-- Those of the calls in `DeleteTempCheckpoint`. -/
  dirs : DirEnv := {}
  /-- `CreateDir` succeeds where there is a parent and nothing of that name. -/
  created : Bool := true
  /-- `NewAppendableFile` succeeds where there is a directory. -/
  opened : Bool := true
  /-- How much of the data was appended when `Append` fails. -/
  cut : Option ℕ := none
  /-- How much of the data reaches the file when the `fclose` fails that ends the append. Nobody
  looks at its result. -/
  closed : Option ℕ := none
  /-- `RenameFile` succeeds where there is something to rename. -/
  renamed : Bool := true

/-- What of the data is in the file after an append that succeeds. -/
def FileEnv.kept (F : FileEnv) (data : List UInt8) : List UInt8 :=
  match F.closed with
  | none => data
  | some k => data.take k

/-- The part of the file system that checkpoints are made in. -/
structure Disk where
  /-- The temporary directory, `none` where it does not exist. -/
  temp : Option TempDir := none
  /-- The directories that were renamed, newest first. -/
  renamed : List Renamed := []
deriving DecidableEq, Repr

namespace Disk

/-- The machine has a subdirectory in the temporary directory. -/
def hasDir (d : Disk) (machineId : ℕ) : Bool :=
  d.temp.any fun t => t.subdirs.contains machineId

/-- The writes into the temporary directory, with their files. -/
def files (d : Disk) : List StoredWrite := (d.temp.map TempDir.files).getD []

/-- The writes into the temporary directory. -/
def writes (d : Disk) : List Write := d.files.map StoredWrite.write

/-- `DeleteTempCheckpoint` on the tree of the directory: its result and what is left. -/
def deleteTempCheckpoint (F : FileEnv) (d : Disk) : Bool × Disk :=
  let r := Skywalker.deleteTempCheckpoint F.dirs (d.temp.map TempDir.tree)
  (r.1, { d with temp := r.2.map (d.temp.getD {}).left })

/-- `DeleteTempCheckpoint` finds all files: they are in the directories of the machines themselves,
and these and the temporary directory can be listed. -/
def Listable (F : FileEnv) (d : Disk) : Prop :=
  ∀ f ∈ d.files, F.dirs.opensTemp = true ∧ F.dirs.opens (machineDir f.write.machineId) = true ∧
    f.place.nested = none

instance (F : FileEnv) (d : Disk) : Decidable (d.Listable F) :=
  inferInstanceAs (Decidable (∀ f ∈ d.files, _))

/-- `CreateDir` on the subdirectory of a machine. -/
def createDir (F : FileEnv) (machineId : ℕ) (d : Disk) : Bool × Disk :=
  match d.temp with
  | none => (false, d)
  | some t =>
    if t.subdirs.contains machineId || !F.created then (false, d)
    else (true, { d with temp := some { t with subdirs := machineId :: t.subdirs } })

/-- A write into a file of the temporary directory. -/
def write (place : Place) (w : Write) (d : Disk) : Disk :=
  { d with temp := d.temp.map fun t => { t with files := t.files ++ [⟨place, w⟩] } }

/-- The renaming of the temporary directory in `MachineManager::UpdateCheckpoint`. -/
def updateCheckpoint (F : FileEnv) (path : Path) (instanceId : ℕ) (d : Disk) : Bool × Disk :=
  match d.temp with
  | none => (false, d)
  | some t =>
    if F.renamed then (true, { temp := none, renamed := ⟨path, instanceId, t.writes⟩ :: d.renamed })
    else (false, d)

end Disk

/-! ## The receiver -/

/-- The fields of `CheckpointReceiver` that its functions read. -/
structure CheckpointReceiver where
  /-- `sender_node_id_`: the node whose session is received. -/
  senderNodeId : ℕ := 0
  /-- `sequence_id_`: the number of the last message that was taken. -/
  sequenceId : ℕ := 0
  /-- `dirs_`: the machines whose subdirectory is known to exist. -/
  dirs : List ℕ := []
deriving DecidableEq, Repr

/-- A node as far as it receives checkpoints. -/
structure Receiving where
  receiver : CheckpointReceiver := {}
  disk : Disk := {}
  /-- The session of the last `CHECKPOINT_BEGIN`, when it was taken and there was no `Reset`. -/
  session : Option Session := none
  /-- The process is gone: `EndToReceive` calls `_exit`. -/
  exited : Bool := false
deriving DecidableEq, Repr

namespace CheckpointReceiver

/-- `Reset` sets all fields of the receiver to zero. -/
def reset (s : Receiving) : Receiving := { s with receiver := {}, session := none }

/-- `ComfirmReceive`: a failure with the present sender resets the receiver. -/
def comfirmReceive (msg : CheckpointMessage) (r : Bool × Receiving) : Bool × Receiving :=
  if !r.1 && msg.nodeId = r.2.receiver.senderNodeId then (false, reset r.2) else (true, r.2)

/-- `BeginToReceive` starts a session and clears the temporary directory. -/
def beginToReceive (F : FileEnv) (session : Session) (msg : CheckpointMessage) (s : Receiving) :
    Bool × Receiving :=
  let d := s.disk.deleteTempCheckpoint F
  comfirmReceive msg
    (d.1, { s with receiver := ⟨msg.nodeId, 0, []⟩, disk := d.2, session := some session })

/-- The subdirectory of the machine in `ReceiveFiles`: created when the receiver does not know it,
whatever `CreateDir` says, and then looked for. -/
def findDir (F : FileEnv) (machineId : ℕ) (s : Receiving) : Bool × Receiving :=
  if machineId ∈ s.receiver.dirs then (true, s)
  else
    let disk := (s.disk.createDir F machineId).2
    if disk.hasDir machineId then
      (true, { s with disk, receiver := { s.receiver with dirs := machineId :: s.receiver.dirs } })
    else (false, { s with disk })

/-- Appending the data in `ReceiveFiles`. The file is closed by `delete file`. -/
def appendFile (F : FileEnv) (session : Session) (msg : CheckpointMessage) (s : Receiving) :
    Bool × Receiving :=
  if F.opened && s.disk.hasDir msg.machineId then
    match F.cut with
    | none => (true,
        { s with
          disk := s.disk.write { name := msg.file }
            (.chunk session { msg with data := F.kept msg.data })
          receiver := { s.receiver with sequenceId := s.receiver.sequenceId + 1 } })
    | some k => (false,
        { s with
          disk := s.disk.write { name := msg.file }
            (.chunk session { msg with data := msg.data.take k }) })
  else (false, s)

/-- `ReceiveFiles` takes the next fragment of the present session. -/
def receiveFiles (F : FileEnv) (session : Session) (msg : CheckpointMessage) (s : Receiving) :
    Bool × Receiving :=
  if msg.nodeId ≠ s.receiver.senderNodeId then (false, s)
  else if msg.sequenceId = s.receiver.sequenceId then (true, s)
  else if msg.sequenceId ≠ s.receiver.sequenceId + 1 then (false, s)
  else
    let d := findDir F msg.machineId s
    if d.1 then appendFile F session msg d.2 else d

/-- `EndToReceive`. The process ends after the renaming, which counts as success here. -/
def endToReceive (F : FileEnv) (msg : CheckpointMessage) (s : Receiving) : Bool × Receiving :=
  if msg.nodeId ≠ s.receiver.senderNodeId then (true, s)
  else if msg.sequenceId ≠ s.receiver.sequenceId + 1 then (false, s)
  else
    let d := s.disk.updateCheckpoint F .endToReceive msg.instanceId
    if d.1 then (true, { s with disk := d.2, exited := true }) else (false, s)

end CheckpointReceiver

/-- `CheckpointManager::ReceiveCheckpoint` selects the function by the kind of the message. -/
def CheckpointManager.receiveCheckpoint (F : FileEnv) (session : Session) (msg : CheckpointMessage)
    (s : Receiving) : Bool × Receiving :=
  match msg.type with
  | .checkpointBegin => CheckpointReceiver.beginToReceive F session msg s
  | .checkpointFile =>
    CheckpointReceiver.comfirmReceive msg (CheckpointReceiver.receiveFiles F session msg s)
  | .checkpointEnd => CheckpointReceiver.endToReceive F msg s
  | .checkpointComfirm => (true, s)

/-! ## What a message can do -/

/-- What a message does at a receiver, with the result that the handler returns. -/
inductive Received (F : FileEnv) (session : Session) (msg : CheckpointMessage) (s : Receiving) :
    Bool → Receiving → Prop where
  /-- The message changes nothing: it is not from the sender, a repetition, or an end that does not
  follow or cannot be published. -/
  | ignored (res : Bool)
      (h : res = true → msg.type = .checkpointFile → msg.nodeId = s.receiver.senderNodeId →
        msg.sequenceId = s.receiver.sequenceId)
      (hend : res = true → msg.type = .checkpointEnd → msg.nodeId ≠ s.receiver.senderNodeId)
      (hbegin : msg.type ≠ .checkpointBegin) :
      Received F session msg s res s
  /-- A session begins. `DeleteTempCheckpoint` has returned true, and has deleted the files if it
  found them. -/
  | begun (disk : Disk) (htype : msg.type = .checkpointBegin)
      (hdeleted : (s.disk.deleteTempCheckpoint F).1 = true) (hsub : disk.writes ⊆ s.disk.writes)
      (hempty : s.disk.Listable F → disk.writes = []) (hrenamed : disk.renamed = s.disk.renamed) :
      Received F session msg s true
        { s with receiver := ⟨msg.nodeId, 0, []⟩, disk, session := some session }
  /-- The receiver forgets its session. Files may be gone, and a part of the data of a message that
  follows may have been appended. -/
  | reset (disk : Disk) (hrenamed : disk.renamed = s.disk.renamed)
      (hwrites : ∀ w ∈ disk.writes, w ∈ s.disk.writes ∨
        (msg.type = .checkpointFile ∧ msg.nodeId = s.receiver.senderNodeId ∧
          msg.sequenceId = s.receiver.sequenceId + 1 ∧
          ∃ data, w = .chunk session { msg with data })) :
      Received F session msg s false { s with receiver := {}, disk, session := none }
  /-- The data of the next message of the sender is appended, as much of it as is kept. -/
  | appended (disk : Disk) (dirs : List ℕ) (htype : msg.type = .checkpointFile)
      (hnode : msg.nodeId = s.receiver.senderNodeId)
      (hseq : msg.sequenceId = s.receiver.sequenceId + 1)
      (hwrites : disk.writes =
        s.disk.writes ++ [.chunk session { msg with data := F.kept msg.data }])
      (hrenamed : disk.renamed = s.disk.renamed) :
      Received F session msg s true
        { s with
          receiver := ⟨s.receiver.senderNodeId, s.receiver.sequenceId + 1, dirs⟩
          disk }
  /-- The end of the sender's session publishes the directory. -/
  | published (htype : msg.type = .checkpointEnd)
      (hnode : msg.nodeId = s.receiver.senderNodeId)
      (hseq : msg.sequenceId = s.receiver.sequenceId + 1) :
      Received F session msg s true
        { s with
          disk := ⟨none, ⟨.endToReceive, msg.instanceId, s.disk.writes⟩ :: s.disk.renamed⟩
          exited := true }

/-- The entries of a directory that no machine has made another one in are regular files. -/
theorem TempDir.isRegular_of_mem {t : TempDir} (hflat : ∀ f ∈ t.files, f.place.nested = none)
    {machineId : ℕ} {e : String × FileNode (List Write)} (he : e ∈ t.machineEntries machineId) :
    e.2.isRegular = true := by
  rcases List.mem_append.mp he with he | he
  · obtain ⟨g, -, rfl⟩ := List.mem_map.mp he
    rfl
  · obtain ⟨g, hg, rfl⟩ := List.mem_map.mp he
    obtain ⟨name, hname, rfl⟩ := List.mem_map.mp hg
    obtain ⟨f, hf, -⟩ := List.mem_map.mp (List.mem_dedup.mp hname)
    obtain ⟨hmem, hnested⟩ := List.mem_filter.mp hf
    rw [hflat f (List.mem_filter.mp hmem).1] at hnested
    cases hnested

theorem TempDir.machineEntries_eq_nil {t : TempDir} {machineId : ℕ}
    (h : ∀ f ∈ t.files, f.write.machineId ≠ machineId) : t.machineEntries machineId = [] := by
  have hnone : (t.files.filter fun f => f.write.machineId = machineId) = [] :=
    List.filter_eq_nil_iff.mpr fun f hf => by simpa using h f hf
  simp only [machineEntries, hnone]
  rfl

namespace Disk

theorem writes_of_temp {d : Disk} {t : TempDir} (h : d.temp = some t) : d.writes = t.writes := by
  rw [writes, files, h, Option.map_some, Option.getD_some, TempDir.writes]

/-- `DeleteTempCheckpoint` leaves no file behind when it says so and has found them all. -/
theorem files_deleteTempCheckpoint {F : FileEnv} {d : Disk} (hlist : d.Listable F)
    (hdeleted : (d.deleteTempCheckpoint F).1 = true) : (d.deleteTempCheckpoint F).2.files = [] := by
  cases htemp : d.temp with
  | none =>
    simp only [deleteTempCheckpoint, htemp, Skywalker.deleteTempCheckpoint, Option.map_none, files]
    cases F.dirs.creates <;> rfl
  | some t =>
    have hfiles : d.files = t.files := by rw [files, htemp, Option.map_some, Option.getD_some]
    rw [Listable, hfiles] at hlist
    simp only [deleteTempCheckpoint, htemp, TempDir.tree, Skywalker.deleteTempCheckpoint,
      Option.map_some, Option.getD_some, files] at hdeleted ⊢
    split_ifs at hdeleted ⊢ with hopens
    · -- No directory that is left has a file.
      have hempty := deleteChildren_of_regular hdeleted fun e he => by
        obtain ⟨m, -, rfl⟩ := List.mem_map.mp he
        refine ⟨_, rfl, ?_⟩
        by_cases hfile : ∃ f ∈ t.files, f.write.machineId = m
        · obtain ⟨f, hf, rfl⟩ := hfile
          exact .inr ⟨(hlist f hf).2.1,
            fun e he => TempDir.isRegular_of_mem (fun f hf => (hlist f hf).2.2) he⟩
        · exact .inl (TempDir.machineEntries_eq_nil fun f hf heq => hfile ⟨f, hf, heq⟩)
      refine List.filter_eq_nil_iff.mpr fun f _ => ?_
      rw [Bool.not_eq_true, Option.isSome_eq_false_iff, Option.isNone_iff_eq_none,
        Option.bind_eq_none_iff]
      intro node hnode
      obtain ⟨e, he, rfl⟩ := Option.map_eq_some_iff.mp hnode
      rw [hempty e (List.mem_of_find?_eq_some he)]
      rfl
    · -- The temporary directory can be listed if there is a file in it.
      refine List.filter_eq_nil_iff.mpr fun f hf => ?_
      exact absurd (hlist f hf).1 hopens

/-- `DeleteTempCheckpoint` renames and writes nothing, and leaves no file behind when it says so and
has found them all. -/
theorem deleteTempCheckpoint_spec (F : FileEnv) (d : Disk) :
    (d.deleteTempCheckpoint F).2.renamed = d.renamed ∧
      (d.deleteTempCheckpoint F).2.writes ⊆ d.writes ∧
      ((d.deleteTempCheckpoint F).1 = true → d.Listable F →
        (d.deleteTempCheckpoint F).2.writes = []) := by
  refine ⟨rfl, ?_, fun hdeleted hlist => ?_⟩
  · intro w hw
    obtain ⟨f, hf, rfl⟩ := List.mem_map.mp hw
    refine List.mem_map_of_mem ?_
    unfold files deleteTempCheckpoint at hf
    dsimp only at hf
    cases hleft : (Skywalker.deleteTempCheckpoint F.dirs (d.temp.map TempDir.tree)).2 with
    | none => simp [hleft] at hf
    | some node =>
      rw [hleft, Option.map_some, Option.map_some, Option.getD_some] at hf
      have hmem : f ∈ (d.temp.getD {}).files := (List.mem_filter.mp hf).1
      cases htemp : d.temp with
      | none => simp [htemp] at hmem
      | some t => simpa [files, htemp] using hmem
  · rw [writes, files_deleteTempCheckpoint hlist hdeleted]
    rfl

/-- `CreateDir` changes no file and renames nothing. -/
theorem createDir_spec (F : FileEnv) (machineId : ℕ) (d : Disk) :
    (d.createDir F machineId).2.renamed = d.renamed ∧
      (d.createDir F machineId).2.writes = d.writes := by
  unfold createDir
  cases htemp : d.temp with
  | none => exact ⟨rfl, rfl⟩
  | some t =>
    dsimp only
    split
    · exact ⟨rfl, rfl⟩
    · exact ⟨rfl, (writes_of_temp htemp).symm⟩

theorem writes_write {d : Disk} {t : TempDir} (h : d.temp = some t) (place : Place) (w : Write) :
    (d.write place w).writes = d.writes ++ [w] := by
  simp [writes, files, write, h]

theorem mem_writes_write {d : Disk} {place : Place} {w w' : Write}
    (h : w' ∈ (d.write place w).writes) : w' ∈ d.writes ∨ w' = w := by
  cases htemp : d.temp with
  | none => simp [writes, files, write, htemp] at h
  | some t => simpa [writes_write htemp] using h

theorem exists_of_hasDir {d : Disk} {machineId : ℕ} (h : d.hasDir machineId = true) :
    ∃ t, d.temp = some t := by
  unfold hasDir at h
  cases htemp : d.temp with
  | none => simp [htemp] at h
  | some t => exact ⟨t, rfl⟩

/-- The renaming takes the directory as it is. -/
theorem updateCheckpoint_spec {F : FileEnv} {path : Path} {instanceId : ℕ} {d : Disk}
    (h : (d.updateCheckpoint F path instanceId).1 = true) :
    d.temp ≠ none ∧ (d.updateCheckpoint F path instanceId).2 =
      ⟨none, ⟨path, instanceId, d.writes⟩ :: d.renamed⟩ := by
  unfold updateCheckpoint at h ⊢
  cases htemp : d.temp with
  | none => simp [htemp] at h
  | some t =>
    simp only [htemp] at h ⊢
    split at h
    case isTrue hren => exact ⟨Option.some_ne_none t, by rw [if_pos hren, writes_of_temp htemp]⟩
    case isFalse => cases h

/-- A renaming that fails changes nothing. -/
theorem updateCheckpoint_of_false {F : FileEnv} {path : Path} {instanceId : ℕ} {d : Disk}
    (h : (d.updateCheckpoint F path instanceId).1 = false) :
    (d.updateCheckpoint F path instanceId).2 = d := by
  unfold updateCheckpoint at h ⊢
  cases htemp : d.temp with
  | none => rfl
  | some t =>
    simp only [htemp] at h ⊢
    split at h
    case isTrue => cases h
    case isFalse hren => rw [if_neg hren]

end Disk

namespace CheckpointReceiver

/-- `ComfirmReceive` takes a success through and turns a failure of the sender's message into a
`Reset`. -/
theorem comfirmReceive_cases (msg : CheckpointMessage) (r : Bool × Receiving) :
    comfirmReceive msg r = (true, r.2) ∧
        (r.1 = true ∨ msg.nodeId ≠ r.2.receiver.senderNodeId) ∨
      comfirmReceive msg r = (false, reset r.2) ∧ r.1 = false ∧
        msg.nodeId = r.2.receiver.senderNodeId := by
  obtain ⟨res, s⟩ := r
  unfold comfirmReceive
  by_cases hnode : msg.nodeId = s.receiver.senderNodeId <;> cases res <;> simp [hnode]

/-- Looking for the subdirectory changes no file, and keeps the sender and the count. -/
theorem findDir_spec (F : FileEnv) (machineId : ℕ) (s : Receiving) :
    ∃ disk dirs, (findDir F machineId s).2 =
        { s with receiver := { s.receiver with dirs }, disk } ∧
      disk.renamed = s.disk.renamed ∧ disk.writes = s.disk.writes := by
  have hcreate := Disk.createDir_spec F machineId s.disk
  unfold findDir
  split
  · exact ⟨s.disk, s.receiver.dirs, rfl, rfl, rfl⟩
  dsimp only
  split
  · exact ⟨_, _, rfl, hcreate.1, hcreate.2⟩
  · exact ⟨_, s.receiver.dirs, rfl, hcreate.1, hcreate.2⟩

/-- Appending writes the data once when it succeeds and at most a part of it when it fails, and
renames nothing. -/
theorem appendFile_cases (F : FileEnv) (session : Session) (msg : CheckpointMessage)
    (s : Receiving) :
    ∃ disk, disk.renamed = s.disk.renamed ∧
      (appendFile F session msg s = (true,
          { s with
            disk
            receiver := { s.receiver with sequenceId := s.receiver.sequenceId + 1 } }) ∧
          disk.writes =
            s.disk.writes ++ [.chunk session { msg with data := F.kept msg.data }] ∨
        appendFile F session msg s = (false, { s with disk }) ∧
          ∀ w ∈ disk.writes, w ∈ s.disk.writes ∨ ∃ data, w = .chunk session { msg with data }) := by
  unfold appendFile
  split
  case isTrue h =>
    obtain ⟨t, ht⟩ := Disk.exists_of_hasDir (Bool.and_eq_true_iff.mp h).2
    cases F.cut with
    | none =>
      exact ⟨s.disk.write { name := msg.file }
        (.chunk session { msg with data := F.kept msg.data }), rfl,
        .inl ⟨rfl, Disk.writes_write ht _ _⟩⟩
    | some k =>
      refine ⟨s.disk.write { name := msg.file }
        (.chunk session { msg with data := msg.data.take k }), rfl, .inr ⟨rfl, fun w hw => ?_⟩⟩
      exact (Disk.mem_writes_write hw).imp_right fun h => ⟨_, h⟩
  case isFalse => exact ⟨_, rfl, .inr ⟨rfl, fun w hw => .inl hw⟩⟩

/-- A `CHECKPOINT_FILE` that follows the sender's last one is appended or ends in a `Reset`. -/
theorem receiveFiles_next (F : FileEnv) {session : Session} {msg : CheckpointMessage}
    {s : Receiving} (htype : msg.type = .checkpointFile)
    (hnode : msg.nodeId = s.receiver.senderNodeId)
    (hseq : msg.sequenceId = s.receiver.sequenceId + 1) :
    let r := comfirmReceive msg (receiveFiles F session msg s)
    Received F session msg s r.1 r.2 := by
  have hne : ¬msg.sequenceId = s.receiver.sequenceId := by omega
  obtain ⟨disk, dirs, hdir, hrenamed, hwrites⟩ := findDir_spec F msg.machineId s
  have hfiles : receiveFiles F session msg s =
      if (findDir F msg.machineId s).1 then appendFile F session msg (findDir F msg.machineId s).2
      else findDir F msg.machineId s := by
    unfold receiveFiles
    rw [if_neg (not_not.mpr hnode), if_neg hne, if_neg (not_not.mpr hseq)]
  -- a failure on either way leaves the sender as it was, so that it is confirmed with a `Reset`
  have hfail : ∀ disk' : Disk, disk'.renamed = s.disk.renamed →
      (∀ w ∈ disk'.writes, w ∈ s.disk.writes ∨ ∃ data, w = .chunk session { msg with data }) →
      receiveFiles F session msg s =
        (false, { s with receiver := { s.receiver with dirs }, disk := disk' }) →
      Received F session msg s (comfirmReceive msg (receiveFiles F session msg s)).1
        (comfirmReceive msg (receiveFiles F session msg s)).2 := by
    intro disk' hr hw heq
    rw [heq]
    simp only [comfirmReceive, hnode, Bool.not_false, decide_true, Bool.and_self, if_true]
    exact .reset disk' hr fun w hmem => (hw w hmem).imp_right fun h => ⟨htype, hnode, hseq, h⟩
  dsimp only
  cases hfound : (findDir F msg.machineId s).1 with
  | false =>
    refine hfail disk hrenamed (fun w hw => .inl (hwrites ▸ hw)) ?_
    rw [hfiles, hfound, if_neg Bool.false_ne_true, ← hdir, ← hfound]
  | true =>
    rw [hfound, if_pos rfl, hdir] at hfiles
    obtain ⟨disk', hr, ⟨happ, hw⟩ | ⟨happ, hw⟩⟩ := appendFile_cases F session msg
      { s with receiver := { s.receiver with dirs }, disk }
    · rw [hfiles, happ]
      simp only [comfirmReceive, Bool.not_true, Bool.false_and]
      exact .appended disk' dirs htype hnode hseq (hw.trans (by rw [hwrites])) (hr.trans hrenamed)
    · exact hfail disk' (hr.trans hrenamed) (hwrites ▸ hw) (hfiles.trans happ)

end CheckpointReceiver

open CheckpointReceiver in
/-- Every message is one of the five cases. -/
theorem CheckpointManager.receiveCheckpoint_cases (F : FileEnv) (session : Session)
    (msg : CheckpointMessage) (s : Receiving) :
    Received F session msg s (receiveCheckpoint F session msg s).1
      (receiveCheckpoint F session msg s).2 := by
  unfold receiveCheckpoint
  cases htype : msg.type with
  | checkpointBegin =>
    dsimp only
    -- The sender and its number are taken over before the old directory is deleted.
    obtain ⟨hrenamed, hsub, hempty⟩ := Disk.deleteTempCheckpoint_spec F s.disk
    unfold beginToReceive
    obtain ⟨heq, hres | hnode⟩ | ⟨heq, -, -⟩ := comfirmReceive_cases msg
      ((s.disk.deleteTempCheckpoint F).1,
        { s with
          receiver := ⟨msg.nodeId, 0, []⟩
          disk := (s.disk.deleteTempCheckpoint F).2
          session := some session })
    · rw [heq]
      exact .begun _ htype hres hsub (hempty hres) hrenamed
    · -- The receiver has just taken the sender's id.
      exact absurd rfl hnode
    · rw [heq]
      exact .reset _ hrenamed fun w hw => .inl (hsub hw)
  | checkpointFile =>
    dsimp only
    by_cases hnode : msg.nodeId = s.receiver.senderNodeId
    · by_cases hseq : msg.sequenceId = s.receiver.sequenceId + 1
      · exact receiveFiles_next F htype hnode hseq
      · by_cases hsame : msg.sequenceId = s.receiver.sequenceId
        · -- A repeated message is confirmed once more.
          have hfiles : receiveFiles F session msg s = (true, s) := by
            simp [receiveFiles, hnode, hsame]
          rw [hfiles]
          exact .ignored true (fun _ _ _ => hsame) (fun _ h => by simp [htype] at h)
            (by simp [htype])
        · have hfiles : receiveFiles F session msg s = (false, s) := by
            simp [receiveFiles, hnode, hsame, hseq]
          rw [hfiles]
          simp only [comfirmReceive, hnode, Bool.not_false, decide_true, Bool.and_self, if_true]
          exact .reset s.disk rfl fun w hw => .inl hw
    · -- `ComfirmReceive` resets the receiver only for its own sender.
      have hfiles : receiveFiles F session msg s = (false, s) := by simp [receiveFiles, hnode]
      rw [hfiles]
      simp only [comfirmReceive, hnode, decide_false, Bool.and_false, Bool.false_eq_true, if_false]
      exact .ignored true (fun _ _ h => absurd h hnode) (fun _ h => by simp [htype] at h)
        (by simp [htype])
  | checkpointEnd =>
    dsimp only
    unfold endToReceive
    split
    case isTrue hnode =>
      exact .ignored true (fun _ h => by simp [htype] at h) (fun _ _ => hnode) (by simp [htype])
    case isFalse hnode =>
      rw [not_not] at hnode
      split
      -- An end that is out of order is refused, but the receiver stays as it is.
      case isTrue hseq =>
        exact .ignored false (fun h => absurd h Bool.false_ne_true)
          (fun h => absurd h Bool.false_ne_true) (by simp [htype])
      case isFalse hseq =>
        rw [not_not] at hseq
        dsimp only
        split
        case isTrue hupd =>
          rw [(Disk.updateCheckpoint_spec hupd).2]
          exact .published htype hnode hseq
        case isFalse =>
          exact .ignored false (fun h => absurd h Bool.false_ne_true)
            (fun h => absurd h Bool.false_ne_true) (by simp [htype])
  | checkpointComfirm =>
    exact .ignored true (fun _ h => by simp [htype] at h) (fun _ h => by simp [htype] at h)
      (by simp [htype])

end Skywalker
