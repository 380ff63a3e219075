import Skywalker.Receiver

/-!
# Sending a checkpoint, and what arrives of it

`CheckpointSender::SendCheckpoint` sends the files of the latest checkpoint as one session:
`CHECKPOINT_BEGIN`, one `CHECKPOINT_FILE` for each fragment of each file, and `CHECKPOINT_END` when
it takes the session for a success. What the machines list, what the files hold and which of the
calls fail are inputs (`SendSource`).

`session_complete` is about one session and a receiver that handles all of it: it says for which
inputs nothing is missing. `published_from_one_session` is about any number of sessions of any
number of nodes, over a network that may lose and repeat messages but delivers those of one node in
order.
-/

namespace Skywalker

open TransitionSystem

variable {instanceId k machineId n nodeId : ℕ} {b : Bool} {msgs : List CheckpointMessage}
  {msg : CheckpointMessage} {session : Session} {F : FileEnv}
  {l : List (FileEnv × CheckpointMessage)} {s s' : Receiving}

/-! ## The sender -/

/-- The constant `CheckpointSender::kBufferSize`. -/
def kBufferSize : ℕ := 65535

/-- A file that a machine lists, with the results of the calls that send it. -/
structure FileSource where
  name : String
  content : List UInt8 := []
  /-- Whether `NewSequentialFile` succeeds. -/
  opened : Bool := true
  /-- The call of `Read` that fails, by the number of the pass. -/
  readFails : ℕ → Bool := fun _ => false
  /-- `CheckReceive` after the fragment of a pass finds `flag_` set. -/
  comfirmed : ℕ → Bool := fun _ => true

/-- A registered machine, as the sender sees it. -/
structure MachineSource where
  machineId : ℕ
  /-- The files of its `GetCheckpoint`, none of them when it has no checkpoint directory, and `none`
  when `GetCheckpoint` fails. -/
  files : Option (List FileSource)

/-- What a call of `SendCheckpoint` finds. -/
structure SendSource where
  /-- Whether `TryLockCheckpoint` succeeds. -/
  locked : Bool := true
  /-- The instance that `GetLatestCheckpointInstanceId` returns. -/
  instanceId : ℕ
  /-- The machines in the order of the map. -/
  machines : List MachineSource

/-- A fragment of a file. -/
structure Chunk where
  machineId : ℕ
  file : String
  data : List UInt8
deriving DecidableEq, Repr

/-- `MachineManager::GetCheckpoint` for a registered machine. -/
def MachineManager.getCheckpoint (instanceId : ℕ) (m : MachineSource) : Option (List FileSource) :=
  if instanceId = 0 then some [] else m.files

namespace CheckpointSender

/-- The loop of `SendFile` from the pass `i` on: the result and the fragments sent. -/
def sendPasses (f : FileSource) : ℕ → ℕ → Bool × List (List UInt8)
  | 0, _ => (true, [])
  | n + 1, i =>
    if f.readFails i then (false, [])
    else
      let fragment := (f.content.drop (i * kBufferSize)).take kBufferSize
      if fragment = [] then (true, [])
      else if f.comfirmed i then
        let r := sendPasses f n (i + 1)
        (r.1, fragment :: r.2)
      else (false, [fragment])

/-- `SendFile`. A file has at most as many fragments as bytes, and one more pass finds its end. -/
def sendFile (machineId : ℕ) (f : FileSource) : Bool × List Chunk :=
  if f.opened then
    let r := sendPasses f (f.content.length + 1) 0
    (r.1, r.2.map fun data => ⟨machineId, f.name, data⟩)
  else (false, [])

/-- The loop of `SendCheckpointFiles` over the files of a machine, which stops at a failure. -/
def sendFiles (machineId : ℕ) : List FileSource → Bool × List Chunk
  | [] => (true, [])
  | f :: l =>
    let r := sendFile machineId f
    if r.1 then
      let rest := sendFiles machineId l
      (rest.1, r.2 ++ rest.2)
    else r

/-- `SendCheckpointFiles` from the result `res` on. Each machine sets the result anew. -/
def sendCheckpointFiles (instanceId : ℕ) : Bool → List MachineSource → Bool × List Chunk
  | res, [] => (res, [])
  | _, m :: l =>
    match MachineManager.getCheckpoint instanceId m with
    | none => (false, [])
    | some files =>
      let r := sendFiles m.machineId files
      let rest := sendCheckpointFiles instanceId r.1 l
      (rest.1, r.2 ++ rest.2)

/-- The messages of the fragments, numbered by `sequence_id_++` after the one of `BeginToSend`. -/
def fileMessages (nodeId instanceId : ℕ) (chunks : List Chunk) : List CheckpointMessage :=
  chunks.mapIdx fun i c =>
    { type := .checkpointFile, nodeId, instanceId, sequenceId := i + 1
      machineId := c.machineId, file := c.file, data := c.data }

/-- `SendCheckpoint` on the node `nodeId`: the result, and the messages sent, oldest first. -/
def sendCheckpoint (nodeId : ℕ) (src : SendSource) : Bool × List CheckpointMessage :=
  if src.locked then
    let r := sendCheckpointFiles src.instanceId true src.machines
    let begin_ : CheckpointMessage :=
      { type := .checkpointBegin, nodeId, instanceId := src.instanceId }
    let end_ : CheckpointMessage :=
      { type := .checkpointEnd, nodeId, instanceId := src.instanceId, sequenceId := r.2.length + 1 }
    (r.1, begin_ :: fileMessages nodeId src.instanceId r.2 ++ if r.1 then [end_] else [])
  else (false, [])

end CheckpointSender

/-! ## A file is sent or fails -/

/-- No call fails on the way of the file: it opens, each of its passes and the one that finds the
end can be read, and no fragment is refused. -/
structure FileSource.Sendable (f : FileSource) : Prop where
  opened : f.opened = true
  read : ∀ i, i * kBufferSize < f.content.length + kBufferSize → f.readFails i = false
  /-- Every fragment is confirmed in time. -/
  comfirmed : ∀ i, i * kBufferSize < f.content.length → f.comfirmed i = true

/-- All bytes of the file are sent when `SendFile` is called for it. The call may fail nevertheless,
where the last fragment is refused or the end of the file cannot be read. -/
def FileSource.Sent (f : FileSource) : Prop :=
  f.content = [] ∨ f.opened = true ∧ ∀ i, i * kBufferSize < f.content.length →
    f.readFails i = false ∧ ((i + 1) * kBufferSize < f.content.length → f.comfirmed i = true)

/-- The files that the machine lists. -/
def MachineSource.listed (instanceId : ℕ) (m : MachineSource) : List FileSource :=
  (MachineManager.getCheckpoint instanceId m).getD []

theorem MachineSource.listed_eq {m : MachineSource} {files : List FileSource}
    (h : MachineManager.getCheckpoint instanceId m = some files) : m.listed instanceId = files := by
  rw [MachineSource.listed, h, Option.getD_some]

namespace CheckpointSender

theorem fragment_eq_nil_iff (l : List UInt8) (i : ℕ) :
    (l.drop (i * kBufferSize)).take kBufferSize = [] ↔ l.length ≤ i * kBufferSize := by
  simp [List.take_eq_nil_iff, kBufferSize]

/-- A later pass starts at least one fragment further on. -/
theorem add_le_mul_of_lt {i k : ℕ} (h : i < k) :
    i * kBufferSize + kBufferSize ≤ k * kBufferSize := by
  rw [← Nat.add_one_mul]
  exact Nat.mul_le_mul_right _ h

/-- A statement about the passes from `i` on is one about the pass `i` and about those after it. -/
theorem forall_passes {i : ℕ} {P : ℕ → Prop} :
    (∀ k, i ≤ k → P k) ↔ P i ∧ ∀ k, i + 1 ≤ k → P k := by
  constructor
  · exact fun h => ⟨h i (Nat.le_refl i), fun k hk => h k (by omega)⟩
  · rintro ⟨hi, h⟩ k hk
    obtain rfl | hlt := Nat.eq_or_lt_of_le hk
    · exact hi
    · exact h k hlt

/-- The passes from `i` on succeed exactly when none of them fails. -/
theorem sendPasses_fst (f : FileSource) (n i : ℕ)
    (hfuel : f.content.length + kBufferSize ≤ (i + n) * kBufferSize)
    (hreach : i * kBufferSize < f.content.length + kBufferSize) :
    (sendPasses f n i).1 = true ↔
      ∀ k, i ≤ k → (k * kBufferSize < f.content.length + kBufferSize → f.readFails k = false) ∧
        (k * kBufferSize < f.content.length → f.comfirmed k = true) := by
  induction n generalizing i with
  | zero =>
    rw [Nat.add_zero] at hfuel
    omega
  | succ n ih =>
    rw [forall_passes, sendPasses]
    dsimp only
    split_ifs with hread hend hconf
    · simp [hread, hreach]
    · rw [fragment_eq_nil_iff] at hend
      rw [Bool.not_eq_true] at hread
      refine ⟨fun _ => ⟨⟨fun _ => hread, fun h => absurd h (by omega)⟩, fun k hk => ?_⟩,
        fun _ => rfl⟩
      have hk := add_le_mul_of_lt hk
      exact ⟨fun h => absurd h (by omega), fun h => absurd h (by omega)⟩
    · rw [fragment_eq_nil_iff, Nat.not_le] at hend
      have hnext := ih (i + 1) (by rwa [Nat.add_assoc, Nat.add_comm 1 n])
        (by rw [Nat.add_one_mul]; omega)
      simp only [hconf, hnext, hread, implies_true, and_self, true_and]
    · rw [fragment_eq_nil_iff, Nat.not_le] at hend
      simp [hconf, hend]

/-- The passes send a first part of what is left of the file. -/
theorem sendPasses_part (f : FileSource) (n i : ℕ) :
    (sendPasses f n i).2.flatten <+: f.content.drop (i * kBufferSize) := by
  induction n generalizing i with
  | zero => exact List.nil_prefix
  | succ n ih =>
    have hsplit : f.content.drop (i * kBufferSize) =
        (f.content.drop (i * kBufferSize)).take kBufferSize ++
          f.content.drop ((i + 1) * kBufferSize) := by
      rw [Nat.add_one_mul, ← List.drop_drop, List.take_append_drop]
    rw [sendPasses]
    dsimp only
    split_ifs
    · exact List.nil_prefix
    · exact List.nil_prefix
    · rw [List.flatten_cons]
      conv_rhs => rw [hsplit]
      exact (List.prefix_append_right_inj _).mpr (ih (i + 1))
    · rw [List.flatten_singleton]
      exact List.take_prefix _ _

/-- They send all that is left exactly when no read fails before its end, and no fragment is refused
but the last. -/
theorem sendPasses_flatten_iff (f : FileSource) (n i : ℕ)
    (hfuel : f.content.length + kBufferSize ≤ (i + n) * kBufferSize) :
    (sendPasses f n i).2.flatten = f.content.drop (i * kBufferSize) ↔
      ∀ k, i ≤ k → k * kBufferSize < f.content.length →
        f.readFails k = false ∧ ((k + 1) * kBufferSize < f.content.length → f.comfirmed k = true) :=
    by
  induction n generalizing i with
  | zero =>
    have hend : f.content.length ≤ i * kBufferSize := by
      rw [Nat.add_zero] at hfuel
      omega
    rw [sendPasses, List.drop_eq_nil_of_le hend]
    refine ⟨fun _ k hk hlt => ?_, fun _ => rfl⟩
    have := Nat.mul_le_mul_right kBufferSize hk
    omega
  | succ n ih =>
    by_cases hend : f.content.length ≤ i * kBufferSize
    · -- Nothing is left.
      have hnil : (sendPasses f (n + 1) i).2.flatten = [] := by
        have hpart := sendPasses_part f (n + 1) i
        rwa [List.drop_eq_nil_of_le hend, List.prefix_nil] at hpart
      rw [hnil, List.drop_eq_nil_of_le hend]
      refine ⟨fun _ k hk hlt => ?_, fun _ => rfl⟩
      have := Nat.mul_le_mul_right kBufferSize hk
      omega
    · have hlt := Nat.lt_of_not_le hend
      have hne : (f.content.drop (i * kBufferSize)).take kBufferSize ≠ [] := fun h =>
        hend ((fragment_eq_nil_iff _ _).mp h)
      -- The pass sends one fragment, and what follows is compared with the rest of the file.
      have hrest : ∀ l, ((f.content.drop (i * kBufferSize)).take kBufferSize ++ l =
          f.content.drop (i * kBufferSize)) = (l = f.content.drop ((i + 1) * kBufferSize)) := by
        intro l
        rw [← List.append_cancel_left_eq ((f.content.drop (i * kBufferSize)).take kBufferSize) l,
          Nat.add_one_mul, ← List.drop_drop, List.take_append_drop]
      have hnext := ih (i + 1) (by rwa [Nat.add_assoc, Nat.add_comm 1 n])
      rw [sendPasses]
      dsimp only
      rw [if_neg hne]
      rw [forall_passes]
      split_ifs with hread hconf
      -- The read fails: nothing is sent, although something is left.
      · refine ⟨fun h => ?_, fun h => ?_⟩
        · have hzero := congrArg List.length h
          rw [List.flatten_nil, List.length_nil, List.length_drop] at hzero
          omega
        · rw [(h.1 hlt).1] at hread
          cases hread
      · rw [List.flatten_cons, hrest, hnext]
        simp only [hread, hconf, implies_true, and_self, true_and]
      -- The fragment is refused and the loop ends: all is sent just if it was the last.
      · rw [List.flatten_singleton]
        refine ⟨fun hwhole => ?_, fun h => List.take_of_length_le ?_⟩
        · have hle := congrArg List.length hwhole
          rw [List.length_take, List.length_drop] at hle
          refine ⟨fun _ => ⟨Bool.eq_false_iff.mpr hread, fun hmore => ?_⟩, fun k hk hklt => ?_⟩
          · rw [Nat.add_one_mul] at hmore
            omega
          · have := add_le_mul_of_lt hk
            omega
        · rw [List.length_drop]
          by_contra hmore
          exact hconf ((h.1 hlt).2 (by rw [Nat.add_one_mul]; omega))

theorem length_add_le (l : List UInt8) :
    l.length + kBufferSize ≤ (0 + (l.length + 1)) * kBufferSize := by
  rw [Nat.zero_add, Nat.add_one_mul]
  exact Nat.add_le_add_right (Nat.le_mul_of_pos_right _ (by decide)) _

/-- `SendFile` succeeds exactly on the files on whose way no call fails. -/
theorem sendFile_fst (machineId : ℕ) (f : FileSource) :
    (sendFile machineId f).1 = true ↔ f.Sendable := by
  have hpasses := sendPasses_fst f (f.content.length + 1) 0 (length_add_le _)
    (by rw [Nat.zero_mul]; exact Nat.add_pos_right _ (by decide))
  unfold sendFile
  constructor
  · intro h
    split_ifs at h with hopen
    have hall := hpasses.mp h
    exact ⟨hopen, fun i hi => (hall i i.zero_le).1 hi, fun i hi => (hall i i.zero_le).2 hi⟩
  · rintro ⟨hopen, hread, hconf⟩
    rw [if_pos hopen]
    exact hpasses.mpr fun k _ => ⟨hread k, hconf k⟩

theorem sendFile_part (machineId : ℕ) (f : FileSource) :
    (sendFile machineId f).2.flatMap Chunk.data <+: f.content := by
  unfold sendFile
  split_ifs
  · rw [List.flatMap_map, List.flatMap_id']
    have hpart := sendPasses_part f (f.content.length + 1) 0
    rwa [Nat.zero_mul, List.drop_zero] at hpart
  · exact List.nil_prefix

/-- `SendFile` sends all of the file exactly when nothing fails before the last byte is sent. -/
theorem sendFile_flatMap_iff (machineId : ℕ) (f : FileSource) :
    (sendFile machineId f).2.flatMap Chunk.data = f.content ↔ f.Sent := by
  have hpasses := sendPasses_flatten_iff f (f.content.length + 1) 0 (length_add_le _)
  rw [Nat.zero_mul, List.drop_zero] at hpasses
  unfold sendFile FileSource.Sent
  split_ifs with hopen
  · rw [List.flatMap_map, List.flatMap_id', hpasses]
    refine ⟨fun h => .inr ⟨hopen, fun i => h i i.zero_le⟩, ?_⟩
    rintro (hnil | ⟨-, h⟩) k -
    · rw [hnil]
      exact fun hlt => absurd hlt (Nat.not_lt_zero _)
    · exact h k
  · constructor
    · exact fun h => .inl h.symm
    · rintro (hnil | ⟨hopen', -⟩)
      · exact hnil.symm
      · exact absurd hopen' hopen

theorem sent_of_sendable {f : FileSource} (h : f.Sendable) : f.Sent := by
  refine .inr ⟨h.opened, fun i hi => ⟨h.read i (by omega), fun hmore => h.comfirmed i ?_⟩⟩
  rw [Nat.add_one_mul] at hmore
  omega

/-- The fragments of a file have its name and are not empty. -/
theorem mem_sendFile {f : FileSource} {c : Chunk} (h : c ∈ (sendFile machineId f).2) :
    c.machineId = machineId ∧ c.file = f.name ∧ f.content ≠ [] := by
  have hpart := sendFile_part machineId f
  unfold sendFile at h hpart
  split_ifs at h hpart
  · obtain ⟨data, hdata, rfl⟩ := List.mem_map.mp h
    refine ⟨rfl, rfl, fun hnil => ?_⟩
    -- A file without a byte has no fragment.
    have hpasses : sendPasses f (f.content.length + 1) 0 =
        (!f.readFails 0, ([] : List (List UInt8))) := by
      rw [hnil, List.length_nil, sendPasses]
      cases hread : f.readFails 0 <;> simp [hnil]
    rw [hpasses] at hdata
    cases hdata
  · cases h

/-- The files of a machine are sent with success exactly when each of them is. -/
theorem sendFiles_fst (machineId : ℕ) (l : List FileSource) :
    (sendFiles machineId l).1 = true ↔ ∀ f ∈ l, f.Sendable := by
  induction l with
  | nil => simp [sendFiles]
  | cons f l ih =>
    rw [List.forall_mem_cons, ← sendFile_fst machineId f, ← ih, sendFiles]
    by_cases h : (sendFile machineId f).1 = true <;> simp [h]

theorem append_eq_append_iff_of_length_le {A B a b : List UInt8} (ha : a.length ≤ A.length)
    (hb : b.length ≤ B.length) : a ++ b = A ++ B ↔ a = A ∧ b = B := by
  refine ⟨fun h => ?_, fun h => by rw [h.1, h.2]⟩
  have hlength := congrArg List.length h
  rw [List.length_append, List.length_append] at hlength
  exact List.append_inj h (by omega)

/-- Nothing of the files of a machine is missing: each is sent whole, and a file that is not empty
comes after files that do not fail. -/
def FilesSent (files : List FileSource) : Prop :=
  (∀ f ∈ files, f.Sent) ∧ files.Pairwise fun g f => f.content ≠ [] → g.Sendable

/-- The loop over the files of a machine sends no more than their bytes, and all of them exactly
when nothing is missing. -/
theorem sendFiles_flatMap (machineId : ℕ) (l : List FileSource) :
    ((sendFiles machineId l).2.flatMap Chunk.data).length ≤
        (l.flatMap FileSource.content).length ∧
      ((sendFiles machineId l).2.flatMap Chunk.data = l.flatMap FileSource.content ↔
        FilesSent l) := by
  induction l with
  | nil => simp [sendFiles, FilesSent]
  | cons f l ih =>
    have hpart := (sendFile_part machineId f).length_le
    have hsent := sendFile_flatMap_iff machineId f
    rw [List.flatMap_cons, sendFiles]
    dsimp only
    split_ifs with hok
    · -- The file is sent, and the loop goes on.
      have hsendable := (sendFile_fst machineId f).mp hok
      have hwhole := hsent.mpr (sent_of_sendable hsendable)
      rw [List.flatMap_append, hwhole, List.append_cancel_left_eq, ih.2, List.length_append,
        List.length_append]
      refine ⟨Nat.add_le_add_left ih.1 _, ?_⟩
      simp only [FilesSent, List.forall_mem_cons, List.pairwise_cons, hsendable,
        sent_of_sendable hsendable, implies_true, true_and]
    · -- The loop ends.
      have hfails : ¬f.Sendable := fun h => hok ((sendFile_fst machineId f).mpr h)
      have hsplit := append_eq_append_iff_of_length_le hpart
        (show ([] : List UInt8).length ≤ (l.flatMap FileSource.content).length from Nat.zero_le _)
      rw [List.append_nil] at hsplit
      rw [hsplit, hsent, eq_comm, List.flatMap_eq_nil_iff, List.length_append]
      refine ⟨Nat.le_trans hpart (Nat.le_add_right _ _), ?_⟩
      simp only [FilesSent, List.forall_mem_cons, List.pairwise_cons]
      constructor
      · rintro ⟨hf, hempty⟩
        refine ⟨⟨hf, fun g hg => .inl (hempty g hg)⟩, fun g hg hne => absurd (hempty g hg) hne, ?_⟩
        exact List.pairwise_of_forall_mem_list fun g _ h hh hne => absurd (hempty h hh) hne
      · rintro ⟨⟨hf, -⟩, hlater, -⟩
        exact ⟨hf, fun g hg => not_not.mp fun hne => hfails (hlater g hg hne)⟩

/-- What the loop sends when nothing is missing: the fragments of one file after the other. -/
theorem sendFiles_snd {l : List FileSource} (h : FilesSent l) :
    (sendFiles machineId l).2 = l.flatMap fun f => (sendFile machineId f).2 := by
  induction l with
  | nil => rfl
  | cons f l ih =>
    obtain ⟨hsent, hpair⟩ := h
    rw [List.forall_mem_cons] at hsent
    rw [List.pairwise_cons] at hpair
    rw [sendFiles, List.flatMap_cons]
    dsimp only
    split_ifs with hok
    · rw [ih ⟨hsent.2, hpair.2⟩]
    · -- The files after one that failed are empty, and have no fragment.
      have hfails : ¬f.Sendable := fun h => hok ((sendFile_fst machineId f).mpr h)
      have hnone : (l.flatMap fun f => (sendFile machineId f).2) = [] := by
        refine List.flatMap_eq_nil_iff.mpr fun g hg => List.eq_nil_iff_forall_not_mem.mpr ?_
        exact fun c hc => hfails (hpair.1 g hg (mem_sendFile hc).2.2)
      rw [hnone, List.append_nil]

/-- What the loop sends is a fragment of one of the files. -/
theorem mem_sendFiles {l : List FileSource} {c : Chunk} (h : c ∈ (sendFiles machineId l).2) :
    ∃ f ∈ l, c ∈ (sendFile machineId f).2 := by
  induction l with
  | nil => cases h
  | cons f l ih =>
    rw [sendFiles] at h
    dsimp only at h
    split_ifs at h
    · rcases List.mem_append.mp h with h | h
      · exact ⟨f, List.mem_cons_self, h⟩
      · obtain ⟨g, hg, hc⟩ := ih h
        exact ⟨g, List.mem_cons_of_mem _ hg, hc⟩
    · exact ⟨f, List.mem_cons_self, h⟩

/-- The result of `SendCheckpointFiles` is that of the last machine, if every `GetCheckpoint`
succeeds. -/
theorem sendCheckpointFiles_fst (instanceId : ℕ) (b : Bool) (l : List MachineSource) :
    (sendCheckpointFiles instanceId b l).1 = true ↔
      (l = [] → b = true) ∧
      (∀ m ∈ l, MachineManager.getCheckpoint instanceId m ≠ none) ∧
      ∀ m ∈ l.getLast?, ∀ f ∈ m.listed instanceId, f.Sendable := by
  induction l generalizing b with
  | nil => simp [sendCheckpointFiles]
  | cons m l ih =>
    rw [sendCheckpointFiles]
    cases hget : MachineManager.getCheckpoint instanceId m with
    | none => simp [hget]
    | some files =>
      dsimp only
      rw [ih, List.forall_mem_cons, hget]
      cases l with
      | nil => simp [MachineSource.listed_eq hget, sendFiles_fst]
      | cons m' l => simp [List.getLast?_cons_cons]

/-- The bytes of the listed files of machines. -/
def listedBytes (instanceId : ℕ) (l : List MachineSource) : List UInt8 :=
  l.flatMap fun m => (m.listed instanceId).flatMap FileSource.content

/-- Where every `GetCheckpoint` succeeds, `SendCheckpointFiles` sends no more than the bytes of the
listed files, and all of them exactly when nothing of any machine is missing. -/
theorem sendCheckpointFiles_flatMap {l : List MachineSource}
    (hget : ∀ m ∈ l, MachineManager.getCheckpoint instanceId m ≠ none) :
    ((sendCheckpointFiles instanceId b l).2.flatMap Chunk.data).length ≤
        (listedBytes instanceId l).length ∧
      ((sendCheckpointFiles instanceId b l).2.flatMap Chunk.data = listedBytes instanceId l ↔
        ∀ m ∈ l, FilesSent (m.listed instanceId)) := by
  induction l generalizing b with
  | nil => simp [sendCheckpointFiles, listedBytes]
  | cons m l ih =>
    rw [List.forall_mem_cons] at hget
    obtain ⟨files, hfiles⟩ := Option.ne_none_iff_exists'.mp hget.1
    have hlisted := MachineSource.listed_eq hfiles
    obtain ⟨hpart, hwhole⟩ := sendFiles_flatMap m.machineId files
    obtain ⟨hpart', hwhole'⟩ := ih (b := (sendFiles m.machineId files).1) hget.2
    rw [sendCheckpointFiles, hfiles, List.forall_mem_cons, hlisted]
    simp only [List.flatMap_append]
    rw [listedBytes, List.flatMap_cons, hlisted, ← listedBytes,
      append_eq_append_iff_of_length_le hpart hpart', hwhole, hwhole', List.length_append,
      List.length_append]
    exact ⟨Nat.add_le_add hpart hpart', Iff.rfl⟩

/-- What is sent is a fragment of a listed file. -/
theorem mem_sendCheckpointFiles {l : List MachineSource} {c : Chunk}
    (h : c ∈ (sendCheckpointFiles instanceId b l).2) :
    ∃ m ∈ l, ∃ f ∈ m.listed instanceId, c ∈ (sendFile m.machineId f).2 := by
  induction l generalizing b with
  | nil => cases h
  | cons m l ih =>
    rw [sendCheckpointFiles] at h
    cases hget : MachineManager.getCheckpoint instanceId m with
    | none => simp [hget] at h
    | some files =>
      simp only [hget, List.mem_append] at h
      rcases h with h | h
      · obtain ⟨f, hf, hc⟩ := mem_sendFiles h
        exact ⟨m, List.mem_cons_self, f, by rwa [MachineSource.listed_eq hget], hc⟩
      · obtain ⟨m', hm', hrest⟩ := ih h
        exact ⟨m', List.mem_cons_of_mem _ hm', hrest⟩

/-- What is sent of the machines when nothing is missing. -/
theorem sendCheckpointFiles_snd {l : List MachineSource}
    (hget : ∀ m ∈ l, MachineManager.getCheckpoint instanceId m ≠ none)
    (hsent : ∀ m ∈ l, FilesSent (m.listed instanceId)) :
    (sendCheckpointFiles instanceId b l).2 =
      l.flatMap fun m => (m.listed instanceId).flatMap fun f => (sendFile m.machineId f).2 := by
  induction l generalizing b with
  | nil => rfl
  | cons m l ih =>
    rw [List.forall_mem_cons] at hget hsent
    obtain ⟨files, hfiles⟩ := Option.ne_none_iff_exists'.mp hget.1
    have hlisted := MachineSource.listed_eq hfiles
    rw [hlisted] at hsent
    rw [List.flatMap_cons, ← ih (b := (sendFiles m.machineId files).1) hget.2 hsent.2, hlisted,
      ← sendFiles_snd hsent.1, sendCheckpointFiles]
    simp only [hfiles]

end CheckpointSender

/-! ## The messages of a session -/

/-- The messages of the kind `CHECKPOINT_FILE` among those of a session. -/
def fileParts (msgs : List CheckpointMessage) : List CheckpointMessage :=
  msgs.filter fun msg => msg.type = .checkpointFile

/-- The `CHECKPOINT_FILE`s carry the listed files one after the other, each from its beginning to
its end. -/
def SentAll (msgs : List CheckpointMessage) (listed : List (ℕ × FileSource)) : Prop :=
  ∃ parts : List (List CheckpointMessage), parts.flatten = fileParts msgs ∧
    List.Forall₂ (fun p part => (∀ msg ∈ part, msg.machineId = p.1 ∧ msg.file = p.2.name) ∧
      part.flatMap CheckpointMessage.data = p.2.content) listed parts

/-- What is carried then is all bytes of the listed files. -/
theorem SentAll.flatMap_data {listed : List (ℕ × FileSource)} (h : SentAll msgs listed) :
    (fileParts msgs).flatMap CheckpointMessage.data = listed.flatMap fun p => p.2.content := by
  obtain ⟨parts, hflat, hparts⟩ := h
  rw [← hflat]
  clear hflat
  induction hparts with
  | nil => rfl
  | cons hpart _ ih => rw [List.flatten_cons, List.flatMap_append, List.flatMap_cons, hpart.2, ih]

/-- A listed file that is not empty is carried by a message. -/
theorem SentAll.exists_mem {listed : List (ℕ × FileSource)} (h : SentAll msgs listed)
    {p : ℕ × FileSource} (hp : p ∈ listed) (hne : p.2.content ≠ []) :
    ∃ msg ∈ fileParts msgs, msg.machineId = p.1 ∧ msg.file = p.2.name := by
  obtain ⟨parts, hflat, hparts⟩ := h
  obtain ⟨part, hmem, hof, hdata⟩ : ∃ part ∈ parts,
      (∀ msg ∈ part, msg.machineId = p.1 ∧ msg.file = p.2.name) ∧
        part.flatMap CheckpointMessage.data = p.2.content := by
    clear hflat
    induction hparts with
    | nil => cases hp
    | cons hpart _ ih =>
      rcases List.mem_cons.mp hp with rfl | hp
      · exact ⟨_, List.mem_cons_self, hpart⟩
      · obtain ⟨part, hmem, hrest⟩ := ih hp
        exact ⟨part, List.mem_cons_of_mem _ hmem, hrest⟩
  cases part with
  | nil => exact absurd hdata.symm hne
  | cons msg part =>
    refine ⟨msg, ?_, hof msg List.mem_cons_self⟩
    rw [← hflat]
    exact List.mem_flatten.mpr ⟨_, hmem, List.mem_cons_self⟩

namespace CheckpointSender

/-- A message of a fragment, with its place in the session. -/
theorem mem_fileMessages {chunks : List Chunk} (h : msg ∈ fileMessages nodeId instanceId chunks) :
    msg.type = .checkpointFile ∧ msg.nodeId = nodeId ∧ msg.instanceId = instanceId ∧
      ∃ k, msg.sequenceId = k + 1 ∧ (fileMessages nodeId instanceId chunks)[k]? = some msg := by
  obtain ⟨k, hk, rfl⟩ := List.mem_mapIdx.mp h
  refine ⟨rfl, rfl, rfl, k, rfl, ?_⟩
  rw [fileMessages, List.getElem?_mapIdx, List.getElem?_eq_getElem hk, Option.map_some]

theorem fileParts_fileMessages (nodeId instanceId : ℕ) (chunks : List Chunk) :
    fileParts (fileMessages nodeId instanceId chunks) = fileMessages nodeId instanceId chunks :=
  List.filter_eq_self.mpr fun _ hmsg => decide_eq_true (mem_fileMessages hmsg).1

/-- The `CHECKPOINT_FILE`s of a session that got the lock. -/
theorem fileParts_sendCheckpoint {src : SendSource} (h : src.locked = true) :
    fileParts (sendCheckpoint nodeId src).2 = fileMessages nodeId src.instanceId
      (sendCheckpointFiles src.instanceId true src.machines).2 := by
  unfold sendCheckpoint
  rw [if_pos h]
  dsimp only
  rw [fileParts, List.cons_append, List.filter_cons_of_neg (by simp), List.filter_append]
  refine Eq.trans ?_ (List.append_nil _)
  congr 1
  · exact fileParts_fileMessages ..
  · split <;> simp

/-- What every message of a session carries: the node, the instance, and a number that is its place
among the `CHECKPOINT_FILE`s or the place after them. -/
theorem mem_sendCheckpoint {src : SendSource} (h : msg ∈ (sendCheckpoint nodeId src).2) :
    msg.nodeId = nodeId ∧ msg.instanceId = src.instanceId ∧
      (msg.type = .checkpointFile → ∃ k, msg.sequenceId = k + 1 ∧
        (fileParts (sendCheckpoint nodeId src).2)[k]? = some msg) ∧
      (msg.type = .checkpointEnd →
        msg.sequenceId = (fileParts (sendCheckpoint nodeId src).2).length + 1) := by
  cases hlock : src.locked with
  | false => simp [sendCheckpoint, hlock] at h
  | true =>
    rw [fileParts_sendCheckpoint hlock]
    unfold sendCheckpoint at h
    rw [if_pos hlock] at h
    dsimp only at h
    rw [List.cons_append, List.mem_cons, List.mem_append] at h
    obtain rfl | h | h := h
    · simp
    · obtain ⟨htype, hnode, hinst, hplace⟩ := mem_fileMessages h
      exact ⟨hnode, hinst, fun _ => hplace, fun hend => by simp [htype] at hend⟩
    · split at h
      · obtain rfl := List.mem_singleton.mp h
        simp [fileMessages]
      · cases h

/-- A session ends with `CHECKPOINT_END` exactly when `SendCheckpoint` returns true. -/
theorem exists_end_iff (nodeId : ℕ) (src : SendSource) :
    (∃ msg ∈ (sendCheckpoint nodeId src).2, msg.type = .checkpointEnd) ↔
      (sendCheckpoint nodeId src).1 = true := by
  cases hlock : src.locked with
  | false => simp [sendCheckpoint, hlock]
  | true =>
    unfold sendCheckpoint
    rw [if_pos hlock]
    dsimp only
    constructor
    · rintro ⟨msg, hmsg, hend⟩
      rw [List.cons_append, List.mem_cons, List.mem_append] at hmsg
      obtain rfl | hmsg | hmsg := hmsg
      · simp at hend
      · simp [(mem_fileMessages hmsg).1] at hend
      · split at hmsg
        · assumption
        · cases hmsg
    · intro hres
      rw [hres, if_pos rfl]
      exact ⟨_, List.mem_append_right _ (List.mem_singleton.mpr rfl), rfl⟩

theorem flatMap_fileMessages (nodeId instanceId : ℕ) (chunks : List Chunk) :
    (fileMessages nodeId instanceId chunks).flatMap CheckpointMessage.data =
      chunks.flatMap Chunk.data := by
  rw [fileMessages, List.flatMap_def, List.flatMap_def]
  congr 1
  exact List.ext_getElem? fun i => by simp [Function.comp_def]

/-- Messages of fragments that are given file by file are those of the files, one after the other.
-/
theorem mapIdx_flatten {g : ℕ → Chunk → CheckpointMessage}
    (hg : ∀ i c, (g i c).data = c.data ∧ (g i c).machineId = c.machineId ∧ (g i c).file = c.file)
    {L : List (List Chunk)} {listed : List (ℕ × FileSource)}
    (h : List.Forall₂ (fun p cs => (∀ c ∈ cs, c.machineId = p.1 ∧ c.file = p.2.name) ∧
      cs.flatMap Chunk.data = p.2.content) listed L) :
    ∃ parts : List (List CheckpointMessage), parts.flatten = L.flatten.mapIdx g ∧
      List.Forall₂ (fun p part => (∀ msg ∈ part, msg.machineId = p.1 ∧ msg.file = p.2.name) ∧
        part.flatMap CheckpointMessage.data = p.2.content) listed parts := by
  induction h generalizing g with
  | nil => exact ⟨[], by simp, .nil⟩
  | @cons p cs listed L hcs _ ih =>
    obtain ⟨parts, hflat, hparts⟩ := ih (g := fun i => g (i + cs.length)) fun i c => hg _ c
    refine ⟨cs.mapIdx g :: parts, ?_, .cons ⟨fun msg hmsg => ?_, ?_⟩ hparts⟩
    · rw [List.flatten_cons, List.flatten_cons, List.mapIdx_append, hflat]
    · obtain ⟨i, hi, rfl⟩ := List.mem_mapIdx.mp hmsg
      obtain ⟨-, hmach, hfile⟩ := hg i cs[i]
      rw [hmach, hfile]
      exact hcs.1 _ (List.getElem_mem hi)
    · rw [← hcs.2, List.flatMap_def, List.flatMap_def]
      congr 1
      exact List.ext_getElem? fun i => by simp [Function.comp_def, (hg _ _).1]

end CheckpointSender

/-! ## A receiver that handles a session -/

/-- The receiver handles messages of a session one after another and without an error. -/
def CheckpointManager.receiveAll (session : Session) :
    List (FileEnv × CheckpointMessage) → Receiving → Option Receiving
  | [], s => some s
  | (F, msg) :: l, s =>
    let r := receiveCheckpoint F session msg s
    if !s.exited && r.1 then receiveAll session l r.2 else none

namespace CheckpointManager

/-- The first of the messages is handled without an error, and then the others. -/
theorem receiveAll_cons (h : receiveAll session ((F, msg) :: l) s = some s') :
    ∃ t, Received F session msg s true t ∧ receiveAll session l t = some s' := by
  rw [receiveAll] at h
  split at h
  case isTrue hok =>
    have hcases := receiveCheckpoint_cases F session msg s
    rw [(Bool.and_eq_true_iff.mp hok).2] at hcases
    exact ⟨_, hcases, h⟩
  case isFalse => cases h

/-- `CHECKPOINT_FILE`s that follow one another all make their file, and the `CHECKPOINT_END` after
them publishes the directory. -/
theorem receiveAll_files {last : CheckpointMessage}
    (hl : ∀ i (hi : i < l.length), l[i].2.type = .checkpointFile ∧ l[i].2.nodeId = nodeId ∧
      l[i].2.sequenceId = k + i + 1)
    (hlast : last.type = .checkpointEnd ∧ last.nodeId = nodeId ∧ last.instanceId = instanceId)
    (hsender : s.receiver.senderNodeId = nodeId) (hseq : s.receiver.sequenceId = k)
    (h : receiveAll session (l ++ [(F, last)]) s = some s') :
    ∃ d, s'.disk.renamed = d :: s.disk.renamed ∧ d.instanceId = instanceId ∧
      s.disk.writes ⊆ d.writes ∧
      ∀ p ∈ l, ∃ w ∈ d.writes, w.isFile p.2.machineId p.2.file = true := by
  induction l generalizing k s with
  | nil =>
    obtain ⟨t, hrec, ht⟩ := receiveAll_cons h
    obtain rfl : t = s' := by simpa [receiveAll] using ht
    cases hrec with
    | ignored _ _ hend => exact absurd (hlast.2.1.trans hsender.symm) (hend rfl hlast.1)
    | begun _ htype | appended _ _ htype => simp [hlast.1] at htype
    | published =>
      exact ⟨_, rfl, hlast.2.2, List.Subset.refl _, fun p hp => absurd hp List.not_mem_nil⟩
  | cons p l ih =>
    obtain ⟨htype, hnode, hplace⟩ := hl 0 (Nat.succ_pos _)
    rw [List.getElem_cons_zero] at htype hnode hplace
    obtain ⟨t, hrec, ht⟩ := receiveAll_cons h
    -- The message is the next one of the sender, so that the handler has only one way to succeed.
    cases hrec with
    | ignored _ hsame =>
      have := hsame rfl htype (hnode.trans hsender.symm)
      omega
    | begun _ hbegin => simp [htype] at hbegin
    | published hend => simp [htype] at hend
    | appended disk dirs _ _ _ hnew hrenamed =>
      have hrest : ∀ i (hi : i < l.length), l[i].2.type = .checkpointFile ∧
          l[i].2.nodeId = nodeId ∧ l[i].2.sequenceId = k + 1 + i + 1 := by
        intro i hi
        have := hl (i + 1) (Nat.succ_lt_succ hi)
        rw [List.getElem_cons_succ] at this
        exact ⟨this.1, this.2.1, by omega⟩
      obtain ⟨d, hd, hinst, hsub, hfiles⟩ := ih hrest
        (s := { s with
          receiver := ⟨s.receiver.senderNodeId, s.receiver.sequenceId + 1, dirs⟩
          disk }) hsender (congrArg (· + 1) hseq) ht
      have hsub : disk.writes ⊆ d.writes := hsub
      rw [hnew] at hsub
      refine ⟨d, hd.trans (by rw [hrenamed]), hinst,
        fun w hw => hsub (List.mem_append_left _ hw), ?_⟩
      rw [List.forall_mem_cons]
      refine ⟨⟨_, hsub (List.mem_append_right _ (List.mem_singleton_self _)), ?_⟩, hfiles⟩
      simp [Write.isFile]

/-- A receiver that handles all messages of a session without an error publishes a directory with a
file for every fragment that the session sent. -/
theorem receiveAll_session {src : SendSource}
    (hres : (CheckpointSender.sendCheckpoint nodeId src).1 = true)
    (hl : l.map Prod.snd = (CheckpointSender.sendCheckpoint nodeId src).2)
    (h : receiveAll session l s = some s') :
    ∃ d, s'.disk.renamed = d :: s.disk.renamed ∧ d.instanceId = src.instanceId ∧
      ∀ msg ∈ fileParts (CheckpointSender.sendCheckpoint nodeId src).2,
        ∃ w ∈ d.writes, w.isFile msg.machineId msg.file = true := by
  have hlock : src.locked = true := by
    by_contra hlock
    simp [CheckpointSender.sendCheckpoint, hlock] at hres
  rw [CheckpointSender.fileParts_sendCheckpoint hlock]
  unfold CheckpointSender.sendCheckpoint at hl hres
  rw [if_pos hlock] at hl hres
  dsimp only at hl hres
  rw [hres, if_pos rfl, List.cons_append, List.map_eq_cons_iff] at hl
  obtain ⟨first, rest, rfl, hfirst, hrest⟩ := hl
  obtain ⟨files, ends, rfl, hfiles, hends⟩ := List.map_eq_append_iff.mp hrest
  obtain ⟨⟨F, last⟩, tail, rfl, hlast, htail⟩ := List.map_eq_cons_iff.mp hends
  obtain rfl := List.map_eq_nil_iff.mp htail
  obtain ⟨t, hrec, ht⟩ := receiveAll_cons h
  dsimp only at hlast
  cases hrec with
  | ignored _ _ _ hbegin => exact absurd (by rw [hfirst]) hbegin
  | appended _ _ htype | published htype => simp [hfirst] at htype
  | begun disk _ _ _ _ hrenamed =>
    have hplaces : ∀ i (hi : i < files.length), files[i].2.type = .checkpointFile ∧
        files[i].2.nodeId = nodeId ∧ files[i].2.sequenceId = 0 + i + 1 := by
      intro i hi
      have hget : (files.map Prod.snd)[i]? = some files[i].2 := by simp [hi]
      rw [hfiles, CheckpointSender.fileMessages, List.getElem?_mapIdx] at hget
      obtain ⟨c, -, hc⟩ := Option.map_eq_some_iff.mp hget
      rw [← hc]
      exact ⟨rfl, rfl, by simp⟩
    have hend : last.type = .checkpointEnd ∧ last.nodeId = nodeId ∧
        last.instanceId = src.instanceId := by simp [hlast]
    obtain ⟨d, hd, hinst, -, hall⟩ := receiveAll_files hplaces hend (by rw [hfirst]) rfl ht
    refine ⟨d, hd.trans (by rw [hrenamed]), hinst, fun msg hmsg => ?_⟩
    rw [← hfiles] at hmsg
    obtain ⟨p, hp, rfl⟩ := List.mem_map.mp hmsg
    exact hall p hp

/-- The receiver is at the message `k` of a node, and finds the directories that it has made. -/
structure Ready (nodeId k : ℕ) (s : Receiving) : Prop where
  sender : s.receiver.senderNodeId = nodeId
  sequence : s.receiver.sequenceId = k
  running : s.exited = false
  dirs : ∃ t, s.disk.temp = some t ∧ ∀ m ∈ s.receiver.dirs, m ∈ t.subdirs

/-- Where no call fails, the subdirectory of a machine is found. -/
theorem Ready.findDir (h : Ready nodeId k s) (machineId : ℕ) :
    ∃ s', CheckpointReceiver.findDir {} machineId s = (true, s') ∧ Ready nodeId k s' ∧
      s'.disk.hasDir machineId = true ∧ s'.disk.renamed = s.disk.renamed ∧
      s'.disk.writes = s.disk.writes := by
  obtain ⟨hsender, hseq, hrun, t, htemp, hdirs⟩ := h
  unfold CheckpointReceiver.findDir
  by_cases hknown : machineId ∈ s.receiver.dirs
  · rw [if_pos hknown]
    refine ⟨s, rfl, ⟨hsender, hseq, hrun, t, htemp, hdirs⟩, ?_, rfl, rfl⟩
    simpa [Disk.hasDir, htemp] using hdirs machineId hknown
  rw [if_neg hknown]
  dsimp only
  split_ifs with hhas
  · have hcreate := Disk.createDir_spec {} machineId s.disk
    refine ⟨_, rfl, ⟨hsender, hseq, hrun, ?_⟩, hhas, hcreate.1, hcreate.2⟩
    unfold Disk.createDir at hhas ⊢
    simp only [htemp] at hhas ⊢
    split_ifs at hhas ⊢ with hthere
    · refine ⟨t, htemp, List.forall_mem_cons.mpr ⟨?_, hdirs⟩⟩
      simpa using hthere
    · refine ⟨_, rfl, List.forall_mem_cons.mpr ⟨List.mem_cons_self, fun m hm => ?_⟩⟩
      exact List.mem_cons_of_mem _ (hdirs m hm)
  · -- The directory was there, or has just been made.
    refine absurd ?_ hhas
    unfold Disk.createDir
    simp only [htemp]
    split_ifs with hthere
    · simpa [Disk.hasDir, htemp] using hthere
    · simp [Disk.hasDir]

/-- Where no call fails, the next `CHECKPOINT_FILE` is appended. -/
theorem Ready.file (h : Ready nodeId k s) (session : Session) (htype : msg.type = .checkpointFile)
    (hnode : msg.nodeId = nodeId) (hseq : msg.sequenceId = k + 1) :
    ∃ s', receiveCheckpoint {} session msg s = (true, s') ∧ Ready nodeId (k + 1) s' ∧
      s'.disk.renamed = s.disk.renamed ∧
      s'.disk.writes = s.disk.writes ++ [.chunk session msg] := by
  obtain ⟨s', hfind, ⟨hsender', hseq', hrun', t, htemp, hdirs⟩, hhas, hrenamed, hwrites⟩ :=
    h.findDir msg.machineId
  have hfiles : CheckpointReceiver.receiveFiles {} session msg s =
      CheckpointReceiver.appendFile {} session msg s' := by
    simp [CheckpointReceiver.receiveFiles, hnode, h.sender, hseq, h.sequence, hfind]
  have happend : CheckpointReceiver.appendFile {} session msg s' = (true,
      { s' with
        disk := s'.disk.write { name := msg.file } (.chunk session msg)
        receiver := { s'.receiver with sequenceId := s'.receiver.sequenceId + 1 } }) := by
    rw [CheckpointReceiver.appendFile, if_pos (by simp [hhas])]
    rfl
  have hreceive : receiveCheckpoint {} session msg s = CheckpointReceiver.comfirmReceive msg
      (CheckpointReceiver.appendFile {} session msg s') := by
    simp only [receiveCheckpoint, htype, hfiles]
  rw [happend] at hreceive
  refine ⟨_, hreceive.trans rfl, ⟨hsender', congrArg (· + 1) hseq', hrun', ?_⟩, hrenamed, ?_⟩
  · exact ⟨{ t with files := t.files ++ [⟨{ name := msg.file }, .chunk session msg⟩] },
      by simp [Disk.write, htemp], hdirs⟩
  · exact (Disk.writes_write htemp _ _).trans (by rw [hwrites])

/-- Where no call fails, the `CHECKPOINT_FILE`s of a session are appended and its `CHECKPOINT_END`
publishes them. -/
theorem Ready.files (h : Ready nodeId k s) (session : Session) {l : List CheckpointMessage}
    (hl : ∀ i (hi : i < l.length), l[i].type = .checkpointFile ∧ l[i].nodeId = nodeId ∧
      l[i].sequenceId = k + i + 1) (last : CheckpointMessage)
    (hlast : last.type = .checkpointEnd ∧ last.nodeId = nodeId ∧
      last.sequenceId = k + l.length + 1) :
    ∃ s', receiveAll session ((l ++ [last]).map fun msg => ({}, msg)) s = some s' ∧
      s'.disk.renamed =
        ⟨.endToReceive, last.instanceId, s.disk.writes ++ l.map (.chunk session)⟩ ::
          s.disk.renamed := by
  induction l generalizing k s with
  | nil =>
    obtain ⟨hsender, hseq, hrun, t, htemp, -⟩ := h
    obtain ⟨htype, hnode, hplace⟩ := hlast
    simp [receiveAll, receiveCheckpoint, htype, CheckpointReceiver.endToReceive, hnode, hsender,
      hplace, hseq, hrun, Disk.updateCheckpoint, htemp, Disk.writes_of_temp htemp]
  | cons msg l ih =>
    obtain ⟨htype, hnode, hplace⟩ := hl 0 (Nat.succ_pos _)
    rw [List.getElem_cons_zero] at htype hnode hplace
    obtain ⟨t, hrec, hready, hrenamed, hwrites⟩ := h.file session htype hnode hplace
    obtain ⟨s', hrest, hpublished⟩ := ih hready
      (fun i hi => by
        have := hl (i + 1) (Nat.succ_lt_succ hi)
        rw [List.getElem_cons_succ] at this
        exact ⟨this.1, this.2.1, by omega⟩)
      ⟨hlast.1, hlast.2.1, by rw [hlast.2.2, List.length_cons]; omega⟩
    refine ⟨s', ?_, ?_⟩
    · rw [List.cons_append, List.map_cons, receiveAll]
      simpa only [hrec, h.running, Bool.not_false, Bool.and_self, if_true] using hrest
    · rw [hpublished, hwrites, hrenamed, List.append_assoc, List.map_cons, List.singleton_append]

/-- A new receiver on which no call fails handles all messages of a session, and publishes exactly
the files that they carry. -/
theorem receiveAll_new (session : Session) {src : SendSource}
    (hres : (CheckpointSender.sendCheckpoint nodeId src).1 = true) :
    ∃ s', receiveAll session
        ((CheckpointSender.sendCheckpoint nodeId src).2.map fun msg => ({}, msg)) {} = some s' ∧
      s'.disk.renamed = [⟨.endToReceive, src.instanceId,
        (fileParts (CheckpointSender.sendCheckpoint nodeId src).2).map (.chunk session)⟩] := by
  have hlock : src.locked = true := by
    by_contra hlock
    simp [CheckpointSender.sendCheckpoint, hlock] at hres
  rw [CheckpointSender.fileParts_sendCheckpoint hlock]
  unfold CheckpointSender.sendCheckpoint at hres ⊢
  rw [if_pos hlock] at hres ⊢
  dsimp only at hres ⊢
  rw [hres, if_pos rfl, List.cons_append, List.map_cons]
  have hbegin : receiveCheckpoint {} session
      { type := .checkpointBegin, nodeId, instanceId := src.instanceId } {} =
      (true, ⟨⟨nodeId, 0, []⟩, { temp := some {} }, some session, false⟩) := by
    simp [receiveCheckpoint, CheckpointReceiver.beginToReceive, CheckpointReceiver.comfirmReceive,
      Disk.deleteTempCheckpoint, Skywalker.deleteTempCheckpoint, TempDir.left]
  have hready : Ready nodeId 0
      ⟨⟨nodeId, 0, []⟩, { temp := some {} }, some session, false⟩ :=
    ⟨rfl, rfl, rfl, {}, rfl, fun _ hm => absurd hm List.not_mem_nil⟩
  obtain ⟨s', hrest, hpublished⟩ := hready.files session
    (l := CheckpointSender.fileMessages nodeId src.instanceId
      (CheckpointSender.sendCheckpointFiles src.instanceId true src.machines).2)
    (fun i hi => by simp [CheckpointSender.fileMessages])
    { type := .checkpointEnd, nodeId, instanceId := src.instanceId, sequenceId :=
      (CheckpointSender.sendCheckpointFiles src.instanceId true src.machines).2.length + 1 }
    ⟨rfl, rfl, by simp [CheckpointSender.fileMessages]⟩
  refine ⟨s', ?_, hpublished⟩
  rw [receiveAll, hbegin]
  exact hrest

end CheckpointManager

/-! ## Nothing is missing -/

namespace SendSource

/-- The listed files with their machines, in the order in which they are sent. -/
def listed (src : SendSource) : List (ℕ × FileSource) :=
  src.machines.flatMap fun m => (m.listed src.instanceId).map (Prod.mk m.machineId)

/-- The session does not get the lock, a `GetCheckpoint` fails, or a file of the last machine does.
-/
def Fails (src : SendSource) : Prop :=
  src.locked = false ∨
    (∃ m ∈ src.machines, MachineManager.getCheckpoint src.instanceId m = none) ∨
    ∃ m ∈ src.machines.getLast?, ∃ f ∈ m.listed src.instanceId, ¬f.Sendable

/-- Of no machine a byte is missing, and for each listed file there is one of its name that is not
empty. -/
def NothingMissing (src : SendSource) : Prop :=
  (∀ m ∈ src.machines, CheckpointSender.FilesSent (m.listed src.instanceId)) ∧
    ∀ p ∈ src.listed, ∃ q ∈ src.listed,
      q.1 = p.1 ∧ q.2.name = p.2.name ∧ q.2.content ≠ []

theorem flatMap_listed (src : SendSource) :
    (src.listed.flatMap fun p => p.2.content) =
      CheckpointSender.listedBytes src.instanceId src.machines := by
  simp only [listed, CheckpointSender.listedBytes, List.flatMap_assoc, List.flatMap_map]

end SendSource

namespace CheckpointSender

/-- `SendCheckpoint` returns true exactly when none of these fails: what fails for another machine
than the last one is forgotten. -/
theorem sendCheckpoint_fst (nodeId : ℕ) (src : SendSource) :
    (sendCheckpoint nodeId src).1 = true ↔ ¬src.Fails := by
  cases hlock : src.locked with
  | false => simp [sendCheckpoint, SendSource.Fails, hlock]
  | true =>
    simp only [sendCheckpoint, hlock, if_true, sendCheckpointFiles_fst, SendSource.Fails,
      Bool.true_eq_false, false_or, not_or, not_exists, not_and, not_not, implies_true, true_and]

/-- A message of the session carries one of the fragments. -/
theorem exists_chunk {chunks : List Chunk} (h : msg ∈ fileMessages nodeId instanceId chunks) :
    ∃ c ∈ chunks, msg.machineId = c.machineId ∧ msg.file = c.file := by
  obtain ⟨k, hk, rfl⟩ := List.mem_mapIdx.mp h
  exact ⟨chunks[k], List.getElem_mem hk, rfl, rfl⟩

/-- When nothing is missing of any machine, the listed files are sent one after the other. -/
theorem sentAll_of_filesSent (nodeId : ℕ) {src : SendSource} (hlock : src.locked = true)
    (hget : ∀ m ∈ src.machines, MachineManager.getCheckpoint src.instanceId m ≠ none)
    (hsent : ∀ m ∈ src.machines, FilesSent (m.listed src.instanceId)) :
    SentAll (sendCheckpoint nodeId src).2 src.listed := by
  have hchunks : (sendCheckpointFiles src.instanceId true src.machines).2 =
      (src.listed.map fun p => (sendFile p.1 p.2).2).flatten := by
    rw [sendCheckpointFiles_snd hget hsent, ← List.flatMap_def]
    simp only [SendSource.listed, List.flatMap_assoc, List.flatMap_map]
  rw [SentAll, fileParts_sendCheckpoint hlock, hchunks, fileMessages]
  refine mapIdx_flatten (fun _ _ => ⟨rfl, rfl, rfl⟩) ?_
  rw [List.forall₂_map_right_iff, List.forall₂_same]
  intro p hp
  obtain ⟨m, hm, hpm⟩ := List.mem_flatMap.mp hp
  obtain ⟨f, hf, rfl⟩ := List.mem_map.mp hpm
  exact ⟨fun c hc => ⟨(mem_sendFile hc).1, (mem_sendFile hc).2.1⟩,
    (sendFile_flatMap_iff m.machineId f).mpr ((hsent m hm).1 f hf)⟩

/-- When the listed files are sent one after the other, nothing is missing of any machine. -/
theorem filesSent_of_sentAll {src : SendSource} (hlock : src.locked = true)
    (hget : ∀ m ∈ src.machines, MachineManager.getCheckpoint src.instanceId m ≠ none)
    (hsent : SentAll (sendCheckpoint nodeId src).2 src.listed) :
    ∀ m ∈ src.machines, FilesSent (m.listed src.instanceId) := by
  refine (sendCheckpointFiles_flatMap (b := true) hget).2.mp ?_
  calc (sendCheckpointFiles src.instanceId true src.machines).2.flatMap Chunk.data
      = (fileParts (sendCheckpoint nodeId src).2).flatMap CheckpointMessage.data := by
        rw [fileParts_sendCheckpoint hlock, flatMap_fileMessages]
    _ = src.listed.flatMap fun p => p.2.content := hsent.flatMap_data
    _ = listedBytes src.instanceId src.machines := src.flatMap_listed

end CheckpointSender

open CheckpointSender in
/-- `SendCheckpoint` returns true, or sends `CHECKPOINT_END`, only when every listed file of every
machine was sent completely, and a receiver that handles the session without an error then publishes
a directory in which every listed file exists. This holds exactly of the inputs for which the
session fails or nothing is missing. -/
theorem session_complete (nodeId : ℕ) (src : SendSource) :
    src.Fails ∨ src.NothingMissing ↔
      ((sendCheckpoint nodeId src).1 = true ∨
        (∃ msg ∈ (sendCheckpoint nodeId src).2, msg.type = .checkpointEnd) →
      (∀ m ∈ src.machines, MachineManager.getCheckpoint src.instanceId m ≠ none) ∧
      SentAll (sendCheckpoint nodeId src).2 src.listed ∧
      ∀ (session : Session) (l : List (FileEnv × CheckpointMessage)) (s s' : Receiving),
        l.map Prod.snd = (sendCheckpoint nodeId src).2 →
        CheckpointManager.receiveAll session l s = some s' →
        ∃ d, s'.disk.renamed = d :: s.disk.renamed ∧ d.instanceId = src.instanceId ∧
          ∀ p ∈ src.listed, ∃ w ∈ d.writes, w.isFile p.1 p.2.name = true) := by
  rw [exists_end_iff, or_self]
  by_cases hfails : src.Fails
  · have hres : ¬(sendCheckpoint nodeId src).1 = true := fun h =>
      (sendCheckpoint_fst nodeId src).mp h hfails
    exact ⟨fun _ h => absurd h hres, fun _ => .inl hfails⟩
  have hres := (sendCheckpoint_fst nodeId src).mpr hfails
  rw [or_iff_right hfails]
  simp only [SendSource.Fails, not_or, Bool.not_eq_false, not_exists, not_and] at hfails
  obtain ⟨hlock, hget, -⟩ := hfails
  constructor
  · rintro ⟨hsent, hnames⟩ -
    have hall := sentAll_of_filesSent nodeId hlock hget hsent
    refine ⟨hget, hall, fun session l s s' hl hrun => ?_⟩
    obtain ⟨d, hd, hinst, hfiles⟩ := CheckpointManager.receiveAll_session hres hl hrun
    refine ⟨d, hd, hinst, fun p hp => ?_⟩
    -- A file of that name has a byte, and so a message.
    obtain ⟨q, hq, hmach, hname, hne⟩ := hnames p hp
    obtain ⟨msg, hmsg, hmach', hname'⟩ := hall.exists_mem hq hne
    rw [← hmach, ← hname, ← hmach', ← hname']
    exact hfiles msg hmsg
  · intro h
    obtain ⟨-, hall, hreceive⟩ := h hres
    refine ⟨filesSent_of_sentAll hlock hget hall, fun p hp => ?_⟩
    -- What a new receiver publishes is what was sent.
    obtain ⟨s', hrun, hrenamed⟩ := CheckpointManager.receiveAll_new ⟨nodeId, 0⟩ hres
    obtain ⟨d, hd, -, hfiles⟩ := hreceive ⟨nodeId, 0⟩ _ {} s' (by simp [Function.comp_def]) hrun
    obtain rfl := (List.cons.inj (hrenamed.symm.trans hd)).1
    obtain ⟨w, hw, hfile⟩ := hfiles p hp
    obtain ⟨msg, hmsg, rfl⟩ := List.mem_map.mp hw
    rw [fileParts_sendCheckpoint hlock] at hmsg
    obtain ⟨c, hc, hmach, hname⟩ := exists_chunk hmsg
    obtain ⟨m, hm, f, hf, hcf⟩ := mem_sendCheckpointFiles hc
    obtain ⟨hmach', hname', hne⟩ := mem_sendFile hcf
    simp only [Write.isFile, Bool.and_eq_true, decide_eq_true_eq] at hfile
    refine ⟨(m.machineId, f), List.mem_flatMap.mpr ⟨m, hm, List.mem_map_of_mem hf⟩, ?_, ?_, hne⟩
    · rw [← hfile.1, hmach, hmach']
    · rw [← hfile.2, hname, hname']

/-- Two machines with a file each, and no failure. -/
def pairSource : SendSource where
  instanceId := 5
  machines := [⟨1, some [{ name := "membership", content := [7] }]⟩,
    ⟨3, some [{ name := "data", content := [8, 9] }]⟩]

/-- A file of the first machine that cannot be opened, and an empty file of the second. -/
def brokenSource : SendSource where
  instanceId := 5
  machines := [⟨1, some [{ name := "membership", content := [7], opened := false }]⟩,
    ⟨3, some [{ name := "data", content := [8, 9] }, { name := "empty" }]⟩]

/-- The failure of the first machine is forgotten when the second one succeeds: `SendCheckpoint`
returns true without having sent the file, and what a receiver publishes has neither that file nor
the empty one, for which there is no message. -/
theorem failed_file_forgotten :
    (CheckpointSender.sendCheckpoint 1 brokenSource).1 = true ∧
      ¬SentAll (CheckpointSender.sendCheckpoint 1 brokenSource).2 brokenSource.listed ∧
      (CheckpointManager.receiveAll ⟨1, 0⟩
        ((CheckpointSender.sendCheckpoint 1 brokenSource).2.map fun msg => ({}, msg)) {}).map
          (fun s => s.disk.renamed.map fun d => (d.instanceId,
            d.writes.any (Write.isFile 3 "data"), d.writes.any (Write.isFile 1 "membership"),
            d.writes.any (Write.isFile 3 "empty"))) =
        some [(5, true, false, false)] := by
  refine ⟨by decide +kernel, fun h => ?_, by decide +kernel⟩
  have hbytes : (fileParts (CheckpointSender.sendCheckpoint 1 brokenSource).2).flatMap
      CheckpointMessage.data = [8, 9] := by decide +kernel
  have hlisted : (brokenSource.listed.flatMap fun p => p.2.content) = [7, 8, 9] := by
    decide +kernel
  rw [h.flatMap_data, hlisted] at hbytes
  cases hbytes

/-! ## Many sessions -/

/-- Senders, the network and one receiver. -/
structure Transfer where
  /-- The sessions of each node, oldest first, with their messages. -/
  sessions : ℕ → List (List CheckpointMessage) := fun _ => []
  /-- The place of the last message that arrived from each node. -/
  arrived : ℕ → ℕ := fun _ => 0
  /-- The node that receives. -/
  state : Receiving := {}

namespace Transfer

/-- The messages that a node has sent, oldest first. -/
def sent (t : Transfer) (n : ℕ) : List (Session × CheckpointMessage) :=
  ((t.sessions n).mapIdx fun i msgs => msgs.map fun msg => (⟨n, i⟩, msg)).flatten

/-- The messages of a session. -/
def messages (t : Transfer) (session : Session) : List CheckpointMessage :=
  ((t.sessions session.sender)[session.number]?).getD []

/-- The bytes that a session sent for a file, in order. -/
def chunks (t : Transfer) (session : Session) (machineId : ℕ) (file : String) : List UInt8 :=
  ((fileParts (t.messages session)).filter fun msg =>
    msg.machineId = machineId && msg.file = file).flatMap CheckpointMessage.data

end Transfer

/-- The steps of the senders, of the network and of the receiver. -/
inductive TransferLabel where
  /-- A node runs `SendCheckpoint`, which starts a session. -/
  | sendCheckpoint (n : ℕ) (src : SendSource)
  /-- The `i`-th message of a node arrives. -/
  | arrive (n i : ℕ) (F : FileEnv)
  /-- A new process of the receiver, whose constructor sets neither field. -/
  | restart (senderNodeId sequenceId : ℕ)

/-- A step. Messages between two that arrive are lost, and one that arrives may arrive again before
the next one does. -/
def Transfer.step (t : Transfer) : TransferLabel → Option Transfer
  | .sendCheckpoint n src =>
    let msgs := (CheckpointSender.sendCheckpoint n src).2
    some { t with sessions := Function.update t.sessions n (t.sessions n ++ [msgs]) }
  | .arrive n i F =>
    match (t.sent n)[i]? with
    | none => none
    | some (session, msg) =>
      if t.arrived n ≤ i && !t.state.exited then
        some { t with
          arrived := Function.update t.arrived n i
          state := (CheckpointManager.receiveCheckpoint F session msg t.state).2 }
      else none
  | .restart senderNodeId sequenceId =>
    some { t with state :=
      { t.state with
        receiver := ⟨senderNodeId, sequenceId, []⟩, session := none, exited := false } }

/-- Before the first step: a process whose fields are not set, and a temporary directory with
anything in it. -/
def Transfer.start (senderNodeId sequenceId : ℕ) (temp : Option TempDir) : Transfer where
  state := { receiver := ⟨senderNodeId, sequenceId, []⟩, disk := { temp } }

/-- The receiver takes the message for the one that follows the last one, or for a repetition of
that. -/
def CheckpointReceiver.takes (r : CheckpointReceiver) (msg : CheckpointMessage) : Bool :=
  msg.nodeId = r.senderNodeId &&
    match msg.type with
    | .checkpointFile => msg.sequenceId = r.sequenceId || msg.sequenceId = r.sequenceId + 1
    | .checkpointEnd => msg.sequenceId = r.sequenceId + 1
    | _ => false

/-- A message that the receiver takes for the next one is of the session that it last began to
receive. -/
def Transfer.inSession (t : Transfer) : TransferLabel → Bool
  | .arrive n i _ =>
    match (t.sent n)[i]? with
    | some (session, msg) => !t.state.receiver.takes msg || t.state.session = some session
    | none => true
  | _ => true

/-- Nothing is left or lost unnoticed: `DeleteTempCheckpoint` has found all files when it returns
true to a `CHECKPOINT_BEGIN`, and the `fclose` after an append loses nothing. -/
def Transfer.reliable (t : Transfer) : TransferLabel → Bool
  | .arrive n i F =>
    match (t.sent n)[i]? with
    | some (_, msg) =>
      match msg.type with
      | .checkpointBegin =>
        !(t.state.disk.deleteTempCheckpoint F).1 || decide (t.state.disk.Listable F)
      | .checkpointFile => F.kept msg.data = msg.data
      | _ => true
    | none => true
  | _ => true

namespace Transfer

/-- A message arrives only while the receiver runs, and it is one that was sent. -/
theorem step_arrive {t t' : Transfer} {i : ℕ} (h : t.step (.arrive n i F) = some t') :
    ∃ session msg, (t.sent n)[i]? = some (session, msg) ∧ t.state.exited = false ∧
      t' = { t with
        arrived := Function.update t.arrived n i
        state := (CheckpointManager.receiveCheckpoint F session msg t.state).2 } := by
  rw [step] at h
  split at h
  · cases h
  · rename_i session msg hget
    obtain ⟨hcan, heq⟩ := Option.ite_none_right_eq_some.mp h
    rw [Bool.and_eq_true, Bool.not_eq_true'] at hcan
    exact ⟨session, msg, hget, hcan.2, (Option.some.inj heq).symm⟩

/-- A message that was sent belongs to a session of its sender. -/
theorem mem_sent {t : Transfer} (h : (session, msg) ∈ t.sent n) :
    session.sender = n ∧ session.number < (t.sessions n).length ∧ msg ∈ t.messages session := by
  obtain ⟨l, hl, hmem⟩ := List.mem_flatten.mp h
  obtain ⟨i, hi, rfl⟩ := List.mem_mapIdx.mp hl
  obtain ⟨msg', hmsg, heq⟩ := List.mem_map.mp hmem
  obtain ⟨rfl, rfl⟩ := Prod.mk.inj heq
  refine ⟨rfl, hi, ?_⟩
  simpa [messages, hi] using hmsg

/-- Each session is the work of one `SendCheckpoint`. -/
def Sourced (t : Transfer) : Prop :=
  ∀ n, ∀ msgs ∈ t.sessions n, ∃ src, msgs = (CheckpointSender.sendCheckpoint n src).2

/-- The messages of a session that was started, as its `SendCheckpoint` sent them. -/
theorem Sourced.source {t : Transfer} (h : t.Sourced)
    (hlt : session.number < (t.sessions session.sender).length) :
    ∃ src, t.messages session = (CheckpointSender.sendCheckpoint session.sender src).2 := by
  have hmem : t.messages session ∈ t.sessions session.sender := by
    rw [messages, List.getElem?_eq_getElem hlt, Option.getD_some]
    exact List.getElem_mem hlt
  exact h _ _ hmem

/-- A step adds a session of `SendCheckpoint` or none. -/
theorem step_sessions {t t' : Transfer} {a : TransferLabel} (h : t.step a = some t') :
    t'.sessions = t.sessions ∨ ∃ n src, a = .sendCheckpoint n src ∧ t'.sessions =
      Function.update t.sessions n
        (t.sessions n ++ [(CheckpointSender.sendCheckpoint n src).2]) := by
  cases a with
  | sendCheckpoint n src =>
    obtain rfl := Option.some.inj h
    exact .inr ⟨n, src, rfl, rfl⟩
  | arrive n i F =>
    obtain ⟨session, msg, -, -, rfl⟩ := step_arrive h
    exact .inl rfl
  | restart senderNodeId sequenceId =>
    obtain rfl := Option.some.inj h
    exact .inl rfl

theorem Sourced.step {t t' : Transfer} {a : TransferLabel} (h : t.Sourced)
    (hstep : t.step a = some t') : t'.Sourced := by
  intro k msgs hmsgs
  obtain heq | ⟨n, src, -, heq⟩ := step_sessions hstep <;> rw [heq] at hmsgs
  · exact h k msgs hmsgs
  · by_cases hk : k = n
    · subst hk
      rw [Function.update_self, List.mem_append, List.mem_singleton] at hmsgs
      obtain hmsgs | rfl := hmsgs
      · exact h k msgs hmsgs
      · exact ⟨src, rfl⟩
    · rw [Function.update_of_ne hk] at hmsgs
      exact h k msgs hmsgs

/-- A step changes no session that was started before it. -/
theorem messages_step {t t' : Transfer} {a : TransferLabel} (hstep : t.step a = some t')
    (h : session.number < (t.sessions session.sender).length) :
    session.number < (t'.sessions session.sender).length ∧
      t'.messages session = t.messages session := by
  unfold messages
  obtain heq | ⟨n, src, -, heq⟩ := step_sessions hstep <;> rw [heq]
  · exact ⟨h, rfl⟩
  · by_cases hn : session.sender = n
    · subst hn
      rw [Function.update_self, List.getElem?_append_left h, List.length_append]
      exact ⟨by omega, rfl⟩
    · rw [Function.update_of_ne hn]
      exact ⟨h, rfl⟩

/-- What is known of the sessions: each is the work of one `SendCheckpoint`, the receiver has what
it counted of the session it is receiving, and each directory is one session. -/
structure Orderly (t : Transfer) : Prop where
  /-- The messages of a session are those of one `SendCheckpoint`. -/
  sourced : t.Sourced
  /-- What was received of the present session. -/
  receiving : ∀ session, t.state.session = some session →
    t.state.receiver.senderNodeId = session.sender ∧
      session.number < (t.sessions session.sender).length ∧
      (t.state.exited = false → t.state.disk.writes =
        ((fileParts (t.messages session)).take t.state.receiver.sequenceId).map (.chunk session))
  /-- Every directory that was published has exactly the files of one session. -/
  published : ∀ d ∈ t.state.disk.renamed, ∃ session : Session,
    session.number < (t.sessions session.sender).length ∧ t.messages session ≠ [] ∧
      (∀ msg ∈ t.messages session, msg.instanceId = d.instanceId) ∧
      d.writes = (fileParts (t.messages session)).map (.chunk session)

theorem Orderly.congr {t t' : Transfer} (h : t.Orderly) (hs : t'.sessions = t.sessions)
    (hst : t'.state = t.state) : t'.Orderly := by
  obtain ⟨sessions, arrived, state⟩ := t
  obtain ⟨sessions', arrived', state'⟩ := t'
  dsimp only at hs hst
  subst hs hst
  exact ⟨h.sourced, h.receiving, h.published⟩

/-- A message that arrives keeps the order, when it belongs to the session it is taken for and
nothing is left or lost unnoticed. -/
theorem Orderly.receive {t : Transfer} (h : t.Orderly) (hrunning : t.state.exited = false)
    (hmem : (session, msg) ∈ t.sent n)
    (hok : t.state.receiver.takes msg = true → t.state.session = some session)
    (hlist : msg.type = .checkpointBegin → (t.state.disk.deleteTempCheckpoint F).1 = true →
      t.state.disk.Listable F) (hkept : msg.type = .checkpointFile → F.kept msg.data = msg.data)
    (hrec : Received F session msg t.state b s) :
    ({ t with state := s }).Orderly := by
  obtain ⟨hsender, hlt, hmsg⟩ := mem_sent hmem
  rw [← hsender] at hlt
  obtain ⟨src, hsrc⟩ := h.sourced.source hlt
  rw [hsrc] at hmsg
  obtain ⟨hnode, hinst, hfile, hend⟩ := CheckpointSender.mem_sendCheckpoint hmsg
  cases hrec with
  | ignored => exact ⟨h.sourced, h.receiving, h.published⟩
  | begun disk htype hdeleted _ hempty hrenamed =>
    refine ⟨h.sourced, fun σ hσ => ?_, ?_⟩
    · obtain rfl := Option.some.inj hσ
      exact ⟨hnode, hlt, fun _ => hempty (hlist htype hdeleted)⟩
    · dsimp only
      rw [hrenamed]
      exact h.published
  | reset disk hrenamed =>
    refine ⟨h.sourced, fun σ hσ => absurd hσ (by simp), ?_⟩
    dsimp only
    rw [hrenamed]
    exact h.published
  | appended disk dirs htype hfrom hseq hwrites hrenamed =>
    -- the message is the next one of the session that is being received
    have hsess := hok (by simp [CheckpointReceiver.takes, hfrom, htype, hseq])
    obtain ⟨hfrom', -, hold⟩ := h.receiving session hsess
    obtain ⟨k, hk, hget⟩ := hfile htype
    obtain rfl : k = t.state.receiver.sequenceId := by omega
    refine ⟨h.sourced, fun σ hσ => ?_, ?_⟩
    · obtain rfl := Option.some.inj (hsess.symm.trans hσ)
      refine ⟨hfrom', hlt, fun _ => ?_⟩
      calc disk.writes
          = ((fileParts (t.messages session)).take t.state.receiver.sequenceId).map
              (.chunk session) ++ [.chunk session msg] := by
            rw [hwrites, hold hrunning, hkept htype]
        _ = ((fileParts (t.messages session)).take (t.state.receiver.sequenceId + 1)).map
              (.chunk session) := by
            rw [List.take_add_one, hsrc, hget, List.map_append, Option.toList_some,
              List.map_singleton]
    · dsimp only
      rw [hrenamed]
      exact h.published
  | published htype hfrom hseq =>
    have hsess := hok (by simp [CheckpointReceiver.takes, hfrom, htype, hseq])
    obtain ⟨-, -, hold⟩ := h.receiving session hsess
    -- the number of the end says that all parts of the session were received
    have hall : t.state.receiver.sequenceId = (fileParts (t.messages session)).length := by
      have := hend htype
      rw [hsrc]
      omega
    refine ⟨h.sourced, fun σ hσ => ⟨(h.receiving σ hσ).1, (h.receiving σ hσ).2.1, ?_⟩,
      fun d hd => ?_⟩
    · exact fun hexit => absurd hexit (by simp)
    · obtain rfl | hd := List.mem_cons.mp hd
      · refine ⟨session, hlt, ?_, ?_, ?_⟩
        · change t.messages session ≠ []
          rw [hsrc]
          exact List.ne_nil_of_mem hmsg
        · intro msg' hmsg'
          change msg' ∈ t.messages session at hmsg'
          rw [hsrc] at hmsg'
          exact (CheckpointSender.mem_sendCheckpoint hmsg').2.1.trans hinst.symm
        · change t.state.disk.writes = (fileParts (t.messages session)).map (.chunk session)
          rw [hold hrunning, hall, List.take_length]
      · exact h.published d hd

/-- Every step of one session keeps the receiver in order. -/
theorem Orderly.step {t t' : Transfer} {a : TransferLabel} (h : t.Orderly)
    (hok : t.inSession a = true) (hreliable : t.reliable a = true) (hstep : t.step a = some t') :
    t'.Orderly := by
  cases a with
  | sendCheckpoint n src =>
    have hkept {σ : Session} (hlt : σ.number < (t.sessions σ.sender).length) :=
      messages_step hstep hlt
    refine ⟨h.sourced.step hstep, fun session hσ => ?_, fun d hd => ?_⟩ <;>
      obtain rfl := Option.some.inj hstep
    · obtain ⟨hfrom, hlt, hold⟩ := h.receiving session hσ
      exact ⟨hfrom, (hkept hlt).1, (hkept hlt).2 ▸ hold⟩
    · obtain ⟨session, hlt, hrest⟩ := h.published d hd
      exact ⟨session, (hkept hlt).1, by rw [(hkept hlt).2]; exact hrest⟩
  | arrive n i F =>
    obtain ⟨session, msg, hget, hrunning, rfl⟩ := step_arrive hstep
    have htakes : t.state.receiver.takes msg = true → t.state.session = some session := by
      intro htakes
      simpa [inSession, hget, htakes] using hok
    refine (h.receive hrunning (List.mem_of_getElem? hget) htakes ?_ ?_
      (CheckpointManager.receiveCheckpoint_cases F session msg t.state)).congr rfl rfl
    · intro htype hdeleted
      simpa [reliable, hget, htype, hdeleted] using hreliable
    · intro htype
      simpa [reliable, hget, htype] using hreliable
  | restart senderNodeId sequenceId =>
    obtain rfl := Option.some.inj hstep
    exact ⟨h.sourced, fun σ hσ => absurd hσ (by simp), h.published⟩

end Transfer

/-- In every run in which the messages that the receiver takes for the next ones are of the session
that it is receiving, and nothing is left or lost unnoticed, each file of a published directory is
what one session for that instance sent for it. -/
theorem published_from_one_session {senderNodeId sequenceId : ℕ} {temp : Option TempDir}
    {t : Transfer}
    (h : Reaches Transfer.step (fun t a => t.inSession a = true ∧ t.reliable a = true)
      (Transfer.start senderNodeId sequenceId temp) t) :
    ∀ d ∈ t.state.disk.renamed, ∃ session : Session,
      t.messages session ≠ [] ∧ (∀ msg ∈ t.messages session, msg.instanceId = d.instanceId) ∧
      (∀ w ∈ d.writes, ∃ msg ∈ fileParts (t.messages session), w = .chunk session msg) ∧
      ∀ machineId file, d.content machineId file = t.chunks session machineId file := by
  have horder : t.Orderly := by
    refine h.invariant ⟨?_, ?_, ?_⟩ fun s t a hs hok hstep => hs.step hok.1 hok.2 hstep
    · exact fun n msgs hmsgs => absurd hmsgs List.not_mem_nil
    · exact fun session hσ => absurd hσ (by simp [Transfer.start])
    · exact fun d hd => absurd hd List.not_mem_nil
  intro d hd
  obtain ⟨session, -, hne, hinst, hwrites⟩ := horder.published d hd
  refine ⟨session, hne, hinst, fun w hw => ?_, fun machineId file => ?_⟩
  · rw [hwrites] at hw
    obtain ⟨msg, hmsg, rfl⟩ := List.mem_map.mp hw
    exact ⟨msg, hmsg, rfl⟩
  · rw [Renamed.content, Transfer.chunks, hwrites, List.filter_map, List.flatMap_map]
    rfl

/-- One session, with one message repeated. -/
def pairRun : List TransferLabel :=
  [.sendCheckpoint 1 pairSource, .arrive 1 0 {}, .arrive 1 1 {}, .arrive 1 1 {}, .arrive 1 2 {},
    .arrive 1 3 {}]

/-- What an earlier session has left in the temporary directory. -/
def oldTemp : TempDir where
  subdirs := [3]
  files := [⟨{ name := "data" }, .chunk ⟨2, 0⟩
    { type := .checkpointFile, nodeId := 2, sequenceId := 1, machineId := 3, file := "data"
      data := [1] }⟩]

/-- The session is published as it was sent. -/
theorem published_from_one_session_pair :
    ∃ t : Transfer, (∃ d ∈ t.state.disk.renamed, d.instanceId = 5 ∧ d.content 3 "data" = [8, 9]) ∧
      ∀ d ∈ t.state.disk.renamed, ∃ session : Session,
        t.messages session ≠ [] ∧ (∀ msg ∈ t.messages session, msg.instanceId = d.instanceId) ∧
        (∀ w ∈ d.writes, ∃ msg ∈ fileParts (t.messages session), w = .chunk session msg) ∧
        ∀ machineId file, d.content machineId file = t.chunks session machineId file := by
  have hrun : (runChecked Transfer.step (fun t a => t.inSession a && t.reliable a)
      (Transfer.start 0 0 (some oldTemp)) pairRun).map
      (fun t => t.state.disk.renamed.any fun d =>
        d.instanceId = 5 && d.content 3 "data" = [8, 9]) = some true := by decide +kernel
  obtain ⟨t, ht, hval⟩ := Option.map_eq_some_iff.mp hrun
  obtain ⟨d, hd, hdir⟩ := List.any_eq_true.mp hval
  rw [Bool.and_eq_true, decide_eq_true_eq, decide_eq_true_eq] at hdir
  exact ⟨t, ⟨d, hd, hdir⟩, published_from_one_session
    (Reaches.of_runChecked pairRun (fun _ _ _ hok => Bool.and_eq_true_iff.mp hok) ht)⟩

/-- A later checkpoint of the same two machines. -/
def laterSource : SendSource where
  instanceId := 6
  machines := [⟨1, some [{ name := "membership", content := [17] }]⟩,
    ⟨3, some [{ name := "data", content := [18, 19] }]⟩]

/-- Of a first session only the begin and the first file arrive, of a second one all but the begin:
the receiver takes the first file of the second session for a repetition, and publishes the other
file under the instance of the second session beside the old first file. -/
def mixedRun : List TransferLabel :=
  [.sendCheckpoint 1 pairSource, .arrive 1 0 {}, .arrive 1 1 {}, .sendCheckpoint 1 laterSource,
    .arrive 1 5 {}, .arrive 1 6 {}, .arrive 1 7 {}]

/-- A node that starts no session has none. -/
theorem Transfer.sessions_eq_nil {t : Transfer} {l : List TransferLabel}
    (hl : ∀ a ∈ l, ∀ k src, a = .sendCheckpoint k src → k ≠ n)
    (h : run Transfer.step (Transfer.start 0 0 none) l = some t) : t.sessions n = [] := by
  have hreach : Reaches Transfer.step (fun _ a => ∀ k src, a = .sendCheckpoint k src → k ≠ n)
      (Transfer.start 0 0 none) t := Reaches.of_run l (fun a ha _ => hl a ha) h
  refine hreach.invariant (P := fun t => t.sessions n = []) rfl ?_
  intro s t a hs hok hstep
  obtain heq | ⟨k, src, rfl, heq⟩ := Transfer.step_sessions hstep <;> rw [heq]
  · exact hs
  · exact (Function.update_of_ne (hok k src rfl).symm _ _).trans hs

/-- A published directory need not be one session: the sessions of a node are told apart neither by
the sequence numbers nor by anything else that the receiver compares. -/
theorem published_from_two_sessions :
    ∃ t, run Transfer.step (Transfer.start 0 0 none) mixedRun = some t ∧
      ∃ d ∈ t.state.disk.renamed, ¬∃ session : Session,
        t.messages session ≠ [] ∧ (∀ msg ∈ t.messages session, msg.instanceId = d.instanceId) ∧
        ∀ machineId file, d.content machineId file = t.chunks session machineId file := by
  have hrun : (run Transfer.step (Transfer.start 0 0 none) mixedRun).map (fun t =>
      (t.state.disk.renamed.any fun d => d.instanceId = 6 && d.content 1 "membership" = [7],
        t.sessions 1)) =
      some (true, [(CheckpointSender.sendCheckpoint 1 pairSource).2,
        (CheckpointSender.sendCheckpoint 1 laterSource).2]) := by decide +kernel
  obtain ⟨t, ht, hval⟩ := Option.map_eq_some_iff.mp hrun
  obtain ⟨hdir, hsessions⟩ := Prod.mk.inj hval
  obtain ⟨d, hd, hdir⟩ := List.any_eq_true.mp hdir
  rw [Bool.and_eq_true, decide_eq_true_eq, decide_eq_true_eq] at hdir
  refine ⟨t, ht, d, hd, ?_⟩
  rintro ⟨⟨n, k⟩, hne, hinst, hfiles⟩
  have hfile := hfiles 1 "membership"
  rw [hdir.2, Transfer.chunks] at hfile
  rw [hdir.1] at hinst
  by_cases hn : n = 1
  · subst hn
    simp only [Transfer.messages, hsessions] at hne hinst hfile
    -- the first session is for another instance, and the second sent other bytes
    match k with
    | 0 => exact absurd hinst (by decide +kernel)
    | 1 => exact absurd hfile (by decide +kernel)
    | k + 2 => simp at hne
  · have hnone : t.sessions n = [] := by
      refine Transfer.sessions_eq_nil (fun a ha k src heq => ?_) ht
      subst heq
      simp only [mixedRun, List.mem_cons, TransferLabel.sendCheckpoint.injEq, reduceCtorEq,
        List.not_mem_nil, or_false, false_or] at ha
      omega
    simp [Transfer.messages, hnone] at hne

end Skywalker
