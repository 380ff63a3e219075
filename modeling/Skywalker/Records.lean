import Skywalker.CheckpointFile
import Skywalker.Contents
import Skywalker.MemberChanges

/-!
# What a node stores and what its machines read

`Group::ChangeMember` makes the change that it was called for wherever its value is executed
(`changeMember_takes_effect`), and the machines of a group find in a checkpoint what they wrote into
it (`checkpoint_restores`). Both hold for every protobuf that reads back what it wrote. The message
types of `proto/paxos.proto` that a node stores, the log record and the membership, are here in the
wire format, with the proof that they are read back.
-/

namespace Skywalker

open WireFormat WireField

/-! ## The log record -/

/-- The functions of protobuf on the records of the log. -/
structure RecordCodec where
  /-- `SerializeToString` of a record. -/
  serialize : PaxosInstance → List UInt8
  /-- `ParseFromString`, which fails on bytes that it cannot read. -/
  parse : List UInt8 → Option PaxosInstance

/-- The numbers of the record fit into their types. -/
def PaxosInstance.InRange (r : PaxosInstance) : Prop :=
  (∀ n ∈ [r.instanceId, r.promised.proposalId, r.promised.nodeId, r.accepted.proposalId,
    r.accepted.nodeId], n < 2 ^ 64) ∧ r.acceptedValue.InRange

instance (r : PaxosInstance) : Decidable r.InRange := inferInstanceAs (Decidable (_ ∧ _))

/-- What is asked of protobuf: a record whose numbers fit into their types, and that is below 2 GiB,
is read back. -/
def RecordCodec.RoundTrips (c : RecordCodec) : Prop :=
  ∀ r : PaxosInstance, r.InRange → (c.serialize r).length < 2 ^ 31 →
    c.parse (c.serialize r) = some r

/-- The field `accepted_value`, which both functions that write a record set. -/
def PaxosInstance.valueField : WireField PaxosInstance :=
  message 6 PaxosValue.schema {} (fun r => some r.acceptedValue)
    fun r v => { r with acceptedValue := v }

/-- The fields of `message PaxosInstance` on the wire. -/
def PaxosInstance.schema : Schema PaxosInstance :=
  [uint64 1 PaxosInstance.instanceId fun r n => { r with instanceId := n },
    uint64 2 (fun r => r.promised.proposalId) fun r n => { r with promised.proposalId := n },
    uint64 3 (fun r => r.promised.nodeId) fun r n => { r with promised.nodeId := n },
    uint64 4 (fun r => r.accepted.proposalId) fun r n => { r with accepted.proposalId := n },
    uint64 5 (fun r => r.accepted.nodeId) fun r n => { r with accepted.nodeId := n },
    valueField]

/-- The log record in the wire format. -/
def protoRecords : RecordCodec where
  serialize := PaxosInstance.schema.serialize
  parse := PaxosInstance.schema.mergeFrom {}

/-- The wire format reads a record back. -/
theorem protoRecords_roundTrips : protoRecords.RoundTrips := by
  rintro r ⟨hnumbers, hvalue⟩ hlength
  simp only [List.forall_mem_cons] at hnumbers
  obtain ⟨h1, h2, h3, h4, h5, -⟩ := hnumbers
  have hmem : PaxosInstance.valueField ∈ PaxosInstance.schema := by simp [PaxosInstance.schema]
  have hwrite : WireValue.bytes (PaxosValue.schema.serialize r.acceptedValue) ∈
      PaxosInstance.valueField.write r := List.mem_singleton_self _
  have hsub := PaxosValue.parse_serialize hvalue
    (Nat.lt_of_le_of_lt (Schema.length_le_of_write hmem hwrite) hlength)
  have hcopy : ∀ v, some r.acceptedValue = some v →
      v = r.acceptedValue ∧
        PaxosValue.schema.mergeFrom {} (PaxosValue.schema.serialize v) = some v := by
    intro v hv
    obtain rfl := Option.some.inj hv
    exact ⟨rfl, hsub⟩
  refine Schema.parse_serialize (by decide) hlength ?_
  exact .cons (uint64_copies h1 rfl fun h => by rw [h]) <|
    .cons (uint64_copies h2 rfl fun h => by rw [h]) <|
    .cons (uint64_copies h3 rfl fun h => by rw [h]) <|
    .cons (uint64_copies h4 rfl fun h => by rw [h]) <|
    .cons (uint64_copies h5 rfl fun h => by rw [h]) <|
    .cons (message_copies nofun fun v hv => ⟨rfl, by rw [(hcopy v hv).1], (hcopy v hv).2⟩) <|
    .nil _

/-! ## `Group::ChangeMember` -/

/-- The message has the members in their order, with what to do with each. -/
theorem changeMember_eq (value : List (MemberMessage × Bool)) :
    changeMember value = ⟨value.map Prod.fst,
      value.map fun i => if i.2 then .memberAdd else .memberRemove⟩ := by
  suffices h : ∀ c : MemberChangeMessage, value.foldl MemberChangeMessage.push c =
      ⟨c.member ++ value.map Prod.fst,
        c.type ++ value.map fun i => if i.2 then .memberAdd else .memberRemove⟩ from h {}
  induction value with
  | nil => simp
  | cons i value ih =>
    intro c
    rw [List.foldl_cons, ih]
    simp [MemberChangeMessage.push]

/-- What a call of `ChangeMember` asks for the entry of an id, if it asks for something: the last
one of the list that has the id decides. -/
def requested (value : List (MemberMessage × Bool)) (id : ℕ) : Option (Option MemberMessage) :=
  (value.reverse.find? fun i => i.1.id = id).map fun i => if i.2 then some i.1 else none

/-- The changes of the message are those that were asked for. -/
theorem lastEffect_changeMember (value : List (MemberMessage × Bool)) (id : ℕ) :
    lastEffect id ((changeMember value).type.zip (changeMember value).member) =
      requested value id := by
  have hzip : (changeMember value).type.zip (changeMember value).member =
      value.map fun i => (if i.2 then .memberAdd else .memberRemove, i.1) := by
    rw [changeMember_eq]
    exact List.zip_map'
  rw [hzip, lastEffect, requested, ← List.map_reverse]
  induction value.reverse with
  | nil => rfl
  | cons i l ih =>
    obtain ⟨m, add⟩ := i
    by_cases hid : m.id = id
    · cases add <;> simp [hid, MemberChangeType.effect]
    · simp only [List.map_cons, List.findSome?_cons, List.find?_cons, hid, if_false, decide_false]
      exact ih

/-- What `ChangeMember` serialises fits into the types of its fields if the members do. -/
theorem changeMember_inRange {value : List (MemberMessage × Bool)}
    (hrange : ∀ i ∈ value, i.1.InRange) : (changeMember value).InRange := by
  rw [changeMember_eq]
  refine ⟨fun m hm => ?_, fun type htype => ?_⟩
  · obtain ⟨i, hi, rfl⟩ := List.mem_map.mp hm
    exact hrange i hi
  · obtain ⟨i, -, rfl⟩ := List.mem_map.mp htype
    cases i.2
    · exact .inr rfl
    · exact .inl rfl

/-- **`ChangeMember` makes the change that it was called for.** Wherever the value that it proposes
is executed, for whatever members there are then, `Execute` returns true, the members that were
asked for are in, with all their data, or out, and the others stay. -/
theorem changeMember_takes_effect {codec : Codec} (hcodec : codec.RoundTrips)
    {value : List (MemberMessage × Bool)} (hrange : ∀ i ∈ value, i.1.InRange)
    (hlength : (codec.serializeMemberChange (changeMember value)).length < 2 ^ 31)
    {ms : Membership} {instanceId : ℕ} (hnew : ms.version < instanceId) :
    ∃ ms', ms.execute codec instanceId (codec.serializeMemberChange (changeMember value)) =
        (true, ms') ∧
      ms'.version = instanceId ∧
      ∀ id, ms'.find id = (requested value id).getD (ms.find id) := by
  have hparse := hcodec.memberChange _ (changeMember_inRange hrange) hlength
  have hsome : applyChanges (changeMember value).type (changeMember value).member ms ≠ none := by
    rw [Ne, applyChanges_eq_none_iff, changeMember_length]
    exact Nat.lt_irrefl _
  obtain ⟨ms', hms'⟩ := Option.ne_none_iff_exists'.mp hsome
  refine ⟨{ ms' with version := instanceId }, ?_, rfl, fun id => ?_⟩
  · unfold Membership.execute
    rw [if_neg (Nat.not_le.mpr hnew)]
    simp only [hparse, hms']
  · have hfind : ms'.find id = _ := congrFun (find_applyChanges hms') id
    rw [foldl_changeMap, lastEffect_changeMember] at hfind
    exact hfind

/-- The first node joins and is asked to leave in one call, a second one joins. -/
theorem changeMember_takes_effect_last :
    ∃ ms' : Membership, ms'.find 1 = none ∧
      ms'.find 2 = some { id := 2, host := "b", port := 8002, context := [7] } := by
  obtain ⟨ms', -, -, hfind⟩ := @changeMember_takes_effect protoCodec protoCodec_roundTrips
    [({ id := 1 }, true), ({ id := 2, host := "b", port := 8002, context := [7] }, true),
      ({ id := 1 }, false)] (by decide) (by decide +kernel) ⟨0, [], List.nodup_nil⟩ 1 (by decide)
  exact ⟨ms', hfind 1, hfind 2⟩

/-! ## The checkpoints of the machines -/

/-- The functions of protobuf on what the two machines of a group save. -/
structure MachineProtobuf where
  /-- The functions of protobuf on a `Membership`. -/
  membership : Protobuf Membership
  /-- The functions of protobuf on a `MasterState`. -/
  master : Protobuf MasterState

/-- What is asked of protobuf: both message types are read back. -/
structure MachineProtobuf.RoundTrips (p : MachineProtobuf) : Prop where
  membership : p.membership.RoundTrips
  master : p.master.RoundTrips

/-- A message that can be serialised, to a file below 2 GiB. -/
def Protobuf.FitsFile {M : Type*} (p : Protobuf M) (message : M) : Prop :=
  ∃ bytes, p.appendToString message = some bytes ∧
    bytes.length + StateMachine.kHeaderSize < 2 ^ 31

/-- What a machine wrote into a file, it reads. -/
theorem StateMachine.read_write {M : Type*} {p : Protobuf M} (hp : p.RoundTrips)
    {crc32c : List UInt8 → UInt32} {groupId : UInt32} {instanceId : UInt64} {E : WriteEnv}
    {message : M} {f : StoredFile} (hfits : p.FitsFile message)
    (hwrite : writeCheckpoint p crc32c E groupId instanceId message = some f) :
    readCheckpoint p crc32c groupId instanceId f = some message := by
  obtain ⟨bytes, hbytes, hlength⟩ := hfits
  simp only [writeCheckpoint, writeStringToFileSync, hbytes, Option.getD_some,
    Option.ite_none_right_eq_some, Option.some.injEq] at hwrite
  obtain ⟨-, rfl⟩ := hwrite
  refine (readCheckpoint_framed bytes).trans (hp.parse_eq message bytes hbytes _ _ ?_)
  rw [toInt_parseLength (Nat.le_add_left _ _) hlength, Nat.add_sub_cancel]

/-- The files of the two machines of a group in a checkpoint. -/
structure MachineFiles where
  /-- The file that `MembershipMachine` writes. -/
  membership : StoredFile
  /-- The file that `MasterMachine` writes. -/
  master : StoredFile

/-- The writes of the two `MakeCheckpoint`, if both succeed. -/
def Machines.writeFiles (p : MachineProtobuf) (crc32c : List UInt8 → UInt32) (E E' : WriteEnv)
    (groupId : UInt32) (instanceId : UInt64) (ms : Machines) : Option MachineFiles :=
  (StateMachine.writeCheckpoint p.membership crc32c E groupId instanceId ms.membership).bind
    fun membership =>
      (StateMachine.writeCheckpoint p.master crc32c E' groupId instanceId ms.master).map
        fun master => ⟨membership, master⟩

/-- The two `Recover` of the machines in a new process. Without its file `MembershipMachine` fails,
and `MasterMachine` goes on with the state of a new machine. -/
def Machines.recoverFiles (p : MachineProtobuf) (crc32c : List UInt8 → UInt32) (groupId : UInt32)
    (instanceId : UInt64) (nodeId now : ℕ) (files : MachineFiles) : Option Machines :=
  (StateMachine.readCheckpoint p.membership crc32c groupId instanceId files.membership).map
    fun membership =>
      match StateMachine.readCheckpoint p.master crc32c groupId instanceId files.master with
      | some master => Machines.recover nodeId now ⟨membership, master⟩
      | none => ⟨membership, {}⟩

/-- **The machines find in a checkpoint what they wrote into it**: the members with all their data,
and the state of the master, whose lease `Recover` then starts anew. -/
theorem checkpoint_restores {p : MachineProtobuf} (hp : p.RoundTrips)
    {crc32c : List UInt8 → UInt32} {E E' : WriteEnv} {groupId : UInt32} {instanceId : UInt64}
    {ms : Machines} {files : MachineFiles} (hmembership : p.membership.FitsFile ms.membership)
    (hmaster : p.master.FitsFile ms.master)
    (hwrite : ms.writeFiles p crc32c E E' groupId instanceId = some files) (nodeId now : ℕ) :
    Machines.recoverFiles p crc32c groupId instanceId nodeId now files =
      some (Machines.recover nodeId now ms) := by
  obtain ⟨fileM, hfileM, hrest⟩ := Option.bind_eq_some_iff.mp hwrite
  obtain ⟨fileS, hfileS, rfl⟩ := Option.map_eq_some_iff.mp hrest
  have hreadM := StateMachine.read_write hp.membership hmembership hfileM
  have hreadS := StateMachine.read_write hp.master hmaster hfileS
  simp only [Machines.recoverFiles, hreadM, hreadS, Option.map_some]

/-! ## The membership in the wire format -/

/-- `Membership` as it is read: the map as the list of its entries, with their keys. -/
structure RawMembership where
  /-- The field `version` of the message. -/
  version : ℕ := 0
  /-- The entries of the map `members`, with their keys. -/
  members : List (ℕ × MemberMessage) := []
deriving DecidableEq, Repr

/-- The member of an entry of the map. -/
def RawMembership.entryField : WireField (ℕ × MemberMessage) :=
  message 2 MemberMessage.schema { id := 0 } (fun e => some e.2) fun e m => (e.1, m)

/-- An entry of a map is a message with the key and the value, both always written. -/
def RawMembership.entrySchema : Schema (ℕ × MemberMessage) :=
  [{ uint64 1 Prod.fst (fun e n => (n, e.2)) with write := fun e => [.varint e.1] }, entryField]

/-- An entry that is read replaces one of the same key. -/
def RawMembership.insertEntry (ms : RawMembership) (e : ℕ × MemberMessage) : RawMembership :=
  if e.1 ∈ ms.members.map Prod.fst then
    { ms with members := ms.members.map fun x => if x.1 = e.1 then e else x }
  else { ms with members := ms.members ++ [e] }

/-- The field `members`, one embedded message for each entry. -/
def RawMembership.membersField : WireField RawMembership :=
  messages 2 entrySchema (0, { id := 0 }) RawMembership.members insertEntry

/-- The fields of `message Membership` on the wire. -/
def RawMembership.schema : Schema RawMembership :=
  [uint64 1 RawMembership.version fun ms n => { ms with version := n }, membersField]

/-- The entries of the map of a membership. -/
def Membership.raw (ms : Membership) : RawMembership :=
  ⟨ms.version, ms.members.map fun m => (m.id, m)⟩

/-- The membership with the entries that were read. Every writer has the id of a member as its key;
other entries are none of a membership here. -/
def Membership.ofRaw (raw : RawMembership) : Option Membership :=
  if h : (raw.members.map fun e => e.2.id).Nodup ∧ ∀ e ∈ raw.members, e.1 = e.2.id then
    some ⟨raw.version, raw.members.map Prod.snd, by simpa [Function.comp_def] using h.1⟩
  else none

theorem Membership.ofRaw_raw (ms : Membership) : ofRaw ms.raw = some ms := by
  have h : (ms.raw.members.map fun e => e.2.id).Nodup ∧ ∀ e ∈ ms.raw.members, e.1 = e.2.id := by
    refine ⟨?_, ?_⟩
    · rw [raw, List.map_map]
      exact ms.nodup
    · intro e he
      obtain ⟨m, -, rfl⟩ := List.mem_map.mp he
      rfl
  rw [ofRaw, dif_pos h]
  simp [raw, Function.comp_def]

/-- Entries of different keys are appended one by one. -/
theorem RawMembership.foldl_insertEntry (l : List (ℕ × MemberMessage)) (ms : RawMembership)
    (h : ((ms.members ++ l).map Prod.fst).Nodup) :
    l.foldl insertEntry ms = { ms with members := ms.members ++ l } := by
  induction l generalizing ms with
  | nil => simp
  | cons e l ih =>
    have hnew : e.1 ∉ ms.members.map Prod.fst := by
      rw [List.map_append, List.map_cons, List.nodup_append] at h
      exact fun hmem => h.2.2 e.1 hmem e.1 List.mem_cons_self rfl
    have hassoc : ms.members ++ e :: l = ms.members ++ [e] ++ l := by simp
    rw [hassoc] at h
    rw [List.foldl_cons, insertEntry, if_neg hnew, ih _ h, ← hassoc]

/-- An entry is read back. -/
theorem RawMembership.parse_entry {e : ℕ × MemberMessage} (hkey : e.1 < 2 ^ 64)
    (hmember : e.2.InRange) (hlength : (entrySchema.serialize e).length < 2 ^ 31) :
    entrySchema.mergeFrom (0, { id := 0 }) (entrySchema.serialize e) = some e := by
  have hmem : entryField ∈ entrySchema := by simp [entrySchema]
  have hwrite : WireValue.bytes (MemberMessage.schema.serialize e.2) ∈ entryField.write e :=
    List.mem_singleton_self _
  have hsub := MemberMessage.parse_serialize hmember
    (Nat.lt_of_le_of_lt (Schema.length_le_of_write hmem hwrite) hlength)
  refine Schema.parse_serialize (by decide) hlength ?_
  refine .cons (t := (e.1, { id := 0 })) ⟨?_, rfl⟩ <| .cons (t := e) (message_copies nofun ?_) <|
    .nil _
  · simpa [WireValue.InRange] using hkey
  · intro m hm
    obtain rfl := Option.some.inj hm
    exact ⟨rfl, rfl, hsub⟩

/-- The numbers of the membership fit into their types. -/
def Membership.InRange (ms : Membership) : Prop :=
  ms.version < 2 ^ 64 ∧ ∀ m ∈ ms.members, m.InRange

instance (ms : Membership) : Decidable ms.InRange := inferInstanceAs (Decidable (_ ∧ _))

/-- A membership is parsed back from its bytes. -/
theorem Membership.parse_serialize {ms : Membership} (h : ms.InRange)
    (hlength : (RawMembership.schema.serialize ms.raw).length < 2 ^ 31) :
    RawMembership.schema.mergeFrom {} (RawMembership.schema.serialize ms.raw) = some ms.raw := by
  have hnodup : (([] ++ ms.raw.members).map Prod.fst).Nodup := by
    rw [List.nil_append, raw, List.map_map]
    exact ms.nodup
  refine Schema.parse_serialize (by decide) hlength ?_
  refine .cons (uint64_copies h.1 rfl fun h => by rw [h]) <|
    .cons (messages_copies (RawMembership.foldl_insertEntry _ _ hnodup) ?_) <| .nil _
  intro e he
  have hmem : RawMembership.membersField ∈ RawMembership.schema := by simp [RawMembership.schema]
  have hle := Schema.length_le_of_write hmem (List.mem_map_of_mem
    (f := fun e => WireValue.bytes (RawMembership.entrySchema.serialize e)) he)
  obtain ⟨m, hm, rfl⟩ := List.mem_map.mp he
  exact RawMembership.parse_entry (h.2 m hm).1 (h.2 m hm) (Nat.lt_of_le_of_lt hle hlength)

/-- Protobuf on what the machines save, in the wire format. -/
def machineProtobuf : MachineProtobuf where
  membership := RawMembership.schema.protobuf {} Membership.raw Membership.ofRaw Membership.InRange
  master := MasterState.schema.protobuf {} id some MasterState.InRange

/-- The wire format reads both back. -/
theorem machineProtobuf_roundTrips : machineProtobuf.RoundTrips where
  membership := by
    refine Schema.protobuf_roundTrips fun ms hrange hlength => ?_
    rw [Membership.parse_serialize hrange hlength]
    exact Membership.ofRaw_raw ms
  master := by
    refine Schema.protobuf_roundTrips fun st hrange hlength => ?_
    rw [id, MasterState.parse_serialize hrange hlength]
    rfl

/-- Machines with one member and a master. -/
def oneMember : Machines :=
  ⟨⟨4, [{ id := 1, host := "a", port := 8001 }], List.nodup_singleton _⟩, ⟨5, 1, 3000⟩⟩

/-- The files of a group with one member and a master are read back. -/
theorem checkpoint_restores_one :
    ∃ files, Machines.recoverFiles machineProtobuf (fun _ => 0) 0 9 1 1000 files =
      some (Machines.recover 1 1000 oneMember) := by
  obtain ⟨files, hfiles⟩ : ∃ files, oneMember.writeFiles machineProtobuf (fun _ => 0) {} {} 0 9 =
      some files := Option.isSome_iff_exists.mp (by decide +kernel)
  have hmembership : machineProtobuf.membership.FitsFile oneMember.membership :=
    ⟨RawMembership.schema.serialize oneMember.membership.raw, by decide +kernel,
      by decide +kernel⟩
  have hmaster : machineProtobuf.master.FitsFile oneMember.master :=
    ⟨MasterState.schema.serialize oneMember.master, by decide +kernel,
      by decide +kernel⟩
  exact ⟨files,
    checkpoint_restores machineProtobuf_roundTrips hmembership hmaster hfiles 1 1000⟩

end Skywalker
