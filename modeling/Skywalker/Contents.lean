import Skywalker.Network
import Skywalker.Receiver
import Skywalker.Wire

/-!
# The messages between nodes on the wire

The message types of `proto/paxos.proto` that nodes exchange, in the wire format, and the round trip
of a `Content` through `SerializeToString` and `ParseFromArray`. The results about the framing hold
for every protobuf that has this round trip; `contentProtobuf` is the one of their concrete runs.

Enumerations of proto3 are open: a number that has no name is kept when a message is parsed. So a
message is read together with the number of its type, and a `Content` with a number that has no name
is kept as it was read (`Content.other`); the handlers only report it.
-/

/-! ## Protobuf from a schema -/

namespace WireFormat.Schema

open Skywalker

variable {M N : Type*} {schema : Schema M}

/-- The functions of protobuf on messages that are read as `M`, with what the code builds of them
and what it finds in them. A message that does not fit the types of its fields cannot be built, and
one of two gigabytes is not serialised; a negative length is not looked at. -/
def protobuf (schema : Schema M) (default : M) (raw : N → M) (ofRaw : M → Option N)
    (fits : N → Prop) [DecidablePred fits] : Protobuf N where
  byteSizeLong msg := (schema.serialize (raw msg)).length
  appendToString msg :=
    if fits msg ∧ (schema.serialize (raw msg)).length < 2 ^ 31 then
      some (schema.serialize (raw msg))
    else none
  parseFromArray memory n :=
    if 0 ≤ n.toInt then (schema.mergeFrom default (memory.take n.toInt.toNat)).bind ofRaw else none

variable {default : M} {raw : N → M} {ofRaw : M → Option N} {fits : N → Prop} [DecidablePred fits]

/-- `AppendToString` succeeds on what fits. -/
theorem appendToString_eq_some {msg : N} {bytes : List UInt8}
    (h : (schema.protobuf default raw ofRaw fits).appendToString msg = some bytes) :
    fits msg ∧ bytes.length < 2 ^ 31 ∧ bytes = schema.serialize (raw msg) := by
  obtain ⟨⟨hfits, hlength⟩, h⟩ := Option.ite_none_right_eq_some.mp h
  obtain rfl := Option.some.inj h
  exact ⟨hfits, hlength, rfl⟩

/-- Only the bytes of the length are read. -/
theorem parseFromArray_append (bytes rest : List UInt8) {n : Int32} (hn : n.toInt = bytes.length) :
    (schema.protobuf default raw ofRaw fits).parseFromArray (bytes ++ rest) n =
      (schema.mergeFrom default bytes).bind ofRaw := by
  have hnat : n.toInt.toNat = bytes.length := by omega
  have hpos : 0 ≤ n.toInt := by omega
  simp only [protobuf]
  rw [if_pos hpos, hnat, List.take_left]

/-- Parsing undoes serialising if every message that fits is read back. -/
theorem protobuf_roundTrips (h : ∀ msg, fits msg → (schema.serialize (raw msg)).length < 2 ^ 31 →
    (schema.mergeFrom default (schema.serialize (raw msg))).bind ofRaw = some msg) :
    (schema.protobuf default raw ofRaw fits).RoundTrips where
  length_eq msg bytes hbytes := by
    obtain ⟨-, -, rfl⟩ := appendToString_eq_some hbytes
    rfl
  parse_eq msg bytes hbytes rest n hn := by
    obtain ⟨hfits, hlength, rfl⟩ := appendToString_eq_some hbytes
    rw [parseFromArray_append _ _ hn]
    exact h msg hfits hlength

end WireFormat.Schema

namespace Skywalker

open WireFormat WireField

/-! ## Types and their numbers -/

/-- The number of a type in `proto/paxos.proto`. -/
def PaxosMessageType.number : PaxosMessageType → ℕ
  | .prepare => 0
  | .prepareReply => 1
  | .accept => 2
  | .acceptReply => 3
  | .newChosenValue => 4
  | .askForLearn => 5
  | .sendLearnedValue => 6
  | .sendNowInstanceId => 7
  | .comfirmAskForLearn => 8
  | .askForCheckpoint => 9

/-- The type with a number, if it has a name. -/
def PaxosMessageType.ofNumber : ℕ → Option PaxosMessageType
  | 0 => some .prepare
  | 1 => some .prepareReply
  | 2 => some .accept
  | 3 => some .acceptReply
  | 4 => some .newChosenValue
  | 5 => some .askForLearn
  | 6 => some .sendLearnedValue
  | 7 => some .sendNowInstanceId
  | 8 => some .comfirmAskForLearn
  | 9 => some .askForCheckpoint
  | _ => none

/-- The number of a type in `proto/paxos.proto`. -/
def CheckpointMessageType.number : CheckpointMessageType → ℕ
  | .checkpointBegin => 0
  | .checkpointFile => 1
  | .checkpointEnd => 2
  | .checkpointComfirm => 3

/-- The type with a number, if it has a name. -/
def CheckpointMessageType.ofNumber : ℕ → Option CheckpointMessageType
  | 0 => some .checkpointBegin
  | 1 => some .checkpointFile
  | 2 => some .checkpointEnd
  | 3 => some .checkpointComfirm
  | _ => none

theorem PaxosMessageType.ofNumber_number (type : PaxosMessageType) :
    ofNumber type.number = some type := by
  cases type <;> rfl

theorem PaxosMessageType.number_lt (type : PaxosMessageType) : type.number < 2 ^ 32 := by
  cases type <;> decide

theorem CheckpointMessageType.ofNumber_number (type : CheckpointMessageType) :
    ofNumber type.number = some type := by
  cases type <;> rfl

theorem CheckpointMessageType.number_lt (type : CheckpointMessageType) :
    type.number < 2 ^ 32 := by
  cases type <;> decide

/-! ## `PaxosValue` -/

/-- The fields of `message PaxosValue` on the wire. -/
def PaxosValue.schema : Schema PaxosValue :=
  [uint64 1 PaxosValue.valueId fun v n => { v with valueId := n },
    uint32 2 PaxosValue.machineId fun v n => { v with machineId := n },
    bytes 3 PaxosValue.userData fun v content => { v with userData := content }]

/-- The numbers of the value fit into their types. -/
def PaxosValue.InRange (v : PaxosValue) : Prop := v.valueId < 2 ^ 64 ∧ v.machineId < 2 ^ 32

instance (v : PaxosValue) : Decidable v.InRange := inferInstanceAs (Decidable (_ ∧ _))

theorem PaxosValue.parse_serialize {v : PaxosValue} (h : v.InRange)
    (hlength : (PaxosValue.schema.serialize v).length < 2 ^ 31) :
    PaxosValue.schema.mergeFrom {} (PaxosValue.schema.serialize v) = some v := by
  refine Schema.parse_serialize (by decide) hlength ?_
  exact .cons (uint64_copies h.1 rfl fun h => by rw [h]) <|
    .cons (uint32_copies h.2 rfl fun h => by rw [h]) <|
    .cons (bytes_copies rfl fun h => by rw [h]) <| .nil _

/-! ## `PaxosMessage` -/

/-- Whether the handlers set `value` in a message, given the number of its type: in an `ACCEPT`, in
a `SEND_LEARNED_VALUE` and in the promise of an acceptor that has accepted. -/
def PaxosMessage.setsValue (m : ℕ × PaxosMessage) : Bool :=
  match PaxosMessageType.ofNumber m.1 with
  | some .accept => true
  | some .sendLearnedValue => true
  | some .prepareReply => 0 < m.2.preAcceptedId
  | _ => false

/-- The embedded value, `none` if it is not set. -/
def PaxosMessage.embeddedValue (m : ℕ × PaxosMessage) : Option PaxosValue :=
  if m.2.value = {} ∧ setsValue m = false then none else some m.2.value

/-- The field `value` of a `PaxosMessage`, with the fields inside it. -/
def PaxosMessage.valueField : WireField (ℕ × PaxosMessage) :=
  message 11 PaxosValue.schema {} embeddedValue fun m v => (m.1, { m.2 with value := v })

/-- `message PaxosMessage`, with the number of the type beside the other fields. -/
def PaxosMessage.schema : Schema (ℕ × PaxosMessage) :=
  [uint32 1 Prod.fst fun m n => (n, m.2),
    uint64 2 (fun m => m.2.nodeId) fun m n => (m.1, { m.2 with nodeId := n }),
    uint64 3 (fun m => m.2.instanceId) fun m n => (m.1, { m.2 with instanceId := n }),
    uint64 4 (fun m => m.2.proposalId) fun m n => (m.1, { m.2 with proposalId := n }),
    uint64 5 (fun m => m.2.proposalNodeId) fun m n => (m.1, { m.2 with proposalNodeId := n }),
    uint64 6 (fun m => m.2.preAcceptedId) fun m n => (m.1, { m.2 with preAcceptedId := n }),
    uint64 7 (fun m => m.2.preAcceptedNodeId)
      fun m n => (m.1, { m.2 with preAcceptedNodeId := n }),
    uint64 8 (fun m => m.2.rejectedId) fun m n => (m.1, { m.2 with rejectedId := n }),
    uint64 9 (fun m => m.2.nowInstanceId) fun m n => (m.1, { m.2 with nowInstanceId := n }),
    uint64 10 (fun m => m.2.minChosenInstanceId)
      fun m n => (m.1, { m.2 with minChosenInstanceId := n }),
    valueField]

/-- A message with the number of its type. -/
def PaxosMessage.raw (m : PaxosMessage) : ℕ × PaxosMessage :=
  (m.type.number, { m with type := .prepare })

/-- The message, if its type has a name. -/
def PaxosMessage.ofRaw (m : ℕ × PaxosMessage) : Option PaxosMessage :=
  (PaxosMessageType.ofNumber m.1).map fun type => { m.2 with type := type }

theorem PaxosMessage.ofRaw_raw (m : PaxosMessage) : ofRaw m.raw = some m := by
  simp only [ofRaw, raw, PaxosMessageType.ofNumber_number, Option.map_some]

/-- The numbers of the message fit into their types. -/
def PaxosMessage.InRange (m : PaxosMessage) : Prop :=
  (∀ n ∈ [m.nodeId, m.instanceId, m.proposalId, m.proposalNodeId, m.preAcceptedId,
    m.preAcceptedNodeId, m.rejectedId, m.nowInstanceId, m.minChosenInstanceId], n < 2 ^ 64) ∧
  m.value.InRange

instance (m : PaxosMessage) : Decidable m.InRange := inferInstanceAs (Decidable (_ ∧ _))

theorem PaxosMessage.getD_embeddedValue (m : ℕ × PaxosMessage) :
    (embeddedValue m).getD {} = m.2.value := by
  unfold embeddedValue
  split
  case isTrue h => exact h.1.symm
  case isFalse => rfl

theorem PaxosMessage.valueField_copies {m s : ℕ × PaxosMessage} (hs : s.2.value = {})
    (hsub : ∀ v, embeddedValue m = some v →
      PaxosValue.schema.mergeFrom {} (PaxosValue.schema.serialize v) = some v) :
    valueField.Copies m s (s.1, { s.2 with value := m.2.value }) := by
  have hvalue := getD_embeddedValue m
  refine message_copies (fun hnone => ?_) fun v hv => ⟨?_, ?_, hsub v hv⟩
  · rw [hnone, Option.getD_none] at hvalue
    rw [← hvalue, ← hs]
  · rw [getD_embeddedValue, hs]
  · rw [hv, Option.getD_some] at hvalue
    rw [hvalue]

/-- A message is parsed back from its bytes. -/
theorem PaxosMessage.parse_serialize {m : PaxosMessage} (h : m.InRange)
    (hlength : (PaxosMessage.schema.serialize m.raw).length < 2 ^ 31) :
    PaxosMessage.schema.mergeFrom (0, { type := .prepare })
      (PaxosMessage.schema.serialize m.raw) = some m.raw := by
  obtain ⟨hnumbers, hvalue⟩ := h
  simp only [List.forall_mem_cons] at hnumbers
  obtain ⟨h2, h3, h4, h5, h6, h7, h8, h9, h10, -⟩ := hnumbers
  have hsub : ∀ v, embeddedValue m.raw = some v →
      PaxosValue.schema.mergeFrom {} (PaxosValue.schema.serialize v) = some v := by
    intro v hv
    have hv' : v = m.value := by
      rw [← Option.getD_some (a := v) (b := {}), ← hv, getD_embeddedValue]
      rfl
    have hwrite : WireValue.bytes (PaxosValue.schema.serialize v) ∈ valueField.write m.raw := by
      simp [valueField, message, hv]
    have hmem : valueField ∈ schema := by simp [schema]
    have hle := Schema.length_le_of_write hmem hwrite
    exact PaxosValue.parse_serialize (hv' ▸ hvalue) (by omega)
  refine Schema.parse_serialize (by decide) hlength ?_
  exact .cons (uint32_copies m.type.number_lt rfl fun h => by rw [h]) <|
    .cons (uint64_copies h2 rfl fun h => by rw [h]) <|
    .cons (uint64_copies h3 rfl fun h => by rw [h]) <|
    .cons (uint64_copies h4 rfl fun h => by rw [h]) <|
    .cons (uint64_copies h5 rfl fun h => by rw [h]) <|
    .cons (uint64_copies h6 rfl fun h => by rw [h]) <|
    .cons (uint64_copies h7 rfl fun h => by rw [h]) <|
    .cons (uint64_copies h8 rfl fun h => by rw [h]) <|
    .cons (uint64_copies h9 rfl fun h => by rw [h]) <|
    .cons (uint64_copies h10 rfl fun h => by rw [h]) <|
    .cons (valueField_copies rfl hsub) <| .nil _

/-! ## `CheckpointMessage` -/

/-- `CheckpointMessage` with the two fields that only the wire has: `offset`, which no handler
reads, and `flag`, which the sender of the checkpoint reads in a confirmation. The two fields of
type `sint32` are given by the 32 bits of the `int`. -/
structure CheckpointContent extends CheckpointMessage where
  /-- The field `offset`, the place of the fragment in its file. -/
  offset : ℕ := 0
  /-- The field `flag` of a confirmation. -/
  flag : Bool := false
deriving DecidableEq, Repr

/-- `message CheckpointMessage`, with the number of the type beside the other fields. -/
def CheckpointContent.schema : Schema (ℕ × CheckpointContent) :=
  [uint32 1 Prod.fst fun m n => (n, m.2),
    uint64 2 (fun m => m.2.nodeId) fun m n => (m.1, { m.2 with nodeId := n }),
    uint64 3 (fun m => m.2.instanceId) fun m n => (m.1, { m.2 with instanceId := n }),
    sint32 4 (fun m => m.2.sequenceId) fun m n => (m.1, { m.2 with sequenceId := n }),
    sint32 5 (fun m => m.2.machineId) fun m n => (m.1, { m.2 with machineId := n }),
    string 6 (fun m => m.2.file) fun m file => (m.1, { m.2 with file := file }),
    uint64 7 (fun m => m.2.offset) fun m n => (m.1, { m.2 with offset := n }),
    bytes 8 (fun m => m.2.data) fun m data => (m.1, { m.2 with data := data }),
    bool 9 (fun m => m.2.flag) fun m flag => (m.1, { m.2 with flag := flag })]

/-- A message with the number of its type. -/
def CheckpointContent.raw (m : CheckpointContent) : ℕ × CheckpointContent :=
  (m.type.number, { m with type := .checkpointBegin })

/-- The message, if its type has a name. -/
def CheckpointContent.ofRaw (m : ℕ × CheckpointContent) : Option CheckpointContent :=
  (CheckpointMessageType.ofNumber m.1).map fun type => { m.2 with type := type }

theorem CheckpointContent.ofRaw_raw (m : CheckpointContent) : ofRaw m.raw = some m := by
  simp only [ofRaw, raw, CheckpointMessageType.ofNumber_number, Option.map_some]

/-- The numbers of the message fit into their types. -/
def CheckpointContent.InRange (m : CheckpointContent) : Prop :=
  (∀ n ∈ [m.nodeId, m.instanceId, m.offset], n < 2 ^ 64) ∧
    m.sequenceId < 2 ^ 32 ∧ m.machineId < 2 ^ 32

instance (m : CheckpointContent) : Decidable m.InRange := inferInstanceAs (Decidable (_ ∧ _))

/-- The message of a checkpoint is parsed back from its bytes. -/
theorem CheckpointContent.parse_serialize {m : CheckpointContent} (h : m.InRange)
    (hlength : (CheckpointContent.schema.serialize m.raw).length < 2 ^ 31) :
    CheckpointContent.schema.mergeFrom (0, { type := .checkpointBegin, nodeId := 0 })
      (CheckpointContent.schema.serialize m.raw) = some m.raw := by
  obtain ⟨hnumbers, hsequence, hmachine⟩ := h
  simp only [List.forall_mem_cons] at hnumbers
  obtain ⟨hnode, hinstance, hoffset, -⟩ := hnumbers
  refine Schema.parse_serialize (by decide) hlength ?_
  exact .cons (uint32_copies m.type.number_lt rfl fun h => by rw [h]) <|
    .cons (uint64_copies hnode rfl fun h => by rw [h]) <|
    .cons (uint64_copies hinstance rfl fun h => by rw [h]) <|
    .cons (sint32_copies hsequence rfl fun h => by rw [h]) <|
    .cons (sint32_copies hmachine rfl fun h => by rw [h]) <|
    .cons (string_copies rfl fun h => by rw [h]) <|
    .cons (uint64_copies hoffset rfl fun h => by rw [h]) <|
    .cons (bytes_copies rfl fun h => by rw [h]) <|
    .cons (bool_copies rfl fun h => by rw [h]) <| .nil _

/-! ## `Content` -/

/-- `Content` as it is read: the two types are numbers, and a message may be missing. -/
structure RawContent where
  type : ℕ := 0
  groupId : ℕ := 0
  /-- The embedded `PaxosMessage`, if there is one, with the number of its type. -/
  paxosMsg : Option (ℕ × PaxosMessage) := none
  /-- The embedded `CheckpointMessage`, if there is one, with the number of its type. -/
  checkpointMsg : Option (ℕ × CheckpointContent) := none
deriving DecidableEq, Repr

/-- The field `paxos_msg` with an embedded message. -/
def RawContent.paxosField : WireField RawContent :=
  message 4 PaxosMessage.schema (0, { type := .prepare }) RawContent.paxosMsg
    fun c m => { c with paxosMsg := some m }

/-- The field `checkpoint_msg` with an embedded message. -/
def RawContent.checkpointField : WireField RawContent :=
  message 5 CheckpointContent.schema (0, { type := .checkpointBegin, nodeId := 0 })
    RawContent.checkpointMsg fun c m => { c with checkpointMsg := some m }

/-- The fields of `message Content` on the wire. -/
def RawContent.schema : Schema RawContent :=
  [uint32 1 RawContent.type fun c n => { c with type := n },
    uint32 2 RawContent.groupId fun c n => { c with groupId := n },
    paxosField, checkpointField]

/-- A content is read back if its messages are. -/
theorem RawContent.parse_serialize {c : RawContent} (htype : c.type < 2 ^ 32)
    (hgroup : c.groupId < 2 ^ 32)
    (hpaxos : ∀ m, c.paxosMsg = some m → PaxosMessage.schema.mergeFrom (0, { type := .prepare })
      (PaxosMessage.schema.serialize m) = some m)
    (hcheckpoint : ∀ m, c.checkpointMsg = some m →
      CheckpointContent.schema.mergeFrom (0, { type := .checkpointBegin, nodeId := 0 })
        (CheckpointContent.schema.serialize m) = some m)
    (hlength : (RawContent.schema.serialize c).length < 2 ^ 31) :
    RawContent.schema.mergeFrom {} (RawContent.schema.serialize c) = some c := by
  refine Schema.parse_serialize (by decide) hlength ?_
  refine .cons (uint32_copies htype rfl fun h => by rw [h]) <|
    .cons (uint32_copies hgroup rfl fun h => by rw [h]) <|
    .cons (t := { c with checkpointMsg := none }) (message_copies ?_ ?_) <|
    .cons (t := c) (message_copies ?_ ?_) <| .nil _
  · intro hnone
    rw [hnone]
  · intro m hm
    refine ⟨rfl, ?_, hpaxos m hm⟩
    rw [hm]
  · intro hnone
    rw [← hnone]
  · intro m hm
    refine ⟨rfl, ?_, hcheckpoint m hm⟩
    rw [← hm]

/-- `Content`: a message of a group. -/
inductive Content where
  /-- A content of the type `PAXOS_MESSAGE`. -/
  | paxosMessage (groupId : ℕ) (msg : PaxosMessage)
  /-- A content of the type `CHECKPOINT_MESSAGE`. -/
  | checkpointMessage (groupId : ℕ) (msg : CheckpointContent)
  /-- A content with a number that has no name. -/
  | other (raw : RawContent)
deriving DecidableEq, Repr

namespace Content

/-- What the code that builds a content sets in it. -/
def raw : Content → RawContent
  | paxosMessage groupId msg => { type := 0, groupId := groupId, paxosMsg := some msg.raw }
  | checkpointMessage groupId msg =>
    { type := 1, groupId := groupId, checkpointMsg := some msg.raw }
  | other c => c

/-- What `Instance::OnContent` finds. A message that is missing reads as the default one. -/
def ofRaw (c : RawContent) : Content :=
  match c.type with
  | 0 =>
    match PaxosMessage.ofRaw (c.paxosMsg.getD (0, { type := .prepare })) with
    | some msg => paxosMessage c.groupId msg
    | none => other c
  | 1 =>
    match CheckpointContent.ofRaw
        (c.checkpointMsg.getD (0, { type := .checkpointBegin, nodeId := 0 })) with
    | some msg => checkpointMessage c.groupId msg
    | none => other c
  | _ => other c

/-- `AppendToString` on an empty string. -/
def serialize (c : Content) : List UInt8 := RawContent.schema.serialize c.raw

/-- `ParseFromString` on a new content. -/
def parse (bytes : List UInt8) : Option Content :=
  (RawContent.schema.mergeFrom {} bytes).map ofRaw

/-- A content that the code builds, with numbers that fit into their types. -/
def InRange : Content → Prop
  | paxosMessage groupId msg => groupId < 2 ^ 32 ∧ msg.InRange
  | checkpointMessage groupId msg => groupId < 2 ^ 32 ∧ msg.InRange
  | other _ => False

instance (c : Content) : Decidable c.InRange :=
  match c with
  | paxosMessage _ _ => inferInstanceAs (Decidable (_ ∧ _))
  | checkpointMessage _ _ => inferInstanceAs (Decidable (_ ∧ _))
  | other _ => inferInstanceAs (Decidable False)

theorem ofRaw_raw {c : Content} (h : c.InRange) : ofRaw c.raw = c := by
  cases c with
  | paxosMessage groupId msg =>
    simp only [raw, ofRaw, Option.getD_some, PaxosMessage.ofRaw_raw]
  | checkpointMessage groupId msg =>
    simp only [raw, ofRaw, Option.getD_some, CheckpointContent.ofRaw_raw]
  | other c => exact absurd h id

theorem length_paxosMsg_le (groupId : ℕ) (msg : PaxosMessage) :
    (PaxosMessage.schema.serialize msg.raw).length ≤ (paxosMessage groupId msg).serialize.length :=
  have hmem : RawContent.paxosField ∈ RawContent.schema := by simp [RawContent.schema]
  Schema.length_le_of_write hmem (List.mem_singleton_self _)

theorem length_checkpointMsg_le (groupId : ℕ) (msg : CheckpointContent) :
    (CheckpointContent.schema.serialize msg.raw).length ≤
      (checkpointMessage groupId msg).serialize.length :=
  have hmem : RawContent.checkpointField ∈ RawContent.schema := by simp [RawContent.schema]
  Schema.length_le_of_write hmem (List.mem_singleton_self _)

/-- **A content arrives as it was sent**: type, group and every field of its message. -/
theorem parse_serialize {c : Content} (h : c.InRange) (hlength : c.serialize.length < 2 ^ 31) :
    parse c.serialize = some c := by
  have hraw : RawContent.schema.mergeFrom {} c.serialize = some c.raw := by
    cases c with
    | paxosMessage groupId msg =>
      have hmsg := PaxosMessage.parse_serialize h.2
        (Nat.lt_of_le_of_lt (length_paxosMsg_le groupId msg) hlength)
      exact RawContent.parse_serialize (by simp [raw]) h.1 (fun m hm => by cases hm; exact hmsg)
        nofun hlength
    | checkpointMessage groupId msg =>
      have hmsg := CheckpointContent.parse_serialize h.2
        (Nat.lt_of_le_of_lt (length_checkpointMsg_le groupId msg) hlength)
      exact RawContent.parse_serialize (by simp [raw]) h.1 nofun
        (fun m hm => by cases hm; exact hmsg) hlength
    | other c => exact absurd h id
  rw [parse, hraw, Option.map_some, ofRaw_raw h]

end Content

/-! ## The stream -/

/-- Serialising and parsing of contents as the generated code does it. -/
def contentProtobuf : Protobuf Content :=
  RawContent.schema.protobuf {} Content.raw (fun c => some (Content.ofRaw c)) Content.InRange

/-- Parsing undoes serialising for every content that fits the types of its fields. -/
theorem contentProtobuf_roundTrips : contentProtobuf.RoundTrips := by
  refine Schema.protobuf_roundTrips fun c hrange hlength => ?_
  have hparse := Content.parse_serialize hrange hlength
  rw [Content.parse, Option.map_eq_bind] at hparse
  exact hparse

/-- The `PREPARE` of node 1 for an instance, in the first group. -/
def prepareContent (instanceId : ℕ) : Content :=
  .paxosMessage 0 { type := .prepare, nodeId := 1, instanceId := instanceId, proposalId := 1 }

/-- A `CHECKPOINT_FILE` of node 1 with two bytes. -/
def fileContent : Content :=
  .checkpointMessage 0
    { type := .checkpointFile, nodeId := 1, instanceId := 5, sequenceId := 1, machineId := 3
      file := "data", data := [8, 9] }

theorem Content.appendToString {c : Content} (h : c.InRange)
    (hlength : c.serialize.length < 2 ^ 31 - 4) :
    ∃ bytes, contentProtobuf.appendToString c = some bytes ∧ bytes.length < 2 ^ 31 - 4 :=
  ⟨c.serialize, if_pos ⟨h, Nat.lt_of_lt_of_le hlength (by decide)⟩, hlength⟩

namespace Network

/-- The frames of two contents. -/
def twoFrames : List UInt8 :=
  frame contentProtobuf (prepareContent 1) ++ frame contentProtobuf fileContent

/-- The two frames arrive cut inside the first header and inside the second body. -/
theorem onMessage_receives_two :
    ∃ enough, ∀ passes, enough ≤ passes →
      onArrivals contentProtobuf passes
        [twoFrames.take 2, (twoFrames.drop 2).take 25, twoFrames.drop 27] =
          some ([prepareContent 1, fileContent], []) := by
  refine (onMessage_receives contentProtobuf_roundTrips [prepareContent 1, fileContent] ?_ _).2
    (by decide +kernel)
  intro content hcontent
  rcases List.mem_pair.mp hcontent with rfl | rfl <;>
    exact Content.appendToString (by decide) (by decide +kernel)

/-- The buffers of the passes over the two frames and a part of a third one. -/
def framesAndPart : List (List UInt8) :=
  let part := (frame contentProtobuf (prepareContent 2)).take 9
  [twoFrames ++ part, frame contentProtobuf fileContent ++ part, part]

/-- `OnMessage` goes over the two frames and stops at the part. -/
theorem onMessage_safe_two_frames : ∃ buf, framesAndPart.head? = some buf ∧
    (∃ r, onMessage contentProtobuf (buf.length + 1) buf = some r) ∧
      ∀ b, Framing.Passes (pass contentProtobuf) buf b →
        (∀ size, frameSize b = some size →
          0 ≤ (parseLength size).toInt ∧ (parseLength size).toInt ≤ (b.length : ℤ) - 4) ∧
        ∀ content rest, pass contentProtobuf b = .item content rest →
          rest.length + 4 ≤ b.length := by
  obtain ⟨buf, hbuf⟩ : ∃ buf, framesAndPart.head? = some buf := ⟨_, rfl⟩
  refine ⟨buf, hbuf, ?_⟩
  have hframes : (framesAndPart.all fun b => (frameSize b).all fun size =>
      4 ≤ size.toNat && size.toNat < 2 ^ 31 + 4 && framesAndPart.contains (b.drop size.toNat)) =
        true := by decide +kernel
  have hsize : ∀ b ∈ framesAndPart, ∀ size, frameSize b = some size →
      (4 ≤ size.toNat ∧ size.toNat < 2 ^ 31 + 4) ∧ b.drop size.toNat ∈ framesAndPart := by
    intro b hb size hsize
    have hall := List.all_eq_true.mp hframes b hb
    rw [hsize, Option.all_some] at hall
    simpa using hall
  -- Each pass that goes on leaves the next of the buffers.
  have hpasses : ∀ b, Framing.Passes (pass contentProtobuf) buf b → b ∈ framesAndPart := by
    intro b hb
    induction hb with
    | refl => exact List.mem_of_mem_head? hbuf
    | tail _ hitem ih =>
      obtain ⟨content, hitem⟩ := hitem
      obtain ⟨size, hsome, rfl⟩ := pass_eq_item hitem
      exact (hsize _ ih size hsome).2
  exact onMessage_safe contentProtobuf buf fun b hb size hsome =>
    (hsize b (hpasses b hb) size hsome).1

end Network

end Skywalker
