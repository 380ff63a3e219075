import Skywalker.Machine
import Skywalker.Library.WireFormat

/-!
# The messages of the machines on the wire

The functions that protobuf generates are not part of the repository, and the results about the code
take them as a parameter: a `Codec`, of which `Codec.RoundTrips` is what some of them assume. Here
are the message types of `proto/paxos.proto` that the two machines of a group read, in the wire
format, with the proof that they are such a codec (`protoCodec_roundTrips`). The concrete runs of
the development use it, so that the values in them are real strings.
-/

namespace Skywalker

open WireFormat WireField

/-! ## Changes of the members -/

/-- The fields of `message MemberMessage` on the wire. -/
def MemberMessage.schema : Schema MemberMessage :=
  [uint64 1 MemberMessage.id fun m n => { m with id := n },
    string 2 MemberMessage.host fun m host => { m with host := host },
    uint32 3 MemberMessage.port fun m n => { m with port := n },
    bytes 4 MemberMessage.context fun m content => { m with context := content }]

theorem MemberMessage.parse_serialize {m : MemberMessage} (h : m.InRange)
    (hlength : (MemberMessage.schema.serialize m).length < 2 ^ 31) :
    MemberMessage.schema.mergeFrom { id := 0 } (MemberMessage.schema.serialize m) = some m := by
  refine Schema.parse_serialize (by decide) hlength ?_
  exact .cons (uint64_copies h.1 rfl fun h => by rw [h]) <|
    .cons (string_copies rfl fun h => by rw [h]) <|
    .cons (uint32_copies h.2 rfl fun h => by rw [h]) <|
    .cons (bytes_copies rfl fun h => by rw [h]) <| .nil _

/-- The value of an enumeration is of 32 bits. -/
def MemberChangeType.ofNumber (number : ℕ) : MemberChangeType :=
  match number % 2 ^ 32 with
  | 0 => .memberAdd
  | 1 => .memberRemove
  | n + 2 => .other (n + 2)

/-- The number of a type in `proto/paxos.proto`. -/
def MemberChangeType.number : MemberChangeType → ℕ
  | .memberAdd => 0
  | .memberRemove => 1
  | .other number => number

/-- The repeated field `member` with embedded messages. -/
def MemberChangeMessage.memberField : WireField MemberChangeMessage :=
  messages 2 MemberMessage.schema { id := 0 } MemberChangeMessage.member
    fun c m => { c with member := c.member ++ [m] }

/-- The fields of `message MemberChangeMessage` on the wire. -/
def MemberChangeMessage.schema : Schema MemberChangeMessage :=
  [memberField,
    enums 3 (fun c => c.type.map MemberChangeType.number)
      fun c n => { c with type := c.type ++ [MemberChangeType.ofNumber n] }]

theorem MemberChangeMessage.foldl_member (l : List MemberMessage) (c : MemberChangeMessage) :
    l.foldl (fun c m => { c with member := c.member ++ [m] }) c =
      { c with member := c.member ++ l } := by
  induction l generalizing c with
  | nil => simp
  | cons m l ih => simp [ih]

theorem MemberChangeMessage.foldl_type (l : List ℕ) (c : MemberChangeMessage) :
    l.foldl (fun c n => { c with type := c.type ++ [MemberChangeType.ofNumber n] }) c =
      { c with type := c.type ++ l.map MemberChangeType.ofNumber } := by
  induction l generalizing c with
  | nil => simp
  | cons n l ih => simp [ih]

/-- A change is read back. -/
theorem MemberChangeMessage.parse_serialize {c : MemberChangeMessage} (h : c.InRange)
    (hlength : (MemberChangeMessage.schema.serialize c).length < 2 ^ 31) :
    MemberChangeMessage.schema.mergeFrom {} (MemberChangeMessage.schema.serialize c) = some c := by
  have hnumber : ∀ type ∈ c.type,
      type.number < 2 ^ 32 ∧ MemberChangeType.ofNumber type.number = type := by
    intro type htype
    rcases h.2 type htype with rfl | rfl <;> decide
  refine Schema.parse_serialize (by decide) hlength ?_
  refine .cons (t := { c with type := [] }) (messages_copies (foldl_member _ _) fun m hm => ?_) <|
    .cons (t := c) (enums_copies ?_ ?_) <| .nil _
  · have hmem : memberField ∈ schema := by simp [schema]
    have hle := Schema.length_le_of_write hmem
      (List.mem_map_of_mem (f := fun m => WireValue.bytes (MemberMessage.schema.serialize m)) hm)
    exact MemberMessage.parse_serialize (h.1 m hm) (Nat.lt_of_le_of_lt hle hlength)
  · intro k hk
    obtain ⟨type, htype, rfl⟩ := List.mem_map.mp hk
    exact (hnumber type htype).1
  · have hmap : (c.type.map MemberChangeType.number).map MemberChangeType.ofNumber = c.type := by
      rw [List.map_map]
      exact (List.map_congr_left fun type htype => (hnumber type htype).2).trans (List.map_id _)
    rw [foldl_type, hmap, List.nil_append]

/-! ## The state of the master -/

/-- The fields of `message MasterState` on the wire. -/
def MasterState.schema : Schema MasterState :=
  [uint64 1 MasterState.version fun st n => { st with version := n },
    uint64 2 MasterState.nodeId fun st n => { st with nodeId := n },
    uint64 3 MasterState.leaseTime fun st n => { st with leaseTime := n }]

theorem MasterState.parse_serialize {st : MasterState} (h : st.InRange)
    (hlength : (MasterState.schema.serialize st).length < 2 ^ 31) :
    MasterState.schema.mergeFrom {} (MasterState.schema.serialize st) = some st := by
  refine Schema.parse_serialize (by decide) hlength ?_
  exact .cons (uint64_copies h.1 rfl fun h => by rw [h]) <|
    .cons (uint64_copies h.2.1 rfl fun h => by rw [h]) <|
    .cons (uint64_copies h.2.2 rfl fun h => by rw [h]) <| .nil _

theorem MasterState.length_serialize_le (st : MasterState) :
    (MasterState.schema.serialize st).length ≤ 60 := by
  have h1 := length_uint64_le 1 MasterState.version (fun st n => { st with version := n }) st
  have h2 := length_uint64_le 2 MasterState.nodeId (fun st n => { st with nodeId := n }) st
  have h3 := length_uint64_le 3 MasterState.leaseTime (fun st n => { st with leaseTime := n }) st
  simp only [writeFields] at h1 h2 h3
  simp only [Schema.serialize, Schema.fields, schema, writeFields, List.flatMap_cons,
    List.flatMap_nil, List.flatMap_append, List.length_append, List.append_nil]
  exact Nat.add_le_add h1 (Nat.add_le_add h2 h3)

/-- Protobuf on the messages of the machines. -/
def protoCodec : Codec where
  parseMemberChange := MemberChangeMessage.schema.mergeFrom {}
  serializeMemberChange := MemberChangeMessage.schema.serialize
  parseMasterState := MasterState.schema.mergeFrom {}
  serializeMasterState := MasterState.schema.serialize

/-- The wire format has the round trips that are asked of protobuf. -/
theorem protoCodec_roundTrips : protoCodec.RoundTrips where
  memberChange _ hrange hlength := MemberChangeMessage.parse_serialize hrange hlength
  masterState st hrange :=
    MasterState.parse_serialize hrange
      (Nat.lt_of_le_of_lt (MasterState.length_serialize_le st) (by decide))

end Skywalker
