import Skywalker.Message
import Mathlib.Algebra.Group.Nat.Defs
import Mathlib.Data.List.Sort
import Mathlib.Data.List.Nodup

/-!
# The state machines of a group

The two machines that every group has, `MembershipMachine` and `MasterMachine`, the dispatch of
`MachineManager::Execute` between them and the user's machines, and the choice of a checkpoint in
`MachineManager::Recover`. Protobuf is not part of the repository: parsing and serialising are the
fields of a `Codec`. A user's machine is known only by the result of its `Execute`.
-/

namespace Skywalker

/-! ## Membership -/

/-- `MemberMessage`: a member with its address. -/
structure MemberMessage where
  id : ℕ
  host : String := ""
  port : ℕ := 0
  /-- The user's data about the member. -/
  context : List UInt8 := []
deriving DecidableEq, Repr

/-- `MemberChangeType`. proto3 enumerations are open, so that a parsed message can also hold a
number that is neither of the two. -/
inductive MemberChangeType where
  | memberAdd
  | memberRemove
  | other (number : ℕ)
deriving DecidableEq, Repr

/-- `MemberChangeMessage`: two lists that are read by one index. -/
structure MemberChangeMessage where
  /-- The members to add or remove. -/
  member : List MemberMessage := []
  /-- What to do with each of them. -/
  type : List MemberChangeType := []
deriving DecidableEq, Repr

/-- `Membership`: the map from node ids to members, as the list of its entries, which carry their
own key. -/
structure Membership where
  /-- The instance of the last change. -/
  version : ℕ := 0
  /-- The entries of the map. -/
  members : List MemberMessage := []
  /-- The map has each key once. -/
  nodup : (members.map MemberMessage.id).Nodup := by simp
deriving DecidableEq

namespace Membership

/-- The keys of the map. -/
def ids (ms : Membership) : List ℕ := ms.members.map MemberMessage.id

theorem nodup_filter {l : List MemberMessage} (h : (l.map MemberMessage.id).Nodup)
    (p : MemberMessage → Bool) : ((l.filter p).map MemberMessage.id).Nodup :=
  h.sublist (List.filter_sublist.map _)

/-- The assignment `members[member.id()] = member`. -/
def add (ms : Membership) (m : MemberMessage) : Membership where
  version := ms.version
  members := m :: ms.members.filter fun x => x.id != m.id
  nodup := by
    rw [List.map_cons, List.nodup_cons]
    refine ⟨?_, nodup_filter ms.nodup _⟩
    simp

/-- The call `members.erase(id)`. -/
def erase (ms : Membership) (id : ℕ) : Membership where
  version := ms.version
  members := ms.members.filter fun x => x.id != id
  nodup := nodup_filter ms.nodup _

/-- `members.insert({member.id(), member})`, which keeps an entry that is there. -/
def insert (ms : Membership) (m : MemberMessage) : Membership :=
  if m.id ∈ ms.ids then ms else ms.add m

/-- The membership that the constructor of `MembershipMachine` builds from the options. -/
def ofOptions (l : List MemberMessage) : Membership := l.foldl insert {}

end Membership

/-- The loop of `MembershipMachine::Execute` over the two lists of a change, both read at the loop's
index. The result is `none` when the index runs out of the member list. -/
def applyChanges : List MemberChangeType → List MemberMessage → Membership → Option Membership
  | [], _, ms => some ms
  | _ :: _, [], _ => none
  | .memberAdd :: ts, m :: l, ms => applyChanges ts l (ms.add m)
  | .memberRemove :: ts, m :: l, ms => applyChanges ts l (ms.erase m.id)
  | .other _ :: ts, _ :: l, ms => applyChanges ts l ms

/-! ## Master -/

/-- `MasterState`. In a proposed value `leaseTime` is a duration, in the machine's state the end of
the lease. -/
structure MasterState where
  /-- The instance of the value. -/
  version : ℕ := 0
  nodeId : ℕ := 0
  /-- The duration or the end of the lease, in milliseconds. -/
  leaseTime : ℕ := 0
deriving DecidableEq, Repr

/-- `MasterMachine::IsMaster` on the node `nodeId`, at the time `now`. -/
def MasterState.isMaster (st : MasterState) (nodeId now : ℕ) : Bool :=
  st.nodeId = nodeId && now < st.leaseTime

/-! ## Execution -/

/-- The numbers of a member fit into the types of its fields. -/
def MemberMessage.InRange (m : MemberMessage) : Prop := m.id < 2 ^ 64 ∧ m.port < 2 ^ 32

instance (m : MemberMessage) : Decidable m.InRange := inferInstanceAs (Decidable (_ ∧ _))

/-- A change with members that fit into their types and with types that have names, as
`Group::ChangeMember` builds it. -/
def MemberChangeMessage.InRange (c : MemberChangeMessage) : Prop :=
  (∀ m ∈ c.member, m.InRange) ∧ ∀ type ∈ c.type, type = .memberAdd ∨ type = .memberRemove

/-- The numbers of a master's state fit into the types of its fields. -/
def MasterState.InRange (st : MasterState) : Prop :=
  st.version < 2 ^ 64 ∧ st.nodeId < 2 ^ 64 ∧ st.leaseTime < 2 ^ 64

instance (st : MasterState) : Decidable st.InRange := inferInstanceAs (Decidable (_ ∧ _))

/-- Parsing and serialising of the two messages that the machines of a group read. -/
structure Codec where
  /-- `MemberChangeMessage::ParseFromString`, which fails on bytes that it cannot read. -/
  parseMemberChange : List UInt8 → Option MemberChangeMessage
  /-- `MemberChangeMessage::SerializeAsString` of a change. -/
  serializeMemberChange : MemberChangeMessage → List UInt8
  /-- `MasterState::ParseFromString`, which fails on bytes that it cannot read. -/
  parseMasterState : List UInt8 → Option MasterState
  /-- `MasterState::SerializeAsString` of a state. -/
  serializeMasterState : MasterState → List UInt8

/-- The round trips of protobuf, where they are assumed: a message that fits into the types of its
fields is read back from its bytes. A change of members also has to be shorter than two gigabytes,
which is the limit of protobuf. -/
structure Codec.RoundTrips (codec : Codec) : Prop where
  memberChange : ∀ c : MemberChangeMessage, c.InRange →
    (codec.serializeMemberChange c).length < 2 ^ 31 →
    codec.parseMemberChange (codec.serializeMemberChange c) = some c
  masterState : ∀ st : MasterState, st.InRange →
    codec.parseMasterState (codec.serializeMasterState st) = some st

/-- Parsers that find nothing, for groups in which only users' machines get values. -/
def Codec.empty : Codec where
  parseMemberChange _ := none
  serializeMemberChange _ := []
  parseMasterState _ := none
  serializeMasterState _ := []

/-- The state of the two machines of a group. -/
structure Machines where
  membership : Membership := {}
  master : MasterState := {}
deriving DecidableEq

/-- The `machine_id()` that the source gives to `MembershipMachine`. -/
def membershipMachineId : ℕ := 1

/-- The `machine_id()` that the source gives to `MasterMachine`. -/
def masterMachineId : ℕ := 2

/-- `MembershipMachine::Execute`. Reading the member list out of range is undefined in the source;
here it fails and changes nothing. -/
def Membership.execute (codec : Codec) (instanceId : ℕ) (value : List UInt8) (ms : Membership) :
    Bool × Membership :=
  if instanceId ≤ ms.version then (false, ms)
  else
    match codec.parseMemberChange value with
    | none => (false, ms)
    | some c =>
      match applyChanges c.type c.member ms with
      | none => (false, ms)
      | some ms' => (true, { ms' with version := instanceId })

/-- `MasterMachine::Execute` at the time `now`. `context` is what the proposer's context points to,
the start of its proposal, when the value is executed as its own. The sum is one of `uint64_t`. -/
def MasterState.execute (codec : Codec) (now : ℕ) (context : Option ℕ) (instanceId : ℕ)
    (value : List UInt8) (st : MasterState) : Bool × MasterState :=
  if instanceId ≤ st.version then (false, st)
  else
    match codec.parseMasterState value with
    | none => (false, st)
    | some new =>
      (true, { new with
        version := instanceId
        leaseTime := (context.getD now + new.leaseTime) % 2 ^ 64 })

/-- `MachineManager::Execute`. `userResult` is what the user's machine returns, when the value is
for one, and `false` when no machine has the id. -/
def Machines.execute (codec : Codec) (now : ℕ) (userResult : Bool) (context : Option ℕ)
    (instanceId : ℕ) (value : PaxosValue) (ms : Machines) : Bool × Machines :=
  if value.machineId = membershipMachineId then
    let r := ms.membership.execute codec instanceId value.userData
    (r.1, { ms with membership := r.2 })
  else if value.machineId = masterMachineId then
    let r := ms.master.execute codec now context instanceId value.userData
    (r.1, { ms with master := r.2 })
  else (userResult, ms)

/-! ## Checkpoints -/

/-- The swap of the front with the back and the `pop_back` of `CleanCheckpoint`. -/
def swapPop : List ℕ → List ℕ
  | [] => []
  | _ :: xs =>
    match xs.getLast? with
    | none => []
    | some y => y :: xs.dropLast

/-- `checkpoints_`, `oldest_checkpoint_instance_id_` and the ids of the deleted directories, along
the loop of `CleanCheckpoint`. -/
structure CleanState where
  /-- The ids of the directories, in the order of the vector `checkpoints_`. -/
  checkpoints : List ℕ
  /-- `oldest_checkpoint_instance_id_` along the loop. -/
  oldest : ℕ
  /-- The directories deleted so far. -/
  deleted : List ℕ
deriving DecidableEq, Repr

/-- `n` passes of the loop of `CleanCheckpoint`, with deletions that succeed. -/
def CleanState.loop : ℕ → CleanState → CleanState
  | 0, c => c
  | n + 1, c => loop n
    { checkpoints := swapPop c.checkpoints
      oldest := c.checkpoints.getD 1 0
      deleted := c.checkpoints.headD 0 :: c.deleted }

/-- `MachineManager::CleanCheckpoint` on the directories with the ids `ids`, when it gets the
lock. -/
def cleanCheckpoint (keepCheckpointCount : ℕ) (ids : List ℕ) : CleanState :=
  let sorted := ids.insertionSort (· ≤ ·)
  CleanState.loop (ids.length - keepCheckpointCount)
    { checkpoints := sorted, oldest := sorted.headD 0, deleted := [] }

/-- The part of `MachineManager::Recover` that restores the machines from the checkpoint of
`checkpoints_.back()`. `MasterMachine::Recover` restarts the lease of another node, with a sum of
`uint64_t`, and drops its own. -/
def Machines.recover (nodeId now : ℕ) (saved : Machines) : Machines where
  membership := saved.membership
  master :=
    if saved.master.nodeId ≠ nodeId then
      { saved.master with leaseTime := (now + saved.master.leaseTime) % 2 ^ 64 }
    else { saved.master with leaseTime := now }

end Skywalker
