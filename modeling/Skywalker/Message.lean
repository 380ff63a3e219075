import Mathlib.Order.Lattice
import Mathlib.Order.Defs.LinearOrder
import Mathlib.Tactic.Common

/-!
# Messages, records and ballots

The data that the nodes of a group exchange and store, from `proto/paxos.proto`, and the ballot
order of `paxos/ballot_number.h`. Ids that the source keeps in `uint64_t` are natural numbers: they
grow by one from zero, so that a run would wrap only after `2^64 - 1` instances or proposals. A
field that is not set has its proto3 default, zero or empty.
-/

namespace Skywalker

/-- The types of a `PaxosMessage`, in the order of `proto/paxos.proto`. -/
inductive PaxosMessageType where
  | prepare
  | prepareReply
  | accept
  | acceptReply
  | newChosenValue
  | askForLearn
  | sendLearnedValue
  | sendNowInstanceId
  | comfirmAskForLearn
  | askForCheckpoint
deriving DecidableEq, Repr

/-- `PaxosValue`: the id that the proposing node gives the value, the state machine that executes
it and the user's bytes. The default is the empty value of an unset field. -/
structure PaxosValue where
  /-- The id that `Instance::GetPaxosValueId` gave to the value. -/
  valueId : ℕ := 0
  /-- The state machine that executes the value. -/
  machineId : ℕ := 0
  /-- The bytes that the machine executes. -/
  userData : List UInt8 := []
deriving DecidableEq, Repr

/-- `PaxosMessage`, one record for the ten types. -/
structure PaxosMessage where
  /-- The type, which `Instance::OnPaxosMessage` switches on. -/
  type : PaxosMessageType
  /-- The node that sends the message. -/
  nodeId : ℕ := 0
  /-- The instance that the message is about. -/
  instanceId : ℕ := 0
  /-- The proposal id of the ballot. -/
  proposalId : ℕ := 0
  /-- The node id of the ballot, set only in `SEND_LEARNED_VALUE`. -/
  proposalNodeId : ℕ := 0
  /-- The proposal id of the ballot that a promising acceptor has accepted, or zero. -/
  preAcceptedId : ℕ := 0
  /-- The node id of that ballot. -/
  preAcceptedNodeId : ℕ := 0
  /-- The promised proposal id of a rejecting acceptor, or zero. -/
  rejectedId : ℕ := 0
  /-- The sender's instance, set only in `SEND_NOW_INSTANCE_ID`. -/
  nowInstanceId : ℕ := 0
  /-- The oldest instance in the sender's log, set only in `SEND_NOW_INSTANCE_ID`. -/
  minChosenInstanceId : ℕ := 0
  /-- The value of an `ACCEPT`, a promise or a `SEND_LEARNED_VALUE`. -/
  value : PaxosValue := {}
deriving DecidableEq, Repr

/-- `BallotNumber`: a proposal id and the node that uses it. -/
@[ext]
structure BallotNumber where
  /-- The proposal id, compared first. -/
  proposalId : ℕ := 0
  /-- The node, which decides between equal proposal ids. -/
  nodeId : ℕ := 0
deriving DecidableEq, Repr

namespace BallotNumber

/-- `operator<`: the node ids decide when the proposal ids are equal. -/
def lt (x y : BallotNumber) : Prop :=
  if x.proposalId = y.proposalId then x.nodeId < y.nodeId else x.proposalId < y.proposalId

/-- `operator<=`: the ballots are equal, or the first is less. -/
def le (x y : BallotNumber) : Prop := x = y ∨ lt x y

instance : DecidableRel lt := fun x y => inferInstanceAs (Decidable
  (if x.proposalId = y.proposalId then x.nodeId < y.nodeId else x.proposalId < y.proposalId))

instance : DecidableRel le := fun x y => inferInstanceAs (Decidable (x = y ∨ lt x y))

/-- `le` spelled out on the two ids. -/
theorem le_def (x y : BallotNumber) :
    le x y ↔ x.proposalId < y.proposalId ∨
      (x.proposalId = y.proposalId ∧ x.nodeId ≤ y.nodeId) := by
  unfold le lt
  rw [BallotNumber.ext_iff]
  split_ifs with h <;> omega

/-- The comparison operators of the source are a linear order on ballots. -/
instance : LinearOrder BallotNumber where
  le := le
  lt := lt
  le_refl x := Or.inl rfl
  le_trans x y z := by
    simp only [le_def]
    omega
  le_antisymm x y := by
    simp only [le_def, BallotNumber.ext_iff]
    omega
  le_total x y := by
    simp only [le_def]
    omega
  lt_iff_le_not_ge x y := by
    simp only [le_def]
    unfold lt
    split_ifs with h <;> omega
  toDecidableLE := inferInstanceAs (DecidableRel le)
  toDecidableLT := inferInstanceAs (DecidableRel lt)

/-- The order on the two ids, in the form that linear arithmetic reads. -/
theorem le_iff (x y : BallotNumber) :
    x ≤ y ↔ x.proposalId < y.proposalId ∨
      (x.proposalId = y.proposalId ∧ x.nodeId ≤ y.nodeId) :=
  le_def x y

theorem proposalId_le {x y : BallotNumber} (h : x ≤ y) : x.proposalId ≤ y.proposalId := by
  rw [le_iff] at h
  omega

theorem zero_le (x : BallotNumber) : ({} : BallotNumber) ≤ x := by
  rw [le_iff]
  simp only
  omega

end BallotNumber

/-- The ballot `(proposal_id, node_id)` of a `PREPARE`, an `ACCEPT` or a `NEW_CHOSEN_VALUE`. -/
def PaxosMessage.ballot (m : PaxosMessage) : BallotNumber := ⟨m.proposalId, m.nodeId⟩

/-- The ballot that a promise reports as accepted. -/
def PaxosMessage.preAccepted (m : PaxosMessage) : BallotNumber :=
  ⟨m.preAcceptedId, m.preAcceptedNodeId⟩

/-- `PaxosInstance`: the log record of one instance. -/
structure PaxosInstance where
  instanceId : ℕ := 0
  /-- The promised ballot when the record was written. -/
  promised : BallotNumber := {}
  /-- The accepted ballot, zero when nothing was accepted. -/
  accepted : BallotNumber := {}
  /-- The accepted value, empty when nothing was accepted. -/
  acceptedValue : PaxosValue := {}
deriving DecidableEq, Repr

end Skywalker
