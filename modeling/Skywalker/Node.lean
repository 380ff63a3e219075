import Skywalker.Storage
import Skywalker.Machine
import Mathlib.Data.Finset.Card

/-!
# The state of a node

One group on one node: the fields of `Instance` and of the `Acceptor`, `Learner` and `Proposer` in
it, what its `Config` points to (log, machines, messager, loops), and the trace of what the node
does. The trace is the model's own. It records the messages that leave the node, the messages that
the node hands to itself by a direct call, and the decisions and executions that properties speak
about, newest first.
-/

namespace Skywalker

/-! ## Configuration and environment -/

/-- What `Config` holds from the options of the group. -/
structure Config where
  /-- The id of the node, `GetNodeId()`. -/
  nodeId : ℕ
  /-- The members that `GroupOptions::membership` starts with. -/
  membership : List MemberMessage
  /-- The number of checkpoints to keep, `KeepCheckpointCount()`. -/
  keepCheckpointCount : ℕ := 3
  /-- The number of records to keep, `KeepLogCount()`. -/
  keepLogCount : ℕ := 100000
  /-- The duration of a lease, `GroupOptions::master_lease_time`. -/
  masterLeaseTime : ℕ := 10000
  /-- The generated parsers of the two messages. -/
  codec : Codec

/-- What the surroundings of a node decide while it handles one event. The results of the writes and
executions are given by the length of the trace at which they are made. -/
structure Env where
  /-- The time that `NowMillis()` returns. -/
  nowMillis : ℕ := 0
  /-- Whether the `DB::Put` at a position of the trace succeeds. -/
  putOk : ℕ → Bool := fun _ => true
  /-- What `Execute` of a user's machine returns. -/
  executeOk : ℕ → Bool := fun _ => true
  /-- `Cluster::GetFollowers`, empty without a cluster. -/
  followers : List ℕ := []
  /-- `Cluster::GetNewestMembership`, when there is a cluster. -/
  newestMembership : Option (List ℕ) := none
  /-- `Learner::is_sending_checkpoint_`, which all groups of the process share. -/
  isSendingCheckpoint : Bool := false

/-- What a proposal's `context` points to: the word of the caller, or `Group::now_`. -/
inductive Context where
  | user (word : ℕ)
  | groupNow
deriving DecidableEq, Repr

/-- The codes of the `Status` that a proposal completes with. -/
inductive StatusCode where
  | ok
  | conflict
  | timeout
  | machineError
  | invalidNode
deriving DecidableEq, Repr

/-- `Status`: a code and its text. -/
structure Status where
  code : StatusCode := .ok
  msg : String := ""
deriving DecidableEq, Repr

/-! ## The trace -/

/-- One entry of a node's trace. -/
inductive Event where
  /-- `Instance::Recover` returned true at an instance, with the members restored. -/
  | recovered (instanceId : ℕ) (membership : Membership)
  /-- `Messager::SendMessage` to one node. -/
  | send (dest : ℕ) (msg : PaxosMessage)
  /-- `Messager::BroadcastMessage` and its two variants, with the nodes that it sends to. -/
  | broadcast (msg : PaxosMessage) (dests : List ℕ)
  /-- A call of `Instance::OnPaxosMessage` from inside the node. -/
  | handed (msg : PaxosMessage)
  /-- `Instance::OnPropose` built a value and proposed it. -/
  | proposed (instanceId now : ℕ) (value : PaxosValue)
  /-- The acceptor took the ballot of a `PREPARE`. -/
  | promised (instanceId : ℕ) (ballot : BallotNumber)
  /-- The acceptor took the ballot and the value of an `ACCEPT`. -/
  | accepted (instanceId : ℕ) (ballot : BallotNumber) (value : PaxosValue)
  /-- `OnPrepareReply` found the round passed. -/
  | preparePassed (instanceId proposalId : ℕ)
  /-- `OnAccpetReply` found the round passed. -/
  | acceptPassed (instanceId proposalId : ℕ) (value : PaxosValue)
  /-- `DB::Put` of a record, with its result. -/
  | put (record : PaxosInstance) (ok : Bool)
  /-- `MachineManager::Execute` for a learned value. -/
  | executed (instanceId : ℕ) (value : PaxosValue) (context : Option ℕ) (ok : Bool)
  /-- A call of `MachineManager::Execute` in `LogManager::ReplayLog`, with its result. -/
  | replayed (instanceId : ℕ) (value : PaxosValue) (ok : Bool)
  /-- The completion of a proposal. -/
  | completed (instanceId : ℕ) (status : Status)
deriving DecidableEq

/-! ## The components -/

/-- The fields of `Acceptor`. -/
structure Acceptor where
  /-- `instance_id_`: the instance that the acceptor is at. -/
  instanceId : ℕ := 0
  /-- `promised_ballot_`, which outlives the instance. -/
  promisedBallot : BallotNumber := {}
  /-- `accepted_ballot_` of the current instance. -/
  acceptedBallot : BallotNumber := {}
  /-- `accepted_value_` of the current instance. -/
  acceptedValue : PaxosValue := {}
deriving DecidableEq, Repr

/-- `Counter`: the nodes that answered the current round. -/
structure Counter where
  /-- `received_nodes_`: the nodes that have answered. -/
  receivedNodes : Finset ℕ := ∅
  /-- `rejectors_`: the nodes that have rejected. -/
  rejectors : Finset ℕ := ∅
  /-- `promisors_or_acceptors_`: the nodes that have promised or accepted. -/
  promisorsOrAcceptors : Finset ℕ := ∅
deriving DecidableEq

/-- The fields of `Proposer`. -/
structure Proposer where
  /-- `instance_id_`: the instance that the proposer is at. -/
  instanceId : ℕ := 1
  /-- `proposal_id_`: the proposal id of the round. -/
  proposalId : ℕ := 0
  /-- `max_proprosal_id_`, the largest rejected id seen. -/
  maxProposalId : ℕ := 0
  /-- `max_ballot_`, the largest accepted ballot that the round's promises reported. -/
  maxBallot : BallotNumber := {}
  /-- `value_`: the value that the round is for. -/
  value : PaxosValue := {}
  /-- `preparing_`: whether promises are counted. -/
  preparing : Bool := false
  /-- `accepting_`: whether acceptances are counted. -/
  accepting : Bool := false
  /-- `skip_prepare_`: whether the next proposal may skip `Prepare`. -/
  skipPrepare : Bool := false
  /-- `was_rejected_by_someone_`: whether a reply had a proposal id that is not lower. -/
  wasRejectedBySomeone : Bool := false
  /-- `retry_timer_`: the timer that was set last. -/
  retryTimer : ℕ := 0
  /-- `counter_`: the replies of the round. -/
  counter : Counter := {}
deriving DecidableEq

/-- The fields of `Learner`. -/
structure Learner where
  /-- `instance_id_`: the instance that the learner is at. -/
  instanceId : ℕ := 1
  /-- `learn_timer_`: the timer after which the node asks again. -/
  learnTimer : ℕ := 0
  /-- `is_learning_`: whether records were asked for. -/
  isLearning : Bool := false
  /-- `has_learned_`: whether a value waits for `CheckLearn`. -/
  hasLearned : Bool := false
  /-- `learned_value_`: the value that waits. -/
  learnedValue : PaxosValue := {}
  /-- `is_receiving_checkponit_`: whether a checkpoint was asked for. -/
  isReceivingCheckpoint : Bool := false
deriving DecidableEq, Repr

/-- The callbacks that the node has pending in its I/O loop's timers. -/
inductive TimerCallback where
  /-- `AddRetryTimer`, with the instance that it captures. -/
  | retry (instanceId : ℕ)
  /-- The propose time-out of `Instance::OnPropose`. -/
  | propose
  /-- The timer of `AddLearnTimer`. -/
  | learn
deriving DecidableEq, Repr

/-- The functions that the node has queued in the learn loop. -/
inductive LearnTask where
  /-- The answer that `SendNowInstanceId` queues. -/
  | send (dest : ℕ) (msg : PaxosMessage)
  /-- The rest of the loop of `ASyncSend`, from one id up to another. -/
  | aSyncSend (nodeId fromId toId : ℕ)
  /-- The sending of a checkpoint to a node. -/
  | sendCheckpoint (nodeId : ℕ)
deriving DecidableEq, Repr

/-- One group on one node. -/
structure Node where
  config : Config
  acceptor : Acceptor := {}
  learner : Learner := {}
  proposer : Proposer := {}
  /-- `Instance::instance_id_`: the instance that the node is at. -/
  instanceId : ℕ := 1
  /-- `is_proposing_`: whether a proposal is outstanding. -/
  isProposing : Bool := false
  /-- `context_`: the context of the outstanding proposal. -/
  context : Option Context := none
  /-- `propose_value_`: the value of the last proposal. -/
  proposeValue : PaxosValue := {}
  /-- `propose_timer_`: the timer that ends the outstanding proposal. -/
  proposeTimer : ℕ := 0
  /-- `seq_num_`: a counter of 8 bits. -/
  seqNum : ℕ := 0
  /-- `Group::now_`: the time that `TryBeMasterInLoop` noted last. -/
  groupNow : ℕ := 0
  machines : Machines := {}
  /-- `LogManager::min_chosen_id_`: the first instance that the log advertises. -/
  minChosenId : ℕ := 0
  /-- Where the batch of `GCLoop` ends, while `SetMinChosenInstanceId` is still to come. -/
  cleanedTo : Option ℕ := none
  /-- `LogManager::max_chosen_id_`: the instance that `GCLoop` counts back from. -/
  maxChosenId : ℕ := 0
  /-- `MachineManager::oldest_checkpoint_instance_id_`: the oldest directory that is kept. -/
  oldestCheckpointId : ℕ := 0
  /-- The number of the next timer. -/
  nextTimer : ℕ := 1
  /-- The pending timers of the node in the I/O loop. -/
  timers : List (ℕ × TimerCallback) := []
  /-- The queued functions of the node in the learn loop. -/
  learnTasks : List LearnTask := []
  db : DB := {}
  /-- The checkpoint directories on disk. -/
  checkpoints : List (ℕ × Machines) := []
  /-- What the node has done, newest first. -/
  trace : List Event := []

namespace Node

/-- The id of the node, `GetNodeId()`. -/
def nodeId (s : Node) : ℕ := s.config.nodeId

/-- The keys of the map `GetMembership()->members()`. -/
def memberIds (s : Node) : List ℕ := s.machines.membership.ids

/-- `Config::GetNodeSize`: the number of members. -/
def getNodeSize (s : Node) : ℕ := s.memberIds.length

/-- `Config::GetMajoritySize`: more than half of the members. -/
def getMajoritySize (s : Node) : ℕ := s.memberIds.length / 2 + 1

/-- `Config::IsValidNodeId`: whether the node is a member. -/
def isValidNodeId (s : Node) (nodeId : ℕ) : Bool := nodeId ∈ s.memberIds

/-- Adds an entry to the trace. -/
def emit (e : Event) (s : Node) : Node := { s with trace := e :: s.trace }

/-- `Messager::SendMessage` to one node. -/
def sendMessage (dest : ℕ) (msg : PaxosMessage) (s : Node) : Node := s.emit (.send dest msg)

/-- The nodes that `Network::SendMessage` sends to for a list of members. -/
def others (s : Node) (l : List ℕ) : List ℕ := l.filter (· ≠ s.nodeId)

/-- `Messager::BroadcastMessage` to the other members. -/
def broadcastMessage (msg : PaxosMessage) (s : Node) : Node :=
  s.emit (.broadcast msg (s.others s.memberIds))

/-- `RunLoop::RunAfter`, with the number of the new timer in the place of its `TimerId`. -/
def runAfter (cb : TimerCallback) (s : Node) : ℕ × Node :=
  (s.nextTimer, { s with nextTimer := s.nextTimer + 1, timers := (s.nextTimer, cb) :: s.timers })

/-- `RunLoop::Remove` of a timer that is pending. -/
def removeTimer (id : ℕ) (s : Node) : Node :=
  { s with timers := s.timers.filter fun t => t.1 != id }

/-- `RunLoop::QueueInLoop` of the learn loop. -/
def queueInLearnLoop (t : LearnTask) (s : Node) : Node :=
  { s with learnTasks := s.learnTasks ++ [t] }

/-- `DB::Put` of a record, with its result in the trace. -/
def put (E : Env) (r : PaxosInstance) (s : Node) : Bool × Node :=
  let ok := E.putOk s.trace.length
  (ok, { s with db := if ok then s.db.put r.instanceId r else s.db
                trace := .put r ok :: s.trace })

end Node

end Skywalker
