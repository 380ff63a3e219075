import Skywalker.System

/-!
# The actions that a step is made of

One event of a node runs through several handlers that call each other. Here a step is broken into
actions: each takes one decision of the acceptor, the proposer or the learner and leaves the rest of
the node alone, and each says what it needs. `Node.step_chain` shows that every event is a chain of
actions, so that what holds of every action holds of every event.

Two things are fixed for a chain. `Rules` are conditions on the state in which a decision is taken;
properties of all runs use rules that ask for nothing. The messages that the network may deliver to
the node are given by a predicate.
-/

namespace Skywalker

/-! ## What changes nothing of interest -/

/-- Entries of the trace that no other node's progress depends on: questions and answers about
instance ids, calls that are not replies, failed writes, and completions. -/
def Event.isQuiet : Event → Bool
  | .send _ m =>
    m.type = .askForCheckpoint || m.type = .comfirmAskForLearn || m.type = .sendNowInstanceId
  | .broadcast m _ => m.type = .askForLearn
  | .handed m => m.type ≠ .prepareReply && m.type ≠ .acceptReply
  | .put _ ok => !ok
  | .completed _ _ => true
  | _ => false

/-- What a queued function of the learn loop may still send: records below the instance, or the
answer of `SendNowInstanceId`. -/
def LearnTask.Bounded (instanceId : ℕ) : LearnTask → Prop
  | .send _ m => m.type = .sendNowInstanceId
  | .aSyncSend _ _ toId => toId ≤ instanceId
  | .sendCheckpoint _ => True

/-- `y` is `x` with other timers, learn tasks and learner flags, and perhaps a round given up. -/
structure Quiet (x y : Node) : Prop where
  config : y.config = x.config
  acceptor : y.acceptor = x.acceptor
  instanceId : y.instanceId = x.instanceId
  learnerId : y.learner.instanceId = x.learner.instanceId
  hasLearned : y.learner.hasLearned = x.learner.hasLearned
  learnedValue : y.learner.learnedValue = x.learner.learnedValue
  proposerId : y.proposer.instanceId = x.proposer.instanceId
  proposalId : y.proposer.proposalId = x.proposer.proposalId
  maxBallot : y.proposer.maxBallot = x.proposer.maxBallot
  value : y.proposer.value = x.proposer.value
  skipPrepare : y.proposer.skipPrepare = x.proposer.skipPrepare
  counter : y.proposer.counter = x.proposer.counter
  /-- A round may end, but none starts. -/
  preparing : y.proposer.preparing = true → x.proposer.preparing = true
  accepting : y.proposer.accepting = true → x.proposer.accepting = true
  /-- A rejection is not forgotten. -/
  wasRejected : x.proposer.wasRejectedBySomeone = true → y.proposer.wasRejectedBySomeone = true
  isProposing : y.isProposing = x.isProposing
  context : y.context = x.context
  proposeValue : y.proposeValue = x.proposeValue
  groupNow : y.groupNow = x.groupNow
  machines : y.machines = x.machines
  db : y.db = x.db
  checkpoints : y.checkpoints = x.checkpoints
  minChosenId : y.minChosenId = x.minChosenId
  cleanedTo : y.cleanedTo = x.cleanedTo
  maxChosenId : y.maxChosenId = x.maxChosenId
  oldestCheckpointId : y.oldestCheckpointId = x.oldestCheckpointId
  /-- No retry timer is added. -/
  timers : ∀ id i, (id, TimerCallback.retry i) ∈ y.timers → (id, TimerCallback.retry i) ∈ x.timers
  learnTasks : ∀ t ∈ y.learnTasks, t ∈ x.learnTasks ∨ t.Bounded x.learner.instanceId
  trace : ∃ l, y.trace = l ++ x.trace ∧ ∀ e ∈ l, e.isQuiet = true

/-- The well-formedness of a node between two actions: its four instance ids agree, the proposer is
in one phase and has a proposal id, and what the learn loop has queued stays below the instance. -/
structure Node.WF (x : Node) : Prop where
  acceptorId : x.acceptor.instanceId = x.instanceId
  learnerId : x.learner.instanceId = x.instanceId
  proposerId : x.proposer.instanceId = x.instanceId
  /-- The proposer is in at most one of its two phases. -/
  phase : x.proposer.preparing = true → x.proposer.accepting = false
  proposalId : 1 ≤ x.proposer.proposalId
  learnTasks : ∀ t ∈ x.learnTasks, t.Bounded x.instanceId

/-! ## Actions -/

/-- Conditions on the decisions of a node. -/
structure Rules where
  /-- On the state in which a proposal starts. -/
  propose : Env → Node → ℕ → List UInt8 → Option Context → Prop := fun _ _ _ _ _ => True
  /-- On the state in which `Prepare` is called. -/
  prepare : Node → Prop := fun _ => True
  /-- On the state in which `NewPropose` calls `Accept` at once. -/
  skip : Node → Prop := fun _ => True
  /-- The types of replies that are counted only in the round that they answer. -/
  current : PaxosMessageType → Prop := fun _ => False
  /-- Whether the acceptor writes nothing else over a value that the learner stored. -/
  keepsLearned : Prop := False
  /-- On the state in which the learner stores the value of a `SEND_LEARNED_VALUE`. -/
  learn : Node → PaxosMessage → Prop := fun _ _ => True
  clean : Prop := True
  checkpoint : Prop := True

/-- The answer of the acceptor leaves: to the node itself by a call, to another by the network. -/
def Acceptor.answer (dest : ℕ) (reply : PaxosMessage) (s : Node) : Node :=
  if dest = s.nodeId then s.emit (.handed reply) else s.sendMessage dest reply

/-- The start of `Prepare` for a value. -/
def Proposer.openRound (v : PaxosValue) (s : Node) : Node :=
  let s := { s with proposer := { s.proposer with value := v } }
  let s := startPrepare s.proposer.wasRejectedBySomeone s
  s.emit (.handed (prepareMessage s))

/-- `Prepare` up to the point where the node's own reply is counted. -/
def Proposer.beginRound (E : Env) (v : PaxosValue) (s : Node) : Node :=
  let s := openRound v s
  let r := Acceptor.takePrepare E (prepareMessage s) s
  let s := r.2.emit (.handed r.1)
  { s with proposer := s.proposer.countPrepareReply r.1 }

/-- The part of `OnPrepareReply` after a majority promised, down to the broadcast of `Accept`. -/
def Proposer.passPrepare (s : Node) : Node :=
  let s := s.emit (.preparePassed s.proposer.instanceId s.proposer.proposalId)
  let s := { s with proposer := { s.proposer with preparing := false, skipPrepare := true } }
  startAccept (removeRetryTimer s)

/-- `Accept` for a new value without `Prepare`, up to the broadcast. -/
def Proposer.directAccept (v : PaxosValue) (s : Node) : Node :=
  startAccept { s with proposer := { s.proposer with value := v } }

/-- The part of `OnAccpetReply` after a majority accepted, down to the broadcast of
`NewChosenValue`. -/
def Proposer.passAccept (s : Node) : Node :=
  let s := s.emit (.acceptPassed s.proposer.instanceId s.proposer.proposalId s.proposer.value)
  let s := { s with proposer := { s.proposer with accepting := false } }
  (removeRetryTimer s).broadcastMessage
    { type := .newChosenValue, nodeId := s.nodeId, instanceId := s.proposer.instanceId,
      proposalId := s.proposer.proposalId }

/-- A round that did not pass is given up until its retry timer. -/
def Proposer.giveUp (s : Node) : Node :=
  addRetryTimer (removeRetryTimer
    { s with proposer := { s.proposer with preparing := false, accepting := false } })

/-- A `NEW_CHOSEN_VALUE` that reaches the learner: from the network, from the node's own proposer,
or read off a `PREPARE` or `ACCEPT` of the next instance. -/
def Announced (net : PaxosMessage → Prop) (s : Node) (m : PaxosMessage) : Prop :=
  (net m ∧ m.type = .newChosenValue) ∨
  ((∃ dests, .broadcast m dests ∈ s.trace) ∧ m.type = .newChosenValue) ∨
  ∃ m', net m' ∧ (m'.type = .prepare ∨ m'.type = .accept) ∧
    m'.instanceId = s.acceptor.instanceId + 1 ∧ m.instanceId = s.acceptor.instanceId ∧
    m.ballot = m'.ballot

/-- The ballot of a message from which the learner learns. -/
def TaughtBy (net : PaxosMessage → Prop) (s : Node) (ballot : BallotNumber) : Prop :=
  ∃ m, (Announced net s m ∨ (net m ∧ m.type = .sendLearnedValue)) ∧ m.ballot = ballot

/-- A reply that reaches the proposer, from the network or from the node's own acceptor. -/
def Answered (net : PaxosMessage → Prop) (s : Node) (m : PaxosMessage) : Prop :=
  net m ∨ .handed m ∈ s.trace

/-- What starts a round with the value `v`: a proposal of the node, which `OnPropose` accepted, or
the retry timer of its instance. `y` is the node without that timer. -/
def RoundStart (x : Node) (v : PaxosValue) (y : Node) : Prop :=
  (y = x ∧ v = x.proposeValue ∧ x.isProposing = true ∧ x.isValidNodeId x.nodeId = true) ∨
  ∃ id, (id, TimerCallback.retry x.proposer.instanceId) ∈ x.timers ∧ y = x.removeTimer id ∧
    v = x.proposer.value

/-- The decisions of a node. -/
inductive Act (R : Rules) (E : Env) (net : PaxosMessage → Prop) : Node → Node → Prop where
  /-- A step that leaves everything alone that the decisions depend on. -/
  | quiet {x y : Node} (h : Quiet x y) : Act R E net x y
  /-- `TryBeMasterInLoop` notes the time before it proposes. -/
  | setNow {x : Node} (hidle : x.isProposing = false) :
      Act R E net x { x with groupNow := E.nowMillis }
  /-- `OnPropose` builds a value and takes it as the node's proposal. -/
  | propose {x : Node} (machineId : ℕ) (value : List UInt8) (context : Option Context) (draw : ℕ)
      (hidle : x.isProposing = false) (hdraw : drawOk draw = true)
      (hvalid : x.isValidNodeId x.nodeId = true) (hrule : R.propose E x machineId value context) :
      Act R E net x (Instance.startPropose E machineId value context draw x)
  /-- The propose timer ends the outstanding proposal. -/
  | timeout {x : Node} : Act R E net x (Instance.onProposeTimeout x)
  /-- `Prepare` while a checkpoint is being received: the node does not hear itself. -/
  | openRound {x : Node} (y : Node) (v : PaxosValue) (hstart : RoundStart x v y)
      (hrule : R.prepare y) (hrecv : x.learner.isReceivingCheckpoint = true) :
      Act R E net x (Proposer.openRound v y)
  /-- `Prepare`, with the node's own reply counted. -/
  | beginRound {x : Node} (y : Node) (v : PaxosValue) (hstart : RoundStart x v y)
      (hrule : R.prepare y) (hrecv : x.learner.isReceivingCheckpoint = false)
      (hkeep : R.keepsLearned → x.learner.hasLearned = true →
        x.acceptor.acceptedValue = x.learner.learnedValue) :
      Act R E net x (Proposer.beginRound E v y)
  /-- The acceptor decides about a `PREPARE` of another node. -/
  | takePrepare {x : Node} (m : PaxosMessage) (hnet : net m) (htype : m.type = .prepare)
      (hid : m.instanceId = x.acceptor.instanceId)
      (hkeep : R.keepsLearned → x.learner.hasLearned = true →
        x.acceptor.promisedBallot ≤ m.ballot →
        x.acceptor.acceptedValue = x.learner.learnedValue) :
      Act R E net x (Acceptor.answer m.nodeId (Acceptor.takePrepare E m x).1
        (Acceptor.takePrepare E m x).2)
  /-- The proposer counts a `PREPARE_REPLY` of its instance while it is preparing. -/
  | countPrepare {x : Node} (m : PaxosMessage) (hm : Answered net x m)
      (htype : m.type = .prepareReply) (hprep : x.proposer.preparing = true)
      (hid : m.instanceId = x.proposer.instanceId)
      (hcur : R.current m.type → m.proposalId = x.proposer.proposalId) :
      Act R E net x { x with proposer := x.proposer.countPrepareReply m }
  /-- A majority has promised, and the proposer broadcasts its `ACCEPT`. -/
  | passPrepare {x : Node} (m : PaxosMessage) (hm : Answered net x m)
      (htype : m.type = .prepareReply) (hprep : x.proposer.preparing = true)
      (hid : m.instanceId = x.proposer.instanceId)
      (hcur : R.current m.type → m.proposalId = x.proposer.proposalId)
      (hpass : Proposer.isPassedOnThisRound x = true) : Act R E net x (Proposer.passPrepare x)
  /-- `NewPropose` skips `Prepare` and broadcasts an `ACCEPT` at once. -/
  | directAccept {x : Node} (hskip : x.proposer.skipPrepare = true)
      (hrej : x.proposer.wasRejectedBySomeone = false) (hrule : R.skip x)
      (hbusy : x.isProposing = true) (hvalid : x.isValidNodeId x.nodeId = true) :
      Act R E net x (Proposer.directAccept x.proposeValue x)
  /-- The acceptor decides about an `ACCEPT`. -/
  | takeAccept {x : Node} (m : PaxosMessage)
      (hm : net m ∨ ((∃ dests, .broadcast m dests ∈ x.trace) ∧ m.nodeId = x.nodeId))
      (htype : m.type = .accept) (hid : m.instanceId = x.acceptor.instanceId)
      (hkeep : R.keepsLearned → x.learner.hasLearned = true →
        x.acceptor.promisedBallot ≤ m.ballot → m.value = x.learner.learnedValue) :
      Act R E net x (Acceptor.answer m.nodeId (Acceptor.takeAccept E m x).1
        (Acceptor.takeAccept E m x).2)
  /-- The proposer counts an `ACCEPT_REPLY` of its instance while it is accepting. -/
  | countAccept {x : Node} (m : PaxosMessage) (hm : Answered net x m)
      (htype : m.type = .acceptReply) (hacc : x.proposer.accepting = true)
      (hid : m.instanceId = x.proposer.instanceId)
      (hcur : R.current m.type → m.proposalId = x.proposer.proposalId) :
      Act R E net x
        { x with proposer := { x.proposer with counter := x.proposer.counter.add m } }
  /-- A majority has accepted, and the proposer broadcasts that a value is chosen. -/
  | passAccept {x : Node} (m : PaxosMessage) (hm : Answered net x m)
      (htype : m.type = .acceptReply) (hacc : x.proposer.accepting = true)
      (hid : m.instanceId = x.proposer.instanceId)
      (hcur : R.current m.type → m.proposalId = x.proposer.proposalId)
      (hpass : Proposer.isPassedOnThisRound x = true) : Act R E net x (Proposer.passAccept x)
  /-- A round did not pass. -/
  | giveUp {x : Node} (m : PaxosMessage) (hm : Answered net x m)
      (htype : m.type = .prepareReply ∧ x.proposer.preparing = true ∨
        m.type = .acceptReply ∧ x.proposer.accepting = true)
      (hid : m.instanceId = x.proposer.instanceId)
      (hcur : R.current m.type → m.proposalId = x.proposer.proposalId) :
      Act R E net x (Proposer.giveUp x)
  /-- The learner takes the acceptor's value. -/
  | learn {x : Node} (m : PaxosMessage) (hm : Announced net x m)
      (hid : m.instanceId = x.learner.instanceId) (hballot : m.ballot = x.acceptor.acceptedBallot) :
      Act R E net x (Learner.finishLearnValue x.acceptor.acceptedValue x)
  /-- The learner stores and takes the value of a `SEND_LEARNED_VALUE`. -/
  | learnValue {x : Node} (m : PaxosMessage) (hnet : net m) (htype : m.type = .sendLearnedValue)
      (hid : m.instanceId = x.learner.instanceId) (hrule : R.learn x m)
      (hput : E.putOk x.trace.length = true) :
      Act R E net x (Learner.finishLearnValue m.value (Learner.writeToDB E m x).2)
  /-- The learner tells the followers, under the ballot of the message from which it learned. -/
  | tellFollowers {x : Node} (ballot : BallotNumber) (hlearned : x.learner.hasLearned = true)
      (hballot : TaughtBy net x ballot) :
      Act R E net x (Learner.broadcastMessageToFollower E ballot x)
  /-- `CheckLearn` executes the learned value. -/
  | checkLearn {x : Node} (hlearned : x.learner.hasLearned = true) :
      Act R E net x (Instance.checkLearn E x)
  /-- The learner serves a record. -/
  | serve {x : Node} (dest i : ℕ) (r : PaxosInstance) (hget : x.db.get i = some r)
      (hid : i < x.instanceId) :
      Act R E net x (x.sendMessage dest (Learner.learnedMessage x r))
  /-- The machines finish a checkpoint. -/
  | finishCheckpoint {x : Node} (hid : 1 < x.instanceId)
      (hnew : x.instanceId - 1 ∉ x.checkpoints.map Prod.fst) (hrule : R.checkpoint) :
      Act R E net x (MachineManager.finishCheckpoint x)
  /-- `LogCleaner::GCLoop` runs the next of its parts. -/
  | gcLoop {x : Node} (hrule : R.clean) : Act R E net x (LogCleaner.gcLoop E x)

end Skywalker
