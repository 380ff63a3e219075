import Skywalker.Node

/-!
# The handlers of a node

The functions of `paxos/acceptor.cc`, `paxos/proposer.cc`, `paxos/learner.cc` and
`paxos/instance.cc`, with those of `paxos/group.cc` and `log/log_cleaner.cc` that run in the loops
of a group. Each keeps its class as namespace and acts on the whole node, since the handlers call
each other through `Instance::OnPaxosMessage`: the proposer hands its own `PREPARE` to the acceptor,
whose answer goes straight back to the proposer, and so on down to the learner.

The source's calls of `OnPaxosMessage` from inside a handler go strictly down the list `PREPARE`,
`PREPARE_REPLY`, `ACCEPT`, `ACCEPT_REPLY`, `NEW_CHOSEN_VALUE`, so the handlers are defined from its
end, without recursion. `Instance.hand` is such a call, and `Instance.onPaxosMessage` at the end of
the calls is the function itself; `Instance.hand_eq` says that they agree.
-/

namespace Skywalker

/-! ## `Instance::CheckLearn` and the frame of `OnPaxosMessage` -/

/-- `Acceptor::SetInstanceId`. The promise is kept. -/
def Acceptor.setInstanceId (a : Acceptor) (instanceId : ℕ) : Acceptor :=
  if a.instanceId ≠ instanceId then
    { a with instanceId := instanceId, acceptedBallot := {}, acceptedValue := {} }
  else a

/-- `Acceptor::NextInstance` forgets what was accepted and takes the next id. -/
def Acceptor.nextInstance (a : Acceptor) : Acceptor := a.setInstanceId (a.instanceId + 1)

/-- `Learner::NextInstance`, but for the `SetMaxChosenInstanceId` in it. -/
def Learner.nextInstance (l : Learner) : Learner :=
  { l with hasLearned := false, learnedValue := {}, instanceId := l.instanceId + 1 }

/-- `Proposer::NextInstance`. Nothing but the id changes. -/
def Proposer.nextInstance (p : Proposer) : Proposer := { p with instanceId := p.instanceId + 1 }

/-- `Instance::NextInstance` moves the node and its three roles to the next instance. -/
def Instance.nextInstance (s : Node) : Node :=
  { s with
    instanceId := s.instanceId + 1
    acceptor := s.acceptor.nextInstance
    proposer := s.proposer.nextInstance
    maxChosenId := s.learner.instanceId
    learner := s.learner.nextInstance }

/-- The word that a context points to. -/
def Node.deref (s : Node) : Context → ℕ
  | .user word => word
  | .groupNow => s.groupNow

/-- `Instance::MachineExecute` runs the machines on a value, with the context if it is the node's.
-/
def Instance.machineExecute (E : Env) (value : PaxosValue) (my : Bool) (s : Node) : Bool × Node :=
  let context := if my then s.context.map s.deref else none
  let r := s.machines.execute s.config.codec E.nowMillis (E.executeOk s.trace.length) context
    s.instanceId value
  (r.1, { s with machines := r.2, trace := .executed s.instanceId value context r.1 :: s.trace })

/-- The `Status` with which `CheckLearn` completes the outstanding proposal. The text of a failure
is cut to the 63 characters of its buffer. -/
def Instance.learnStatus (success my : Bool) (value : PaxosValue) : Status :=
  if success then
    if my then {} else { code := .conflict, msg := "another value has been chosen." }
  else
    { code := .machineError
      msg := ("machine(id=" ++ toString value.machineId ++ ") execute value(id=" ++
        toString value.valueId ++ ") failed.").take 63 |>.toString }

/-- `propose_cb_`, with the two assignments that follow it wherever it is called. -/
def Instance.complete (status : Status) (s : Node) : Node :=
  { s with isProposing := false, context := none,
           trace := .completed s.instanceId status :: s.trace }

/-- `Proposer::SetNoSkipPrepare`: the next proposal starts with `Prepare`. -/
def Proposer.setNoSkipPrepare (p : Proposer) : Proposer := { p with skipPrepare := false }

/-- Whether `CheckLearn` takes the learned value for the node's own proposal. -/
def Instance.isMine (s : Node) : Bool :=
  s.isProposing && s.proposeValue.valueId == s.learner.learnedValue.valueId

/-- The part of `Instance::CheckLearn` that executes the learned value and completes the outstanding
proposal. -/
def Instance.executeLearned (E : Env) (s : Node) : Bool × Node :=
  let my := isMine s
  let value := s.learner.learnedValue
  let s₁ := if s.isProposing then s.removeTimer s.proposeTimer else s
  let r := machineExecute E value my s₁
  (r.1, if r.2.isProposing then complete (learnStatus r.1 my value) r.2 else r.2)

/-- `Instance::CheckLearn` executes a learned value and moves on when that succeeds. -/
def Instance.checkLearn (E : Env) (s : Node) : Node :=
  if s.learner.hasLearned then
    let r := executeLearned E s
    if r.1 then nextInstance r.2
    else { r.2 with proposer := r.2.proposer.setNoSkipPrepare }
  else s

/-- The frame of `Instance::OnPaxosMessage` around the handler of one message: nothing while a
checkpoint is being received, else the handler and then `CheckLearn`. -/
def Instance.frame (E : Env) (handler : Node → Node) (s : Node) : Node :=
  if s.learner.isReceivingCheckpoint then s else checkLearn E (handler s)

/-- A call of `OnPaxosMessage` from inside the node, with the handler that the type of the message
selects. -/
def Instance.hand (E : Env) (msg : PaxosMessage) (handler : Node → Node) (s : Node) : Node :=
  frame E handler (s.emit (.handed msg))

/-! ## `NEW_CHOSEN_VALUE` -/

/-- `Learner::FinishLearnValue` notes the value, which `CheckLearn` then executes. -/
def Learner.finishLearnValue (value : PaxosValue) (s : Node) : Node :=
  { s with learner := { s.learner with learnedValue := value, hasLearned := true } }

/-- `Learner::BroadcastMessageToFollower` sends the learned value, if there are followers. -/
def Learner.broadcastMessageToFollower (E : Env) (ballot : BallotNumber) (s : Node) : Node :=
  if E.followers = [] then s
  else s.emit (.broadcast
    { type := .sendLearnedValue, nodeId := s.nodeId, instanceId := s.learner.instanceId,
      proposalId := ballot.proposalId, proposalNodeId := ballot.nodeId,
      value := s.learner.learnedValue } (s.others E.followers))

/-- `Learner::OnNewChosenValue` learns the acceptor's value when the ballot is the accepted one. -/
def Learner.onNewChosenValue (E : Env) (msg : PaxosMessage) (s : Node) : Node :=
  if msg.instanceId = s.learner.instanceId then
    if msg.ballot = s.acceptor.acceptedBallot then
      broadcastMessageToFollower E s.acceptor.acceptedBallot
        (finishLearnValue s.acceptor.acceptedValue s)
    else s
  else s

/-- `Proposer::NewChosenValue` tells the members, and the node itself, that its ballot is chosen. -/
def Proposer.newChosenValue (E : Env) (s : Node) : Node :=
  let msg : PaxosMessage :=
    { type := .newChosenValue, nodeId := s.nodeId, instanceId := s.proposer.instanceId,
      proposalId := s.proposer.proposalId }
  Instance.hand E msg (Learner.onNewChosenValue E msg) (s.broadcastMessage msg)

/-- `Acceptor::NewChosenValue`: a `PREPARE` or `ACCEPT` of the next instance is read as the news
that its ballot was chosen in this one. -/
def Acceptor.newChosenValue (E : Env) (msg : PaxosMessage) (s : Node) : Node :=
  let newMsg : PaxosMessage :=
    { type := .newChosenValue, nodeId := msg.nodeId, instanceId := s.acceptor.instanceId,
      proposalId := msg.proposalId }
  Instance.hand E newMsg (Learner.onNewChosenValue E newMsg) s

/-! ## `ACCEPT` and its reply -/

/-- `Proposer::SetMaxProposalId` notes the proposal id that a reply rejects with. -/
def Proposer.setMaxProposalId (msg : PaxosMessage) (s : Node) : Node :=
  { s with proposer := { s.proposer with
      wasRejectedBySomeone :=
        s.proposer.wasRejectedBySomeone || decide (s.proposer.proposalId ≤ msg.rejectedId)
      maxProposalId := max s.proposer.maxProposalId msg.rejectedId } }

/-- `Proposer::AddRetryTimer` sets a timer that captures the instance. -/
def Proposer.addRetryTimer (s : Node) : Node :=
  let r := s.runAfter (.retry s.proposer.instanceId)
  { r.2 with proposer := { r.2.proposer with retryTimer := r.1 } }

/-- `Proposer::RemoveRetryTimer` cancels the timer that was set last. -/
def Proposer.removeRetryTimer (s : Node) : Node := s.removeTimer s.proposer.retryTimer

/-- `Counter::IsPassedOnThisRound`: a majority has promised or accepted. -/
def Proposer.isPassedOnThisRound (s : Node) : Bool :=
  s.getMajoritySize ≤ s.proposer.counter.promisorsOrAcceptors.card

/-- `Counter::IsRejectedOnThisRound`: a majority has rejected. -/
def Proposer.isRejectedOnThisRound (s : Node) : Bool :=
  s.getMajoritySize ≤ s.proposer.counter.rejectors.card

/-- `Counter::IsReceiveAllOnThisRound`: as many nodes as there are members have answered. -/
def Proposer.isReceiveAllOnThisRound (s : Node) : Bool :=
  s.getNodeSize ≤ s.proposer.counter.receivedNodes.card

/-- `Counter::AddReceivedNode` with `Counter::AddPromisorOrAcceptor` or `Counter::AddRejector`, as
`rejected_id` says. -/
def Counter.add (c : Counter) (msg : PaxosMessage) : Counter :=
  let c := { c with receivedNodes := insert msg.nodeId c.receivedNodes }
  if msg.rejectedId = 0 then
    { c with promisorsOrAcceptors := insert msg.nodeId c.promisorsOrAcceptors }
  else { c with rejectors := insert msg.nodeId c.rejectors }

/-- What `OnAccpetReply` does with the round once a reply is counted. -/
def Proposer.settleAccept (E : Env) (s : Node) : Node :=
  if isPassedOnThisRound s then
    let s := s.emit (.acceptPassed s.proposer.instanceId s.proposer.proposalId s.proposer.value)
    let s := { s with proposer := { s.proposer with accepting := false } }
    newChosenValue E (removeRetryTimer s)
  else if isRejectedOnThisRound s || isReceiveAllOnThisRound s then
    let s := { s with proposer := { s.proposer with accepting := false } }
    addRetryTimer (removeRetryTimer s)
  else s

/-- `Proposer::OnAccpetReply` counts a reply of the round that is accepting. -/
def Proposer.onAccpetReply (E : Env) (msg : PaxosMessage) (s : Node) : Node :=
  setMaxProposalId msg <|
    if s.proposer.accepting = true ∧ msg.instanceId = s.proposer.instanceId then
      settleAccept E
        { s with proposer := { s.proposer with counter := s.proposer.counter.add msg } }
    else s

/-- `Acceptor::WriteToDB` writes the acceptor's state and ignores the result. -/
def Acceptor.writeToDB (E : Env) (s : Node) : Node :=
  (s.put E
    { instanceId := s.acceptor.instanceId, promised := s.acceptor.promisedBallot,
      accepted := s.acceptor.acceptedBallot, acceptedValue := s.acceptor.acceptedValue }).2

/-- The end of `OnPrepare` and `OnAccpet`: the answer goes to the node itself by a call and to
another node by the network. -/
def Acceptor.reply (E : Env) (dest : ℕ) (reply : PaxosMessage) (handler : Node → Node)
    (s : Node) : Node :=
  if dest = s.nodeId then Instance.hand E reply handler s else s.sendMessage dest reply

/-- The reply of `OnPrepare` and `OnAccpet`, before the acceptor decides. -/
def Acceptor.replyTo (type : PaxosMessageType) (msg : PaxosMessage) (s : Node) : PaxosMessage :=
  { type := type, nodeId := s.nodeId, instanceId := msg.instanceId, proposalId := msg.proposalId }

/-- The reply with which an acceptor rejects: it names the promised proposal id. -/
def Acceptor.rejection (type : PaxosMessageType) (msg : PaxosMessage) (s : Node) : PaxosMessage :=
  { replyTo type msg s with rejectedId := s.acceptor.promisedBallot.proposalId }

/-- An `ACCEPT` is taken: ballot and value are noted and written. -/
def Acceptor.acceptBallot (E : Env) (msg : PaxosMessage) (s : Node) : Node :=
  let s := s.emit (.accepted msg.instanceId msg.ballot msg.value)
  writeToDB E { s with acceptor := { s.acceptor with
    promisedBallot := msg.ballot, acceptedBallot := msg.ballot, acceptedValue := msg.value } }

/-- The decision of `Acceptor::OnAccpet` about an `ACCEPT` of its instance, with the reply. -/
def Acceptor.takeAccept (E : Env) (msg : PaxosMessage) (s : Node) : PaxosMessage × Node :=
  if s.acceptor.promisedBallot ≤ msg.ballot then
    (replyTo .acceptReply msg s, acceptBallot E msg s)
  else (rejection .acceptReply msg s, s)

/-- `Acceptor::OnAccpet` decides about an `ACCEPT` of its instance; one of the next is news. -/
def Acceptor.onAccpet (E : Env) (msg : PaxosMessage) (s : Node) : Node :=
  if msg.instanceId = s.acceptor.instanceId then
    let r := takeAccept E msg s
    reply E msg.nodeId r.1 (Proposer.onAccpetReply E r.1) r.2
  else if msg.instanceId = s.acceptor.instanceId + 1 then newChosenValue E msg s
  else s

/-- The message that `Proposer::Accept` broadcasts. -/
def Proposer.acceptMessage (s : Node) : PaxosMessage :=
  { type := .accept, nodeId := s.nodeId, instanceId := s.proposer.instanceId,
    proposalId := s.proposer.proposalId, value := s.proposer.value }

/-- `Proposer::Accept` up to the broadcast. -/
def Proposer.startAccept (s : Node) : Node :=
  let s := { s with proposer := { s.proposer with
    preparing := false, accepting := true, counter := {} } }
  (addRetryTimer s).broadcastMessage (acceptMessage s)

/-- `Proposer::Accept`: the node's own acceptor is asked after the others. -/
def Proposer.accept (E : Env) (s : Node) : Node :=
  let msg := acceptMessage s
  Instance.hand E msg (Acceptor.onAccpet E msg) (startAccept s)

/-! ## `PREPARE` and its reply -/

/-- How `OnPrepareReply` counts a reply. -/
def Proposer.countPrepareReply (msg : PaxosMessage) (p : Proposer) : Proposer :=
  let p := { p with counter := p.counter.add msg }
  if msg.rejectedId = 0 ∧ p.maxBallot < msg.preAccepted then
    { p with maxBallot := msg.preAccepted, value := msg.value }
  else p

/-- What `OnPrepareReply` does with the round once a reply is counted. -/
def Proposer.settlePrepare (E : Env) (s : Node) : Node :=
  if isPassedOnThisRound s then
    let s := s.emit (.preparePassed s.proposer.instanceId s.proposer.proposalId)
    let s := { s with proposer := { s.proposer with preparing := false, skipPrepare := true } }
    accept E (removeRetryTimer s)
  else if isRejectedOnThisRound s || isReceiveAllOnThisRound s then
    let s := { s with proposer := { s.proposer with preparing := false } }
    addRetryTimer (removeRetryTimer s)
  else s

/-- `Proposer::OnPrepareReply` counts a reply of the round that is preparing. -/
def Proposer.onPrepareReply (E : Env) (msg : PaxosMessage) (s : Node) : Node :=
  setMaxProposalId msg <|
    if s.proposer.preparing = true ∧ msg.instanceId = s.proposer.instanceId then
      settlePrepare E { s with proposer := s.proposer.countPrepareReply msg }
    else s

/-- The reply with which an acceptor promises: it reports what the acceptor has accepted. -/
def Acceptor.promise (msg : PaxosMessage) (s : Node) : PaxosMessage :=
  if 0 < s.acceptor.acceptedBallot.proposalId then
    { replyTo .prepareReply msg s with
      preAcceptedId := s.acceptor.acceptedBallot.proposalId
      preAcceptedNodeId := s.acceptor.acceptedBallot.nodeId
      value := s.acceptor.acceptedValue }
  else replyTo .prepareReply msg s

/-- A `PREPARE` is taken: its ballot is noted and written. -/
def Acceptor.promiseBallot (E : Env) (msg : PaxosMessage) (s : Node) : Node :=
  let s := s.emit (.promised msg.instanceId msg.ballot)
  writeToDB E { s with acceptor := { s.acceptor with promisedBallot := msg.ballot } }

/-- The decision of `Acceptor::OnPrepare` about a `PREPARE` of its instance, with the reply. -/
def Acceptor.takePrepare (E : Env) (msg : PaxosMessage) (s : Node) : PaxosMessage × Node :=
  if s.acceptor.promisedBallot ≤ msg.ballot then (promise msg s, promiseBallot E msg s)
  else (rejection .prepareReply msg s, s)

/-- `Acceptor::OnPrepare` decides about a `PREPARE` of its instance; one of the next is news. -/
def Acceptor.onPrepare (E : Env) (msg : PaxosMessage) (s : Node) : Node :=
  if msg.instanceId = s.acceptor.instanceId then
    let r := takePrepare E msg s
    reply E msg.nodeId r.1 (Proposer.onPrepareReply E r.1) r.2
  else if msg.instanceId = s.acceptor.instanceId + 1 then newChosenValue E msg s
  else s

/-- The message of `Proposer::Prepare`, once the proposal id is set. -/
def Proposer.prepareMessage (s : Node) : PaxosMessage :=
  { type := .prepare, nodeId := s.nodeId, instanceId := s.proposer.instanceId,
    proposalId := s.proposer.proposalId }

/-- The flags and the proposal id that `Proposer::Prepare` starts a round with. -/
def Proposer.newRound (needNewProposalId : Bool) (p : Proposer) : Proposer :=
  { p with
    preparing := true
    accepting := false
    skipPrepare := false
    wasRejectedBySomeone := false
    maxBallot := {}
    proposalId :=
      if needNewProposalId then
        (if p.proposalId < p.maxProposalId then p.maxProposalId else p.proposalId) + 1
      else p.proposalId
    counter := {} }

/-- `Proposer::Prepare` up to the broadcast. -/
def Proposer.startPrepare (needNewProposalId : Bool) (s : Node) : Node :=
  let s := { s with proposer := s.proposer.newRound needNewProposalId }
  (addRetryTimer s).broadcastMessage (prepareMessage s)

/-- `Proposer::Prepare`: the node's own acceptor is asked after the others. -/
def Proposer.prepare (E : Env) (needNewProposalId : Bool) (s : Node) : Node :=
  let s := startPrepare needNewProposalId s
  let msg := prepareMessage s
  Instance.hand E msg (Acceptor.onPrepare E msg) s

/-! ## Proposals and their timers -/

/-- `Proposer::NewPropose` accepts at once where it may skip `Prepare`, and prepares otherwise. -/
def Proposer.newPropose (E : Env) (value : PaxosValue) (s : Node) : Node :=
  let s := { s with proposer := { s.proposer with value := value } }
  if s.proposer.skipPrepare && !s.proposer.wasRejectedBySomeone then accept E s
  else prepare E s.proposer.wasRejectedBySomeone s

/-- `Proposer::QuitPropose` closes the round and cancels its retry timer. -/
def Proposer.quitPropose (s : Node) : Node :=
  removeRetryTimer { s with proposer := { s.proposer with preparing := false, accepting := false } }

/-- `Instance::GetPaxosValueId`, with the number that the random engine draws. -/
def Instance.getPaxosValueId (E : Env) (draw : ℕ) (s : Node) : ℕ × Node :=
  let seqNum := (s.seqNum + 1) % 256
  ((E.nowMillis <<< 22) % 2 ^ 64 ||| draw ||| seqNum, { s with seqNum := seqNum })

/-- The part of `Instance::OnPropose` before `NewPropose`: the value, the context and the
time-out. -/
def Instance.startPropose (E : Env) (machineId : ℕ) (value : List UInt8) (context : Option Context)
    (draw : ℕ) (s : Node) : Node :=
  let r := getPaxosValueId E draw s
  let v : PaxosValue := { valueId := r.1, machineId := machineId, userData := value }
  let s := { r.2 with isProposing := true, context := context, proposeValue := v }
  let t := (s.emit (.proposed s.instanceId E.nowMillis v)).runAfter .propose
  { t.2 with proposeTimer := t.1 }

/-- `Instance::OnPropose` starts a proposal, unless the node is not a member. -/
def Instance.onPropose (E : Env) (machineId : ℕ) (value : List UInt8) (context : Option Context)
    (draw : ℕ) (s : Node) : Node :=
  if s.isValidNodeId s.nodeId then
    let s := startPropose E machineId value context draw s
    Proposer.newPropose E s.proposeValue s
  else
    s.emit (.completed s.instanceId
      { code := .invalidNode
        msg := "this node is not in the membership, please add it firstly." })

/-- The callback of the propose timer. -/
def Instance.onProposeTimeout (s : Node) : Node :=
  complete { code := .timeout, msg := "proposal time more than a second." } (Proposer.quitPropose s)

/-- The callback of a retry timer that captured `instanceId`. -/
def Proposer.onRetryTimer (E : Env) (instanceId : ℕ) (s : Node) : Node :=
  if instanceId = s.proposer.instanceId then prepare E s.proposer.wasRejectedBySomeone s else s

/-- `Group::TryBeMasterInLoop` proposes the node as master, unless another one has the lease. -/
def Group.tryBeMasterInLoop (E : Env) (draw : ℕ) (s : Node) : Node :=
  let state := s.machines.master
  let s := { s with groupNow := E.nowMillis }
  if state.leaseTime ≤ E.nowMillis ∨ state.nodeId = s.nodeId then
    let state := { state with nodeId := s.nodeId, leaseTime := s.config.masterLeaseTime }
    Instance.onPropose E masterMachineId (s.config.codec.serializeMasterState state)
      (some .groupNow) draw s
  else s.emit (.completed s.instanceId { code := .conflict, msg := "Already has master" })

/-! ## Learning from another node -/

/-- `Learner::AddLearnTimer` sets the timer after which the node asks again. -/
def Learner.addLearnTimer (s : Node) : Node :=
  let r := s.runAfter .learn
  { r.2 with learner := { r.2.learner with learnTimer := r.1 } }

/-- `Learner::AskForLearn`, with the broadcast of `Messager::BroadcastMessageForLearn`. -/
def Learner.askForLearn (E : Env) (addTimer : Bool) (s : Node) : Node :=
  let s := { s with learner := { s.learner with
    isLearning := false, isReceivingCheckpoint := false } }
  let msg : PaxosMessage :=
    { type := .askForLearn, nodeId := s.nodeId, instanceId := s.learner.instanceId }
  let s := s.emit (.broadcast msg (s.others (E.newestMembership.getD s.memberIds)))
  if addTimer then addLearnTimer s else s

/-- The `SEND_LEARNED_VALUE` that carries a log record. -/
def Learner.learnedMessage (s : Node) (p : PaxosInstance) : PaxosMessage :=
  { type := .sendLearnedValue, nodeId := s.nodeId, instanceId := p.instanceId,
    proposalId := p.accepted.proposalId, proposalNodeId := p.accepted.nodeId,
    value := p.acceptedValue }

/-- `Learner::SendNowInstanceId` queues an answer with the node's instance and its minimum. -/
def Learner.sendNowInstanceId (msg : PaxosMessage) (s : Node) : Node :=
  s.queueInLearnLoop (.send msg.nodeId
    { type := .sendNowInstanceId, nodeId := s.nodeId, instanceId := msg.instanceId,
      nowInstanceId := s.learner.instanceId, minChosenInstanceId := s.minChosenId })

/-- `Learner::OnAskForLearn` sends the record if one is missing, and answers if more are. -/
def Learner.onAskForLearn (E : Env) (msg : PaxosMessage) (s : Node) : Node :=
  if msg.instanceId < s.learner.instanceId then
    if msg.instanceId = s.learner.instanceId - 1 then
      match s.db.get msg.instanceId with
      | some temp => s.sendMessage msg.nodeId (learnedMessage s temp)
      | none => s
    else if !E.isSendingCheckpoint then sendNowInstanceId msg s
    else s
  else s

/-- `Learner::OnSendNowInstanceId` asks for the records, or for a checkpoint if they are deleted. -/
def Learner.onSendNowInstanceId (msg : PaxosMessage) (s : Node) : Node :=
  if msg.instanceId = s.learner.instanceId ∧ s.learner.instanceId < msg.nowInstanceId then
    if s.learner.instanceId < msg.minChosenInstanceId then
      if !s.learner.isReceivingCheckpoint then
        let s := s.sendMessage msg.nodeId
          { type := .askForCheckpoint, nodeId := s.nodeId, instanceId := s.learner.instanceId }
        { s with learner := { s.learner with isReceivingCheckpoint := true } }
      else s
    else if !s.learner.isReceivingCheckpoint && !s.learner.isLearning then
      let s := s.sendMessage msg.nodeId
        { type := .comfirmAskForLearn, nodeId := s.nodeId, instanceId := s.learner.instanceId }
      { s with learner := { s.learner with isLearning := true } }
    else s
  else s

/-- `Learner::OnComfirmAskForLearn` queues the sending of the records from the asked id on. -/
def Learner.onComfirmAskForLearn (msg : PaxosMessage) (s : Node) : Node :=
  s.queueInLearnLoop (.aSyncSend msg.nodeId msg.instanceId s.learner.instanceId)

/-- `Learner::OnAskForCheckpoint` queues the sending of a checkpoint. -/
def Learner.onAskForCheckpoint (msg : PaxosMessage) (s : Node) : Node :=
  s.queueInLearnLoop (.sendCheckpoint msg.nodeId)

/-- `Learner::WriteToDB`: the sender of the message stands as the node of both ballots. -/
def Learner.writeToDB (E : Env) (msg : PaxosMessage) (s : Node) : Bool × Node :=
  s.put E
    { instanceId := msg.instanceId, promised := msg.ballot, accepted := msg.ballot,
      acceptedValue := msg.value }

/-- `Learner::OnSendLearnedValue` stores the value and learns it when the write succeeds. -/
def Learner.onSendLearnedValue (E : Env) (msg : PaxosMessage) (s : Node) : Node :=
  if msg.instanceId = s.learner.instanceId then
    let r := writeToDB E msg s
    if r.1 then broadcastMessageToFollower E msg.ballot (finishLearnValue msg.value r.2) else r.2
  else s

/-- `Learner::OnSendCheckpoint` for a message that does not end the process, without the files: the
learn timer is set anew. -/
def Learner.onSendCheckpoint (s : Node) : Node :=
  addLearnTimer (s.removeTimer s.learner.learnTimer)

/-- The next queued function of the learn loop; one pass of the loop of `ASyncSend` at a time. -/
def Learner.runLearnLoop (s : Node) : Node :=
  match s.learnTasks with
  | [] => s
  | .send dest msg :: ts => { s with learnTasks := ts }.sendMessage dest msg
  | .sendCheckpoint _ :: ts => { s with learnTasks := ts }
  | .aSyncSend dest fromId toId :: ts =>
    if fromId < toId then
      match s.db.get fromId with
      | some temp =>
        { s with learnTasks := .aSyncSend dest (fromId + 1) toId :: ts }.sendMessage dest
          (learnedMessage s temp)
      | none => { s with learnTasks := ts }
    else { s with learnTasks := ts }

/-! ## `OnPaxosMessage` -/

/-- The switch of `Instance::OnPaxosMessage`, which selects the handler by the type. -/
def Instance.handle (E : Env) (msg : PaxosMessage) : Node → Node :=
  match msg.type with
  | .prepare => Acceptor.onPrepare E msg
  | .accept => Acceptor.onAccpet E msg
  | .prepareReply => Proposer.onPrepareReply E msg
  | .acceptReply => Proposer.onAccpetReply E msg
  | .newChosenValue => Learner.onNewChosenValue E msg
  | .askForLearn => Learner.onAskForLearn E msg
  | .sendLearnedValue => Learner.onSendLearnedValue E msg
  | .sendNowInstanceId => Learner.onSendNowInstanceId msg
  | .comfirmAskForLearn => Learner.onComfirmAskForLearn msg
  | .askForCheckpoint => Learner.onAskForCheckpoint msg

/-- `Instance::OnPaxosMessage`: the frame around the handler that the type selects. -/
def Instance.onPaxosMessage (E : Env) (msg : PaxosMessage) (s : Node) : Node :=
  frame E (handle E msg) s

/-- The calls from inside the node are calls of `OnPaxosMessage`: at each of the five types, the
handler that is handed the message is the one that the switch selects. -/
theorem Instance.hand_eq (E : Env) (msg : PaxosMessage) (s : Node) :
    (msg.type = .prepare →
      hand E msg (Acceptor.onPrepare E msg) s = onPaxosMessage E msg (s.emit (.handed msg))) ∧
    (msg.type = .prepareReply →
      hand E msg (Proposer.onPrepareReply E msg) s = onPaxosMessage E msg (s.emit (.handed msg))) ∧
    (msg.type = .accept →
      hand E msg (Acceptor.onAccpet E msg) s = onPaxosMessage E msg (s.emit (.handed msg))) ∧
    (msg.type = .acceptReply →
      hand E msg (Proposer.onAccpetReply E msg) s = onPaxosMessage E msg (s.emit (.handed msg))) ∧
    (msg.type = .newChosenValue →
      hand E msg (Learner.onNewChosenValue E msg) s =
        onPaxosMessage E msg (s.emit (.handed msg))) := by
  refine ⟨?_, ?_, ?_, ?_, ?_⟩ <;> intro h <;> simp only [onPaxosMessage, handle, h, hand]

/-! ## Cleaning -/

/-- The scan of `LogCleaner::GCLoop` from `minChosenId`, in at most the given number of passes. -/
def LogCleaner.scan (keep maxChosenId checkpointId : ℕ) : ℕ → ℕ → ℕ
  | 0, minChosenId => minChosenId
  | n + 1, minChosenId =>
    if minChosenId + keep < maxChosenId ∧ minChosenId < checkpointId then
      scan keep maxChosenId checkpointId n (minChosenId + 1)
    else minChosenId

/-- `LogCleaner::GCLoop` up to the batch that deletes the records. -/
def LogCleaner.deleteBatch (E : Env) (s : Node) : Node :=
  let minChosenId := scan s.config.keepLogCount s.maxChosenId (s.oldestCheckpointId + 1)
    s.maxChosenId s.minChosenId
  if minChosenId = s.minChosenId then s
  else if E.putOk s.trace.length then
    { s with
      db := s.db.deleteRange s.minChosenId minChosenId
      cleanedTo := some minChosenId }
  else s

/-- `LogManager::SetMinChosenInstanceId` writes the minimum and then notes it. -/
def LogManager.setMinChosenInstanceId (E : Env) (id : ℕ) (s : Node) : Node :=
  if E.putOk s.trace.length then
    { s with db := { s.db with minChosen := some id }, minChosenId := id }
  else s

/-- The next part of `LogCleaner::GCLoop`. It runs in a loop of its own, so that the other loops may
run between the batch and `SetMinChosenInstanceId`. -/
def LogCleaner.gcLoop (E : Env) (s : Node) : Node :=
  match s.cleanedTo with
  | none => deleteBatch E s
  | some id => LogManager.setMinChosenInstanceId E id { s with cleanedTo := none }

/-- A finished checkpoint round of the machines at the last executed instance: `UpdateCheckpoint`
renames the temporary directory, then `CleanCheckpoint` runs. In the source the machines write in
their own threads and the round may end any number of instances later; here it ends before the next
instance is executed, so that the machines are saved as they are. `Publishing` and `Cleaning` have
the rounds with their threads. -/
def MachineManager.finishCheckpoint (s : Node) : Node :=
  let dirs := (s.instanceId - 1, s.machines) :: s.checkpoints
  let c := cleanCheckpoint s.config.keepCheckpointCount (dirs.map Prod.fst)
  { s with checkpoints := dirs.filter fun d => d.1 ∉ c.deleted, oldestCheckpointId := c.oldest }

end Skywalker
