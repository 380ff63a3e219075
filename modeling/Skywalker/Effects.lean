import Skywalker.Actions

/-!
# The effects of the actions

What the pieces of an action leave as it was and what they change: quiet changes, the acceptor's
decisions, the proposer's counting of replies, the node's own promise at the start of a round, the
execution of a learned value and the cleaning of the log. From these, every action keeps a node
well formed, and `Act.outerChange` says what it does to the fields outside the three roles.
-/

namespace Skywalker

variable {x y : Node} {net : PaxosMessage → Prop}

/-! ## Quiet changes -/

namespace Quiet

/-- A node that does not change at all changes quietly. -/
theorem refl (x : Node) : Quiet x x where
  config := rfl
  acceptor := rfl
  instanceId := rfl
  learnerId := rfl
  hasLearned := rfl
  learnedValue := rfl
  proposerId := rfl
  proposalId := rfl
  maxBallot := rfl
  value := rfl
  skipPrepare := rfl
  counter := rfl
  preparing := id
  accepting := id
  wasRejected := id
  isProposing := rfl
  context := rfl
  proposeValue := rfl
  groupNow := rfl
  machines := rfl
  db := rfl
  checkpoints := rfl
  minChosenId := rfl
  cleanedTo := rfl
  maxChosenId := rfl
  oldestCheckpointId := rfl
  timers _ _ h := h
  learnTasks _ h := Or.inl h
  trace := ⟨[], rfl, by simp⟩

theorem emit (x : Node) {e : Event} (he : e.isQuiet = true) : Quiet x (x.emit e) :=
  { refl x with
    trace := ⟨[e], rfl, by simpa using he⟩ }

theorem removeTimer (x : Node) (id : ℕ) : Quiet x (x.removeTimer id) :=
  { refl x with
    timers := fun _ _ h => (List.mem_filter.mp h).1 }

theorem setMaxProposalId (m : PaxosMessage) (x : Node) :
    Quiet x (Proposer.setMaxProposalId m x) :=
  { refl x with
    wasRejected := fun h => by simp [Proposer.setMaxProposalId, h] }

theorem addLearnTimer (x : Node) : Quiet x (Learner.addLearnTimer x) :=
  { refl x with
    timers := fun i j h => by
      rcases List.mem_cons.mp h with h | h
      · cases h
      · exact h }

theorem queueInLearnLoop (x : Node) {t : LearnTask} (ht : t.Bounded x.learner.instanceId) :
    Quiet x (x.queueInLearnLoop t) :=
  { refl x with
    learnTasks := fun u hu => by
      rcases List.mem_append.mp hu with h | h
      · exact Or.inl h
      · rw [List.mem_singleton.mp h]; exact Or.inr ht }

theorem dropLearnTasks (x : Node) {ts : List LearnTask}
    (h : ∀ t ∈ ts, t ∈ x.learnTasks ∨ t.Bounded x.learner.instanceId) :
    Quiet x { x with learnTasks := ts } :=
  { refl x with learnTasks := h }

theorem setLearner (x : Node) (isLearning isReceiving : Bool) :
    Quiet x { x with learner := { x.learner with
      isLearning := isLearning, isReceivingCheckpoint := isReceiving } } :=
  { refl x with }

/-- A timer starts a round without any other change. -/
theorem of_roundStart {v : PaxosValue} (h : RoundStart x v y) : Quiet x y := by
  rcases h with ⟨rfl, -⟩ | ⟨id, -, rfl, -⟩
  · exact refl y
  · exact removeTimer x id

end Quiet

/-! ## What the acceptor leaves alone -/

namespace Acceptor

/-- In the next instance nothing is accepted, and the promise is kept. -/
theorem nextInstance_eq (a : Acceptor) : a.nextInstance =
    { a with instanceId := a.instanceId + 1, acceptedBallot := {}, acceptedValue := {} } := by
  rw [nextInstance, setInstanceId, if_pos (Nat.ne_of_lt (Nat.lt_succ_self _))]

variable (E : Env) (m : PaxosMessage) (x : Node)

theorem takePrepare_frame : ∃ a db trace,
    (takePrepare E m x).2 = { x with acceptor := a, db := db, trace := trace } := by
  by_cases h : x.acceptor.promisedBallot ≤ m.ballot
  · rw [takePrepare, if_pos h]
    exact ⟨_, _, _, rfl⟩
  · rw [takePrepare, if_neg h]
    exact ⟨x.acceptor, x.db, x.trace, rfl⟩

theorem takeAccept_frame : ∃ a db trace,
    (takeAccept E m x).2 = { x with acceptor := a, db := db, trace := trace } := by
  by_cases h : x.acceptor.promisedBallot ≤ m.ballot
  · rw [takeAccept, if_pos h]
    exact ⟨_, _, _, rfl⟩
  · rw [takeAccept, if_neg h]
    exact ⟨x.acceptor, x.db, x.trace, rfl⟩

theorem answer_frame (dest : ℕ) (reply : PaxosMessage) : ∃ trace,
    answer dest reply x = { x with trace := trace } := by
  by_cases h : dest = x.nodeId
  · rw [answer, if_pos h]
    exact ⟨_, rfl⟩
  · rw [answer, if_neg h]
    exact ⟨_, rfl⟩

/-- Every reply to a `PREPARE` names the node, the instance and the proposal id. -/
theorem takePrepare_reply : (takePrepare E m x).1.type = .prepareReply ∧
    (takePrepare E m x).1.nodeId = x.nodeId ∧ (takePrepare E m x).1.instanceId = m.instanceId ∧
    (takePrepare E m x).1.proposalId = m.proposalId := by
  unfold takePrepare
  split_ifs
  · unfold promise
    split_ifs <;> exact ⟨rfl, rfl, rfl, rfl⟩
  · exact ⟨rfl, rfl, rfl, rfl⟩

/-- Every reply to an `ACCEPT` names the node, the instance and the proposal id. -/
theorem takeAccept_reply : (takeAccept E m x).1.type = .acceptReply ∧
    (takeAccept E m x).1.nodeId = x.nodeId ∧ (takeAccept E m x).1.instanceId = m.instanceId ∧
    (takeAccept E m x).1.proposalId = m.proposalId := by
  unfold takeAccept
  split_ifs <;> exact ⟨rfl, rfl, rfl, rfl⟩

end Acceptor

/-! ## Counting and executing -/

namespace Proposer

variable (m : PaxosMessage) (p : Proposer)

theorem countPrepareReply_frame :
    ∃ b v, p.countPrepareReply m =
      { p with counter := p.counter.add m, maxBallot := b, value := v } := by
  unfold countPrepareReply
  dsimp only
  split_ifs
  · exact ⟨_, _, rfl⟩
  · exact ⟨p.maxBallot, p.value, rfl⟩

@[simp]
theorem countPrepareReply_instanceId : (p.countPrepareReply m).instanceId = p.instanceId := by
  obtain ⟨b, v, h⟩ := countPrepareReply_frame m p
  rw [h]

@[simp]
theorem countPrepareReply_proposalId : (p.countPrepareReply m).proposalId = p.proposalId := by
  obtain ⟨b, v, h⟩ := countPrepareReply_frame m p
  rw [h]

@[simp]
theorem countPrepareReply_preparing : (p.countPrepareReply m).preparing = p.preparing := by
  obtain ⟨b, v, h⟩ := countPrepareReply_frame m p
  rw [h]

@[simp]
theorem countPrepareReply_accepting : (p.countPrepareReply m).accepting = p.accepting := by
  obtain ⟨b, v, h⟩ := countPrepareReply_frame m p
  rw [h]

@[simp]
theorem countPrepareReply_skipPrepare : (p.countPrepareReply m).skipPrepare = p.skipPrepare := by
  obtain ⟨b, v, h⟩ := countPrepareReply_frame m p
  rw [h]

@[simp]
theorem countPrepareReply_counter : (p.countPrepareReply m).counter = p.counter.add m := by
  obtain ⟨b, v, h⟩ := countPrepareReply_frame m p
  rw [h]

/-- The proposal id of the next round that `Prepare` starts. -/
def nextProposalId (p : Proposer) : ℕ := (p.newRound p.wasRejectedBySomeone).proposalId

/-- Proposal ids do not fall. -/
theorem le_nextProposalId : p.proposalId ≤ p.nextProposalId := by
  unfold nextProposalId newRound
  dsimp only
  split_ifs <;> omega

end Proposer

/-! ## The node's own promise -/

namespace Proposer

variable (E : Env) (v : PaxosValue) (x : Node)

/-- The ballot of the next round. -/
def nextBallot : BallotNumber := ⟨x.proposer.nextProposalId, x.nodeId⟩

/-- The reply of the node's own acceptor to the `PREPARE` of the next round. -/
def ownReply : PaxosMessage :=
  (Acceptor.takePrepare E (prepareMessage (openRound v x)) (openRound v x)).1

/-- The proposer of a round in which only the own reply is counted. -/
theorem beginRound_proposer : (beginRound E v x).proposer =
    (openRound v x).proposer.countPrepareReply (ownReply E v x) := by
  obtain ⟨a, db, trace, h⟩ :=
    Acceptor.takePrepare_frame E (prepareMessage (openRound v x)) (openRound v x)
  simp only [beginRound, Node.emit, h]
  rfl

theorem beginRound_instanceId :
    (beginRound E v x).proposer.instanceId = x.proposer.instanceId := by
  rw [beginRound_proposer, countPrepareReply_instanceId]
  rfl

theorem beginRound_proposalId :
    (beginRound E v x).proposer.proposalId = x.proposer.nextProposalId := by
  rw [beginRound_proposer, countPrepareReply_proposalId]
  rfl

theorem openRound_frame : ∃ p nextTimer timers trace, openRound v x =
    { x with proposer := p, nextTimer := nextTimer, timers := timers, trace := trace } := by
  unfold openRound startPrepare addRetryTimer Node.runAfter Node.broadcastMessage Node.emit
  dsimp only
  exact ⟨_, _, _, _, rfl⟩

theorem startAccept_frame : ∃ p nextTimer timers trace, startAccept x =
    { x with proposer := p, nextTimer := nextTimer, timers := timers, trace := trace } := by
  unfold startAccept addRetryTimer Node.runAfter Node.broadcastMessage Node.emit
  dsimp only
  exact ⟨_, _, _, _, rfl⟩

theorem passPrepare_frame : ∃ p nextTimer timers trace, passPrepare x =
    { x with proposer := p, nextTimer := nextTimer, timers := timers, trace := trace } := by
  obtain ⟨p, nextTimer, timers, trace, h⟩ := startAccept_frame (removeRetryTimer
    { x.emit (.preparePassed x.proposer.instanceId x.proposer.proposalId) with
      proposer := { x.proposer with preparing := false, skipPrepare := true } })
  exact ⟨p, nextTimer, timers, trace, h⟩

/-- Outside the proposer, the acceptor, the log, the timers and the trace a round changes
nothing. -/
theorem beginRound_frame : ∃ p a db nextTimer timers trace, beginRound E v x =
    { x with proposer := p, acceptor := a, db := db, nextTimer := nextTimer, timers := timers,
             trace := trace } := by
  obtain ⟨a, db, trace, htake⟩ :=
    Acceptor.takePrepare_frame E (prepareMessage (openRound v x)) (openRound v x)
  obtain ⟨p, nextTimer, timers, trace', hopen⟩ := openRound_frame v x
  rw [hopen] at htake
  unfold beginRound
  dsimp only
  rw [hopen, htake]
  exact ⟨_, _, _, _, _, _, rfl⟩

/-- What a round does once its start is open is the decision of the own acceptor, and the count. -/
theorem beginRound_take :
    (beginRound E v x).acceptor =
      (Acceptor.takePrepare E (prepareMessage (openRound v x)) (openRound v x)).2.acceptor ∧
    (beginRound E v x).db =
      (Acceptor.takePrepare E (prepareMessage (openRound v x)) (openRound v x)).2.db ∧
    (beginRound E v x).instanceId =
      (Acceptor.takePrepare E (prepareMessage (openRound v x)) (openRound v x)).2.instanceId ∧
    (beginRound E v x).learner =
      (Acceptor.takePrepare E (prepareMessage (openRound v x)) (openRound v x)).2.learner ∧
    (beginRound E v x).trace =
      .handed (Acceptor.takePrepare E (prepareMessage (openRound v x)) (openRound v x)).1 ::
        (Acceptor.takePrepare E (prepareMessage (openRound v x)) (openRound v x)).2.trace := by
  unfold beginRound Node.emit
  exact ⟨rfl, rfl, rfl, rfl, rfl⟩

variable {x}

/-- The own acceptor promises when it has promised nothing higher. -/
theorem ownReply_of_le (h : x.acceptor.promisedBallot ≤ nextBallot x) :
    ownReply E v x = Acceptor.promise (prepareMessage (openRound v x)) (openRound v x) := by
  unfold ownReply Acceptor.takePrepare
  rw [if_pos]
  exact h

/-- Where the node has promised more than its own next ballot, its reply is a rejection. -/
theorem ownReply_of_not_le (h : ¬ x.acceptor.promisedBallot ≤ nextBallot x) :
    ownReply E v x =
      Acceptor.rejection .prepareReply (prepareMessage (openRound v x)) (openRound v x) := by
  unfold ownReply Acceptor.takePrepare
  rw [if_neg]
  exact h

/-- A rejection names a proposal id, so that it is counted as one. -/
theorem ownReply_rejectedId (hw : 1 ≤ x.proposer.proposalId) :
    (ownReply E v x).rejectedId = 0 ↔ x.acceptor.promisedBallot ≤ nextBallot x := by
  constructor
  · intro h0
    by_contra hle
    rw [ownReply_of_not_le E v hle] at h0
    have hlt := BallotNumber.proposalId_le (le_of_lt (not_le.mp hle))
    have hrej : x.acceptor.promisedBallot.proposalId = 0 := h0
    have hnext : x.proposer.proposalId ≤ (nextBallot x).proposalId := le_nextProposalId x.proposer
    omega
  · intro hle
    rw [ownReply_of_le E v hle]
    unfold Acceptor.promise
    split_ifs <;> rfl

/-- When the own reply is a promise, the acceptor's value is the value of the round. -/
theorem beginRound_value_of_le (h : x.acceptor.promisedBallot ≤ nextBallot x)
    (hacc : 0 < x.acceptor.acceptedBallot.proposalId) :
    (beginRound E v x).proposer.value = x.acceptor.acceptedValue ∧
      (beginRound E v x).proposer.maxBallot = x.acceptor.acceptedBallot := by
  have hreply : ownReply E v x =
      { Acceptor.replyTo .prepareReply (prepareMessage (openRound v x)) (openRound v x) with
        preAcceptedId := x.acceptor.acceptedBallot.proposalId
        preAcceptedNodeId := x.acceptor.acceptedBallot.nodeId
        value := x.acceptor.acceptedValue } := by
    rw [ownReply_of_le E v h]
    unfold Acceptor.promise
    rw [if_pos]
    · rfl
    · exact hacc
  have hlt : ({} : BallotNumber) < x.acceptor.acceptedBallot := by
    rw [← not_le, BallotNumber.le_iff]
    simp only
    omega
  rw [beginRound_proposer]
  unfold countPrepareReply
  dsimp only
  rw [if_pos]
  · rw [hreply]
    exact ⟨rfl, rfl⟩
  · rw [hreply]
    exact ⟨rfl, hlt⟩

/-- A round that passes on the own reply alone was promised. -/
theorem promised_of_passed (hw : 1 ≤ x.proposer.proposalId)
    (hpass : isPassedOnThisRound (beginRound E v x) = true) :
    x.acceptor.promisedBallot ≤ nextBallot x := by
  rw [← ownReply_rejectedId E v hw]
  by_contra hne
  have hmaj : 1 ≤ (beginRound E v x).getMajoritySize := by
    unfold Node.getMajoritySize
    omega
  have hzero : (beginRound E v x).proposer.counter.promisorsOrAcceptors = ∅ := by
    rw [beginRound_proposer, countPrepareReply_counter]
    unfold Counter.add
    dsimp only
    rw [if_neg hne]
    rfl
  have hcard : (beginRound E v x).getMajoritySize ≤
      (beginRound E v x).proposer.counter.promisorsOrAcceptors.card := by
    simpa [isPassedOnThisRound] using hpass
  rw [hzero, Finset.card_empty] at hcard
  omega

end Proposer

/-- An `Execute` that fails leaves the machines as they were. -/
theorem Machines.execute_of_false {codec : Codec} {now : ℕ} {userResult : Bool}
    {context : Option ℕ} {instanceId : ℕ} {value : PaxosValue} {ms : Machines}
    (h : (ms.execute codec now userResult context instanceId value).1 = false) :
    (ms.execute codec now userResult context instanceId value).2 = ms := by
  revert h
  unfold Machines.execute
  split_ifs
  · unfold Membership.execute
    split_ifs
    · exact fun _ => rfl
    · cases codec.parseMemberChange value.userData with
      | none => exact fun _ => rfl
      | some c =>
        cases hc : applyChanges c.type c.member ms.membership with
        | none => exact fun _ => by simp [hc]
        | some ms' => exact fun h => by simp [hc] at h
  · unfold MasterState.execute
    split_ifs
    · exact fun _ => rfl
    · cases codec.parseMasterState value.userData with
      | none => exact fun _ => rfl
      | some st => exact fun h => by cases h
  · exact fun _ => rfl

namespace Instance

variable (E : Env) (x : Node)

/-- The context that `MachineExecute` hands over. -/
def executeContext : Option ℕ := if isMine x then x.context.map x.deref else none

/-- The call of `MachineManager::Execute` in `CheckLearn`. -/
def execution : Bool × Machines :=
  x.machines.execute x.config.codec E.nowMillis (E.executeOk x.trace.length) (executeContext x)
    x.instanceId x.learner.learnedValue

/-- What `CheckLearn` appends to the trace. -/
def executionEvents : List Event :=
  (if x.isProposing then
    [.completed x.instanceId (learnStatus (execution E x).1 (isMine x) x.learner.learnedValue)]
  else []) ++
  [.executed x.instanceId x.learner.learnedValue (executeContext x) (execution E x).1]

theorem deref_removeTimer (id : ℕ) : (x.removeTimer id).deref = x.deref := by
  funext c
  cases c <;> rfl

/-- The node after the call, before `CheckLearn` looks at the result. -/
def afterExecute : Node :=
  { x with
    machines := (execution E x).2
    isProposing := false
    context := if x.isProposing then none else x.context
    timers := if x.isProposing then (x.removeTimer x.proposeTimer).timers else x.timers
    trace := executionEvents E x ++ x.trace }

/-- The result of `executeLearned` and the node after it, field by field. -/
theorem executeLearned_eq : executeLearned E x = ((execution E x).1, afterExecute E x) := by
  cases h : x.isProposing with
  | false =>
    simp [executeLearned, machineExecute, afterExecute, execution, executionEvents, executeContext,
      isMine, h]
  | true =>
    simp only [executeLearned, machineExecute, h, if_true, deref_removeTimer]
    simp [afterExecute, execution, executionEvents, executeContext, isMine, h, complete,
      Node.removeTimer]

variable {E x}

/-- When `Execute` succeeds, `CheckLearn` goes on to the next instance. -/
theorem checkLearn_of_true (hl : x.learner.hasLearned = true) (h : (execution E x).1 = true) :
    checkLearn E x = nextInstance (afterExecute E x) := by
  simp [checkLearn, hl, executeLearned_eq, h]

/-- When `Execute` fails, `CheckLearn` stays at the instance. -/
theorem checkLearn_of_false (hl : x.learner.hasLearned = true) (h : (execution E x).1 = false) :
    checkLearn E x = { afterExecute E x with
      proposer := x.proposer.setNoSkipPrepare } := by
  simp [checkLearn, hl, executeLearned_eq, h, afterExecute]

end Instance

/-- The start of a proposal touches the fields of the proposal and the timers, and appends one
entry. -/
theorem Instance.startPropose_frame (E : Env) (machineId : ℕ) (value : List UInt8)
    (context : Option Context) (draw : ℕ) (x : Node) :
    ∃ v proposeTimer seqNum nextTimer timers,
      startPropose E machineId value context draw x =
        { x with isProposing := true, context := context, proposeValue := v,
                 proposeTimer := proposeTimer, seqNum := seqNum, nextTimer := nextTimer,
                 timers := timers, trace := .proposed x.instanceId E.nowMillis v :: x.trace } := by
  unfold startPropose Node.runAfter Node.emit getPaxosValueId
  dsimp only
  exact ⟨_, _, _, _, _, rfl⟩

theorem Learner.broadcastMessageToFollower_frame (E : Env) (ballot : BallotNumber) (x : Node) :
    ∃ trace, broadcastMessageToFollower E ballot x = { x with trace := trace } := by
  by_cases h : E.followers = []
  · rw [broadcastMessageToFollower, if_pos h]
    exact ⟨x.trace, rfl⟩
  · rw [broadcastMessageToFollower, if_neg h]
    exact ⟨_, rfl⟩

/-- What a part of `GCLoop` does. -/
inductive LogCleaner.Part (E : Env) (x : Node) : Node → Prop where
  /-- There is nothing to delete, or the batch fails. -/
  | idle (hidle : x.cleanedTo = none) : Part E x x
  /-- The records below the new minimum are deleted in one batch. -/
  | batch (m : ℕ) (hidle : x.cleanedTo = none)
      (hm : m = scan x.config.keepLogCount x.maxChosenId (x.oldestCheckpointId + 1) x.maxChosenId
        x.minChosenId) (hput : E.putOk x.trace.length = true) :
      Part E x { x with db := x.db.deleteRange x.minChosenId m, cleanedTo := some m }
  /-- The new minimum is set. -/
  | set (m : ℕ) (hbatch : x.cleanedTo = some m) (hput : E.putOk x.trace.length = true) :
      Part E x
        { x with db := { x.db with minChosen := some m }, minChosenId := m, cleanedTo := none }
  /-- The new minimum cannot be written. -/
  | unset (m : ℕ) (hbatch : x.cleanedTo = some m) (hput : E.putOk x.trace.length = false) :
      Part E x { x with cleanedTo := none }

/-- `GCLoop` does one of its parts. -/
theorem LogCleaner.gcLoop_part (E : Env) (x : Node) : Part E x (gcLoop E x) := by
  unfold gcLoop
  cases hbatch : x.cleanedTo with
  | none =>
    dsimp only
    unfold deleteBatch
    dsimp only
    split_ifs with hsame hput
    · exact .idle hbatch
    · exact .batch _ hbatch rfl hput
    · exact .idle hbatch
  | some m =>
    dsimp only
    unfold LogManager.setMinChosenInstanceId
    split_ifs with hput
    · exact .set m hbatch hput
    · exact .unset m hbatch (Bool.eq_false_of_not_eq_true hput)

theorem LogCleaner.gcLoop_frame (E : Env) (x : Node) :
    ∃ db m g, gcLoop E x = { x with db := db, minChosenId := m, cleanedTo := g } := by
  have hpart := gcLoop_part E x
  generalize gcLoop E x = y at hpart ⊢
  cases hpart with
  | idle => exact ⟨x.db, x.minChosenId, x.cleanedTo, rfl⟩
  | batch m => exact ⟨_, x.minChosenId, some m, rfl⟩
  | set m => exact ⟨_, m, none, rfl⟩
  | unset m => exact ⟨x.db, x.minChosenId, none, rfl⟩

/-! ## Well-formedness -/

theorem LearnTask.Bounded.mono {t : LearnTask} {i j : ℕ} (h : t.Bounded i) (hij : i ≤ j) :
    t.Bounded j := by
  cases t with
  | send => exact h
  | aSyncSend => exact le_trans h hij
  | sendCheckpoint => trivial

section Handlers

variable {R : Rules} {E : Env}

/-- A quiet step keeps a node well formed. -/
theorem Quiet.wf (h : Quiet x y) (hw : x.WF) : y.WF where
  acceptorId := by rw [h.acceptor, h.instanceId, hw.acceptorId]
  learnerId := by rw [h.learnerId, h.instanceId, hw.learnerId]
  proposerId := by rw [h.proposerId, h.instanceId, hw.proposerId]
  phase hp := by
    have hacc := hw.phase (h.preparing hp)
    by_contra hne
    have := h.accepting (by simpa using hne)
    simp [hacc] at this
  proposalId := by rw [h.proposalId]; exact hw.proposalId
  learnTasks t ht := by
    rw [h.instanceId]
    rcases h.learnTasks t ht with hold | hnew
    · exact hw.learnTasks t hold
    · rwa [hw.learnerId] at hnew

theorem Node.WF.takePrepare (hw : x.WF) (m : PaxosMessage) :
    (Acceptor.takePrepare E m x).2.WF := by
  by_cases h : x.acceptor.promisedBallot ≤ m.ballot
  · rw [Acceptor.takePrepare, if_pos h]
    exact { hw with }
  · rw [Acceptor.takePrepare, if_neg h]
    exact hw

theorem Node.WF.takeAccept (hw : x.WF) (m : PaxosMessage) :
    (Acceptor.takeAccept E m x).2.WF := by
  by_cases h : x.acceptor.promisedBallot ≤ m.ballot
  · rw [Acceptor.takeAccept, if_pos h]
    exact { hw with }
  · rw [Acceptor.takeAccept, if_neg h]
    exact hw

theorem Node.WF.answer (hw : x.WF) (dest : ℕ) (reply : PaxosMessage) :
    (Acceptor.answer dest reply x).WF := by
  obtain ⟨trace, hframe⟩ := Acceptor.answer_frame x dest reply
  rw [hframe]
  exact { hw with }

theorem Node.WF.openRound (hw : x.WF) (v : PaxosValue) :
    (Proposer.openRound v x).WF :=
  { hw with
    phase := fun _ => rfl
    proposalId := hw.proposalId.trans (Proposer.le_nextProposalId x.proposer) }

theorem Node.WF.countPrepare (hw : x.WF) (m : PaxosMessage) :
    ({ x with proposer := x.proposer.countPrepareReply m } : Node).WF :=
  { hw with
    proposerId := by simpa using hw.proposerId
    phase := by simpa using hw.phase
    proposalId := by simpa using hw.proposalId }

theorem Node.WF.beginRound (hw : x.WF) (v : PaxosValue) :
    (Proposer.beginRound E v x).WF := by
  have htake := (hw.openRound v).takePrepare (E := E)
    (Proposer.prepareMessage (Proposer.openRound v x))
  have hemit : ((Acceptor.takePrepare E (Proposer.prepareMessage (Proposer.openRound v x))
      (Proposer.openRound v x)).2.emit (.handed (Acceptor.takePrepare E
        (Proposer.prepareMessage (Proposer.openRound v x)) (Proposer.openRound v x)).1)).WF :=
    { htake with }
  exact hemit.countPrepare _

/-- `CheckLearn` moves the four ids together, or none of them. -/
theorem Node.WF.checkLearn (hw : x.WF) (hl : x.learner.hasLearned = true) :
    (Instance.checkLearn E x).WF := by
  cases h : (Instance.execution E x).1 with
  | false =>
    rw [Instance.checkLearn_of_false hl h]
    exact { hw with }
  | true =>
    rw [Instance.checkLearn_of_true hl h]
    refine { hw with acceptorId := ?_, learnerId := ?_, proposerId := ?_, learnTasks := ?_ }
    · simp [Instance.nextInstance, Acceptor.nextInstance_eq, Instance.afterExecute, hw.acceptorId]
    · simp [Instance.nextInstance, Learner.nextInstance, Instance.afterExecute, hw.learnerId]
    · simp [Instance.nextInstance, Proposer.nextInstance, Instance.afterExecute, hw.proposerId]
    · intro t ht
      exact (hw.learnTasks t ht).mono (Nat.le_succ _)

/-- Every action does so too. -/
theorem Act.wf (h : Act R E net x y) (hw : x.WF) : y.WF := by
  cases h with
  | quiet h => exact h.wf hw
  | setNow => exact { hw with }
  | propose machineId value context draw =>
    obtain ⟨v, pt, sn, nt, ts, hframe⟩ :=
      Instance.startPropose_frame E machineId value context draw x
    rw [hframe]
    exact { hw with }
  | timeout => exact { hw with phase := fun h => by cases h }
  | openRound y v hstart => exact ((Quiet.of_roundStart hstart).wf hw).openRound v
  | beginRound y v hstart =>
    exact ((Quiet.of_roundStart hstart).wf hw).beginRound v
  | takePrepare m => exact (hw.takePrepare m).answer _ _
  | countPrepare m => exact hw.countPrepare m
  | passPrepare | directAccept => exact { hw with phase := fun h => by cases h }
  | takeAccept m => exact (hw.takeAccept m).answer _ _
  | countAccept => exact { hw with }
  | passAccept => exact { hw with phase := fun _ => rfl }
  | giveUp => exact { hw with phase := fun h => by cases h }
  | learn | learnValue => exact { hw with }
  | tellFollowers ballot =>
    obtain ⟨trace, hframe⟩ := Learner.broadcastMessageToFollower_frame E ballot x
    rw [hframe]
    exact { hw with }
  | checkLearn hl => exact hw.checkLearn hl
  | serve | finishCheckpoint => exact { hw with }
  | gcLoop =>
    obtain ⟨db, m, g, hframe⟩ := LogCleaner.gcLoop_frame E x
    rw [hframe]
    exact { hw with }

end Handlers

/-! ## What the actions change outside the roles -/

/-- The fields outside the roles, the log, the timers, the learn loop and the trace are as they
were. -/
structure Unmoved (x y : Node) : Prop where
  config : y.config = x.config
  instanceId : y.instanceId = x.instanceId
  isProposing : y.isProposing = x.isProposing
  context : y.context = x.context
  proposeValue : y.proposeValue = x.proposeValue
  groupNow : y.groupNow = x.groupNow
  machines : y.machines = x.machines
  checkpoints : y.checkpoints = x.checkpoints
  minChosenId : y.minChosenId = x.minChosenId
  cleanedTo : y.cleanedTo = x.cleanedTo
  maxChosenId : y.maxChosenId = x.maxChosenId

theorem Unmoved.refl (x : Node) : Unmoved x x :=
  ⟨rfl, rfl, rfl, rfl, rfl, rfl, rfl, rfl, rfl, rfl, rfl⟩

theorem Quiet.unmoved (h : Quiet x y) : Unmoved x y where
  config := h.config
  instanceId := h.instanceId
  isProposing := h.isProposing
  context := h.context
  proposeValue := h.proposeValue
  groupNow := h.groupNow
  machines := h.machines
  checkpoints := h.checkpoints
  minChosenId := h.minChosenId
  cleanedTo := h.cleanedTo
  maxChosenId := h.maxChosenId

/-- The ways in which those fields change. -/
inductive OuterChange (R : Rules) (E : Env) : Node → Node → Prop where
  /-- The outer parts of the node stay as they are. -/
  | same {x y : Node} (h : Unmoved x y) : OuterChange R E x y
  /-- `TryBeMasterInLoop` notes the time before it proposes. -/
  | setNow {x : Node} (hidle : x.isProposing = false) :
      OuterChange R E x { x with groupNow := E.nowMillis }
  /-- `OnPropose` builds a value and takes it as the node's proposal. -/
  | propose {x : Node} (machineId : ℕ) (value : List UInt8) (context : Option Context) (draw : ℕ)
      (hidle : x.isProposing = false) (hdraw : drawOk draw = true)
      (hvalid : x.isValidNodeId x.nodeId = true) (hrule : R.propose E x machineId value context) :
      OuterChange R E x (Instance.startPropose E machineId value context draw x)
  /-- The propose timer ends the outstanding proposal. -/
  | timeout {x : Node} : OuterChange R E x (Instance.onProposeTimeout x)
  /-- The learned value is executed, and the node moves on. -/
  | executed {x : Node} (hl : x.learner.hasLearned = true)
      (hok : (Instance.execution E x).1 = true) :
      OuterChange R E x (Instance.nextInstance (Instance.afterExecute E x))
  /-- The execution of the learned value fails. -/
  | failed {x : Node} (hl : x.learner.hasLearned = true)
      (hok : (Instance.execution E x).1 = false) :
      OuterChange R E x
        { Instance.afterExecute E x with proposer := x.proposer.setNoSkipPrepare }
  /-- The machines finish a checkpoint. -/
  | finishCheckpoint {x : Node} (hid : 1 < x.instanceId)
      (hnew : x.instanceId - 1 ∉ x.checkpoints.map Prod.fst) (hrule : R.checkpoint) :
      OuterChange R E x (MachineManager.finishCheckpoint x)
  /-- `LogCleaner::GCLoop` runs the next of its parts. -/
  | gcLoop {x : Node} (db : DB) (m : ℕ) (g : Option ℕ) (hrule : R.clean)
      (hframe : LogCleaner.gcLoop E x = { x with db := db, minChosenId := m, cleanedTo := g }) :
      OuterChange R E x (LogCleaner.gcLoop E x)

/-- **What an action does outside the roles.** -/
theorem Act.outerChange {R : Rules} {E : Env} (h : Act R E net x y) : OuterChange R E x y := by
  cases h with
  | quiet h => exact .same h.unmoved
  | setNow hidle => exact .setNow hidle
  | propose machineId value context draw hidle hdraw hvalid hrule =>
    exact .propose machineId value context draw hidle hdraw hvalid hrule
  | timeout => exact .timeout
  | openRound z v hstart =>
    obtain ⟨p, nt, ts, trace, hframe⟩ := Proposer.openRound_frame v z
    rw [hframe]
    exact .same { (Quiet.of_roundStart hstart).unmoved with }
  | beginRound z v hstart =>
    obtain ⟨p, a, db, nt, ts, trace, hframe⟩ := Proposer.beginRound_frame E v z
    rw [hframe]
    exact .same { (Quiet.of_roundStart hstart).unmoved with }
  | takePrepare m =>
    -- The decision touches the acceptor and the log, and the answer the trace.
    obtain ⟨a, db, trace, hframe⟩ := Acceptor.takePrepare_frame E m x
    obtain ⟨trace', hanswer⟩ := Acceptor.answer_frame (Acceptor.takePrepare E m x).2 m.nodeId
      (Acceptor.takePrepare E m x).1
    rw [hanswer, hframe]
    exact .same { Unmoved.refl x with }
  | takeAccept m =>
    obtain ⟨a, db, trace, hframe⟩ := Acceptor.takeAccept_frame E m x
    obtain ⟨trace', hanswer⟩ := Acceptor.answer_frame (Acceptor.takeAccept E m x).2 m.nodeId
      (Acceptor.takeAccept E m x).1
    rw [hanswer, hframe]
    exact .same { Unmoved.refl x with }
  | tellFollowers ballot =>
    obtain ⟨trace, hframe⟩ := Learner.broadcastMessageToFollower_frame E ballot x
    rw [hframe]
    exact .same { Unmoved.refl x with }
  | checkLearn hl =>
    cases hok : (Instance.execution E x).1 with
    | true =>
      rw [Instance.checkLearn_of_true hl hok]
      exact .executed hl hok
    | false =>
      rw [Instance.checkLearn_of_false hl hok]
      exact .failed hl hok
  | finishCheckpoint hid hnew hrule => exact .finishCheckpoint hid hnew hrule
  | gcLoop hrule =>
    obtain ⟨db, m, g, hframe⟩ := LogCleaner.gcLoop_frame E x
    exact .gcLoop db m g hrule hframe
  | passPrepare =>
    obtain ⟨p, nt, ts, trace, hframe⟩ := Proposer.passPrepare_frame x
    rw [hframe]
    exact .same { Unmoved.refl x with }
  | _ => exact .same { Unmoved.refl x with }

end Skywalker
