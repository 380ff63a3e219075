import Mathlib.Data.Finset.Max
import Skywalker.CatchUp
import Skywalker.Outbidding

/-!
# An undisturbed proposal gets through

Competing proposers can keep a group of acceptors from choosing a value for ever. What the protocol
promises is that a proposer which nobody disturbs gets through: whatever ballots the acceptors have
promised before, from every state that a run reaches, a node whose members include a majority at its
instance can complete a proposal by events of this majority alone (`proposal_gets_through`).

Two rounds are enough. In the first the node may be rejected, by its own acceptor and by others; the
acceptor with the largest promise tells it the proposal id that it has to outbid. Its retry timer
starts the second round, under a ballot that is above all promises of the majority: all of them
promise, then all of them accept, and the learner of the node executes the value.

The handlers call each other, so that a reply can lead through the rest of the round to the
execution of the value, in a group of one even the proposal itself. The lemmas of each phase say
what holds after a call whether or not the phase passed in its course (`Attempt.Accepts`,
`Attempt.Prepares`), and each uses those of the phase after it.
-/

namespace Skywalker

open TransitionSystem

variable {m msg : PaxosMessage} {b : BallotNumber} {n p q : ℕ} {s : Sys} {x : Node} {got : Finset ℕ}

/-! ## A proposal under way -/

/-- What is fixed while a node is busy with a proposal. -/
structure Attempt where
  nodeId : ℕ
  members : List ℕ
  /-- It is one of them, as `OnPropose` checks. -/
  member : nodeId ∈ members
  instanceId : ℕ
  value : PaxosValue
  /-- What it had done before. -/
  trace : List Event
  /-- Whether none of the acceptors of the majority had accepted a value in the instance. -/
  untouched : Prop

/-- `Config::GetMajoritySize` of these members. -/
def Attempt.majority (A : Attempt) : ℕ := A.members.length / 2 + 1

theorem Attempt.majority_le (A : Attempt) : A.majority ≤ A.members.length := by
  have hpos := List.length_pos_of_mem A.member
  unfold majority
  omega

/-- The node is busy with the proposal. -/
structure Attempt.Busy (A : Attempt) (x : Node) : Prop where
  wf : x.WF
  receiving : x.learner.isReceivingCheckpoint = false
  learned : x.learner.hasLearned = false
  nodeId : x.nodeId = A.nodeId
  members : x.memberIds = A.members
  instanceId : x.instanceId = A.instanceId
  proposing : x.isProposing = true
  proposed : x.proposeValue = A.value
  trace : A.trace <:+ x.trace
  /-- The value of the round is the proposed one, unless an acceptor reported another. -/
  value : A.untouched → x.proposer.value = A.value
  accepted : A.untouched →
    x.acceptor.acceptedBallot.proposalId = 0 ∨ x.acceptor.acceptedValue = A.value

/-- A retry timer of the instance is pending. -/
def Attempt.Armed (A : Attempt) (x : Node) : Prop :=
  ∃ k ts, x.timers = (k, .retry A.instanceId) :: ts

/-- The proposal is completed: a majority accepted a value, which was executed, and the caller was
told so. The value is the proposed one where no other had been accepted. -/
structure Attempt.Completed (A : Attempt) (x : Node) : Prop where
  idle : x.isProposing = false
  history : ∃ l p v c ok, x.trace = l ++ A.trace ∧ .acceptPassed A.instanceId p v ∈ l ∧
    .executed A.instanceId v c ok ∈ l ∧
    .completed A.instanceId (Instance.learnStatus ok (A.value.valueId == v.valueId) v) ∈ l ∧
    (A.untouched → v = A.value)

/-- The second phase of a round: the nodes in `got` have accepted, the node itself among them. -/
structure Attempt.Accepting (A : Attempt) (p : ℕ) (got : Finset ℕ) (x : Node) : Prop extends
    A.Busy x where
  armed : A.Armed x
  phase : x.proposer.accepting = true
  proposalId : x.proposer.proposalId = p
  counter : x.proposer.counter =
    { receivedNodes := got, rejectors := ∅, promisorsOrAcceptors := got }
  promised : x.acceptor.promisedBallot ≤ ⟨p, x.nodeId⟩
  taken : x.acceptor.acceptedBallot = ⟨p, x.nodeId⟩
  stored : x.acceptor.acceptedValue = x.proposer.value
  asked : .broadcast (Proposer.acceptMessage x) (x.others x.memberIds) ∈ x.trace

/-- The first phase: the nodes in `got` have promised. -/
structure Attempt.Preparing (A : Attempt) (p : ℕ) (got : Finset ℕ) (x : Node) : Prop extends
    A.Busy x where
  armed : A.Armed x
  phase : x.proposer.preparing = true
  proposalId : x.proposer.proposalId = p
  counter : x.proposer.counter =
    { receivedNodes := got, rejectors := ∅, promisorsOrAcceptors := got }
  promised : x.acceptor.promisedBallot ≤ ⟨p, x.nodeId⟩
  asked : .broadcast (Proposer.prepareMessage x) (x.others x.memberIds) ∈ x.trace

/-- A phase has been started with a message of the node to all members, and no reply counted. -/
structure Attempt.Launched (A : Attempt) (p : ℕ) (msg : PaxosMessage) (x : Node) : Prop extends
    A.Busy x where
  armed : A.Armed x
  proposalId : x.proposer.proposalId = p
  counter : x.proposer.counter = {}
  sender : msg.nodeId = x.nodeId
  instance_eq : msg.instanceId = A.instanceId
  ballot : msg.ballot = ⟨p, x.nodeId⟩
  asked : .broadcast msg (x.others x.memberIds) ∈ x.trace

/-- After a call in the second phase: the round goes on, or a majority has accepted and the proposal
is completed. -/
def Attempt.Accepts (A : Attempt) (p : ℕ) (got : Finset ℕ) (x : Node) : Prop :=
  (got.card < A.majority ∧ A.Accepting p got x) ∨ (A.majority ≤ got.card ∧ A.Completed x)

/-- After a call in the first phase: the phase goes on, or a majority has promised and the node is
in the second phase, where it has accepted itself, or beyond. -/
def Attempt.Prepares (A : Attempt) (p : ℕ) (got : Finset ℕ) (x : Node) : Prop :=
  (got.card < A.majority ∧ A.Preparing p got x) ∨
    (A.majority ≤ got.card ∧ A.Accepts p {A.nodeId} x)

section

variable {A : Attempt} {E : Env} {y : Node}

/-! ## A message of the node itself -/

theorem Instance.hand_of_not_receiving {handler : Node → Node}
    (hrecv : x.learner.isReceivingCheckpoint = false) :
    hand E m handler x = checkLearn E (handler (x.emit (.handed m))) :=
  if_neg (by simp [Node.emit, hrecv])

/-- `OnPrepare` of the node's own `PREPARE`: the reply is handed to the proposer. -/
theorem Acceptor.onPrepare_own (hid : m.instanceId = x.acceptor.instanceId)
    (hown : m.nodeId = x.nodeId) (hrecv : x.learner.isReceivingCheckpoint = false) :
    onPrepare E m x = Instance.checkLearn E (Proposer.onPrepareReply E (takePrepare E m x).1
      ((takePrepare E m x).2.emit (.handed (takePrepare E m x).1))) := by
  obtain ⟨a, db, trace, hframe⟩ := takePrepare_frame E m x
  unfold onPrepare reply
  rw [if_pos hid, if_pos (by rw [hframe]; exact hown)]
  exact Instance.hand_of_not_receiving (by rw [hframe]; exact hrecv)

/-- `OnAccpet` of the node's own `ACCEPT` hands the reply to its proposer. -/
theorem Acceptor.onAccpet_own (hid : m.instanceId = x.acceptor.instanceId)
    (hown : m.nodeId = x.nodeId) (hrecv : x.learner.isReceivingCheckpoint = false) :
    onAccpet E m x = Instance.checkLearn E (Proposer.onAccpetReply E (takeAccept E m x).1
      ((takeAccept E m x).2.emit (.handed (takeAccept E m x).1))) := by
  obtain ⟨a, db, trace, hframe⟩ := takeAccept_frame E m x
  unfold onAccpet reply
  rw [if_pos hid, if_pos (by rw [hframe]; exact hown)]
  exact Instance.hand_of_not_receiving (by rw [hframe]; exact hrecv)

/-! ## A message of another node -/

/-- `OnPrepare` of another node's `PREPARE`: the reply is sent. -/
theorem Acceptor.onPrepare_other (hid : m.instanceId = x.acceptor.instanceId)
    (hother : m.nodeId ≠ x.nodeId) : onPrepare E m x =
      (takePrepare E m x).2.sendMessage m.nodeId (takePrepare E m x).1 := by
  obtain ⟨a, db, trace, hframe⟩ := takePrepare_frame E m x
  unfold onPrepare reply
  rw [if_pos hid, if_neg (by rw [hframe]; exact hother)]

theorem Acceptor.onAccpet_other (hid : m.instanceId = x.acceptor.instanceId)
    (hother : m.nodeId ≠ x.nodeId) : onAccpet E m x =
      (takeAccept E m x).2.sendMessage m.nodeId (takeAccept E m x).1 := by
  obtain ⟨a, db, trace, hframe⟩ := takeAccept_frame E m x
  unfold onAccpet reply
  rw [if_pos hid, if_neg (by rw [hframe]; exact hother)]

/-! ## The ends of the calls -/

theorem Attempt.Busy.setMaxProposalId (h : A.Busy x) : A.Busy (Proposer.setMaxProposalId m x) :=
  { h with wf := { h.wf with } }

theorem Attempt.Completed.append (h : A.Completed x) (hidle : y.isProposing = false)
    (htrace : x.trace <:+ y.trace) : A.Completed y := by
  obtain ⟨l, p, v, c, ok, hl, hpassed, hexec, hcompl, hv⟩ := h.history
  obtain ⟨l', hl'⟩ := htrace
  refine ⟨hidle, l' ++ l, p, v, c, ok, ?_, ?_, ?_, ?_, hv⟩
  · rw [← hl', hl, List.append_assoc]
  · exact List.mem_append_right l' hpassed
  · exact List.mem_append_right l' hexec
  · exact List.mem_append_right l' hcompl

theorem Instance.checkLearn_idle (hl : x.learner.hasLearned = true) :
    (checkLearn E x).isProposing = false := by
  cases hok : (execution E x).1 with
  | false => rw [checkLearn_of_false hl hok]; rfl
  | true => rw [checkLearn_of_true hl hok]; rfl

theorem Attempt.Completed.checkLearn (h : A.Completed x) :
    A.Completed (Instance.checkLearn E x) := by
  cases hl : x.learner.hasLearned with
  | false => rwa [Instance.checkLearn_of_not_learned hl]
  | true =>
    refine h.append (Instance.checkLearn_idle hl) ?_
    rw [Instance.checkLearn_trace hl]
    exact List.suffix_append _ _

theorem Attempt.Accepts.finish (h : A.Accepts p got x) :
    A.Accepts p got (Instance.checkLearn E (Proposer.setMaxProposalId m x)) := by
  rcases h with ⟨hcard, h⟩ | ⟨hcard, h⟩
  · rw [Instance.checkLearn_of_not_learned
      (show (Proposer.setMaxProposalId m x).learner.hasLearned = false from h.learned)]
    exact .inl ⟨hcard, { h with toBusy := h.toBusy.setMaxProposalId }⟩
  · refine .inr ⟨hcard, Attempt.Completed.checkLearn ?_⟩
    exact h.append h.idle List.suffix_rfl

theorem Attempt.Accepts.checkLearn (h : A.Accepts p got x) :
    A.Accepts p got (Instance.checkLearn E x) := by
  rcases h with ⟨hcard, h⟩ | ⟨hcard, h⟩
  · rw [Instance.checkLearn_of_not_learned h.learned]
    exact .inl ⟨hcard, h⟩
  · exact .inr ⟨hcard, h.checkLearn⟩

theorem Attempt.Busy.armed_addRetryTimer (h : A.Busy x) : A.Armed (Proposer.addRetryTimer x) := by
  refine ⟨x.nextTimer, x.timers, ?_⟩
  rw [← h.instanceId, ← h.wf.proposerId]
  rfl

theorem Attempt.Busy.emit (h : A.Busy x) (e : Event) : A.Busy (x.emit e) :=
  { h with wf := { h.wf with }, trace := h.trace.trans (List.suffix_cons e _) }

section

theorem Attempt.Launched.emit (h : A.Launched p msg x) (e : Event) :
    A.Launched p msg (x.emit e) :=
  { h with toBusy := h.toBusy.emit e, asked := List.mem_cons_of_mem e h.asked }

theorem Attempt.Launched.acceptorId (h : A.Launched p msg x) :
    msg.instanceId = x.acceptor.instanceId :=
  h.instance_eq.trans (h.wf.acceptorId.trans h.instanceId).symm

/-- `Prepare` opens the first phase of the attempt. -/
theorem Attempt.Busy.startPrepare (h : A.Busy x) :
    A.Launched x.proposer.nextProposalId
      (Proposer.prepareMessage (Proposer.startPrepare x.proposer.wasRejectedBySomeone x))
      (Proposer.startPrepare x.proposer.wasRejectedBySomeone x) where
  toBusy := { h with
    wf := { h.wf with
      phase := fun _ => rfl
      proposalId := h.wf.proposalId.trans (Proposer.le_nextProposalId _) }
    trace := h.trace.trans (List.suffix_cons _ _) }
  armed := h.armed_addRetryTimer
  proposalId := rfl
  counter := rfl
  sender := rfl
  instance_eq := h.wf.proposerId.trans h.instanceId
  ballot := rfl
  asked := List.mem_cons_self

/-- `Accept` opens the second phase of the attempt. -/
theorem Attempt.Busy.startAccept (h : A.Busy x) :
    A.Launched x.proposer.proposalId (Proposer.acceptMessage x) (Proposer.startAccept x) where
  toBusy := { h with
    wf := { h.wf with phase := fun hprep => by cases hprep }
    trace := h.trace.trans (List.suffix_cons _ _) }
  armed := h.armed_addRetryTimer
  proposalId := rfl
  counter := rfl
  sender := rfl
  instance_eq := h.wf.proposerId.trans h.instanceId
  ballot := rfl
  asked := List.mem_cons_self

end

/-! ## The second phase -/

theorem Attempt.Busy.majority (h : A.Busy x) : x.getMajoritySize = A.majority := by
  rw [Node.getMajoritySize, h.members]
  rfl

/-- The node's own learner takes the value that its acceptor has under the ballot of the round. -/
theorem Proposer.newChosenValue_learns (hw : x.WF) (hr : x.learner.isReceivingCheckpoint = false)
    (htaken : x.acceptor.acceptedBallot = ⟨x.proposer.proposalId, x.nodeId⟩) :
    ∃ l, newChosenValue E x = Instance.checkLearn E { x with
      learner := { x.learner with learnedValue := x.acceptor.acceptedValue, hasLearned := true }
      trace := l ++ x.trace } := by
  unfold newChosenValue Instance.hand Instance.frame Learner.onNewChosenValue Node.broadcastMessage
    Node.emit PaxosMessage.ballot
  dsimp only
  rw [if_neg (by simp [hr]), if_pos (hw.proposerId.trans hw.learnerId.symm), if_pos htaken.symm]
  unfold Learner.broadcastMessageToFollower
  split_ifs
  · exact ⟨[_, _], rfl⟩
  · exact ⟨[_, _, _], rfl⟩

/-- A node that hears that its ballot was accepted by a majority executes the value and completes
the proposal. -/
theorem Attempt.Busy.newChosenValue (h : A.Busy x) {l : List Event} (hl : x.trace = l ++ A.trace)
    (hpassed : .acceptPassed A.instanceId p x.acceptor.acceptedValue ∈ l)
    (htaken : x.acceptor.acceptedBallot = ⟨x.proposer.proposalId, x.nodeId⟩) :
    A.Completed (Proposer.newChosenValue E x) := by
  obtain ⟨l', heq⟩ := Proposer.newChosenValue_learns (E := E) h.wf h.receiving htaken
  rw [heq]
  generalize hz : ({ x with
    learner := { x.learner with learnedValue := x.acceptor.acceptedValue, hasLearned := true }
    trace := l' ++ x.trace } : Node) = z
  have hlearned : z.learner.hasLearned = true := by rw [← hz]
  have hbusy : z.isProposing = true := by
    rw [← hz]
    exact h.proposing
  have hmine : Instance.isMine z = (A.value.valueId == x.acceptor.acceptedValue.valueId) := by
    rw [← hz, ← h.proposed]
    simp [Instance.isMine, h.proposing]
  have htrace := Instance.checkLearn_trace (E := E) hlearned
  unfold Instance.executionEvents at htrace
  rw [if_pos hbusy, hmine] at htrace
  have hzid : z.instanceId = A.instanceId := by
    rw [← hz]
    exact h.instanceId
  have hzvalue : z.learner.learnedValue = x.acceptor.acceptedValue := by rw [← hz]
  have hztrace : z.trace = l' ++ (l ++ A.trace) := by
    rw [← hz, ← hl]
  rw [hzid, hzvalue, hztrace, ← List.append_assoc l', ← List.append_assoc] at htrace
  refine ⟨Instance.checkLearn_idle hlearned, _, p, x.acceptor.acceptedValue,
    Instance.executeContext z, (Instance.execution E z).1, htrace, ?_, ?_, ?_, fun hu => ?_⟩
  · exact List.mem_append_right _ (List.mem_append_right _ hpassed)
  · exact List.mem_append_left _ (List.mem_append_right _ (List.mem_singleton_self _))
  · exact List.mem_append_left _ (List.mem_append_left _ (List.mem_singleton_self _))
  · refine (h.accepted hu).resolve_left ?_
    rw [htaken]
    exact Nat.one_le_iff_ne_zero.mp h.wf.proposalId

/-- A round in which only promises or acceptances were counted is passed or goes on. -/
theorem Attempt.Busy.round (h : A.Busy x) (hcounter : x.proposer.counter =
      { receivedNodes := got, rejectors := ∅, promisorsOrAcceptors := got }) :
    Proposer.isPassedOnThisRound x = decide (A.majority ≤ got.card) ∧
    (got.card < A.majority →
      (Proposer.isRejectedOnThisRound x || Proposer.isReceiveAllOnThisRound x) = false) := by
  have hpos : 0 < A.majority := Nat.succ_pos _
  have hle := A.majority_le
  rw [Proposer.isPassedOnThisRound, Proposer.isRejectedOnThisRound,
    Proposer.isReceiveAllOnThisRound, h.majority, Node.getNodeSize, h.members, hcounter]
  refine ⟨rfl, fun hcard => ?_⟩
  rw [Finset.card_empty, decide_eq_false (Nat.not_le.mpr hpos),
    decide_eq_false (Nat.not_le.mpr (hcard.trans_le hle))]
  rfl

/-- The end of `OnAccpetReply`, once a reply is counted. -/
theorem Attempt.Accepting.settle (h : A.Accepting p got x) :
    A.Accepts p got (Proposer.settleAccept E x) := by
  obtain ⟨hpass, hopen⟩ := h.round h.counter
  rw [Proposer.settleAccept, hpass]
  by_cases hcard : A.majority ≤ got.card
  · rw [if_pos (by simpa using hcard)]
    obtain ⟨l, hl⟩ := h.trace
    refine .inr ⟨hcard, Attempt.Busy.newChosenValue (p := x.proposer.proposalId)
      (l := .acceptPassed x.proposer.instanceId x.proposer.proposalId x.proposer.value :: l)
      { h.toBusy with
        wf := { h.wf with phase := fun _ => rfl }
        trace := h.trace.trans (List.suffix_cons _ _) } ?_ ?_ ?_⟩
    · exact congrArg (List.cons _) hl.symm
    · have hid : x.proposer.instanceId = A.instanceId := h.wf.proposerId.trans h.instanceId
      rw [← hid, ← h.stored]
      exact List.mem_cons_self
    · show x.acceptor.acceptedBallot = ⟨x.proposer.proposalId, x.nodeId⟩
      rw [h.proposalId]
      exact h.taken
  · rw [if_neg (by simpa using hcard), hopen (by omega), if_neg Bool.false_ne_true]
    exact .inl ⟨by omega, h⟩

/-- An acceptance is counted, and a majority of them ends the attempt. -/
theorem Attempt.Accepting.onAccpetReply (h : A.Accepting p got x) (hr : m.rejectedId = 0)
    (hid : m.instanceId = A.instanceId) :
    A.Accepts p (insert m.nodeId got) (Instance.checkLearn E (Proposer.onAccpetReply E m x)) := by
  have hround : x.proposer.accepting = true ∧ m.instanceId = x.proposer.instanceId :=
    ⟨h.phase, hid.trans (h.wf.proposerId.trans h.instanceId).symm⟩
  rw [Proposer.onAccpetReply, if_pos hround]
  refine Attempt.Accepts.finish (Attempt.Accepting.settle ?_)
  refine { h with toBusy := { h.toBusy with wf := { h.wf with } }, counter := ?_ }
  simp [Counter.add, hr, h.counter]

/-- `Accept` up to the decision of the node's own acceptor. -/
theorem Attempt.Busy.accept_eq (h : A.Busy x) : ∃ msg z,
    A.Launched x.proposer.proposalId msg z ∧ msg.type = .accept ∧ z.proposer.accepting = true ∧
    Proposer.acceptMessage z = msg ∧ (z.acceptor.promisedBallot ≤ msg.ballot ↔
      x.acceptor.promisedBallot ≤ ⟨x.proposer.proposalId, x.nodeId⟩) ∧
    Proposer.accept E x = Instance.checkLearn E (Instance.checkLearn E
      (Proposer.onAccpetReply E (Acceptor.takeAccept E msg z).1
        ((Acceptor.takeAccept E msg z).2.emit (.handed (Acceptor.takeAccept E msg z).1)))) := by
  have hstart := h.startAccept.emit (.handed (Proposer.acceptMessage x))
  refine ⟨_, _, hstart, rfl, rfl, rfl, Iff.rfl, ?_⟩
  rw [← Acceptor.onAccpet_own hstart.acceptorId hstart.sender hstart.receiving, Proposer.accept]
  exact Instance.hand_of_not_receiving h.receiving

/-- The acceptor of the node takes the ballot of the second phase. -/
theorem Attempt.Launched.acceptBallot (h : A.Launched p msg x)
    (hphase : x.proposer.accepting = true) (hmsg : Proposer.acceptMessage x = msg) :
    A.Accepting p ∅ (Acceptor.acceptBallot E msg x) where
  toBusy := { h.toBusy with
    wf := { h.wf with }
    trace := h.trace.trans (List.suffix_append [_, _] _)
    accepted := fun hu => Or.inr (by rw [← h.value hu, ← hmsg]; rfl) }
  armed := h.armed
  phase := hphase
  proposalId := h.proposalId
  counter := h.counter
  promised := le_of_eq h.ballot
  taken := h.ballot
  stored := by rw [← hmsg]; rfl
  asked := by
    have hsame : Proposer.acceptMessage (Acceptor.acceptBallot E msg x) = msg := hmsg
    rw [hsame]
    exact .tail _ (.tail _ h.asked)

theorem Attempt.Accepting.emit (h : A.Accepting p got x) (e : Event) :
    A.Accepting p got (x.emit e) :=
  { h with toBusy := h.toBusy.emit e, asked := List.mem_cons_of_mem e h.asked }

/-- `Accept` of a node whose own acceptor can take the ballot. -/
theorem Attempt.Busy.accept (h : A.Busy x)
    (hle : x.acceptor.promisedBallot ≤ ⟨x.proposer.proposalId, x.nodeId⟩) :
    A.Accepts x.proposer.proposalId {A.nodeId} (Proposer.accept E x) := by
  obtain ⟨msg, z, hstart, -, hphase, hmsg, hball, heq⟩ := h.accept_eq (E := E)
  rw [heq, Acceptor.takeAccept, if_pos (hball.mpr hle)]
  refine Attempt.Accepts.checkLearn ?_
  have hown := (hstart.acceptBallot (E := E) hphase hmsg).emit
    (.handed (Acceptor.replyTo .acceptReply msg z))
  have hcount := hown.onAccpetReply (E := E) (m := Acceptor.replyTo .acceptReply msg z) rfl
    hstart.instance_eq
  have hnode : (Acceptor.replyTo .acceptReply msg z).nodeId = A.nodeId := hstart.nodeId
  rwa [hnode] at hcount

/-! ## The first phase -/

/-- The end of an enclosing call changes nothing of the first phase. -/
theorem Attempt.Prepares.checkLearn (h : A.Prepares p got x) :
    A.Prepares p got (Instance.checkLearn E x) := by
  rcases h with ⟨hcard, h⟩ | ⟨hcard, h⟩
  · rw [Instance.checkLearn_of_not_learned h.learned]
    exact .inl ⟨hcard, h⟩
  · exact .inr ⟨hcard, h.checkLearn⟩

theorem Attempt.Prepares.finish (h : A.Prepares p got x) :
    A.Prepares p got (Instance.checkLearn E (Proposer.setMaxProposalId m x)) := by
  rcases h with ⟨hcard, h⟩ | ⟨hcard, h⟩
  · rw [Instance.checkLearn_of_not_learned
      (show (Proposer.setMaxProposalId m x).learner.hasLearned = false from h.learned)]
    exact .inl ⟨hcard, { h with toBusy := h.toBusy.setMaxProposalId }⟩
  · exact .inr ⟨hcard, h.finish⟩

/-- The end of `OnPrepareReply`, once a promise is counted. -/
theorem Attempt.Preparing.settle (h : A.Preparing p got x) :
    A.Prepares p got (Proposer.settlePrepare E x) := by
  obtain ⟨hpass, hopen⟩ := h.round h.counter
  rw [Proposer.settlePrepare, hpass]
  by_cases hcard : A.majority ≤ got.card
  · rw [if_pos (by simpa using hcard)]
    have hbusy : A.Busy (Proposer.removeRetryTimer
        { x.emit (.preparePassed x.proposer.instanceId x.proposer.proposalId) with
          proposer := { x.proposer with preparing := false, skipPrepare := true } }) :=
      { h.toBusy with
        wf := { h.wf with phase := fun hprep => by cases hprep }
        trace := h.trace.trans (List.suffix_cons _ _) }
    have hle := h.promised
    rw [← h.proposalId] at hle ⊢
    exact .inr ⟨hcard, hbusy.accept hle⟩
  · rw [if_neg (by simpa using hcard), hopen (by omega), if_neg Bool.false_ne_true]
    exact .inl ⟨by omega, h⟩

/-- A promise is counted. It reports nothing, or the proposed value, where no other value had been
accepted. -/
theorem Attempt.Preparing.onPrepareReply (h : A.Preparing p got x) (hr : m.rejectedId = 0)
    (hid : m.instanceId = A.instanceId)
    (hvalue : A.untouched → m.preAccepted = {} ∨ m.value = A.value) :
    A.Prepares p (insert m.nodeId got)
      (Instance.checkLearn E (Proposer.onPrepareReply E m x)) := by
  have hround : x.proposer.preparing = true ∧ m.instanceId = x.proposer.instanceId :=
    ⟨h.phase, hid.trans (h.wf.proposerId.trans h.instanceId).symm⟩
  rw [Proposer.onPrepareReply, if_pos hround]
  refine Attempt.Prepares.finish (Attempt.Preparing.settle ?_)
  have hvalue' : A.untouched → (x.proposer.countPrepareReply m).value = A.value := by
    intro hu
    unfold Proposer.countPrepareReply
    dsimp only
    split_ifs with hnew
    · refine (hvalue hu).resolve_left fun hnone => ?_
      rw [hnone] at hnew
      exact absurd hnew.2 (not_lt.mpr (BallotNumber.zero_le _))
    · exact h.value hu
  refine { h with
    toBusy := { h.toBusy with wf := h.wf.countPrepare m, value := hvalue' }
    phase := ?_, proposalId := ?_, counter := ?_, asked := ?_ }
  · rw [Proposer.countPrepareReply_preparing]
    exact h.phase
  · rw [Proposer.countPrepareReply_proposalId]
    exact h.proposalId
  · rw [Proposer.countPrepareReply_counter]
    simp [Counter.add, hr, h.counter]
  · have hsame : Proposer.prepareMessage { x with proposer := x.proposer.countPrepareReply m } =
        Proposer.prepareMessage x := by
      unfold Proposer.prepareMessage
      simp only [Proposer.countPrepareReply_instanceId, Proposer.countPrepareReply_proposalId]
      rfl
    rw [hsame]
    exact h.asked

/-- `Prepare` up to the decision of the node's own acceptor. -/
theorem Attempt.Busy.prepare_eq (h : A.Busy x) : ∃ msg z,
    A.Launched x.proposer.nextProposalId msg z ∧ msg.type = .prepare ∧
    z.proposer.preparing = true ∧ Proposer.prepareMessage z = msg ∧
    (z.acceptor.promisedBallot ≤ msg.ballot ↔
      x.acceptor.promisedBallot ≤ Proposer.nextBallot x) ∧
    Proposer.prepare E x.proposer.wasRejectedBySomeone x = Instance.checkLearn E
      (Instance.checkLearn E (Proposer.onPrepareReply E (Acceptor.takePrepare E msg z).1
        ((Acceptor.takePrepare E msg z).2.emit (.handed (Acceptor.takePrepare E msg z).1)))) := by
  have hstart := h.startPrepare.emit (.handed (Proposer.prepareMessage
    (Proposer.startPrepare x.proposer.wasRejectedBySomeone x)))
  refine ⟨_, _, hstart, rfl, rfl, rfl, Iff.rfl, ?_⟩
  rw [← Acceptor.onPrepare_own hstart.acceptorId hstart.sender hstart.receiving, Proposer.prepare]
  exact Instance.hand_of_not_receiving h.receiving

theorem Acceptor.promise_reports {v : PaxosValue} (h : x.acceptor.acceptedBallot.proposalId = 0 ∨
    x.acceptor.acceptedValue = v) : (promise m x).preAccepted = {} ∨ (promise m x).value = v := by
  unfold promise
  split_ifs with hpos
  · exact Or.inr (h.resolve_left hpos.ne')
  · exact Or.inl rfl

theorem Acceptor.promise_fields : (promise m x).type = .prepareReply ∧
    (promise m x).rejectedId = 0 ∧ (promise m x).instanceId = m.instanceId ∧
    (promise m x).nodeId = x.nodeId := by
  unfold promise
  split_ifs <;> exact ⟨rfl, rfl, rfl, rfl⟩

/-- The acceptor of the node takes the ballot of the first phase. -/
theorem Attempt.Launched.promiseBallot (h : A.Launched p msg x)
    (hphase : x.proposer.preparing = true) (hmsg : Proposer.prepareMessage x = msg) :
    A.Preparing p ∅ (Acceptor.promiseBallot E msg x) where
  toBusy := { h.toBusy with
    wf := { h.wf with }
    trace := h.trace.trans (List.suffix_append [_, _] _) }
  armed := h.armed
  phase := hphase
  proposalId := h.proposalId
  counter := h.counter
  promised := le_of_eq h.ballot
  asked := by
    have hsame : Proposer.prepareMessage (Acceptor.promiseBallot E msg x) = msg := hmsg
    rw [hsame]
    exact .tail _ (.tail _ h.asked)

theorem Attempt.Preparing.emit (h : A.Preparing p got x) (e : Event) :
    A.Preparing p got (x.emit e) :=
  { h with toBusy := h.toBusy.emit e, asked := List.mem_cons_of_mem e h.asked }

/-- `Prepare` of a node whose own acceptor can take the new ballot. -/
theorem Attempt.Busy.prepare (h : A.Busy x)
    (hle : x.acceptor.promisedBallot ≤ Proposer.nextBallot x) :
    A.Prepares x.proposer.nextProposalId {A.nodeId}
      (Proposer.prepare E x.proposer.wasRejectedBySomeone x) := by
  obtain ⟨msg, z, hstart, -, hphase, hmsg, hball, heq⟩ := h.prepare_eq (E := E)
  rw [heq, Acceptor.takePrepare, if_pos (hball.mpr hle)]
  refine Attempt.Prepares.checkLearn ?_
  have hown := (hstart.promiseBallot (E := E) hphase hmsg).emit (.handed (Acceptor.promise msg z))
  obtain ⟨-, hrejected, hinst, hnode⟩ := Acceptor.promise_fields (m := msg) (x := z)
  have hcount := hown.onPrepareReply (E := E) (m := Acceptor.promise msg z) hrejected
    (hinst.trans hstart.instance_eq) fun hu => Acceptor.promise_reports (hstart.accepted hu)
  rwa [hnode, hstart.nodeId] at hcount

/-! ## Rejections -/

/-- A round of the proposal id `p` is open: fewer than a majority took its ballot, and the other
members have been asked. -/
structure Attempt.Opened (A : Attempt) (p : ℕ) (x : Node) : Prop extends A.Busy x where
  armed : A.Armed x
  proposalId : x.proposer.proposalId = p
  few : x.proposer.counter.promisorsOrAcceptors.card < A.majority
  asked : ∃ msg, .broadcast msg (x.others x.memberIds) ∈ x.trace ∧
    (msg.type = .prepare ∨ msg.type = .accept) ∧ msg.nodeId = x.nodeId ∧
    msg.instanceId = A.instanceId ∧ msg.proposalId = p

theorem Proposer.nextProposalId_setMaxProposalId (m : PaxosMessage) (x : Node) :
    x.proposer.nextProposalId ≤ (setMaxProposalId m x).proposer.nextProposalId := by
  unfold nextProposalId newRound setMaxProposalId
  dsimp only
  split_ifs with h₁ h₂ h₃ h₄ h₅ <;> first | omega | simp_all

/-- A rejected id raises the next ballot above the ballots with this proposal id. -/
theorem Proposer.le_nextBallot_of_rejected (hle : x.proposer.proposalId ≤ m.rejectedId)
    (hb : b.proposalId ≤ m.rejectedId) :
    b ≤ nextBallot (setMaxProposalId m x) := by
  have hmax : m.rejectedId ≤ (setMaxProposalId m x).proposer.maxProposalId := le_max_right _ _
  have hnext := lt_nextProposalId (p := (setMaxProposalId m x).proposer)
    (by simp [setMaxProposalId, hle])
  refine (BallotNumber.le_iff _ _).mpr (Or.inl ?_)
  exact (hb.trans hmax).trans_lt hnext

theorem BallotNumber.mk_le_mk (h : p ≤ q) :
    (⟨p, n⟩ : BallotNumber) ≤ ⟨q, n⟩ := by
  refine (le_iff _ _).mpr ?_
  rcases Nat.lt_or_eq_of_le h with hlt | heq
  · exact Or.inl hlt
  · exact Or.inr ⟨heq, le_refl n⟩

theorem Attempt.Opened.not_passed (h : A.Opened p x) : Proposer.isPassedOnThisRound x = false := by
  rw [Proposer.isPassedOnThisRound, h.majority]
  exact decide_eq_false (Nat.not_le.mpr h.few)

theorem Attempt.Opened.addRetryTimer (h : A.Opened p x) :
    A.Opened p (Proposer.addRetryTimer (Proposer.removeRetryTimer x)) :=
  { h with
    toBusy := { h.toBusy with wf := { h.wf with } }
    armed := Attempt.Busy.armed_addRetryTimer (x := Proposer.removeRetryTimer x)
      { h.toBusy with wf := { h.wf with } } }

/-- What a rejected node keeps: an open round, its acceptor, and a next ballot that does not
fall. -/
structure Attempt.Refused (A : Attempt) (p : ℕ) (x y : Node) : Prop where
  opened : A.Opened p y
  acceptor : y.acceptor = x.acceptor
  nextBallot : Proposer.nextBallot x ≤ Proposer.nextBallot y

/-- A round with too few promises that is settled stays open, or is given up for its retry
timer. -/
theorem Attempt.Opened.settlePrepare (h : A.Opened p x) :
    A.Refused p x (Proposer.settlePrepare E x) := by
  rw [Proposer.settlePrepare, h.not_passed, if_neg Bool.false_ne_true]
  split_ifs
  · have hquit : A.Opened p { x with proposer := { x.proposer with preparing := false } } :=
      { h with toBusy := { h.toBusy with
          wf := { h.wf with phase := fun hprep => by cases hprep } } }
    exact ⟨hquit.addRetryTimer, rfl, le_refl _⟩
  · exact ⟨h, rfl, le_refl _⟩

/-- A round with too few acceptances that is settled stays open, or is given up for its retry timer.
-/
theorem Attempt.Opened.settleAccept (h : A.Opened p x) :
    A.Refused p x (Proposer.settleAccept E x) := by
  rw [Proposer.settleAccept, h.not_passed, if_neg Bool.false_ne_true]
  split_ifs
  · have hquit : A.Opened p { x with proposer := { x.proposer with accepting := false } } :=
      { h with toBusy := { h.toBusy with wf := { h.wf with phase := fun _ => rfl } } }
    exact ⟨hquit.addRetryTimer, rfl, le_refl _⟩
  · exact ⟨h, rfl, le_refl _⟩

theorem Attempt.Opened.count (h : A.Opened p x) (hr : m.rejectedId ≠ 0) :
    A.Opened p { x with proposer := { x.proposer with counter := x.proposer.counter.add m } } := by
  refine { h with toBusy := { h.toBusy with wf := { h.wf with } }, few := ?_ }
  simpa [Counter.add, hr] using h.few

/-- The end of a reply that rejects: its id is noted. -/
theorem Attempt.Refused.finish (h : A.Refused p x y) :
    A.Refused p x (Instance.checkLearn E (Proposer.setMaxProposalId m y)) ∧
    (p ≤ m.rejectedId → ∀ b : BallotNumber, b.proposalId ≤ m.rejectedId →
      b ≤ Proposer.nextBallot (Instance.checkLearn E (Proposer.setMaxProposalId m y))) := by
  rw [Instance.checkLearn_of_not_learned
    (show (Proposer.setMaxProposalId m y).learner.hasLearned = false from h.opened.learned)]
  refine ⟨⟨?_, h.acceptor, h.nextBallot.trans ?_⟩, fun hle b hb => ?_⟩
  · exact { h.opened with toBusy := h.opened.toBusy.setMaxProposalId }
  · exact BallotNumber.mk_le_mk (Proposer.nextProposalId_setMaxProposalId m y)
  · refine Proposer.le_nextBallot_of_rejected ?_ hb
    rw [h.opened.proposalId]
    exact hle

/-- A rejection of the `PREPARE` leaves the round open or given up, and the next ballot is not below
the one that it was rejected for. -/
theorem Attempt.Opened.onPrepareReply (h : A.Opened p x) (hr : m.rejectedId ≠ 0) :
    A.Refused p x (Instance.checkLearn E (Proposer.onPrepareReply E m x)) ∧
    (p ≤ m.rejectedId → ∀ b : BallotNumber, b.proposalId ≤ m.rejectedId →
      b ≤ Proposer.nextBallot (Instance.checkLearn E (Proposer.onPrepareReply E m x))) := by
  refine Attempt.Refused.finish ?_
  split_ifs
  · have hsame : x.proposer.countPrepareReply m =
        { x.proposer with counter := x.proposer.counter.add m } := by
      simp [Proposer.countPrepareReply, hr]
    have hsettle := (h.count hr).settlePrepare (E := E)
    rw [hsame]
    exact ⟨hsettle.opened, hsettle.acceptor, hsettle.nextBallot⟩
  · exact ⟨h, rfl, le_refl _⟩

/-- A rejection of the `ACCEPT` leaves the round open or given up, and the next ballot is not below
the one that it was rejected for. -/
theorem Attempt.Opened.onAccpetReply (h : A.Opened p x) (hr : m.rejectedId ≠ 0) :
    A.Refused p x (Instance.checkLearn E (Proposer.onAccpetReply E m x)) ∧
    (p ≤ m.rejectedId → ∀ b : BallotNumber, b.proposalId ≤ m.rejectedId →
      b ≤ Proposer.nextBallot (Instance.checkLearn E (Proposer.onAccpetReply E m x))) := by
  refine Attempt.Refused.finish ?_
  split_ifs
  · have hsettle := (h.count hr).settleAccept (E := E)
    exact ⟨hsettle.opened, hsettle.acceptor, hsettle.nextBallot⟩
  · exact ⟨h, rfl, le_refl _⟩

/-! ## The first round -/

/-- After the first round's start: the proposal is completed at once, or the round is open and the
next one would be above what the node's own acceptor has promised. -/
def Attempt.Started (A : Attempt) (x : Node) : Prop :=
  A.Completed x ∨ ∃ p, A.Opened p x ∧ x.acceptor.promisedBallot ≤ Proposer.nextBallot x

/-- A phase in which too few have taken the ballot is an open round. -/
theorem Attempt.Busy.started (h : A.Busy x) (harmed : A.Armed x) (hp : x.proposer.proposalId = p)
    (hcounter : x.proposer.counter =
      { receivedNodes := got, rejectors := ∅, promisorsOrAcceptors := got })
    (hcard : got.card < A.majority) (hpromised : x.acceptor.promisedBallot ≤ ⟨p, x.nodeId⟩)
    (hasked : .broadcast msg (x.others x.memberIds) ∈ x.trace)
    (htype : msg.type = .prepare ∨ msg.type = .accept) (hmsg : msg.nodeId = x.nodeId ∧
      msg.instanceId = x.proposer.instanceId ∧ msg.proposalId = x.proposer.proposalId) :
    A.Started x := by
  obtain ⟨hnode, hinst, hid⟩ := hmsg
  refine Or.inr ⟨p, { h with
    armed := harmed, proposalId := hp, few := by rwa [hcounter]
    asked := ⟨msg, hasked, htype, hnode, ?_, hid.trans hp⟩ }, hpromised.trans ?_⟩
  · exact hinst.trans (h.wf.proposerId.trans h.instanceId)
  · rw [← hp]
    exact BallotNumber.mk_le_mk (Proposer.le_nextProposalId _)

theorem Attempt.Accepts.started (h : A.Accepts p got x) : A.Started x := by
  rcases h with ⟨hcard, h⟩ | ⟨-, h⟩
  · exact h.toBusy.started h.armed h.proposalId h.counter hcard h.promised h.asked (Or.inr rfl)
      ⟨rfl, rfl, rfl⟩
  · exact Or.inl h

theorem Attempt.Prepares.started (h : A.Prepares p got x) : A.Started x := by
  rcases h with ⟨hcard, h⟩ | ⟨-, h⟩
  · exact h.toBusy.started h.armed h.proposalId h.counter hcard h.promised h.asked (Or.inl rfl)
      ⟨rfl, rfl, rfl⟩
  · exact h.started

/-- A round that was refused is open, and the next one is above the refusing acceptor. -/
theorem Attempt.Refused.started (h : A.Refused p x y)
    (hle : x.acceptor.promisedBallot ≤ Proposer.nextBallot y) :
    A.Started (Instance.checkLearn E y) := by
  rw [Instance.checkLearn_of_not_learned h.opened.learned]
  refine Or.inr ⟨p, h.opened, ?_⟩
  rw [h.acceptor]
  exact hle

theorem BallotNumber.proposalId_le_of_not_le (h : ¬ b ≤ ⟨p, n⟩) : p ≤ b.proposalId := by
  rw [le_iff] at h
  dsimp only at h
  omega

theorem Attempt.Launched.opened (h : A.Launched p msg x)
    (htype : msg.type = .prepare ∨ msg.type = .accept) : A.Opened p x :=
  { h with
    few := by rw [h.counter]; exact Nat.succ_pos _
    asked := ⟨msg, h.asked, htype, h.sender, h.instance_eq,
      congrArg BallotNumber.proposalId h.ballot⟩ }

/-- `Accept`, whether or not the node's own acceptor takes the ballot. -/
theorem Attempt.Busy.accept_started (h : A.Busy x) : A.Started (Proposer.accept E x) := by
  by_cases hle : x.acceptor.promisedBallot ≤ ⟨x.proposer.proposalId, x.nodeId⟩
  · exact (h.accept hle).started
  · obtain ⟨msg, z, hstart, htype, -, -, hiff, heq⟩ := h.accept_eq (E := E)
    have hball := mt hiff.mp hle
    rw [heq, Acceptor.takeAccept_of_not_le hball]
    have hp := BallotNumber.proposalId_le_of_not_le (hstart.ballot ▸ hball)
    have hpos := h.wf.proposalId
    have hopen := (hstart.emit (.handed (Acceptor.rejection .acceptReply msg z))).opened
      (Or.inr htype)
    obtain ⟨hrefused, hnext⟩ := hopen.onAccpetReply (E := E)
      (m := Acceptor.rejection .acceptReply msg z) (Nat.ne_of_gt (hpos.trans hp))
    exact hrefused.started (hnext hp _ (le_refl _))

/-- `Prepare`, whether or not the node's own acceptor takes the ballot. -/
theorem Attempt.Busy.prepare_started (h : A.Busy x) :
    A.Started (Proposer.prepare E x.proposer.wasRejectedBySomeone x) := by
  by_cases hle : x.acceptor.promisedBallot ≤ Proposer.nextBallot x
  · exact (h.prepare hle).started
  · obtain ⟨msg, z, hstart, htype, -, -, hiff, heq⟩ := h.prepare_eq (E := E)
    have hball := mt hiff.mp hle
    rw [heq, Acceptor.takePrepare_of_not_le hball]
    have hp := BallotNumber.proposalId_le_of_not_le (hstart.ballot ▸ hball)
    have hpos := h.wf.proposalId.trans (Proposer.le_nextProposalId x.proposer)
    have hopen := (hstart.emit (.handed (Acceptor.rejection .prepareReply msg z))).opened
      (Or.inl htype)
    obtain ⟨hrefused, hnext⟩ := hopen.onPrepareReply (E := E)
      (m := Acceptor.rejection .prepareReply msg z) (Nat.ne_of_gt (hpos.trans hp))
    exact hrefused.started (hnext hp _ (le_refl _))

/-- The retry timer starts a round under the next ballot. -/
theorem Attempt.Opened.retry (h : A.Opened p x)
    (hle : x.acceptor.promisedBallot ≤ Proposer.nextBallot x) :
    ∃ k y, x.step E (.timer k) = some y ∧
      A.Prepares x.proposer.nextProposalId {A.nodeId} y := by
  obtain ⟨k, ts, hts⟩ := h.armed
  have hbusy : A.Busy (x.removeTimer k) := { h.toBusy with wf := { h.wf with } }
  refine ⟨k, Proposer.prepare E x.proposer.wasRejectedBySomeone (x.removeTimer k), ?_,
    hbusy.prepare hle⟩
  have hcall : Proposer.onRetryTimer E A.instanceId (x.removeTimer k) =
      Proposer.prepare E x.proposer.wasRejectedBySomeone (x.removeTimer k) :=
    if_pos (h.wf.proposerId.trans h.instanceId).symm
  simp [Node.step, hts, Node.runTimer, hcall]

/-- `NewPropose`: the first round, with or without a first phase. -/
theorem Attempt.Busy.newPropose {v : PaxosValue}
    (h : A.Busy { x with proposer := { x.proposer with value := v } }) :
    A.Started (Proposer.newPropose E v x) := by
  unfold Proposer.newPropose
  dsimp only
  split_ifs
  · exact h.accept_started
  · exact h.prepare_started

/-- The proposal of a node that is idle, a member, and at its instance with nothing learned. -/
def Node.attempt (E : Env) (machineId : ℕ) (value : List UInt8) (draw : ℕ) (x : Node)
    (hmember : x.nodeId ∈ x.memberIds) (untouched : Prop) : Attempt where
  nodeId := x.nodeId
  members := x.memberIds
  member := hmember
  instanceId := x.instanceId
  value :=
    { valueId := (Instance.getPaxosValueId E draw x).1, machineId := machineId, userData := value }
  trace := x.trace
  untouched := untouched

/-- `OnPropose` of such a node starts an attempt. -/
theorem Node.attempt_started {machineId draw : ℕ} {value : List UInt8} {context : Option Context}
    {untouched : Prop} (hw : x.WF) (hr : x.learner.isReceivingCheckpoint = false)
    (hl : x.learner.hasLearned = false) (hmember : x.nodeId ∈ x.memberIds)
    (hu : untouched → x.acceptor.acceptedBallot.proposalId = 0) :
    (x.attempt E machineId value draw hmember untouched).Started
      (Instance.onPropose E machineId value context draw x) := by
  unfold Instance.onPropose
  rw [if_pos (by simpa [Node.isValidNodeId] using hmember)]
  refine Attempt.Busy.newPropose ?_
  exact
    { wf := { hw with }
      receiving := hr
      learned := hl
      nodeId := rfl
      members := rfl
      instanceId := rfl
      proposing := rfl
      proposed := rfl
      trace := List.suffix_cons _ _
      value := fun _ => rfl
      accepted := fun h => Or.inl (hu h) }

/-! ## The acceptors -/

/-- A node at the instance that handles messages. -/
structure Attempt.Peer (A : Attempt) (x : Node) : Prop where
  wf : x.WF
  receiving : x.learner.isReceivingCheckpoint = false
  learned : x.learner.hasLearned = false
  instanceId : x.instanceId = A.instanceId
  untouched : A.untouched → x.acceptor.acceptedBallot.proposalId = 0

theorem Attempt.Peer.acceptorId (h : A.Peer x) (hid : m.instanceId = A.instanceId) :
    m.instanceId = x.acceptor.instanceId :=
  hid.trans (h.wf.acceptorId.trans h.instanceId).symm

/-- A peer that has promised nothing higher answers the `PREPARE` with a promise. -/
theorem Attempt.Peer.onPrepare (h : A.Peer x) (htype : m.type = .prepare)
    (hid : m.instanceId = A.instanceId) (hother : m.nodeId ≠ x.nodeId)
    (hle : x.acceptor.promisedBallot ≤ m.ballot) :
    A.Peer (Instance.onPaxosMessage E m x) ∧
      (Instance.onPaxosMessage E m x).acceptor.promisedBallot = m.ballot ∧
      (Instance.onPaxosMessage E m x).nodeId = x.nodeId ∧
      .send m.nodeId (Acceptor.promise m x) ∈ (Instance.onPaxosMessage E m x).trace := by
  have heq : Instance.onPaxosMessage E m x =
      (Acceptor.promiseBallot E m x).sendMessage m.nodeId (Acceptor.promise m x) := by
    unfold Instance.onPaxosMessage Instance.frame Instance.handle
    rw [h.receiving, if_neg Bool.false_ne_true, htype]
    dsimp only
    rw [Acceptor.onPrepare_other (h.acceptorId hid) hother, Acceptor.takePrepare, if_pos hle]
    exact Instance.checkLearn_of_not_learned h.learned
  rw [heq]
  exact ⟨{ h with wf := { h.wf with } }, rfl, rfl, List.mem_cons_self⟩

/-- A peer that has promised nothing higher answers the `ACCEPT` with an acceptance. -/
theorem Attempt.Peer.onAccpet (h : A.Peer x) (htype : m.type = .accept)
    (hid : m.instanceId = A.instanceId) (hother : m.nodeId ≠ x.nodeId)
    (hle : x.acceptor.promisedBallot ≤ m.ballot) :
    .send m.nodeId (Acceptor.replyTo .acceptReply m x) ∈
      (Instance.onPaxosMessage E m x).trace := by
  have heq : Instance.onPaxosMessage E m x =
      (Acceptor.acceptBallot E m x).sendMessage m.nodeId (Acceptor.replyTo .acceptReply m x) := by
    unfold Instance.onPaxosMessage Instance.frame Instance.handle
    rw [h.receiving, if_neg Bool.false_ne_true, htype]
    dsimp only
    rw [Acceptor.onAccpet_other (h.acceptorId hid) hother, Acceptor.takeAccept, if_pos hle]
    exact Instance.checkLearn_of_not_learned h.learned
  rw [heq]
  exact List.mem_cons_self

/-- A peer that has promised a higher ballot rejects the message and names its promise. -/
theorem Attempt.Peer.rejects (h : A.Peer x) (htype : m.type = .prepare ∨ m.type = .accept)
    (hid : m.instanceId = A.instanceId) (hother : m.nodeId ≠ x.nodeId)
    (hle : ¬ x.acceptor.promisedBallot ≤ m.ballot) :
    ∃ type, (type = .prepareReply ∨ type = .acceptReply) ∧ Instance.onPaxosMessage E m x =
      x.sendMessage m.nodeId (Acceptor.rejection type m x) := by
  unfold Instance.onPaxosMessage Instance.frame Instance.handle
  rw [h.receiving, if_neg Bool.false_ne_true]
  rcases htype with htype | htype
  · refine ⟨.prepareReply, Or.inl rfl, ?_⟩
    rw [htype]
    dsimp only
    rw [Acceptor.onPrepare_other (h.acceptorId hid) hother, Acceptor.takePrepare_of_not_le hle]
    exact Instance.checkLearn_of_not_learned h.learned
  · refine ⟨.acceptReply, Or.inr rfl, ?_⟩
    rw [htype]
    dsimp only
    rw [Acceptor.onAccpet_other (h.acceptorId hid) hother, Acceptor.takeAccept_of_not_le hle]
    exact Instance.checkLearn_of_not_learned h.learned

end

/-! ## The schedule -/

section

variable {A : Attempt} {E : Env} {nodes : List ℕ}

/-- A broadcast reaches one node, and its reply comes back. -/
theorem System.Runs.exchange {r : PaxosMessage} {dests : List ℕ} (hn : n ∈ nodes) (hq : q ∈ nodes)
    (hne : q ≠ n) (hfrom : msg.nodeId = n) (hsent : .broadcast msg dests ∈ (s n).trace)
    (hdest : q ∈ dests) (hreply : .send n r ∈ (Instance.onPaxosMessage E msg (s q)).trace)
    (hback : r.nodeId = q) :
    ∃ t, System.Runs E nodes s t ∧ t q = Instance.onPaxosMessage E msg (s q) ∧
      t n = Instance.onPaxosMessage E r (s n) ∧ ∀ k, k ≠ n → k ≠ q → t k = s k := by
  obtain ⟨u, hu, huq, hothers⟩ := System.Runs.deliver (E := E) (s := s) msg hq
    (by rw [hfrom]; exact hsent) (by simpa [Event.delivers] using hdest)
  obtain ⟨t, ht, htn, hothers'⟩ := System.Runs.deliver (E := E) (s := u) r hn
    (by rw [hback, huq]; exact hreply) (by simp [Event.delivers])
  rw [hothers n hne.symm] at htn
  exact ⟨t, hu.trans ht, (hothers' q hne).trans huq, htn,
    fun k hkn hkq => (hothers' k hkn).trans (hothers k hkq)⟩

/-- A member of the group that the node can ask, and that answers. -/
structure Attempt.PeerAt (A : Attempt) (nodes : List ℕ) (s : Sys) (q : ℕ) : Prop extends
    A.Peer (s q) where
  listed : q ∈ nodes
  member : q ∈ A.members
  other : q ≠ A.nodeId
  nodeId : (s q).nodeId = q

theorem Attempt.PeerAt.congr {t : Sys} (h : A.PeerAt nodes s q) (heq : t q = s q) :
    A.PeerAt nodes t q := by
  refine ⟨?_, h.listed, h.member, h.other, ?_⟩ <;> rw [heq]
  · exact h.toPeer
  · exact h.nodeId

theorem Attempt.PeerAt.mem_others (h : A.PeerAt nodes s q) (hbusy : A.Busy x) :
    q ∈ x.others x.memberIds := by
  refine List.mem_filter.mpr ⟨?_, decide_eq_true ?_⟩
  · rw [hbusy.members]
    exact h.member
  · rw [hbusy.nodeId]
    exact h.other

/-- What the node asks in a round has its id, its instance and the ballot of the round. -/
theorem Attempt.Busy.message (h : A.Busy x) (hp : x.proposer.proposalId = p)
    (hm : m.nodeId = x.nodeId ∧
      m.instanceId = x.proposer.instanceId ∧ m.proposalId = x.proposer.proposalId) :
    m.nodeId = A.nodeId ∧ m.instanceId = A.instanceId ∧ m.ballot = ⟨p, A.nodeId⟩ := by
  obtain ⟨hnode, hinst, hid⟩ := hm
  refine ⟨hnode.trans h.nodeId, hinst.trans (h.wf.proposerId.trans h.instanceId), ?_⟩
  rw [PaxosMessage.ballot, hnode, h.nodeId, hid, hp]

theorem Attempt.PeerAt.ne (h : A.PeerAt nodes s q) (hfrom : msg.nodeId = A.nodeId) :
    msg.nodeId ≠ (s q).nodeId := by
  rw [hfrom, h.nodeId]
  exact h.other.symm

/-- A `PREPARE` goes to a member that can take its ballot, and the promise comes back. -/
theorem Attempt.Preparing.ask (hn : A.nodeId ∈ nodes) (hpeer : A.PeerAt nodes s q)
    (hle : (s q).acceptor.promisedBallot ≤ ⟨p, A.nodeId⟩) (h : A.Preparing p got (s A.nodeId)) :
    ∃ t, System.Runs E nodes s t ∧ A.Prepares p (insert q got) (t A.nodeId) ∧
      (A.Peer (t q) ∧ (t q).nodeId = q ∧ (t q).acceptor.promisedBallot ≤ ⟨p, A.nodeId⟩) ∧
      ∀ k, k ≠ A.nodeId → k ≠ q → t k = s k := by
  have hasked := h.asked
  obtain ⟨hfrom, hinst, hball⟩ := h.message h.proposalId
    (m := Proposer.prepareMessage (s A.nodeId)) ⟨rfl, rfl, rfl⟩
  have htype : (Proposer.prepareMessage (s A.nodeId)).type = .prepare := rfl
  generalize Proposer.prepareMessage (s A.nodeId) = msg at hasked hfrom hinst hball htype
  obtain ⟨hpeer', hpromised, hid', hsent⟩ := hpeer.onPrepare (E := E) htype
    hinst (hpeer.ne hfrom) (by rw [hball]; exact hle)
  obtain ⟨hreply, hrejected, hrid, hrnode⟩ := Acceptor.promise_fields (m := msg) (x := s q)
  rw [hfrom] at hsent
  obtain ⟨t, ht, htq, htn, hothers⟩ := System.Runs.exchange hn hpeer.listed hpeer.other hfrom
    hasked (hpeer.mem_others h.toBusy) hsent (hrnode.trans hpeer.nodeId)
  refine ⟨t, ht, ?_, ?_, hothers⟩
  · have hcall : Instance.onPaxosMessage E (Acceptor.promise msg (s q)) (s A.nodeId) =
        Instance.checkLearn E (Proposer.onPrepareReply E (Acceptor.promise msg (s q))
          (s A.nodeId)) := by
      simp [Instance.onPaxosMessage, Instance.frame, Instance.handle, hreply, h.receiving]
    have hcount := h.onPrepareReply (E := E) hrejected (hrid.trans hinst)
      fun hu => Acceptor.promise_reports (Or.inl (hpeer.untouched hu))
    rw [hrnode, hpeer.nodeId] at hcount
    rwa [htn, hcall]
  · rw [htq]
    exact ⟨hpeer', hid'.trans hpeer.nodeId, le_of_eq (hpromised.trans hball)⟩

/-- An `ACCEPT` goes to a member that can take its ballot, and the reply comes back. -/
theorem Attempt.Accepting.ask (hn : A.nodeId ∈ nodes) (hpeer : A.PeerAt nodes s q)
    (hle : (s q).acceptor.promisedBallot ≤ ⟨p, A.nodeId⟩) (h : A.Accepting p got (s A.nodeId)) :
    ∃ t, System.Runs E nodes s t ∧ A.Accepts p (insert q got) (t A.nodeId) ∧
      ∀ k, k ≠ A.nodeId → k ≠ q → t k = s k := by
  have hasked := h.asked
  obtain ⟨hfrom, hinst, hball⟩ := h.message h.proposalId
    (m := Proposer.acceptMessage (s A.nodeId)) ⟨rfl, rfl, rfl⟩
  have htype : (Proposer.acceptMessage (s A.nodeId)).type = .accept := rfl
  generalize Proposer.acceptMessage (s A.nodeId) = msg at hasked hfrom hinst hball htype
  have hsent := hpeer.onAccpet (E := E) htype hinst (hpeer.ne hfrom) (by rw [hball]; exact hle)
  rw [hfrom] at hsent
  obtain ⟨t, ht, -, htn, hothers⟩ := System.Runs.exchange hn hpeer.listed hpeer.other hfrom
    hasked (hpeer.mem_others h.toBusy) hsent hpeer.nodeId
  refine ⟨t, ht, ?_, hothers⟩
  have hcall : Instance.onPaxosMessage E (Acceptor.replyTo .acceptReply msg (s q)) (s A.nodeId) =
      Instance.checkLearn E (Proposer.onAccpetReply E (Acceptor.replyTo .acceptReply msg (s q))
        (s A.nodeId)) := by
    simp [Instance.onPaxosMessage, Instance.frame, Instance.handle, Acceptor.replyTo, h.receiving]
  have hcount := h.onAccpetReply (E := E) (m := Acceptor.replyTo .acceptReply msg (s q)) rfl hinst
  rw [show (Acceptor.replyTo .acceptReply msg (s q)).nodeId = q from hpeer.nodeId] at hcount
  rwa [htn, hcall]

/-- A member that cannot take the ballot of an open round tells the node so, and the next round is
above its promise. -/
theorem Attempt.Opened.ask (hn : A.nodeId ∈ nodes) (hpeer : A.PeerAt nodes s q)
    (hle : ¬ (s q).acceptor.promisedBallot ≤ ⟨p, A.nodeId⟩) (h : A.Opened p (s A.nodeId)) :
    ∃ t, System.Runs E nodes s t ∧ A.Refused p (s A.nodeId) (t A.nodeId) ∧
      (∀ b : BallotNumber, b.proposalId ≤ (s q).acceptor.promisedBallot.proposalId →
        b ≤ Proposer.nextBallot (t A.nodeId)) ∧
      A.PeerAt nodes t q ∧ (t q).acceptor = (s q).acceptor ∧
      ∀ k, k ≠ A.nodeId → k ≠ q → t k = s k := by
  obtain ⟨msg, hasked, htype, hfrom, hinst, hpid⟩ := h.asked
  have hp := BallotNumber.proposalId_le_of_not_le hle
  have hpos := h.wf.proposalId
  rw [h.proposalId] at hpos
  rw [h.nodeId] at hfrom
  have hball : msg.ballot = ⟨p, A.nodeId⟩ := by rw [PaxosMessage.ballot, hfrom, hpid]
  obtain ⟨type, hreply, heq⟩ := hpeer.rejects (E := E) htype hinst (hpeer.ne hfrom)
    (by rw [hball]; exact hle)
  rw [hfrom] at heq
  obtain ⟨t, ht, htq, htn, hothers⟩ := System.Runs.exchange (E := E)
    (r := Acceptor.rejection type msg (s q)) hn hpeer.listed hpeer.other hfrom hasked
    (hpeer.mem_others h.toBusy) (by rw [heq]; exact List.mem_cons_self) hpeer.nodeId
  have hrefused : A.Refused p (s A.nodeId) (t A.nodeId) ∧
      (p ≤ (s q).acceptor.promisedBallot.proposalId → ∀ b : BallotNumber,
        b.proposalId ≤ (s q).acceptor.promisedBallot.proposalId →
        b ≤ Proposer.nextBallot (t A.nodeId)) := by
    rw [htn, Instance.onPaxosMessage, Instance.frame, h.receiving, if_neg Bool.false_ne_true,
      Instance.handle]
    rcases hreply with rfl | rfl
    · exact h.onPrepareReply (m := Acceptor.rejection .prepareReply msg (s q))
        (by show (s q).acceptor.promisedBallot.proposalId ≠ 0; omega)
    · exact h.onAccpetReply (m := Acceptor.rejection .acceptReply msg (s q))
        (by show (s q).acceptor.promisedBallot.proposalId ≠ 0; omega)
  rw [heq] at htq
  refine ⟨t, ht, hrefused.1, hrefused.2 hp, ?_, by rw [htq]; rfl, hothers⟩
  refine ⟨?_, hpeer.listed, hpeer.member, hpeer.other, by rw [htq]; exact hpeer.nodeId⟩
  rw [htq]
  exact { hpeer.toPeer with wf := { hpeer.wf with } }

/-- The members of a list take the ballot one after the other, and with the last of them the phase
is over. -/
theorem Attempt.askAll {O : Finset ℕ → Node → Prop} {D : Node → Prop} {J : ℕ → Node → Prop}
    (hask : ∀ {s got q}, A.PeerAt nodes s q → (s q).acceptor.promisedBallot ≤ ⟨p, A.nodeId⟩ →
      O got (s A.nodeId) → ∃ t, System.Runs E nodes s t ∧
        ((insert q got).card < A.majority ∧ O (insert q got) (t A.nodeId) ∨
          A.majority ≤ (insert q got).card ∧ D (t A.nodeId)) ∧
        J q (t q) ∧ ∀ k, k ≠ A.nodeId → k ≠ q → t k = s k) (qs : List ℕ)
    (hpeers : ∀ q ∈ qs, A.PeerAt nodes s q) (hnodup : qs.Nodup) (hnew : ∀ q ∈ qs, q ∉ got)
    (hle : ∀ q ∈ qs, (s q).acceptor.promisedBallot ≤ ⟨p, A.nodeId⟩)
    (hcard : got.card + qs.length = A.majority)
    (h : got.card < A.majority ∧ O got (s A.nodeId) ∨ A.majority ≤ got.card ∧ D (s A.nodeId)) :
    ∃ t, System.Runs E nodes s t ∧ D (t A.nodeId) ∧ (∀ q ∈ qs, J q (t q)) ∧
      ∀ k, k ≠ A.nodeId → k ∉ qs → t k = s k := by
  induction qs generalizing s got with
  | nil =>
    rcases h with ⟨hlt, -⟩ | ⟨-, h⟩
    · rw [List.length_nil] at hcard
      omega
    · exact ⟨s, .refl, h, fun q hq => absurd hq List.not_mem_nil, fun _ _ _ => rfl⟩
  | cons q qs ih =>
    rw [List.length_cons] at hcard
    obtain ⟨hq, hnodup⟩ := List.nodup_cons.mp hnodup
    rw [List.forall_mem_cons] at hpeers hnew hle
    rcases h with ⟨-, h⟩ | ⟨hge, -⟩
    · obtain ⟨u, hu, hun, hJ, hothers⟩ := hask hpeers.1 hle.1 h
      have hsame : ∀ k ∈ qs, u k = s k := fun k hk =>
        hothers k (hpeers.2 k hk).other fun heq => hq (heq ▸ hk)
      obtain ⟨t, ht, htn, hJs, hothers'⟩ := ih (s := u)
        (fun k hk => (hpeers.2 k hk).congr (hsame k hk)) hnodup
        (fun k hk hmem => by
          rcases Finset.mem_insert.mp hmem with rfl | hmem
          · exact hq hk
          · exact hnew.2 k hk hmem)
        (fun k hk => by rw [hsame k hk]; exact hle.2 k hk)
        (by rw [Finset.card_insert_of_notMem hnew.1]; omega) hun
      refine ⟨t, hu.trans ht, htn, List.forall_mem_cons.mpr ⟨?_, hJs⟩, fun k hkn hk => ?_⟩
      · rw [hothers' q hpeers.1.other hq]
        exact hJ
      · rw [List.mem_cons, not_or] at hk
        exact (hothers' k hkn hk.2).trans (hothers k hkn hk.1)
    · omega

/-- The second round, under a ballot that is above all promises. -/
theorem Attempt.Opened.secondRound {qs : List ℕ} (hn : A.nodeId ∈ nodes)
    (hpeers : ∀ q ∈ qs, A.PeerAt nodes s q) (hnodup : qs.Nodup) (hcard : qs.length + 1 = A.majority)
    (h : A.Opened p (s A.nodeId))
    (hown : (s A.nodeId).acceptor.promisedBallot ≤ Proposer.nextBallot (s A.nodeId))
    (hle : ∀ q ∈ qs, (s q).acceptor.promisedBallot ≤ Proposer.nextBallot (s A.nodeId)) :
    ∃ t, System.Runs E nodes s t ∧ A.Completed (t A.nodeId) := by
  obtain ⟨k, y, hstep, hy⟩ := h.retry (E := E) hown
  obtain ⟨u, hu, hun, hothers⟩ := System.Runs.event (.timer k) hn rfl hstep
  have hball : Proposer.nextBallot (s A.nodeId) =
      ⟨(s A.nodeId).proposer.nextProposalId, A.nodeId⟩ := by
    rw [Proposer.nextBallot, h.nodeId]
  rw [hball] at hle
  rw [← hun] at hy
  have hsame : ∀ q ∈ qs, u q = s q := fun q hq => hothers q (hpeers q hq).other
  have hfirst : ∀ q ∈ qs, q ∉ ({A.nodeId} : Finset ℕ) := fun q hq hmem =>
    (hpeers q hq).other (Finset.mem_singleton.mp hmem)
  have hcount : ({A.nodeId} : Finset ℕ).card + qs.length = A.majority := by
    rw [Finset.card_singleton]
    omega
  obtain ⟨v, hv, hvn, hpeers', -⟩ := Attempt.askAll
    (J := fun q x => A.Peer x ∧ x.nodeId = q ∧ x.acceptor.promisedBallot ≤ ⟨_, A.nodeId⟩)
    (O := A.Preparing (s A.nodeId).proposer.nextProposalId)
    (fun hpeer hle hopen => Attempt.Preparing.ask (E := E) hn hpeer hle hopen) qs
    (fun q hq => (hpeers q hq).congr (hsame q hq)) hnodup hfirst
    (fun q hq => by rw [hsame q hq]; exact hle q hq) hcount hy
  obtain ⟨t, ht, htn, -⟩ := Attempt.askAll (J := fun _ _ => True)
    (O := A.Accepting (s A.nodeId).proposer.nextProposalId)
    (fun hpeer hle hopen => by
      obtain ⟨t, ht, htn, hothers⟩ := Attempt.Accepting.ask (E := E) hn hpeer hle hopen
      exact ⟨t, ht, htn, trivial, hothers⟩) qs
    (fun q hq => ⟨(hpeers' q hq).1, (hpeers q hq).listed, (hpeers q hq).member,
      (hpeers q hq).other, (hpeers' q hq).2.1⟩) hnodup
    hfirst (fun q hq => (hpeers' q hq).2.2) hcount hvn
  exact ⟨t, hu.trans (hv.trans ht), htn⟩

/-- An open round gets through, after the largest promise of the members was reported if it is above
the next ballot. -/
theorem Attempt.Opened.complete {qs : List ℕ} (hn : A.nodeId ∈ nodes)
    (hpeers : ∀ q ∈ qs, A.PeerAt nodes s q) (hnodup : qs.Nodup) (hcard : qs.length + 1 = A.majority)
    (h : A.Opened p (s A.nodeId))
    (hown : (s A.nodeId).acceptor.promisedBallot ≤ Proposer.nextBallot (s A.nodeId)) :
    ∃ t, System.Runs E nodes s t ∧ A.Completed (t A.nodeId) := by
  by_cases hle : ∀ q ∈ qs, (s q).acceptor.promisedBallot ≤ Proposer.nextBallot (s A.nodeId)
  · exact h.secondRound hn hpeers hnodup hcard hown hle
  · push Not at hle
    obtain ⟨q, hq, hlt⟩ := hle
    obtain ⟨q', hq', hmax⟩ := Finset.exists_max_image qs.toFinset
      (fun k => (s k).acceptor.promisedBallot) ⟨q, List.mem_toFinset.mpr hq⟩
    have hq'mem : q' ∈ qs := List.mem_toFinset.mp hq'
    have hround : (⟨p, A.nodeId⟩ : BallotNumber) ≤ Proposer.nextBallot (s A.nodeId) := by
      rw [Proposer.nextBallot, h.nodeId, ← h.proposalId]
      exact BallotNumber.mk_le_mk (Proposer.le_nextProposalId _)
    have hrejects : ¬ (s q').acceptor.promisedBallot ≤ ⟨p, A.nodeId⟩ := fun hle =>
      absurd ((hmax q (List.mem_toFinset.mpr hq)).trans (hle.trans hround)) (not_le.mpr hlt)
    obtain ⟨u, hu, hrefused, hnext, hpeer, hacc, hothers⟩ := h.ask (E := E) hn
      (hpeers q' hq'mem) hrejects
    have hacceptor : ∀ k ∈ qs, (u k).acceptor = (s k).acceptor := by
      intro k hk
      by_cases heq : k = q'
      · rw [heq]
        exact hacc
      · rw [hothers k (hpeers k hk).other heq]
    obtain ⟨t, ht, htn⟩ := hrefused.opened.secondRound (E := E) (s := u) hn
      (fun k hk => by
        by_cases heq : k = q'
        · rw [heq]
          exact hpeer
        · exact (hpeers k hk).congr (hothers k (hpeers k hk).other heq)) hnodup hcard
      (by rw [hrefused.acceptor]; exact hown.trans hrefused.nextBallot)
      (fun k hk => by
        rw [hacceptor k hk]
        exact hnext _ (BallotNumber.proposalId_le (hmax k (List.mem_toFinset.mpr hk))))
    exact ⟨t, hu.trans ht, htn⟩

end

/-- **An undisturbed proposal gets through.** In every state that a run reaches, with crashes,
failing writes and executions and any messages before: a member that is idle can complete a proposal
by events of a majority of its members alone, itself among them, all of which are at its instance,
receive no checkpoint and have no value left to execute, whatever they have promised and accepted.
The majority accepts a value, the node executes it and completes the proposal with the status that
belongs to the result, and it is the proposed value where none of them had accepted one. -/
theorem proposal_gets_through {C : Setup} {s : Sys} {E : Env} {n machineId draw : ℕ}
    {value : List UInt8} {context : Option Context} {Q : Finset ℕ}
    (hrun : Reaches System.step (fun _ _ => True) (System.init C) s)
    (hidle : (s n).isProposing = false) (hdraw : drawOk draw = true) (hn : n ∈ Q)
    (hmembers : ∀ q ∈ Q, q ∈ (s n).memberIds) (hmajority : (s n).getMajoritySize ≤ Q.card)
    (hready : ∀ q ∈ Q, (s q).instanceId = (s n).instanceId ∧
      (s q).learner.isReceivingCheckpoint = false ∧ (s q).learner.hasLearned = false) :
    ∃ t l p v c ok, System.Runs E Q.toList s t ∧ (t n).isProposing = false ∧
      (t n).trace = l ++ (s n).trace ∧ .acceptPassed (s n).instanceId p v ∈ l ∧
      .executed (s n).instanceId v c ok ∈ l ∧
      .completed (s n).instanceId (Instance.learnStatus ok
        ((Instance.getPaxosValueId E draw (s n)).1 == v.valueId) v) ∈ l ∧
      ((∀ q ∈ Q, (s q).acceptor.acceptedBallot.proposalId = 0) →
        v = { valueId := (Instance.getPaxosValueId E draw (s n)).1, machineId := machineId,
              userData := value }) := by
  have hw : s.WF C := by
    refine (hrun.invariant (P := fun s => s.WF C ∧ Traced s)
      ⟨System.wf_init C, .init C⟩ fun s t a hs _ hst => ?_).1
    exact hs.2.step hs.1 hst
  have hid : (s n).nodeId = n := hw.nodeId n
  have hmember : (s n).nodeId ∈ (s n).memberIds := hid.symm ▸ hmembers n hn
  let A : Attempt := (s n).attempt E machineId value draw hmember
    (∀ q ∈ Q, (s q).acceptor.acceptedBallot.proposalId = 0)
  have hA : A.nodeId = n := hid
  have hnodes : A.nodeId ∈ Q.toList := hA.symm ▸ Finset.mem_toList.mpr hn
  obtain ⟨u, hu, hun, hothers⟩ := System.Runs.event (s := s) (E := E)
    (y := Instance.onPropose E machineId value context draw (s n))
    (.propose machineId value context draw) (Finset.mem_toList.mpr hn) rfl
    (if_pos ⟨hidle, hdraw⟩)
  have hstarted : A.Started (u A.nodeId) := by
    rw [hA, hun]
    exact Node.attempt_started (hw n).1 (hready n hn).2.1 (hready n hn).2.2 hmember fun h => h n hn
  -- As many others as make a majority together with the node.
  obtain ⟨qs, hsub, hnodup, hlen⟩ : ∃ qs : List ℕ, (∀ q ∈ qs, q ∈ Q ∧ q ≠ n) ∧ qs.Nodup ∧
      qs.length + 1 = A.majority := by
    refine ⟨(Q.erase n).toList.take (A.majority - 1), fun q hq => ?_,
      (Q.erase n).nodup_toList.sublist (List.take_sublist _ _), ?_⟩
    · have hmem := Finset.mem_toList.mp (List.mem_of_mem_take hq)
      exact ⟨Finset.mem_of_mem_erase hmem, Finset.ne_of_mem_erase hmem⟩
    · have hle : A.majority ≤ Q.card := hmajority
      have hpos : 0 < A.majority := Nat.succ_pos _
      rw [List.length_take, Finset.length_toList, Finset.card_erase_of_mem hn]
      omega
  have hpeers : ∀ q ∈ qs, A.PeerAt Q.toList u q := by
    intro q hq
    obtain ⟨hqQ, hqn⟩ := hsub q hq
    have hpeer := hready q hqQ
    exact Attempt.PeerAt.congr (s := s)
      { wf := (hw q).1
        receiving := hpeer.2.1
        learned := hpeer.2.2
        instanceId := hpeer.1
        untouched := fun h => h q hqQ
        listed := Finset.mem_toList.mpr hqQ
        member := hmembers q hqQ
        other := hA.symm ▸ hqn
        nodeId := hw.nodeId q } (hothers q hqn)
  obtain ⟨t, ht, hdone⟩ : ∃ t, System.Runs E Q.toList u t ∧ A.Completed (t A.nodeId) := by
    rcases hstarted with hdone | ⟨p, hopen, hown⟩
    · exact ⟨u, .refl, hdone⟩
    · exact hopen.complete hnodes hpeers hnodup hlen hown
  rw [hA] at hdone
  obtain ⟨l, p, v, c, ok, hhistory⟩ := hdone.history
  exact ⟨t, l, p, v, c, ok, hu.trans ht, hdone.idle, hhistory⟩

/-- Node 2 promises the first ballot of node 1, whose `ACCEPT` is lost, and node 3 promises the
first ballot of its own. -/
def contested : List (Env × Label) := firstAccept ++
  ([({}, .node 3 (.propose 7 [3] none 256))] : List (Env × Label))

/-- Node 2 gets a value of its own through with node 3, which has promised a ballot above its
first. -/
theorem proposal_gets_through_contested : ∃ s t p c ok,
    Reaches System.step (fun _ _ => True) (System.init (.uniform trioMember)) s ∧
    (s 2).acceptor.promisedBallot = ⟨1, 1⟩ ∧ (s 3).acceptor.promisedBallot = ⟨1, 3⟩ ∧
    System.Runs {} ({2, 3} : Finset ℕ).toList s t ∧ (t 2).isProposing = false ∧
    .acceptPassed 1 p ⟨513, 7, [2]⟩ ∈ (t 2).trace ∧
    .executed 1 ⟨513, 7, [2]⟩ c ok ∈ (t 2).trace := by
  have hend : (run System.step (System.init (.uniform trioMember)) contested).map (fun s =>
      ([2, 3].map fun q => ((s q).acceptor.promisedBallot.proposalId,
          (s q).acceptor.promisedBallot.nodeId),
        ((s 2).memberIds, (Instance.getPaxosValueId {} 512 (s 2)).1),
        !(s 2).isProposing && [2, 3].all fun q => (s q).instanceId = 1 &&
          !(s q).learner.isReceivingCheckpoint && !(s q).learner.hasLearned &&
          (s q).acceptor.acceptedBallot.proposalId = 0)) =
      some ([(1, 1), (1, 3)], ([3, 2, 1], 513), true) := by
    decide +kernel
  obtain ⟨s, hs, hfields⟩ := Option.map_eq_some_iff.mp hend
  simp only [List.map_cons, List.map_nil, List.all_cons, List.all_nil, Prod.mk.injEq,
    List.cons.injEq, and_true, Bool.and_eq_true, Bool.not_eq_true', decide_eq_true_eq] at hfields
  obtain ⟨⟨⟨hp2, hq2⟩, hp3, hq3⟩, ⟨hmembers, hvalue⟩, hidle, h2, h3⟩ := hfields
  have hrun : Reaches System.step (fun _ _ => True) (System.init (.uniform trioMember)) s :=
    Reaches.of_run contested (fun _ _ _ => trivial) hs
  have hcases : ∀ {q : ℕ}, q ∈ ({2, 3} : Finset ℕ) → q = 2 ∨ q = 3 := by
    simp
  obtain ⟨t, l, p, v, c, ok, ht, hdone, htrace, hpassed, hexec, -, hown⟩ :=
    @proposal_gets_through _ s {} 2 7 512 [2] none {2, 3} hrun hidle rfl (by simp)
      (fun q hq => by rcases hcases hq with rfl | rfl <;> simp [hmembers])
      (by simp [Node.getMajoritySize, hmembers])
      (fun q hq => by
        rcases hcases hq with rfl | rfl
        · exact ⟨rfl, h2.1.1.2, h2.1.2⟩
        · exact ⟨h3.1.1.1.trans h2.1.1.1.symm, h3.1.1.2, h3.1.2⟩)
  have hv : v = ⟨513, 7, [2]⟩ := by
    rw [← hvalue]
    refine hown fun q hq => ?_
    rcases hcases hq with rfl | rfl
    · exact h2.2
    · exact h3.2
  rw [h2.1.1.1, hv] at hpassed hexec
  have hmem : ∀ e ∈ l, e ∈ (t 2).trace := fun e he => htrace ▸ List.mem_append_left _ he
  exact ⟨s, t, p, c, ok, hrun, BallotNumber.ext hp2 hq2, BallotNumber.ext hp3 hq3, ht, hdone,
    hmem _ hpassed, hmem _ hexec⟩

end Skywalker
