import Skywalker.Effects

/-!
# Every event is a chain of actions

`Node.step_chain` breaks an event of a node into actions. The lemmas follow the calls of the source
from the innermost handler outwards: each handler is a chain when the handlers that it calls are.
-/

namespace Skywalker

open Relation

variable {x y : Node} {m : PaxosMessage}

section Handlers

variable {R : Rules} {E : Env} {net : PaxosMessage → Prop}

/-! ## The handlers -/

/-- The reflexive and transitive closure of the actions of a node. -/
def Chain (R : Rules) (E : Env) (net : PaxosMessage → Prop) : Node → Node → Prop :=
  ReflTransGen (Act R E net)

theorem Chain.quiet (h : Quiet x y) : Chain R E net x y := .single (.quiet h)

theorem Chain.checkLearn (x : Node) : Chain R E net x (Instance.checkLearn E x) := by
  by_cases h : x.learner.hasLearned = true
  · exact .single (.checkLearn h)
  · have hskip : Instance.checkLearn E x = x := by simp [Instance.checkLearn, h]
    rw [hskip]
    exact .refl

theorem Chain.frame {handler : Node → Node}
    (h : x.learner.isReceivingCheckpoint = false → Chain R E net x (handler x)) :
    Chain R E net x (Instance.frame E handler x) := by
  unfold Instance.frame
  split_ifs with hrecv
  · exact .refl
  · exact (h (by simpa using hrecv)).trans (Chain.checkLearn _)

/-- A call from inside the node is a chain, if the entry of its message is quiet. -/
theorem Chain.hand {handler : Node → Node} (hq : (Event.handed m).isQuiet = true)
    (h : x.learner.isReceivingCheckpoint = false →
      Chain R E net (x.emit (.handed m)) (handler (x.emit (.handed m)))) :
    Chain R E net x (Instance.hand E m handler x) :=
  (Chain.quiet (.emit x hq)).trans (Chain.frame h)

theorem Chain.onNewChosenValue (hm : Announced net x m) :
    Chain R E net x (Learner.onNewChosenValue E m x) := by
  unfold Learner.onNewChosenValue
  split_ifs with hid hballot
  · have hlearn : Act R E net x (Learner.finishLearnValue x.acceptor.acceptedValue x) :=
      .learn m hm hid hballot
    exact .tail (.single hlearn) (.tellFollowers _ rfl ⟨m, Or.inl hm, hballot⟩)
  · exact .refl
  · exact .refl

theorem giveUp_of_accepting (h : x.proposer.preparing = false) :
    Proposer.addRetryTimer (Proposer.removeRetryTimer
      { x with proposer := { x.proposer with accepting := false } }) = Proposer.giveUp x := by
  simp [Proposer.giveUp, Proposer.addRetryTimer, Proposer.removeRetryTimer, Node.runAfter,
    Node.removeTimer, h]

theorem giveUp_of_preparing (h : x.proposer.accepting = false) :
    Proposer.addRetryTimer (Proposer.removeRetryTimer
      { x with proposer := { x.proposer with preparing := false } }) = Proposer.giveUp x := by
  simp [Proposer.giveUp, Proposer.addRetryTimer, Proposer.removeRetryTimer, Node.runAfter,
    Node.removeTimer, h]

theorem Node.WF.not_preparing (hw : x.WF) (h : x.proposer.accepting = true) :
    x.proposer.preparing = false := by
  by_contra hp
  have := hw.phase (by simpa using hp)
  simp [h] at this

/-- The end of `OnAccpetReply`, where the round passes or fails, is a chain of actions. -/
theorem Chain.settleAccept (hw : x.WF) (hm : Answered net x m) (htype : m.type = .acceptReply)
    (hacc : x.proposer.accepting = true) (hid : m.instanceId = x.proposer.instanceId)
    (hcur : R.current m.type → m.proposalId = x.proposer.proposalId) :
    Chain R E net x (Proposer.settleAccept E x) := by
  unfold Proposer.settleAccept
  split_ifs with hpass hrej
  · -- The broadcast belongs to the action; then the node's own learner hears of it.
    have hact : Act R E net x (Proposer.passAccept x) := .passAccept m hm htype hacc hid hcur hpass
    refine ReflTransGen.trans (.single hact) (Chain.hand rfl fun _ => ?_)
    refine Chain.onNewChosenValue (Or.inr (Or.inl ⟨⟨x.others x.memberIds, ?_⟩, rfl⟩))
    exact List.mem_cons_of_mem _ List.mem_cons_self
  · dsimp only
    rw [giveUp_of_accepting (hw.not_preparing hacc)]
    exact .single (.giveUp m hm (Or.inr ⟨htype, hacc⟩) hid hcur)
  · exact .refl

/-- `OnAccpetReply` is a chain of actions: the reply is counted, and the round may end. -/
theorem Chain.onAccpetReply (hw : x.WF) (hm : Answered net x m) (htype : m.type = .acceptReply)
    (hcur : x.proposer.accepting = true → m.instanceId = x.proposer.instanceId →
      R.current m.type → m.proposalId = x.proposer.proposalId) :
    Chain R E net x (Proposer.onAccpetReply E m x) := by
  unfold Proposer.onAccpetReply
  refine ReflTransGen.trans ?_ (Chain.quiet (.setMaxProposalId m _))
  split_ifs with hc
  · obtain ⟨hacc, hid⟩ := hc
    refine ReflTransGen.head (.countAccept m hm htype hacc hid (hcur hacc hid)) ?_
    refine Chain.settleAccept ?_ hm htype hacc hid (hcur hacc hid)
    exact { hw with }
  · exact .refl

/-- `Acceptor::NewChosenValue`, for a request of the next instance, is a chain of actions. -/
theorem Chain.newChosenValue (hm : net m) (htype : m.type = .prepare ∨ m.type = .accept)
    (hid : m.instanceId = x.acceptor.instanceId + 1) :
    Chain R E net x (Acceptor.newChosenValue E m x) :=
  Chain.hand rfl fun _ =>
    Chain.onNewChosenValue (Or.inr (Or.inr ⟨m, hm, htype, hid, rfl, rfl⟩))

/-- `OnAccpet`, for a message from the network or the node's own. -/
theorem Chain.onAccpet (hw : x.WF)
    (hm : net m ∨ ((∃ dests, .broadcast m dests ∈ x.trace) ∧ m.nodeId = x.nodeId))
    (hown : ¬ net m → m.instanceId = x.acceptor.instanceId) (htype : m.type = .accept)
    (hkeep : R.keepsLearned → m.instanceId = x.acceptor.instanceId →
      x.learner.hasLearned = true → x.acceptor.promisedBallot ≤ m.ballot →
      m.value = x.learner.learnedValue)
    (hcur : m.nodeId = x.nodeId → R.current .acceptReply → m.proposalId = x.proposer.proposalId) :
    Chain R E net x (Acceptor.onAccpet E m x) := by
  unfold Acceptor.onAccpet
  split_ifs with hid hnext
  · have hact : Act R E net x (Acceptor.answer m.nodeId (Acceptor.takeAccept E m x).1
        (Acceptor.takeAccept E m x).2) :=
      .takeAccept m hm htype hid fun hk => hkeep hk hid
    obtain ⟨hrtype, -, -, hrid⟩ := Acceptor.takeAccept_reply E m x
    obtain ⟨a, db, trace, hframe⟩ := Acceptor.takeAccept_frame E m x
    have hwf := hact.wf hw
    refine ReflTransGen.head hact ?_
    dsimp only
    unfold Acceptor.reply Acceptor.answer at *
    have hnode : (Acceptor.takeAccept E m x).2.nodeId = x.nodeId := by rw [hframe]; rfl
    rw [hnode] at hwf ⊢
    by_cases hself : m.nodeId = x.nodeId
    · -- The node's own `ACCEPT`: its reply is counted at once.
      rw [if_pos hself] at hwf ⊢
      rw [if_pos hself]
      refine Chain.frame fun _ => Chain.onAccpetReply hwf (Or.inr List.mem_cons_self) hrtype ?_
      intro _ _ hc
      rw [hrtype] at hc
      rw [hrid, hcur hself hc, hframe]
      rfl
    · rw [if_neg hself]
      rw [if_neg hself]
  · by_cases hnet : net m
    · exact Chain.newChosenValue hnet (Or.inr htype) hnext
    · exact absurd (hown hnet) hid
  · exact .refl

/-- `Accept` once its broadcast is out: the node's own `ACCEPT` is handed to its acceptor. -/
theorem Chain.handAccept (hw : y.WF) (hy : y = Proposer.startAccept x)
    (hkeep : R.keepsLearned → x.learner.hasLearned = true →
      x.acceptor.promisedBallot ≤ (Proposer.acceptMessage x).ballot →
      x.proposer.value = x.learner.learnedValue) :
    Chain R E net y (Instance.hand E (Proposer.acceptMessage x)
      (Acceptor.onAccpet E (Proposer.acceptMessage x)) y) := by
  subst hy
  have hid : (Proposer.acceptMessage x).instanceId = x.acceptor.instanceId :=
    hw.proposerId.trans hw.acceptorId.symm
  refine Chain.hand rfl fun _ => Chain.onAccpet { hw with } (Or.inr ⟨?_, rfl⟩)
    (fun _ => hid) rfl ?_ ?_
  · exact ⟨x.others x.memberIds, List.mem_cons_of_mem _ List.mem_cons_self⟩
  · intro hk _ hl
    exact hkeep hk hl
  · intro _ _
    rfl

/-- The end of `OnPrepareReply`, where the round passes or fails, is a chain of actions. -/
theorem Chain.settlePrepare (hw : x.WF) (hm : Answered net x m) (htype : m.type = .prepareReply)
    (hprep : x.proposer.preparing = true) (hid : m.instanceId = x.proposer.instanceId)
    (hcur : R.current m.type → m.proposalId = x.proposer.proposalId)
    (hkeep : R.keepsLearned → x.learner.hasLearned = true →
      Proposer.isPassedOnThisRound x = true →
      x.acceptor.promisedBallot ≤ (Proposer.acceptMessage x).ballot →
      x.proposer.value = x.learner.learnedValue) :
    Chain R E net x (Proposer.settlePrepare E x) := by
  unfold Proposer.settlePrepare
  split_ifs with hpass hrej
  · have hact : Act R E net x (Proposer.passPrepare x) :=
      .passPrepare m hm htype hprep hid hcur hpass
    refine ReflTransGen.trans (.single hact) ?_
    exact Chain.handAccept (hact.wf hw) rfl fun hk hl => hkeep hk hl hpass
  · dsimp only
    rw [giveUp_of_preparing (hw.phase hprep)]
    exact .single (.giveUp m hm (Or.inl ⟨htype, hprep⟩) hid hcur)
  · exact .refl

/-- `OnPrepareReply` is a chain of actions: the reply is counted, and the round may end. -/
theorem Chain.onPrepareReply (hw : x.WF) (hm : Answered net x m) (htype : m.type = .prepareReply)
    (hcur : x.proposer.preparing = true → m.instanceId = x.proposer.instanceId →
      R.current m.type → m.proposalId = x.proposer.proposalId)
    (hkeep : x.proposer.preparing = true → m.instanceId = x.proposer.instanceId →
      R.keepsLearned → x.learner.hasLearned = true →
      Proposer.isPassedOnThisRound { x with proposer := x.proposer.countPrepareReply m } = true →
      x.acceptor.promisedBallot ≤ (Proposer.acceptMessage x).ballot →
      (x.proposer.countPrepareReply m).value = x.learner.learnedValue) :
    Chain R E net x (Proposer.onPrepareReply E m x) := by
  unfold Proposer.onPrepareReply
  refine ReflTransGen.trans ?_ (Chain.quiet (.setMaxProposalId m _))
  split_ifs with hc
  · obtain ⟨hprep, hid⟩ := hc
    refine ReflTransGen.head (.countPrepare m hm htype hprep hid (hcur hprep hid)) ?_
    refine Chain.settlePrepare (hw.countPrepare m) hm htype ?_ ?_ ?_ ?_
    · simpa using hprep
    · simpa using hid
    · simpa using hcur hprep hid
    · intro hk hl hpass hle
      have hball : (Proposer.acceptMessage
          { x with proposer := x.proposer.countPrepareReply m }).ballot =
            (Proposer.acceptMessage x).ballot := by
        show (⟨(x.proposer.countPrepareReply m).proposalId, _⟩ : BallotNumber) = ⟨_, _⟩
        rw [Proposer.countPrepareReply_proposalId]
        rfl
      rw [hball] at hle
      exact hkeep hprep hid hk hl hpass hle
  · exact .refl

/-- `OnPrepare` of the node's own `PREPARE`, whose reply is counted at once. -/
theorem Proposer.onPrepare_own (v : PaxosValue) (hw : x.WF)
    (hrecv : x.learner.isReceivingCheckpoint = false) :
    Acceptor.onPrepare E (prepareMessage (openRound v x)) (openRound v x) =
      Instance.checkLearn E (setMaxProposalId (ownReply E v x)
        (settlePrepare E (beginRound E v x))) := by
  obtain ⟨a, db, trace, hframe⟩ :=
    Acceptor.takePrepare_frame E (prepareMessage (openRound v x)) (openRound v x)
  obtain ⟨-, -, hrid, -⟩ :=
    Acceptor.takePrepare_reply E (prepareMessage (openRound v x)) (openRound v x)
  have hid : (prepareMessage (openRound v x)).instanceId = (openRound v x).acceptor.instanceId :=
    hw.proposerId.trans hw.acceptorId.symm
  have hnode : (Acceptor.takePrepare E (prepareMessage (openRound v x)) (openRound v x)).2.nodeId =
      x.nodeId := by
    rw [hframe]
    rfl
  have hlearner : (Acceptor.takePrepare E (prepareMessage (openRound v x))
      (openRound v x)).2.learner = x.learner := by
    rw [hframe]
    rfl
  have hprop : (Acceptor.takePrepare E (prepareMessage (openRound v x)) (openRound v x)).2.proposer
      = (openRound v x).proposer := by
    rw [hframe]
  unfold Acceptor.onPrepare
  rw [if_pos hid]
  dsimp only
  unfold Acceptor.reply
  rw [hnode, if_pos (show (prepareMessage (openRound v x)).nodeId = x.nodeId from rfl)]
  unfold Instance.hand Instance.frame
  rw [if_neg (by simp [Node.emit, hlearner, hrecv])]
  unfold onPrepareReply
  rw [if_pos]
  · rfl
  · refine ⟨?_, ?_⟩
    · show (Acceptor.takePrepare E _ (openRound v x)).2.proposer.preparing = true
      rw [hprop]
      rfl
    · show (Acceptor.takePrepare E _ (openRound v x)).1.instanceId =
        (Acceptor.takePrepare E _ (openRound v x)).2.proposer.instanceId
      rw [hprop, hrid]
      rfl

/-- `Prepare` is a chain of actions, the node's own promise and what follows from it included. -/
theorem Chain.prepare {v : PaxosValue} (hw : x.WF) (hstart : RoundStart x v y) (hrule : R.prepare y)
    (hkeep : R.keepsLearned → x.learner.hasLearned = true →
      x.acceptor.acceptedValue = x.learner.learnedValue ∧
        0 < x.acceptor.acceptedBallot.proposalId) :
    Chain R E net x (Proposer.prepare E y.proposer.wasRejectedBySomeone
      { y with proposer := { y.proposer with value := v } }) := by
  have hq := Quiet.of_roundStart hstart
  have hwy := hq.wf hw
  have hrecv : y.learner.isReceivingCheckpoint = x.learner.isReceivingCheckpoint := by
    rcases hstart with ⟨rfl, -⟩ | ⟨id, -, rfl, -⟩ <;> rfl
  show Chain R E net x (Instance.frame E
    (Acceptor.onPrepare E (Proposer.prepareMessage (Proposer.openRound v y)))
    (Proposer.openRound v y))
  cases hr : x.learner.isReceivingCheckpoint with
  | true =>
    unfold Instance.frame
    rw [if_pos (show (Proposer.openRound v y).learner.isReceivingCheckpoint = true from
      hrecv.trans hr)]
    exact .single (.openRound y v hstart hrule hr)
  | false =>
    unfold Instance.frame
    -- Inside the frames of the handlers: the own promise, what follows from it, and the checks.
    have hry : y.learner.isReceivingCheckpoint = false := hrecv.trans hr
    rw [if_neg (Bool.eq_false_iff.mp
      (show (Proposer.openRound v y).learner.isReceivingCheckpoint = false from hry)),
      Proposer.onPrepare_own v hwy hry]
    have hact : Act R E net x (Proposer.beginRound E v y) :=
      .beginRound y v hstart hrule hr fun hk hl => (hkeep hk hl).1
    refine ReflTransGen.trans ?_ (Chain.checkLearn _)
    refine ReflTransGen.trans ?_ (Chain.checkLearn _)
    refine ReflTransGen.trans ?_ (Chain.quiet (.setMaxProposalId _ _))
    refine ReflTransGen.head hact ?_
    obtain ⟨htype, -, hid, hpid⟩ := Acceptor.takePrepare_reply E
      (Proposer.prepareMessage (Proposer.openRound v y)) (Proposer.openRound v y)
    obtain ⟨p, a, db, nt, ts, trace, hframe⟩ := Proposer.beginRound_frame E v y
    refine Chain.settlePrepare (hact.wf hw) (Or.inr ?_) htype ?_ ?_ ?_ ?_
    · exact List.mem_cons_self
    · rw [Proposer.beginRound_proposer, Proposer.countPrepareReply_preparing]
      rfl
    · rw [Proposer.beginRound_instanceId, hid]
      rfl
    · intro _
      rw [Proposer.beginRound_proposalId, hpid]
      rfl
    · -- A round that passes at once was promised, and the acceptor's value is the learned one.
      intro hk hl hpass _
      have hl' : x.learner.hasLearned = true := by
        rw [hframe] at hl
        rw [← hq.hasLearned]
        exact hl
      obtain ⟨hval, hpos⟩ := hkeep hk hl'
      rw [← hq.acceptor] at hval hpos
      have hle := Proposer.promised_of_passed E v hwy.proposalId hpass
      rw [(Proposer.beginRound_value_of_le E v hle hpos).1, hval, ← hq.learnedValue, hframe]

/-- `OnPrepare` of a message from the network. -/
theorem Chain.onPrepare (hw : x.WF) (hm : net m) (htype : m.type = .prepare)
    (hkeep : R.keepsLearned → m.instanceId = x.acceptor.instanceId →
      x.learner.hasLearned = true → x.acceptor.promisedBallot ≤ m.ballot →
      x.acceptor.acceptedValue = x.learner.learnedValue)
    (hself : R.current .prepareReply ∨ R.keepsLearned → m.nodeId ≠ x.nodeId) :
    Chain R E net x (Acceptor.onPrepare E m x) := by
  unfold Acceptor.onPrepare
  split_ifs with hid hnext
  · have hact : Act R E net x (Acceptor.answer m.nodeId (Acceptor.takePrepare E m x).1
        (Acceptor.takePrepare E m x).2) :=
      .takePrepare m hm htype hid fun hk => hkeep hk hid
    obtain ⟨hrtype, -, -, -⟩ := Acceptor.takePrepare_reply E m x
    obtain ⟨a, db, trace, hframe⟩ := Acceptor.takePrepare_frame E m x
    have hwf := hact.wf hw
    refine ReflTransGen.head hact ?_
    dsimp only
    unfold Acceptor.reply Acceptor.answer at *
    have hnode : (Acceptor.takePrepare E m x).2.nodeId = x.nodeId := by rw [hframe]; rfl
    rw [hnode] at hwf ⊢
    by_cases heq : m.nodeId = x.nodeId
    · rw [if_pos heq] at hwf ⊢
      rw [if_pos heq]
      refine Chain.frame fun _ => Chain.onPrepareReply hwf (Or.inr List.mem_cons_self) hrtype ?_ ?_
      · intro _ _ hc
        rw [hrtype] at hc
        exact absurd heq (hself (Or.inl hc))
      · intro _ _ hk
        exact absurd heq (hself (Or.inr hk))
    · rw [if_neg heq]
      rw [if_neg heq]
  · exact Chain.newChosenValue hm (Or.inl htype) hnext
  · exact .refl

/-! ## Proposals -/

/-- What the rules ask for where `Prepare` is called. -/
def Rules.PrepareOk (R : Rules) (x : Node) : Prop :=
  R.prepare x ∧ (R.keepsLearned → x.learner.hasLearned = true →
    x.acceptor.acceptedValue = x.learner.learnedValue ∧ 0 < x.acceptor.acceptedBallot.proposalId)

/-- What the rules ask for where `NewPropose` skips `Prepare`. -/
def Rules.SkipOk (R : Rules) (x : Node) : Prop :=
  R.skip x ∧ (R.keepsLearned → x.learner.hasLearned = true →
    x.acceptor.promisedBallot ≤ (Proposer.acceptMessage x).ballot →
    x.proposeValue = x.learner.learnedValue)

/-- What the rules ask for where `NewPropose` is called. -/
def Rules.StartOk (R : Rules) (x : Node) : Prop :=
  if x.proposer.skipPrepare = true ∧ x.proposer.wasRejectedBySomeone = false then R.SkipOk x
  else R.PrepareOk x

/-- `NewPropose` is a chain of actions, whether it prepares or accepts at once. -/
theorem Chain.newPropose (hw : x.WF) (hbusy : x.isProposing = true)
    (hvalid : x.isValidNodeId x.nodeId = true) (hok : R.StartOk x) :
    Chain R E net x (Proposer.newPropose E x.proposeValue x) := by
  unfold Proposer.newPropose
  unfold Rules.StartOk at hok
  dsimp only
  by_cases hskip : x.proposer.skipPrepare = true ∧ x.proposer.wasRejectedBySomeone = false
  · rw [if_pos hskip] at hok
    rw [if_pos (by simp [hskip])]
    have hact : Act R E net x (Proposer.directAccept x.proposeValue x) :=
      .directAccept hskip.1 hskip.2 hok.1 hbusy hvalid
    exact ReflTransGen.head hact (Chain.handAccept (hact.wf hw) rfl hok.2)
  · rw [if_neg hskip] at hok
    rw [if_neg (by simpa using hskip)]
    exact Chain.prepare hw (Or.inl ⟨rfl, rfl, hbusy, hvalid⟩) hok.1 hok.2

/-- `OnPropose` is a chain of actions; a node that is no member only reports an error. -/
theorem Chain.onPropose {machineId : ℕ} {value : List UInt8} {context : Option Context} {draw : ℕ}
    (hw : x.WF) (hidle : x.isProposing = false) (hdraw : drawOk draw = true)
    (hrule : R.propose E x machineId value context) (hok : x.isValidNodeId x.nodeId = true →
      R.StartOk (Instance.startPropose E machineId value context draw x)) :
    Chain R E net x (Instance.onPropose E machineId value context draw x) := by
  unfold Instance.onPropose
  split_ifs with hvalid
  · have hact : Act R E net x (Instance.startPropose E machineId value context draw x) :=
      .propose machineId value context draw hidle hdraw hvalid hrule
    exact ReflTransGen.head hact (Chain.newPropose (hact.wf hw) rfl hvalid (hok hvalid))
  · exact Chain.quiet (.emit x rfl)

/-! ## Learning from another node -/

theorem Chain.askForLearn (x : Node) (addTimer : Bool) :
    Chain R E net x (Learner.askForLearn E addTimer x) := by
  have hask : Chain R E net x (Learner.askForLearn E false x) :=
    (Chain.quiet (.setLearner x false false)).trans (Chain.quiet (.emit _ rfl))
  cases addTimer with
  | false => exact hask
  | true => exact hask.trans (Chain.quiet (.addLearnTimer _))

/-- `OnAskForLearn` is a chain of actions; it serves at most the record that is asked for. -/
theorem Chain.onAskForLearn (hw : x.WF) (m : PaxosMessage) :
    Chain R E net x (Learner.onAskForLearn E m x) := by
  unfold Learner.onAskForLearn
  split_ifs with hlt heq hsend
  · cases hget : x.db.get m.instanceId with
    | none => exact .refl
    | some r =>
      rw [hw.learnerId] at hlt
      exact .single (.serve m.nodeId m.instanceId r hget hlt)
  · exact Chain.quiet (.queueInLearnLoop x rfl)
  · exact .refl
  · exact .refl

theorem Chain.onSendNowInstanceId (x : Node) (m : PaxosMessage) :
    Chain R E net x (Learner.onSendNowInstanceId m x) := by
  unfold Learner.onSendNowInstanceId
  split_ifs
  · exact (Chain.quiet (.emit x rfl)).trans (Chain.quiet (.setLearner _ x.learner.isLearning true))
  · exact .refl
  · exact (Chain.quiet (.emit x rfl)).trans
      (Chain.quiet (.setLearner _ true x.learner.isReceivingCheckpoint))
  · exact .refl
  · exact .refl

/-- `OnSendLearnedValue` is a chain of actions; nothing is learned when the write fails. -/
theorem Chain.onSendLearnedValue (hm : net m) (htype : m.type = .sendLearnedValue)
    (hrule : m.instanceId = x.learner.instanceId → R.learn x m) :
    Chain R E net x (Learner.onSendLearnedValue E m x) := by
  unfold Learner.onSendLearnedValue
  split_ifs with hid
  · dsimp only
    cases hput : E.putOk x.trace.length with
    | true =>
      have hres : (Learner.writeToDB E m x).1 = true := hput
      rw [if_pos hres]
      exact .tail (.single (.learnValue m hm htype hid (hrule hid) hput))
        (.tellFollowers _ rfl ⟨m, Or.inr ⟨hm, htype⟩, rfl⟩)
    | false =>
      have hres : ¬ (Learner.writeToDB E m x).1 = true := by
        simp [Learner.writeToDB, Node.put, hput]
      have heq : (Learner.writeToDB E m x).2 = x.emit (.put
          { instanceId := m.instanceId, promised := m.ballot, accepted := m.ballot,
            acceptedValue := m.value } false) := by
        simp [Learner.writeToDB, Node.put, hput, Node.emit]
      rw [if_neg hres, heq]
      exact Chain.quiet (.emit x rfl)
  · exact .refl

/-- A task of the learn loop serves the records that it finds. -/
theorem Chain.runLearnLoop (hw : x.WF) :
    Chain R E net x (Learner.runLearnLoop x) := by
  unfold Learner.runLearnLoop
  cases htasks : x.learnTasks with
  | nil => exact .refl
  | cons t ts =>
    have hold : ∀ u ∈ ts, u ∈ x.learnTasks ∨ u.Bounded x.learner.instanceId := by
      intro u hu
      rw [htasks]
      exact Or.inl (List.mem_cons_of_mem t hu)
    have hdrop : Chain R E net x { x with learnTasks := ts } := Chain.quiet (.dropLearnTasks x hold)
    have hb : t.Bounded x.instanceId :=
      hw.learnTasks t (by rw [htasks]; exact List.mem_cons_self)
    cases t with
    | send dest msg =>
      refine hdrop.trans (Chain.quiet (.emit _ ?_))
      have htype : msg.type = .sendNowInstanceId := hb
      simp [Event.isQuiet, htype]
    | sendCheckpoint dest => exact hdrop
    | aSyncSend dest fromId toId =>
      dsimp only
      split_ifs with hlt
      · cases hget : x.db.get fromId with
        | none => exact hdrop
        | some r =>
          have hnext : Chain R E net x
              { x with learnTasks := .aSyncSend dest (fromId + 1) toId :: ts } := by
            refine Chain.quiet (.dropLearnTasks x fun u hu => ?_)
            rcases List.mem_cons.mp hu with rfl | hu
            · right
              rw [hw.learnerId]
              exact hb
            · exact hold u hu
          have hserve : Act R E net { x with learnTasks := .aSyncSend dest (fromId + 1) toId :: ts }
              (Node.sendMessage dest (Learner.learnedMessage x r)
                { x with learnTasks := .aSyncSend dest (fromId + 1) toId :: ts }) :=
            .serve dest fromId r hget (lt_of_lt_of_le hlt hb)
          exact hnext.tail hserve
      · exact hdrop

/-! ## Events -/

/-- What the rules ask for where a message is handled. -/
def Rules.MessageOk (R : Rules) (x : Node) (m : PaxosMessage) : Prop :=
  match m.type with
  | .prepare =>
    (R.keepsLearned → m.instanceId = x.acceptor.instanceId → x.learner.hasLearned = true →
      x.acceptor.promisedBallot ≤ m.ballot →
      x.acceptor.acceptedValue = x.learner.learnedValue) ∧
    (R.current .prepareReply ∨ R.keepsLearned → m.nodeId ≠ x.nodeId)
  | .accept =>
    (R.keepsLearned → m.instanceId = x.acceptor.instanceId → x.learner.hasLearned = true →
      x.acceptor.promisedBallot ≤ m.ballot → m.value = x.learner.learnedValue) ∧
    (R.current .acceptReply ∨ R.keepsLearned → m.nodeId ≠ x.nodeId)
  | .prepareReply =>
    x.proposer.preparing = true → m.instanceId = x.proposer.instanceId →
      (R.current .prepareReply → m.proposalId = x.proposer.proposalId) ∧
      (R.keepsLearned → x.learner.hasLearned = true →
        Proposer.isPassedOnThisRound { x with proposer := x.proposer.countPrepareReply m } = true →
        x.acceptor.promisedBallot ≤ (Proposer.acceptMessage x).ballot →
        (x.proposer.countPrepareReply m).value = x.learner.learnedValue)
  | .acceptReply =>
    x.proposer.accepting = true → m.instanceId = x.proposer.instanceId →
      R.current .acceptReply → m.proposalId = x.proposer.proposalId
  | .sendLearnedValue => m.instanceId = x.learner.instanceId → R.learn x m
  | _ => True

/-- What the rules ask for at a message, kind by kind. -/
theorem Rules.messageOk_of
    (hself : (∃ type, R.current type) ∨ R.keepsLearned → m.type = .prepare ∨ m.type = .accept →
      m.nodeId ≠ x.nodeId)
    (hcur : R.current m.type → m.type = .prepareReply ∧ x.proposer.preparing = true ∨
      m.type = .acceptReply ∧ x.proposer.accepting = true →
      m.instanceId = x.proposer.instanceId → m.proposalId = x.proposer.proposalId)
    (hkeep : R.keepsLearned → x.learner.hasLearned = true →
      (m.type = .prepare → m.instanceId = x.acceptor.instanceId →
        x.acceptor.promisedBallot ≤ m.ballot →
        x.acceptor.acceptedValue = x.learner.learnedValue) ∧
      (m.type = .accept → m.instanceId = x.acceptor.instanceId →
        x.acceptor.promisedBallot ≤ m.ballot → m.value = x.learner.learnedValue) ∧
      (m.type = .prepareReply → x.proposer.preparing = true →
        m.instanceId = x.proposer.instanceId →
        Proposer.isPassedOnThisRound { x with proposer := x.proposer.countPrepareReply m } = true →
        x.acceptor.promisedBallot ≤ (Proposer.acceptMessage x).ballot →
        (x.proposer.countPrepareReply m).value = x.learner.learnedValue))
    (hlearn : m.type = .sendLearnedValue → m.instanceId = x.learner.instanceId → R.learn x m) :
    R.MessageOk x m := by
  unfold Rules.MessageOk
  cases htype : m.type with
  | prepare =>
    exact ⟨fun hk hid hl => (hkeep hk hl).1 htype hid, fun h =>
      hself (h.imp (fun hc => ⟨_, hc⟩) id) (Or.inl htype)⟩
  | accept =>
    exact ⟨fun hk hid hl => (hkeep hk hl).2.1 htype hid, fun h =>
      hself (h.imp (fun hc => ⟨_, hc⟩) id) (Or.inr htype)⟩
  | prepareReply =>
    intro hprep hid
    exact ⟨fun hc => hcur (htype ▸ hc) (Or.inl ⟨htype, hprep⟩) hid, fun hk hl =>
      (hkeep hk hl).2.2 htype hprep hid⟩
  | acceptReply => exact fun hacc hid hc => hcur (htype ▸ hc) (Or.inr ⟨htype, hacc⟩) hid
  | sendLearnedValue => exact hlearn htype
  | _ => trivial

theorem Rules.messageOk_of_free (hcur : ∀ type, ¬ R.current type) (hkeep : ¬ R.keepsLearned)
    (hlearn : R.learn x m) : R.MessageOk x m :=
  Rules.messageOk_of (fun h => (h.elim (fun ⟨t, ht⟩ => hcur t ht) hkeep).elim)
    (fun h => absurd h (hcur _))
    (fun h => absurd h hkeep) fun _ _ => hlearn

/-- `OnPaxosMessage` is a chain of actions for every message of the network that the rules allow. -/
theorem Chain.onPaxosMessage (hw : x.WF) (hm : net m)
    (hok : x.learner.isReceivingCheckpoint = false → R.MessageOk x m) :
    Chain R E net x (Instance.onPaxosMessage E m x) := by
  refine Chain.frame fun hrecv => ?_
  have hok := hok hrecv
  unfold Instance.handle
  unfold Rules.MessageOk at hok
  cases htype : m.type with
  | prepare =>
    rw [htype] at hok
    exact Chain.onPrepare hw hm htype hok.1 hok.2
  | prepareReply =>
    rw [htype] at hok
    exact Chain.onPrepareReply hw (Or.inl hm) htype (fun h1 h2 hc => (hok h1 h2).1 (htype ▸ hc))
      fun h1 h2 => (hok h1 h2).2
  | accept =>
    rw [htype] at hok
    exact Chain.onAccpet hw (Or.inl hm) (fun h => absurd hm h) htype hok.1
      fun heq hc => absurd heq (hok.2 (Or.inl hc))
  | acceptReply =>
    rw [htype] at hok
    exact Chain.onAccpetReply hw (Or.inl hm) htype fun h1 h2 hc => hok h1 h2 (htype ▸ hc)
  | newChosenValue => exact Chain.onNewChosenValue (Or.inl ⟨hm, htype⟩)
  | askForLearn => exact Chain.onAskForLearn hw m
  | sendLearnedValue =>
    rw [htype] at hok
    exact Chain.onSendLearnedValue hm htype hok
  | sendNowInstanceId => exact Chain.onSendNowInstanceId x m
  | comfirmAskForLearn => exact Chain.quiet (.queueInLearnLoop x (le_refl _))
  | askForCheckpoint => exact Chain.quiet (.queueInLearnLoop x trivial)

/-- The bytes that `TryBeMasterInLoop` proposes. -/
def Group.masterBytes (x : Node) : List UInt8 :=
  x.config.codec.serializeMasterState
    { x.machines.master with nodeId := x.nodeId, leaseTime := x.config.masterLeaseTime }

/-- The condition under which `TryBeMasterInLoop` proposes. -/
def Group.mayBeMaster (E : Env) (x : Node) : Prop :=
  x.machines.master.leaseTime ≤ E.nowMillis ∨ x.machines.master.nodeId = x.nodeId

/-- What the rules ask for where an event is handled. -/
def Rules.Allows (R : Rules) (E : Env) (net : PaxosMessage → Prop) (x : Node) : NodeEvent → Prop
  | .propose machineId value context draw =>
    R.propose E x machineId value context ∧ (x.isValidNodeId x.nodeId = true →
      R.StartOk (Instance.startPropose E machineId value context draw x))
  | .tryBeMaster draw =>
    Group.mayBeMaster E x →
      R.propose E { x with groupNow := E.nowMillis } masterMachineId (Group.masterBytes x)
        (some .groupNow) ∧
      (x.isValidNodeId x.nodeId = true →
        R.StartOk (Instance.startPropose E masterMachineId (Group.masterBytes x) (some .groupNow)
          draw { x with groupNow := E.nowMillis }))
  | .timer id =>
    x.timers.lookup id = some (.retry x.proposer.instanceId) → R.PrepareOk (x.removeTimer id)
  | .paxosMessage m => net m ∧ (x.learner.isReceivingCheckpoint = false → R.MessageOk x m)
  | .gcLoop => R.clean
  | .finishCheckpoint => R.checkpoint
  | _ => True

theorem Chain.tryBeMasterInLoop {draw : ℕ} (hw : x.WF) (hidle : x.isProposing = false)
    (hdraw : drawOk draw = true) (hok : R.Allows E net x (.tryBeMaster draw)) :
    Chain R E net x (Group.tryBeMasterInLoop E draw x) := by
  have hnow : Act R E net x { x with groupNow := E.nowMillis } := .setNow hidle
  refine ReflTransGen.head hnow ?_
  unfold Group.tryBeMasterInLoop
  dsimp only
  split_ifs with hlease
  · obtain ⟨hrule, hstart⟩ := hok hlease
    exact Chain.onPropose { hw with } hidle hdraw hrule hstart
  · exact Chain.quiet (.emit _ rfl)

/-- A timer is removed and its callback is a chain of actions. -/
theorem Chain.timer {id : ℕ} {cb : TimerCallback} (hw : x.WF) (hcb : x.timers.lookup id = some cb)
    (hok : R.Allows E net x (.timer id)) :
    Chain R E net x ((x.removeTimer id).runTimer E cb) := by
  have hremove : Chain R E net x (x.removeTimer id) := Chain.quiet (.removeTimer x id)
  cases cb with
  | propose => exact hremove.tail .timeout
  | learn => exact hremove.trans (Chain.askForLearn _ true)
  | retry i =>
    unfold Node.runTimer Proposer.onRetryTimer
    dsimp only
    split_ifs with hi
    · obtain rfl : i = x.proposer.instanceId := hi
      have hmem : (id, TimerCallback.retry x.proposer.instanceId) ∈ x.timers := by
        obtain ⟨l₁, l₂, hl, -⟩ := List.lookup_eq_some_iff.mp hcb
        rw [hl]
        exact List.mem_append_right _ List.mem_cons_self
      obtain ⟨hrule, hkeep⟩ := hok hcb
      exact Chain.prepare hw (Or.inr ⟨id, hmem, rfl, rfl⟩) hrule hkeep
    · exact hremove

/-- **Every event of a node is a chain of actions.** -/
theorem Node.step_chain {ev : NodeEvent} (hw : x.WF) (hok : R.Allows E net x ev)
    (h : x.step E ev = some y) : Chain R E net x y := by
  cases ev with
  | propose machineId value context draw =>
    simp only [Node.step, Option.ite_none_right_eq_some, Option.some.injEq] at h
    obtain ⟨⟨hidle, hdraw⟩, rfl⟩ := h
    exact Chain.onPropose hw hidle hdraw hok.1 hok.2
  | tryBeMaster draw =>
    simp only [Node.step, Option.ite_none_right_eq_some, Option.some.injEq] at h
    obtain ⟨⟨hidle, hdraw⟩, rfl⟩ := h
    exact Chain.tryBeMasterInLoop hw hidle hdraw hok
  | timer id =>
    simp only [Node.step] at h
    split at h
    · cases h
    · rename_i cb hcb
      cases h
      exact Chain.timer hw hcb hok
  | paxosMessage m =>
    cases h
    exact Chain.onPaxosMessage hw hok.1 hok.2
  | checkpointMessage =>
    cases h
    exact (Chain.quiet (.removeTimer x _)).trans (Chain.quiet (.addLearnTimer _))
  | syncData addTimer =>
    cases h
    exact Chain.askForLearn x addTimer
  | learnLoop =>
    simp only [Node.step, Option.ite_none_left_eq_some, Option.some.injEq] at h
    obtain ⟨-, rfl⟩ := h
    exact Chain.runLearnLoop hw
  | finishCheckpoint =>
    simp only [Node.step, Option.ite_none_right_eq_some, Option.some.injEq] at h
    obtain ⟨⟨hid, hnew⟩, rfl⟩ := h
    exact .single (.finishCheckpoint hid hnew hok)
  | gcLoop =>
    cases h
    exact .single (.gcLoop hok)

end Handlers

end Skywalker
