import Skywalker.Chain

/-!
# What an action appends to the trace

`NewEvent` lists the entries that an action can append, each with the decision that it records.
Invariants about traces split on it instead of on the actions: an entry that was there before stays,
and a new one comes with its reason.
-/

namespace Skywalker

variable {x y z : Node} {m : PaxosMessage} {v : PaxosValue} {e : Event}

/-- The entries that a call adds to the trace. -/
def Node.added (x y : Node) : List Event := y.trace.take (y.trace.length - x.trace.length)

theorem Node.added_of_append {l : List Event} (h : y.trace = l ++ x.trace) :
    x.added y = l := by
  simp [Node.added, h]

/-! ## Reasons -/

/-- A message of a type that reached the acceptor at its own instance, from the network or from the
node's own proposer. -/
structure Heard (net : PaxosMessage → Prop) (x y : Node) (type : PaxosMessageType)
    (m : PaxosMessage) : Prop where
  heard : net m ∨ (m.nodeId = x.nodeId ∧ ∃ dests, .broadcast m dests ∈ y.trace)
  type_eq : m.type = type
  id : m.instanceId = x.acceptor.instanceId

/-- The entry by which a reply leaves the acceptor. -/
def ReplyEvent (x : Node) (dest : ℕ) (r : PaxosMessage) (e : Event) : Prop :=
  (e = .handed r ∧ dest = x.nodeId) ∨ (e = .send dest r ∧ dest ≠ x.nodeId)

/-- The entries that an action appends. -/
inductive NewEvent (R : Rules) (E : Env) (net : PaxosMessage → Prop) (x y : Node) :
    Event → Prop where
  /-- An entry that no other node's progress depends on. -/
  | quiet {e : Event} (he : e.isQuiet = true) : NewEvent R E net x y e
  /-- A record is written, or its write fails. -/
  | put {r : PaxosInstance} {ok : Bool} : NewEvent R E net x y (.put r ok)
  /-- `OnPropose` takes a new value as the node's proposal. -/
  | proposed {machineId : ℕ} {value : List UInt8} {context : Option Context} {draw : ℕ}
      (hidle : x.isProposing = false) (hdraw : drawOk draw = true)
      (hvalid : x.isValidNodeId x.nodeId = true) (hrule : R.propose E x machineId value context)
      (hy : y = Instance.startPropose E machineId value context draw x) :
      NewEvent R E net x y (.proposed x.instanceId E.nowMillis y.proposeValue)
  /-- `Prepare` is broadcast, with the value that the round starts with. -/
  | prepare {z : Node} {v : PaxosValue} (hstart : RoundStart x v z) (hrule : R.prepare z)
      (hy : y = Proposer.openRound v z ∨ y = Proposer.beginRound E v z) :
      NewEvent R E net x y
        (.broadcast (Proposer.prepareMessage (Proposer.openRound v z)) (x.others x.memberIds))
  /-- The acceptor takes a `PREPARE`. -/
  | promised {m : PaxosMessage} (hm : Heard net x y .prepare m)
      (hle : x.acceptor.promisedBallot ≤ m.ballot)
      (hy : y.acceptor = { x.acceptor with promisedBallot := m.ballot }) :
      NewEvent R E net x y (.promised m.instanceId m.ballot)
  /-- The acceptor answers a `PREPARE`. -/
  | prepareReply {m r : PaxosMessage} {e : Event} (hm : Heard net x y .prepare m)
      (hr : (x.acceptor.promisedBallot ≤ m.ballot ∧ r = Acceptor.promise m x ∧
          .promised m.instanceId m.ballot ∈ y.trace) ∨
        (¬ x.acceptor.promisedBallot ≤ m.ballot ∧ r = Acceptor.rejection .prepareReply m x))
      (he : ReplyEvent x m.nodeId r e) : NewEvent R E net x y e
  /-- A majority has promised in the round that is open. -/
  | preparePassed {m : PaxosMessage} (hm : Answered net x m) (htype : m.type = .prepareReply)
      (hprep : x.proposer.preparing = true) (hid : m.instanceId = x.proposer.instanceId)
      (hcur : R.current m.type → m.proposalId = x.proposer.proposalId)
      (hpass : Proposer.isPassedOnThisRound x = true) (hy : y = Proposer.passPrepare x) :
      NewEvent R E net x y (.preparePassed x.proposer.instanceId x.proposer.proposalId)
  /-- The broadcast of `Accept` after a majority promised. -/
  | accept {m : PaxosMessage} (hm : Answered net x m) (htype : m.type = .prepareReply)
      (hprep : x.proposer.preparing = true) (hid : m.instanceId = x.proposer.instanceId)
      (hcur : R.current m.type → m.proposalId = x.proposer.proposalId)
      (hpass : Proposer.isPassedOnThisRound x = true) (hy : y = Proposer.passPrepare x) :
      NewEvent R E net x y (.broadcast (Proposer.acceptMessage x) (x.others x.memberIds))
  /-- The broadcast of `Accept` without `Prepare`. -/
  | directAccept (hskip : x.proposer.skipPrepare = true)
      (hrej : x.proposer.wasRejectedBySomeone = false) (hrule : R.skip x)
      (hbusy : x.isProposing = true) (hvalid : x.isValidNodeId x.nodeId = true)
      (hy : y = Proposer.directAccept x.proposeValue x) :
      NewEvent R E net x y (.broadcast (Proposer.acceptMessage y) (x.others x.memberIds))
  /-- The acceptor takes an `ACCEPT`. -/
  | accepted {m : PaxosMessage} (hm : Heard net x y .accept m)
      (hle : x.acceptor.promisedBallot ≤ m.ballot)
      (hy : y.acceptor = { x.acceptor with
        promisedBallot := m.ballot, acceptedBallot := m.ballot, acceptedValue := m.value }) :
      NewEvent R E net x y (.accepted m.instanceId m.ballot m.value)
  /-- The acceptor answers an `ACCEPT`. -/
  | acceptReply {m r : PaxosMessage} {e : Event} (hm : Heard net x y .accept m)
      (hr : (x.acceptor.promisedBallot ≤ m.ballot ∧ r = Acceptor.replyTo .acceptReply m x ∧
          .accepted m.instanceId m.ballot m.value ∈ y.trace) ∨
        (¬ x.acceptor.promisedBallot ≤ m.ballot ∧ r = Acceptor.rejection .acceptReply m x))
      (he : ReplyEvent x m.nodeId r e) : NewEvent R E net x y e
  /-- A majority has accepted in the round that is open. -/
  | acceptPassed {m : PaxosMessage} (hm : Answered net x m) (htype : m.type = .acceptReply)
      (hacc : x.proposer.accepting = true) (hid : m.instanceId = x.proposer.instanceId)
      (hcur : R.current m.type → m.proposalId = x.proposer.proposalId)
      (hpass : Proposer.isPassedOnThisRound x = true) (hy : y = Proposer.passAccept x) :
      NewEvent R E net x y
        (.acceptPassed x.proposer.instanceId x.proposer.proposalId x.proposer.value)
  /-- The broadcast of `NewChosenValue` after a majority has accepted. -/
  | newChosenValue {m : PaxosMessage} (hm : Answered net x m) (htype : m.type = .acceptReply)
      (hacc : x.proposer.accepting = true) (hid : m.instanceId = x.proposer.instanceId)
      (hcur : R.current m.type → m.proposalId = x.proposer.proposalId)
      (hpass : Proposer.isPassedOnThisRound x = true) (hy : y = Proposer.passAccept x) :
      NewEvent R E net x y (.broadcast
        { type := .newChosenValue, nodeId := x.nodeId, instanceId := x.proposer.instanceId,
          proposalId := x.proposer.proposalId } (x.others x.memberIds))
  /-- The broadcast to the followers. -/
  | toFollowers {ballot : BallotNumber} {dests : List ℕ} (hlearned : x.learner.hasLearned = true)
      (hballot : TaughtBy net x ballot) :
      NewEvent R E net x y (.broadcast
        { type := .sendLearnedValue, nodeId := x.nodeId, instanceId := x.learner.instanceId,
          proposalId := ballot.proposalId, proposalNodeId := ballot.nodeId,
          value := x.learner.learnedValue } dests)
  /-- A record of an earlier instance is sent to a node that has asked for it. -/
  | serve {dest i : ℕ} {r : PaxosInstance} (hget : x.db.get i = some r) (hid : i < x.instanceId) :
      NewEvent R E net x y (.send dest (Learner.learnedMessage x r))
  /-- The learned value is executed. -/
  | executed (hlearned : x.learner.hasLearned = true) (hy : y = Instance.checkLearn E x) :
      NewEvent R E net x y (.executed x.instanceId x.learner.learnedValue
        (Instance.executeContext x) (Instance.execution E x).1)

/-! ## The entries of the acceptor's decisions -/

section

variable {R : Rules} {E : Env} {net : PaxosMessage → Prop}

/-- What the acceptor notes and writes when it decides about a `PREPARE`. -/
theorem Acceptor.takePrepare_trace (E : Env) (m : PaxosMessage) (x : Node) :
    ∃ l, (takePrepare E m x).2.trace = l ++ x.trace ∧ ∀ e ∈ l, (∃ r ok, e = .put r ok) ∨
      (e = .promised m.instanceId m.ballot ∧ x.acceptor.promisedBallot ≤ m.ballot) := by
  by_cases h : x.acceptor.promisedBallot ≤ m.ballot
  · rw [takePrepare, if_pos h]
    refine ⟨[.put _ _, .promised m.instanceId m.ballot], rfl, ?_⟩
    intro e he
    simp only [List.mem_cons, List.not_mem_nil, or_false] at he
    rcases he with rfl | rfl
    · exact Or.inl ⟨_, _, rfl⟩
    · exact Or.inr ⟨rfl, h⟩
  · rw [takePrepare, if_neg h]
    exact ⟨[], rfl, by simp⟩

/-- What the acceptor notes and writes when it decides about an `ACCEPT`. -/
theorem Acceptor.takeAccept_trace (E : Env) (m : PaxosMessage) (x : Node) :
    ∃ l, (takeAccept E m x).2.trace = l ++ x.trace ∧ ∀ e ∈ l, (∃ r ok, e = .put r ok) ∨
      (e = .accepted m.instanceId m.ballot m.value ∧ x.acceptor.promisedBallot ≤ m.ballot) := by
  by_cases h : x.acceptor.promisedBallot ≤ m.ballot
  · rw [takeAccept, if_pos h]
    refine ⟨[.put _ _, .accepted m.instanceId m.ballot m.value], rfl, ?_⟩
    intro e he
    simp only [List.mem_cons, List.not_mem_nil, or_false] at he
    rcases he with rfl | rfl
    · exact Or.inl ⟨_, _, rfl⟩
    · exact Or.inr ⟨rfl, h⟩
  · rw [takeAccept, if_neg h]
    exact ⟨[], rfl, by simp⟩

/-- The acceptor's state after a `PREPARE` that it takes. -/
theorem Acceptor.takePrepare_of_le (h : x.acceptor.promisedBallot ≤ m.ballot) :
    (takePrepare E m x).1 = promise m x ∧
    (takePrepare E m x).2.acceptor = { x.acceptor with promisedBallot := m.ballot } ∧
    .promised m.instanceId m.ballot ∈ (takePrepare E m x).2.trace := by
  rw [takePrepare, if_pos h]
  exact ⟨rfl, rfl, List.mem_cons_of_mem _ List.mem_cons_self⟩

/-- The acceptor's state after an `ACCEPT` that it takes. -/
theorem Acceptor.takeAccept_of_le (h : x.acceptor.promisedBallot ≤ m.ballot) :
    (takeAccept E m x).1 = replyTo .acceptReply m x ∧
    (takeAccept E m x).2.acceptor = { x.acceptor with
      promisedBallot := m.ballot, acceptedBallot := m.ballot, acceptedValue := m.value } ∧
    .accepted m.instanceId m.ballot m.value ∈ (takeAccept E m x).2.trace := by
  rw [takeAccept, if_pos h]
  exact ⟨rfl, rfl, List.mem_cons_of_mem _ List.mem_cons_self⟩

theorem Acceptor.takePrepare_of_not_le (h : ¬ x.acceptor.promisedBallot ≤ m.ballot) :
    takePrepare E m x = (rejection .prepareReply m x, x) := by
  rw [takePrepare, if_neg h]

theorem Acceptor.takeAccept_of_not_le (h : ¬ x.acceptor.promisedBallot ≤ m.ballot) :
    takeAccept E m x = (rejection .acceptReply m x, x) := by
  rw [takeAccept, if_neg h]

theorem Acceptor.answer_trace (dest : ℕ) (r : PaxosMessage) (x : Node) :
    ∃ e, (answer dest r x).trace = e :: x.trace ∧ ReplyEvent x dest r e := by
  unfold answer
  split_ifs with h
  · exact ⟨.handed r, rfl, Or.inl ⟨rfl, h⟩⟩
  · exact ⟨.send dest r, rfl, Or.inr ⟨rfl, h⟩⟩

theorem Acceptor.answer_acceptor (dest : ℕ) (r : PaxosMessage) (x : Node) :
    (answer dest r x).acceptor = x.acceptor := by
  obtain ⟨trace, hframe⟩ := answer_frame x dest r
  rw [hframe]

/-- Neither the timer nor the proposal that starts a round touches what a round reads. -/
theorem RoundStart.same (h : RoundStart x v z) :
    z.trace = x.trace ∧ z.acceptor = x.acceptor ∧ z.proposer = x.proposer ∧
      z.config = x.config ∧ z.machines = x.machines ∧ z.learner = x.learner ∧ z.db = x.db := by
  rcases h with ⟨rfl, -⟩ | ⟨id, -, rfl, -⟩ <;> exact ⟨rfl, rfl, rfl, rfl, rfl, rfl, rfl⟩

/-- The entries of the start of a round. -/
theorem Proposer.openRound_trace (h : RoundStart x v z) :
    (openRound v z).trace = .handed (prepareMessage (openRound v z)) ::
      .broadcast (prepareMessage (openRound v z)) (x.others x.memberIds) :: x.trace := by
  rcases h with ⟨rfl, -⟩ | ⟨id, -, rfl, -⟩ <;> rfl

/-- The node `w` hands the `PREPARE` `m` to its own acceptor, which is as it was in `x`. -/
structure OwnPrepare (x w : Node) (m : PaxosMessage) : Prop where
  type_eq : m.type = .prepare
  sender : m.nodeId = x.nodeId
  id : m.instanceId = x.acceptor.instanceId
  nodeId : w.nodeId = x.nodeId
  acceptor : w.acceptor = x.acceptor
  db : w.db = x.db
  instanceId : w.instanceId = x.instanceId
  learner : w.learner = x.learner
  trace : w.trace = .handed m :: .broadcast m (x.others x.memberIds) :: x.trace

/-- A round that starts hands the `PREPARE` to the node, whose acceptor is as it was. -/
theorem RoundStart.ownPrepare (h : RoundStart x v z) (hw : x.WF) :
    OwnPrepare x (Proposer.openRound v z)
      (Proposer.prepareMessage (Proposer.openRound v z)) := by
  obtain ⟨-, hacc, hprop, hconf, -, hl, hdb⟩ := h.same
  have hnode : (Proposer.openRound v z).nodeId = x.nodeId := by
    show z.config.nodeId = x.config.nodeId
    rw [hconf]
  have hid : (Proposer.prepareMessage (Proposer.openRound v z)).instanceId =
      x.acceptor.instanceId := by
    rw [hw.acceptorId, ← hw.proposerId, ← hprop]
    rfl
  have htrace := Proposer.openRound_trace h
  obtain ⟨p, nt, ts, trace, hframe⟩ := Proposer.openRound_frame v z
  refine ⟨rfl, hnode, hid, hnode, ?_, ?_, ?_, ?_, htrace⟩ <;> rw [hframe]
  · exact hacc
  · exact hdb
  · exact (Quiet.of_roundStart h).instanceId
  · exact hl

namespace OwnPrepare

variable {w : Node}

theorem heard (h : OwnPrepare x w m) {l : List Event} (hy : y.trace = l ++ w.trace) :
    Heard net x y .prepare m := by
  refine ⟨Or.inr ⟨h.sender, x.others x.memberIds, ?_⟩, h.type_eq, h.id⟩
  rw [hy, h.trace]
  simp

theorem promise_eq (h : OwnPrepare x w m) : Acceptor.promise m w = Acceptor.promise m x := by
  unfold Acceptor.promise Acceptor.replyTo
  rw [h.acceptor, h.nodeId]

theorem rejection_eq (h : OwnPrepare x w m) (type : PaxosMessageType) :
    Acceptor.rejection type m w = Acceptor.rejection type m x := by
  unfold Acceptor.rejection Acceptor.replyTo
  rw [h.acceptor, h.nodeId]

end OwnPrepare

/-- The entries of a round up to the node's own reply. -/
theorem NewEvent.of_beginRound (hw : x.WF) (hstart : RoundStart x v z) (hrule : R.prepare z) :
    ∃ l, (Proposer.beginRound E v z).trace = l ++ x.trace ∧
      ∀ e ∈ l, NewEvent R E net x (Proposer.beginRound E v z) e := by
  have hown := hstart.ownPrepare hw
  obtain ⟨hya, -, -, -, hy⟩ := Proposer.beginRound_take E v z
  have hprepare : NewEvent R E net x (Proposer.beginRound E v z) (.broadcast
      (Proposer.prepareMessage (Proposer.openRound v z)) (x.others x.memberIds)) :=
    .prepare hstart hrule (Or.inr rfl)
  generalize Proposer.beginRound E v z = y at hya hy hprepare ⊢
  generalize Proposer.prepareMessage (Proposer.openRound v z) = m at hown hya hy hprepare
  generalize Proposer.openRound v z = w at hown hya hy
  obtain ⟨l, hl, hmem⟩ := Acceptor.takePrepare_trace E m w
  have hheard : Heard net x y .prepare m := by
    rw [hl] at hy
    exact hown.heard (l := .handed (Acceptor.takePrepare E m w).1 :: l) hy
  refine ⟨.handed (Acceptor.takePrepare E m w).1 ::
    (l ++ [.handed m, .broadcast m (x.others x.memberIds)]), by simp [hy, hl, hown.trace], ?_⟩
  intro e he
  simp only [List.mem_cons, List.mem_append, List.not_mem_nil, or_false] at he
  rcases he with rfl | he | rfl | rfl
  · -- The reply, with the entry of the promise before it.
    refine .prepareReply hheard ?_ (Or.inl ⟨rfl, hown.sender⟩)
    by_cases hle : x.acceptor.promisedBallot ≤ m.ballot
    · obtain ⟨hreply, -, hpromised⟩ := Acceptor.takePrepare_of_le (E := E) (x := w) (m := m)
        (by rwa [hown.acceptor])
      refine Or.inl ⟨hle, by rw [hreply, hown.promise_eq], ?_⟩
      rw [hy]
      exact List.mem_cons_of_mem _ hpromised
    · refine Or.inr ⟨hle, ?_⟩
      rw [Acceptor.takePrepare_of_not_le (by rwa [hown.acceptor]), hown.rejection_eq]
  · rcases hmem e he with ⟨p, ok, rfl⟩ | ⟨rfl, hle⟩
    · exact .put
    · have hpromised := (Acceptor.takePrepare_of_le (E := E) hle).2.1
      rw [hown.acceptor] at hpromised hle
      exact .promised hheard hle (hya.trans hpromised)
  · refine .quiet ?_
    simp [Event.isQuiet, hown.type_eq]
  · exact hprepare

/-- The entries of a decision about a `PREPARE` of another node. -/
theorem NewEvent.of_takePrepare (hnet : net m) (htype : m.type = .prepare)
    (hid : m.instanceId = x.acceptor.instanceId) :
    ∃ l, (Acceptor.answer m.nodeId (Acceptor.takePrepare E m x).1
        (Acceptor.takePrepare E m x).2).trace = l ++ x.trace ∧
      ∀ e ∈ l, NewEvent R E net x (Acceptor.answer m.nodeId (Acceptor.takePrepare E m x).1
        (Acceptor.takePrepare E m x).2) e := by
  obtain ⟨l, hl, hmem⟩ := Acceptor.takePrepare_trace E m x
  obtain ⟨e₀, he₀, hreply⟩ := Acceptor.answer_trace m.nodeId (Acceptor.takePrepare E m x).1
    (Acceptor.takePrepare E m x).2
  have hnode : (Acceptor.takePrepare E m x).2.nodeId = x.nodeId := by
    obtain ⟨a, db, trace, h⟩ := Acceptor.takePrepare_frame E m x
    rw [h]
    rfl
  have hheard : ∀ y, Heard net x y .prepare m := fun y => ⟨Or.inl hnet, htype, hid⟩
  refine ⟨e₀ :: l, by rw [he₀, hl]; rfl, ?_⟩
  intro e he
  rcases List.mem_cons.mp he with rfl | he
  · refine .prepareReply (hheard _) ?_ (by unfold ReplyEvent at *; rwa [hnode] at hreply)
    by_cases hle : x.acceptor.promisedBallot ≤ m.ballot
    · obtain ⟨h1, -, h3⟩ := Acceptor.takePrepare_of_le (E := E) hle
      exact Or.inl ⟨hle, h1, by rw [he₀]; exact List.mem_cons_of_mem _ h3⟩
    · exact Or.inr ⟨hle, by rw [Acceptor.takePrepare_of_not_le hle]⟩
  · rcases hmem e he with ⟨p, ok, rfl⟩ | ⟨rfl, hle⟩
    · exact .put
    · refine .promised (hheard _) hle ?_
      rw [Acceptor.answer_acceptor, (Acceptor.takePrepare_of_le (E := E) hle).2.1]

/-- The entries of a decision about an `ACCEPT`. -/
theorem NewEvent.of_takeAccept
    (hm : net m ∨ ((∃ dests, .broadcast m dests ∈ x.trace) ∧ m.nodeId = x.nodeId))
    (htype : m.type = .accept) (hid : m.instanceId = x.acceptor.instanceId) :
    ∃ l, (Acceptor.answer m.nodeId (Acceptor.takeAccept E m x).1
        (Acceptor.takeAccept E m x).2).trace = l ++ x.trace ∧
      ∀ e ∈ l, NewEvent R E net x (Acceptor.answer m.nodeId (Acceptor.takeAccept E m x).1
        (Acceptor.takeAccept E m x).2) e := by
  obtain ⟨l, hl, hmem⟩ := Acceptor.takeAccept_trace E m x
  obtain ⟨e₀, he₀, hreply⟩ := Acceptor.answer_trace m.nodeId (Acceptor.takeAccept E m x).1
    (Acceptor.takeAccept E m x).2
  have hnode : (Acceptor.takeAccept E m x).2.nodeId = x.nodeId := by
    obtain ⟨a, db, trace, h⟩ := Acceptor.takeAccept_frame E m x
    rw [h]
    rfl
  have hheard : Heard net x (Acceptor.answer m.nodeId (Acceptor.takeAccept E m x).1
      (Acceptor.takeAccept E m x).2) .accept m := by
    refine ⟨?_, htype, hid⟩
    rcases hm with hnet | ⟨⟨dests, hd⟩, hn⟩
    · exact Or.inl hnet
    · refine Or.inr ⟨hn, dests, ?_⟩
      rw [he₀, hl]
      exact List.mem_cons_of_mem _ (List.mem_append_right _ hd)
  refine ⟨e₀ :: l, by rw [he₀, hl]; rfl, ?_⟩
  intro e he
  rcases List.mem_cons.mp he with rfl | he
  · refine .acceptReply hheard ?_ (by unfold ReplyEvent at *; rwa [hnode] at hreply)
    by_cases hle : x.acceptor.promisedBallot ≤ m.ballot
    · obtain ⟨h1, -, h3⟩ := Acceptor.takeAccept_of_le (E := E) hle
      exact Or.inl ⟨hle, h1, by rw [he₀]; exact List.mem_cons_of_mem _ h3⟩
    · exact Or.inr ⟨hle, by rw [Acceptor.takeAccept_of_not_le hle]⟩
  · rcases hmem e he with ⟨p, ok, rfl⟩ | ⟨rfl, hle⟩
    · exact .put
    · refine .accepted hheard hle ?_
      rw [Acceptor.answer_acceptor, (Acceptor.takeAccept_of_le (E := E) hle).2.1]

/-- `CheckLearn` adds the call of `Execute` to the trace, and a completion if a proposal ends. -/
theorem Instance.checkLearn_trace (hl : x.learner.hasLearned = true) :
    (checkLearn E x).trace = executionEvents E x ++ x.trace := by
  cases h : (execution E x).1 with
  | false => rw [checkLearn_of_false hl h]; rfl
  | true => rw [checkLearn_of_true hl h]; rfl

/-! ## The trace grows -/

/-- **Every action appends entries to the trace, each for a reason.** -/
theorem Act.newEvents (h : Act R E net x y) (hw : x.WF) :
    ∃ l, y.trace = l ++ x.trace ∧ ∀ e ∈ l, NewEvent R E net x y e := by
  have hnone : ∀ {z : Node}, z.trace = x.trace →
      ∃ l, z.trace = l ++ x.trace ∧ ∀ e ∈ l, NewEvent R E net x z e :=
    fun h => ⟨[], h, by simp⟩
  have hone : ∀ {z : Node} {e : Event}, z.trace = e :: x.trace → NewEvent R E net x z e →
      ∃ l, z.trace = l ++ x.trace ∧ ∀ e ∈ l, NewEvent R E net x z e :=
    fun {z e} h hnew => ⟨[e], h, List.forall_mem_singleton.mpr hnew⟩
  cases h with
  | quiet h =>
    obtain ⟨l, hl, hq⟩ := h.trace
    exact ⟨l, hl, fun e he => .quiet (hq e he)⟩
  | setNow => exact hnone rfl
  | propose machineId value context draw hidle hdraw hvalid hrule =>
    exact hone rfl (.proposed hidle hdraw hvalid hrule rfl)
  | timeout => exact hone rfl (.quiet rfl)
  | openRound z v hstart hrule hrecv =>
    -- The node hands itself the message, but drops it: a checkpoint is being received.
    refine ⟨[.handed (Proposer.prepareMessage (Proposer.openRound v z)),
      .broadcast (Proposer.prepareMessage (Proposer.openRound v z)) (x.others x.memberIds)],
      Proposer.openRound_trace hstart, ?_⟩
    intro e he
    simp only [List.mem_cons, List.not_mem_nil, or_false] at he
    rcases he with rfl | rfl
    · exact .quiet rfl
    · exact .prepare hstart hrule (Or.inl rfl)
  | beginRound z v hstart hrule => exact NewEvent.of_beginRound hw hstart hrule
  | takePrepare m hnet htype hid => exact NewEvent.of_takePrepare hnet htype hid
  | countPrepare => exact hnone rfl
  | passPrepare m hm htype hprep hid hcur hpass =>
    refine ⟨[.broadcast (Proposer.acceptMessage x) (x.others x.memberIds),
      .preparePassed x.proposer.instanceId x.proposer.proposalId], rfl, ?_⟩
    intro e he
    simp only [List.mem_cons, List.not_mem_nil, or_false] at he
    rcases he with rfl | rfl
    · exact .accept hm htype hprep hid hcur hpass rfl
    · exact .preparePassed hm htype hprep hid hcur hpass rfl
  | directAccept hskip hrej hrule hbusy hvalid =>
    exact hone rfl (.directAccept hskip hrej hrule hbusy hvalid rfl)
  | takeAccept m hm htype hid => exact NewEvent.of_takeAccept hm htype hid
  | countAccept => exact hnone rfl
  | passAccept m hm htype hacc hid hcur hpass =>
    refine ⟨[.broadcast _ (x.others x.memberIds),
      .acceptPassed x.proposer.instanceId x.proposer.proposalId x.proposer.value], rfl, ?_⟩
    intro e he
    simp only [List.mem_cons, List.not_mem_nil, or_false] at he
    rcases he with rfl | rfl
    · exact .newChosenValue hm htype hacc hid hcur hpass rfl
    · exact .acceptPassed hm htype hacc hid hcur hpass rfl
  | giveUp | learn => exact hnone rfl
  | learnValue m => exact hone rfl .put
  | tellFollowers ballot hlearned hballot =>
    unfold Learner.broadcastMessageToFollower
    split_ifs
    · exact hnone rfl
    · exact hone rfl (.toFollowers hlearned hballot)
  | checkLearn hl =>
    refine ⟨Instance.executionEvents E x, Instance.checkLearn_trace hl, ?_⟩
    intro e he
    unfold Instance.executionEvents at he
    rcases List.mem_append.mp he with he | he
    · split_ifs at he
      · rw [List.mem_singleton.mp he]
        exact .quiet rfl
      · simp at he
    · rw [List.mem_singleton.mp he]
      exact .executed hl rfl
  | serve dest i r hget hid => exact hone rfl (.serve hget hid)
  | finishCheckpoint => exact hnone rfl
  | gcLoop =>
    obtain ⟨db, m, g, hframe⟩ := LogCleaner.gcLoop_frame E x
    exact hnone (by rw [hframe])

/-- A `SEND_LEARNED_VALUE` that an action sends serves a record, or tells the followers. -/
theorem NewEvent.learned_cases (h : NewEvent R E net x y e)
    (he : (∃ dest, e = .send dest m) ∨ ∃ dests, e = .broadcast m dests)
    (htype : m.type = .sendLearnedValue) :
    (∃ i r, x.db.get i = some r ∧ i < x.instanceId ∧ m = Learner.learnedMessage x r) ∨
      (x.learner.hasLearned = true ∧ ∃ ballot, TaughtBy net x ballot ∧
        m = { type := .sendLearnedValue, nodeId := x.nodeId, instanceId := x.learner.instanceId,
              proposalId := ballot.proposalId, proposalNodeId := ballot.nodeId,
              value := x.learner.learnedValue }) := by
  -- The replies of the acceptor have other types.
  have hreply : ∀ {d : ℕ} {r : PaxosMessage}, ReplyEvent x d r e → r.type = .sendLearnedValue := by
    rintro d r (⟨rfl, -⟩ | ⟨rfl, -⟩) <;> rcases he with ⟨_, he⟩ | ⟨_, he⟩ <;> cases he
    exact htype
  cases h with
  | quiet hq =>
    rcases he with ⟨_, rfl⟩ | ⟨_, rfl⟩ <;> simp [Event.isQuiet, htype] at hq
  | prepareReply hm hr hev =>
    have ht := hreply hev
    rcases hr with ⟨-, rfl, -⟩ | ⟨-, rfl⟩
    · unfold Acceptor.promise at ht
      split_ifs at ht <;> cases ht
    · cases ht
  | acceptReply hm hr hev =>
    have ht := hreply hev
    rcases hr with ⟨-, rfl, -⟩ | ⟨-, rfl⟩ <;> cases ht
  | toFollowers hl hb =>
    rcases he with ⟨_, he⟩ | ⟨_, he⟩ <;> cases he
    exact Or.inr ⟨hl, _, hb, rfl⟩
  | serve hget hid =>
    rcases he with ⟨_, he⟩ | ⟨_, he⟩ <;> cases he
    exact Or.inl ⟨_, _, hget, hid, rfl⟩
  | _ =>
    rcases he with ⟨_, he⟩ | ⟨_, he⟩ <;> cases he <;> cases htype

theorem Act.mem_trace (h : Act R E net x y) (hw : x.WF) (he : e ∈ y.trace) :
    e ∈ x.trace ∨ NewEvent R E net x y e := by
  obtain ⟨l, hl, hnew⟩ := h.newEvents hw
  rw [hl] at he
  rcases List.mem_append.mp he with he | he
  · exact Or.inr (hnew e he)
  · exact Or.inl he

theorem Act.trace_mono (h : Act R E net x y) (hw : x.WF) (he : e ∈ x.trace) : e ∈ y.trace := by
  obtain ⟨l, hl, -⟩ := h.newEvents hw
  rw [hl]
  exact List.mem_append_right l he

end

end Skywalker
