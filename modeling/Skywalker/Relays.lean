import Skywalker.Quorums

/-!
# Relayed records

A value that was chosen reaches a node that missed it as a record of another node, in a
`SEND_LEARNED_VALUE` of `SendLearnedValue`, `ASyncSend` or `BroadcastMessageToFollower`. All of them
put the accepted ballot into `proposal_id` and `proposal_node_id` (`Sends.message`). The receiver
reads `proposal_id` and `node_id`, so that the record that it stores has the sender in the place of
the node that the ballot belongs to (`Stores.record_eq`).

Along a chain of relays the proposal id and the value are kept, and the node id is that of the last
sender (`Chain.records`). The ballot is kept exactly where every sender is the ballot's own node.
-/

namespace Skywalker

variable {x y : Node} {e : Event} {m : PaxosMessage} {i : ℕ} {q r : PaxosInstance}

theorem Node.not_mem_added (h : y.trace = x.trace) : e ∉ x.added y := by
  rw [Node.added_of_append (l := []) h]
  exact List.not_mem_nil

theorem Node.eq_of_mem_added {f : Event} (h : y.trace = f :: x.trace) (he : e ∈ x.added y) :
    e = f := by
  rw [Node.added_of_append (l := [f]) h] at he
  exact List.mem_singleton.mp he

open TransitionSystem

namespace Relay

/-- Node `x` sends its record `r` of the instance `i` in the message `m`. -/
inductive Sends (x : Node) (i : ℕ) (r : PaxosInstance) (m : PaxosMessage) : Prop where
  /-- By `SendLearnedValue`, as the answer to an `ASK_FOR_LEARN`. -/
  | sendLearnedValue (E : Env) (ask : PaxosMessage) (dest : ℕ) (hask : ask.instanceId = i)
      (hget : x.db.get i = some r) (hsent : .send dest m ∈ x.added (Learner.onAskForLearn E ask x))
  /-- By a pass of the loop of `ASyncSend`. -/
  | aSyncSend (dest toId : ℕ) (ts : List LearnTask)
      (htask : x.learnTasks = .aSyncSend dest i toId :: ts) (hget : x.db.get i = some r)
      (hsent : .send dest m ∈ x.added (Learner.runLearnLoop x))
  /-- By `BroadcastMessageToFollower`, when the acceptor's own value is chosen. -/
  | chosenToFollowers (E : Env) (news : PaxosMessage) (dests : List ℕ)
      (hrecord : x.acceptor.record = r) (hid : r.instanceId = i)
      (hsent : .broadcast m dests ∈ x.added (Learner.onNewChosenValue E news x))
  /-- By `BroadcastMessageToFollower`, after the record of another node is stored. -/
  | learnedToFollowers (E : Env) (learned : PaxosMessage) (dests : List ℕ)
      (hid : learned.instanceId = i)
      (hget : (Learner.onSendLearnedValue E learned x).db.get i = some r)
      (hsent : .broadcast m dests ∈ x.added (Learner.onSendLearnedValue E learned x))

/-- Node `z` stores the record `q` of the instance `i` from the message `m`. -/
structure Stores (z : Node) (i : ℕ) (m : PaxosMessage) (q : PaxosInstance) : Prop where
  current : z.learner.instanceId = i
  about : m.instanceId = i
  /-- The `Put` of the record succeeds. -/
  stored : ∃ E, .put q true ∈ z.added (Learner.onSendLearnedValue E m z) ∧
    (Learner.onSendLearnedValue E m z).db.get i = some q

/-- A chain of relays of the record `r` that ends at the node `k`: the nodes that sent it and the
records that the nodes of the chain hold, the last ones first. A node sends what it stored. -/
inductive Chain (i : ℕ) (r : PaxosInstance) : ℕ → List ℕ → List PaxosInstance → Prop where
  /-- The node that holds `r`. -/
  | start (k : ℕ) : Chain i r k [] [r]
  /-- The node at the end sends the record, and another one stores it. -/
  | relay {x z : Node} {m : PaxosMessage} {q q' : PaxosInstance} {senders : List ℕ}
      {records : List PaxosInstance} (hchain : Chain i r x.nodeId senders (q :: records))
      (hsends : Sends x i q m) (hstores : Stores z i m q') :
      Chain i r z.nodeId (x.nodeId :: senders) (q' :: q :: records)

/-! ## One relay -/

/-- `BroadcastMessageToFollower` adds at most its broadcast. -/
theorem mem_added_toFollowers {E : Env} {ballot : BallotNumber} {l : List Event}
    (htrace : y.trace = l ++ x.trace)
    (h : e ∈ x.added (Learner.broadcastMessageToFollower E ballot y)) :
    e ∈ l ∨ e = .broadcast
      { type := .sendLearnedValue, nodeId := y.nodeId, instanceId := y.learner.instanceId,
        proposalId := ballot.proposalId, proposalNodeId := ballot.nodeId,
        value := y.learner.learnedValue } (y.others E.followers) := by
  unfold Learner.broadcastMessageToFollower at h
  split_ifs at h
  · rw [Node.added_of_append htrace] at h
    exact .inl h
  · rw [Node.added_of_append (l := _ :: l) (by rw [List.cons_append, ← htrace]; rfl)] at h
    exact (List.mem_cons.mp h).symm

/-- What `OnSendLearnedValue` adds: a `Put` of the message's record, and the broadcast when the
`Put` succeeded and the record is there. -/
theorem mem_added_onSendLearnedValue {E : Env} (h : e ∈ x.added (Learner.onSendLearnedValue E m x))
    :
    (∃ ok, e = .put (Learner.record m) ok) ∨
      (∃ dests, e = .broadcast
        { type := .sendLearnedValue, nodeId := x.nodeId, instanceId := x.learner.instanceId,
          proposalId := m.ballot.proposalId, proposalNodeId := m.ballot.nodeId,
          value := m.value } dests) ∧
        (Learner.onSendLearnedValue E m x).db.get m.instanceId = some (Learner.record m) := by
  simp only [Learner.onSendLearnedValue] at h ⊢
  split_ifs at h with hid hput
  · have hput' : E.putOk x.trace.length = true := hput
    rcases mem_added_toFollowers (l := [_]) rfl h with hmem | rfl
    · exact .inl ⟨_, List.mem_singleton.mp hmem⟩
    · refine .inr ⟨⟨_, rfl⟩, ?_⟩
      rw [if_pos hid, if_pos hput]
      have hdb : (Learner.writeToDB E m x).2.db = x.db.put m.instanceId (Learner.record m) := by
        simp [Learner.writeToDB, Node.put, hput', Learner.record]
      unfold Learner.broadcastMessageToFollower
      split_ifs <;> exact (congrArg (DB.get · m.instanceId) hdb).trans (DB.get_put_self ..)
  · exact .inl ⟨_, Node.eq_of_mem_added rfl h⟩
  · exact absurd h (Node.not_mem_added rfl)

/-- **Every sender writes the ballot of its record into `proposal_id` and `proposal_node_id`.** -/
theorem Sends.message (h : Sends x i r m) :
    m.nodeId = x.nodeId ∧ m.proposalId = r.accepted.proposalId ∧
      m.proposalNodeId = r.accepted.nodeId ∧ m.value = r.acceptedValue := by
  cases h with
  | sendLearnedValue E ask dest hask hget hsent =>
    subst hask
    simp only [Learner.onAskForLearn, hget] at hsent
    split_ifs at hsent
    · cases Node.eq_of_mem_added rfl hsent
      exact ⟨rfl, rfl, rfl, rfl⟩
    all_goals exact absurd hsent (Node.not_mem_added rfl)
  | aSyncSend dest toId ts htask hget hsent =>
    simp only [Learner.runLearnLoop, htask, hget] at hsent
    split_ifs at hsent
    · cases Node.eq_of_mem_added rfl hsent
      exact ⟨rfl, rfl, rfl, rfl⟩
    · exact absurd hsent (Node.not_mem_added rfl)
  | chosenToFollowers E news dests hrecord hid hsent =>
    subst hrecord
    unfold Learner.onNewChosenValue at hsent
    split_ifs at hsent
    · rcases mem_added_toFollowers (l := []) rfl hsent with hmem | heq
      · cases hmem
      · cases heq
        exact ⟨rfl, rfl, rfl, rfl⟩
    all_goals exact absurd hsent (Node.not_mem_added rfl)
  | learnedToFollowers E learned dests hid hget hsent =>
    subst hid
    rcases mem_added_onSendLearnedValue hsent with ⟨ok, heq⟩ | ⟨⟨_, heq⟩, hdb⟩
    · cases heq
    · cases heq
      obtain rfl : r = Learner.record learned := Option.some.inj (hget.symm.trans hdb)
      exact ⟨rfl, rfl, rfl, rfl⟩

/-- **The receiver stores the sender as the node of the ballot.** -/
theorem Stores.record_eq {z : Node} (h : Stores z i m q) : q = Learner.record m := by
  obtain ⟨E, hput, -⟩ := h.stored
  rcases mem_added_onSendLearnedValue hput with ⟨ok, heq⟩ | ⟨⟨_, heq⟩, -⟩
  · cases heq
    rfl
  · cases heq

/-- A relay keeps the proposal id and the value, and puts the sender in the place of the node. -/
theorem Sends.stored {z : Node} (hsends : Sends x i r m) (hstores : Stores z i m q) :
    q.accepted = ⟨r.accepted.proposalId, x.nodeId⟩ ∧ q.acceptedValue = r.acceptedValue := by
  obtain ⟨hnode, hproposal, -, hvalue⟩ := hsends.message
  rw [hstores.record_eq, ← hnode, ← hproposal, ← hvalue]
  exact ⟨rfl, rfl⟩

/-! ## Chains -/

/-- Along a chain the proposal id and the value are those of the first record, and the node of a
ballot is the one that sent it. -/
theorem Chain.records {k : ℕ} {senders : List ℕ} {records : List PaxosInstance}
    (h : Chain i r k senders records) :
    records.map PaxosInstance.accepted =
        senders.map (fun j => ⟨r.accepted.proposalId, j⟩) ++ [r.accepted] ∧
      ∀ q ∈ records, q.acceptedValue = r.acceptedValue := by
  induction h with
  | start k => exact ⟨rfl, fun q hq => by rw [List.mem_singleton.mp hq]⟩
  | @relay x z m q q' senders records hchain hsends hstores ih =>
    obtain ⟨hballots, hvalues⟩ := ih
    obtain ⟨hballot, hvalue⟩ := hsends.stored hstores
    -- The ballot that is sent has the proposal id of the first one already.
    have hproposal : q.accepted.proposalId = r.accepted.proposalId := by
      cases senders with
      | nil | cons j senders =>
        have := (List.cons.inj hballots).1
        rw [this]
    refine ⟨?_, ?_⟩
    · rw [List.map_cons, hballots, hballot, hproposal, List.map_cons, List.cons_append]
    · intro q₁ hq₁
      rcases List.mem_cons.mp hq₁ with rfl | hq₁
      · exact hvalue.trans (hvalues q List.mem_cons_self)
      · exact hvalues q₁ hq₁

/-- **Relays by the ballot's own node keep the ballot.** Every record of the chain has the ballot
`(p, n)` and the value of the first one. -/
theorem chain_keeps_ballot {i k p n : ℕ} {r : PaxosInstance} {senders : List ℕ}
    {records : List PaxosInstance} (hchain : Chain i r k senders records)
    (hballot : r.accepted = ⟨p, n⟩) (hsenders : ∀ j ∈ senders, j = n) :
    ∀ q ∈ records, q.accepted = ⟨p, n⟩ ∧ q.acceptedValue = r.acceptedValue := by
  obtain ⟨hballots, hvalues⟩ := hchain.records
  intro q hq
  refine ⟨?_, hvalues q hq⟩
  have hmem : q.accepted ∈ records.map PaxosInstance.accepted := List.mem_map_of_mem hq
  rw [hballots, List.mem_append] at hmem
  rcases hmem with hmem | hmem
  · obtain ⟨j, hj, heq⟩ := List.mem_map.mp hmem
    rw [← heq, hsenders j hj, hballot]
  · rw [List.mem_singleton.mp hmem, hballot]

/-- The record of the first value, as the acceptor of node 1 wrote it. -/
def firstRecord : PaxosInstance :=
  { instanceId := 1, promised := ⟨1, 1⟩, accepted := ⟨1, 1⟩, acceptedValue := firstValue }

/-- Node 1 with that record, at the second instance. -/
def servingNode : Node :=
  { Node.fresh trioMember with
    learner := { instanceId := 2 }
    db := { records := [(1, firstRecord)] } }

/-- Node 3 learns the first value from node 1, whose ballot it was. -/
theorem chain_keeps_ballot_direct :
    ∃ q, Chain 1 firstRecord 3 [1] [q, firstRecord] ∧ q.accepted = ⟨1, 1⟩ := by
  have hsends : Sends servingNode 1 firstRecord (Learner.learnedMessage servingNode firstRecord) :=
    .sendLearnedValue {} { type := .askForLearn, nodeId := 3, instanceId := 1 } 3 rfl rfl
      (by decide)
  have hstores : Stores (Node.fresh { trioMember with nodeId := 3 }) 1
      (Learner.learnedMessage servingNode firstRecord) firstRecord :=
    ⟨rfl, rfl, {}, by decide, by decide⟩
  have hchain : Chain 1 firstRecord 3 [1] [firstRecord, firstRecord] :=
    .relay (.start 1) hsends hstores
  exact ⟨firstRecord, hchain,
    (chain_keeps_ballot hchain rfl (by decide) firstRecord List.mem_cons_self).1⟩

/-- The first value of node 1 is chosen, node 2 hears of it, and node 3, which has heard nothing,
learns it from node 2. -/
def learnedFromTwo : List (Env × Label) := firstChosen ++
  ([({}, .node 2 (.paxosMessage
      { type := .newChosenValue, nodeId := 1, instanceId := 1, proposalId := 1 })),
    ({}, .node 3 (.syncData false)),
    ({}, .node 2 (.paxosMessage { type := .askForLearn, nodeId := 3, instanceId := 1 })),
    ({}, .node 3 (.paxosMessage { type := .sendLearnedValue, nodeId := 2, instanceId := 1,
                                  proposalId := 1, proposalNodeId := 1, value := firstValue }))] :
    List (Env × Label))

/-- **A value that two of three nodes accepted under `(1, 1)` is stored under `(1, 2)`.** -/
theorem learned_ballot_is_senders : ∃ s r,
    run System.step (System.init (.uniform trioMember)) learnedFromTwo = some s ∧
      .accepted 1 ⟨1, 1⟩ firstValue ∈ (s 1).trace ∧ .accepted 1 ⟨1, 1⟩ firstValue ∈ (s 2).trace ∧
      (s 3).db.get 1 = some r ∧ r.acceptedValue = firstValue ∧ r.accepted = ⟨1, 2⟩ := by
  have hend : (run System.step (System.init (.uniform trioMember)) learnedFromTwo).map
      (fun s => (decide (Event.accepted 1 ⟨1, 1⟩ firstValue ∈ (s 1).trace),
        decide (Event.accepted 1 ⟨1, 1⟩ firstValue ∈ (s 2).trace), (s 3).db.get 1)) =
      some (true, true, some { instanceId := 1, promised := ⟨1, 2⟩, accepted := ⟨1, 2⟩,
                               acceptedValue := firstValue }) := by
    decide +kernel
  obtain ⟨s, hs, hfields⟩ := Option.map_eq_some_iff.mp hend
  simp only [Prod.mk.injEq, decide_eq_true_eq] at hfields
  obtain ⟨hone, htwo, hthree⟩ := hfields
  exact ⟨s, _, hs, hone, htwo, hthree, rfl, rfl⟩

end Relay

end Skywalker
