import Skywalker.Events

/-!
# What an action does to the proposer

`ProposerChange` sums up the actions as far as the proposer and its broadcasts are concerned: the
start of a round, a counted reply, a passed phase, the step to the next instance, or nothing but the
end of a round. Invariants about ballots and quorums split on it.
-/

namespace Skywalker

variable {x y z : Node} {new : List PaxosMessage} {r : PaxosMessage} {net : PaxosMessage → Prop}

/-- The types of the proposer's broadcasts. -/
def PaxosMessageType.isProposers : PaxosMessageType → Bool
  | .prepare => true
  | .accept => true
  | .newChosenValue => true
  | _ => false

/-- Of the proposer's broadcasts in the trace of `y`, those not in the trace of `x` are of messages
in a list, to the other members. -/
def Broadcasts (x y : Node) (new : List PaxosMessage) : Prop :=
  ∀ m dests, .broadcast m dests ∈ y.trace →
    .broadcast m dests ∈ x.trace ∨ (m ∈ new ∧ dests = x.others x.memberIds) ∨
      m.type.isProposers = false

/-- Of the retry timers of `y`, those not pending in `x` are of the current instance, where the
action sets one. -/
def Retries (x y : Node) (sets : Bool) : Prop :=
  ∀ id i, (id, TimerCallback.retry i) ∈ y.timers →
    (id, TimerCallback.retry i) ∈ x.timers ∨ (sets = true ∧ i = x.proposer.instanceId)

/-- The `NEW_CHOSEN_VALUE` of a proposer. -/
def Proposer.newChosenMessage (x : Node) : PaxosMessage :=
  { type := .newChosenValue, nodeId := x.nodeId, instanceId := x.proposer.instanceId,
    proposalId := x.proposer.proposalId }

/-- What an action does to the proposer. -/
inductive ProposerChange (R : Rules) (E : Env) (net : PaxosMessage → Prop) (x y : Node) : Prop where
  /-- At most, a round ends. -/
  | same (hid : y.proposer.instanceId = x.proposer.instanceId)
      (hpid : y.proposer.proposalId = x.proposer.proposalId)
      (hmax : y.proposer.maxBallot = x.proposer.maxBallot)
      (hval : y.proposer.value = x.proposer.value)
      (hcnt : y.proposer.counter = x.proposer.counter)
      (hprep : y.proposer.preparing = true → x.proposer.preparing = true)
      (hacc : y.proposer.accepting = true → x.proposer.accepting = true)
      (hskip : y.proposer.skipPrepare = true → x.proposer.skipPrepare = true)
      (hmach : y.machines = x.machines) (hsent : Broadcasts x y []) (htimers : Retries x y false)
  /-- A round starts, and the node does not hear itself. -/
  | opened (z : Node) (v : PaxosValue) (hstart : RoundStart x v z) (hrule : R.prepare z)
      (hrecv : x.learner.isReceivingCheckpoint = true) (hy : y = Proposer.openRound v z)
      (hsent : Broadcasts x y [Proposer.prepareMessage (Proposer.openRound v z)])
      (htimers : Retries x y true)
  /-- A round starts, and the node's own reply is counted. -/
  | began (z : Node) (v : PaxosValue) (hstart : RoundStart x v z) (hrule : R.prepare z)
      (hrecv : x.learner.isReceivingCheckpoint = false) (hy : y = Proposer.beginRound E v z)
      (hsent : Broadcasts x y [Proposer.prepareMessage (Proposer.openRound v z)])
      (htimers : Retries x y true)
  /-- The proposer counts a `PREPARE_REPLY` of its round. -/
  | counted (m : PaxosMessage) (hm : Answered net x m) (htype : m.type = .prepareReply)
      (hprep : x.proposer.preparing = true) (hid : m.instanceId = x.proposer.instanceId)
      (hcur : R.current m.type → m.proposalId = x.proposer.proposalId)
      (hy : y = { x with proposer := x.proposer.countPrepareReply m })
  /-- A majority has promised, and the `ACCEPT` is broadcast. -/
  | passed (m : PaxosMessage) (hm : Answered net x m) (htype : m.type = .prepareReply)
      (hprep : x.proposer.preparing = true) (hid : m.instanceId = x.proposer.instanceId)
      (hcur : R.current m.type → m.proposalId = x.proposer.proposalId)
      (hpass : Proposer.isPassedOnThisRound x = true) (hy : y = Proposer.passPrepare x)
      (hsent : Broadcasts x y [Proposer.acceptMessage x]) (htimers : Retries x y true)
  /-- `Prepare` is skipped, and the `ACCEPT` is broadcast at once. -/
  | direct (hskip : x.proposer.skipPrepare = true)
      (hrej : x.proposer.wasRejectedBySomeone = false) (hrule : R.skip x)
      (hbusy : x.isProposing = true) (hvalid : x.isValidNodeId x.nodeId = true)
      (hy : y = Proposer.directAccept x.proposeValue x)
      (hsent : Broadcasts x y [Proposer.acceptMessage y]) (htimers : Retries x y true)
  /-- The proposer counts an `ACCEPT_REPLY` of its round. -/
  | countedAccept (m : PaxosMessage) (hm : Answered net x m) (htype : m.type = .acceptReply)
      (hacc : x.proposer.accepting = true) (hid : m.instanceId = x.proposer.instanceId)
      (hcur : R.current m.type → m.proposalId = x.proposer.proposalId)
      (hy : y = { x with proposer := { x.proposer with counter := x.proposer.counter.add m } })
  /-- A majority has accepted, and the choice is broadcast. -/
  | passedAccept (m : PaxosMessage) (hm : Answered net x m) (htype : m.type = .acceptReply)
      (hacc : x.proposer.accepting = true) (hid : m.instanceId = x.proposer.instanceId)
      (hcur : R.current m.type → m.proposalId = x.proposer.proposalId)
      (hpass : Proposer.isPassedOnThisRound x = true) (hy : y = Proposer.passAccept x)
      (hsent : Broadcasts x y [Proposer.newChosenMessage x]) (htimers : Retries x y false)
  /-- The round did not pass and is given up until its retry timer. -/
  | gaveUp (m : PaxosMessage) (hm : Answered net x m)
      (hphase : m.type = .prepareReply ∧ x.proposer.preparing = true ∨
        m.type = .acceptReply ∧ x.proposer.accepting = true)
      (hid : m.instanceId = x.proposer.instanceId)
      (hcur : R.current m.type → m.proposalId = x.proposer.proposalId) (hy : y = Proposer.giveUp x)
      (htimers : Retries x y true)
  /-- The learned value is executed. -/
  | next (hl : x.learner.hasLearned = true) (hok : (Instance.execution E x).1 = true)
      (hy : y = Instance.nextInstance (Instance.afterExecute E x)) (hsent : Broadcasts x y [])
      (htimers : Retries x y false)

section

variable {R : Rules} {E : Env}

/-- A list of new entries with no broadcast of the proposer. -/
theorem Broadcasts.of_append {l : List Event} (htr : y.trace = l ++ x.trace)
    (hl : ∀ m dests, .broadcast m dests ∈ l →
      (m ∈ new ∧ dests = x.others x.memberIds) ∨ m.type.isProposers = false) :
    Broadcasts x y new := by
  intro m dests hd
  rw [htr] at hd
  rcases List.mem_append.mp hd with hd | hd
  · exact Or.inr (hl m dests hd)
  · exact Or.inl hd

theorem Broadcasts.of_eq (htr : y.trace = x.trace) : Broadcasts x y [] :=
  fun m dests hd => Or.inl (by rwa [htr] at hd)

/-- An entry that is added is the only one that can be a new broadcast. -/
theorem Broadcasts.of_cons {e : Event} (htr : y.trace = e :: x.trace)
    (he : ∀ m dests, e = .broadcast m dests →
      (m ∈ new ∧ dests = x.others x.memberIds) ∨ m.type.isProposers = false) :
    Broadcasts x y new := by
  intro m dests hd
  rw [htr] at hd
  rcases List.mem_cons.mp hd with hd | hd
  · exact Or.inr (he m dests hd.symm)
  · exact Or.inl hd

theorem Retries.of_subset (h : ∀ t ∈ y.timers, t ∈ x.timers) (sets : Bool) :
    Retries x y sets := fun _ _ hid => Or.inl (h _ hid)

theorem Retries.of_eq (h : y.timers = x.timers) : Retries x y false :=
  Retries.of_subset (by rw [h]; exact fun t ht => ht) false

theorem Retries.of_cons {k : ℕ} {l : List (ℕ × TimerCallback)}
    (hy : y.timers = (k, .retry x.proposer.instanceId) :: l) (hl : ∀ t ∈ l, t ∈ x.timers) :
    Retries x y true := by
  intro id i hid
  rw [hy] at hid
  rcases List.mem_cons.mp hid with heq | hmem
  · cases heq
    exact Or.inr ⟨rfl, rfl⟩
  · exact Or.inl (hl _ hmem)

theorem Retries.of_roundStart {v : PaxosValue} (hstart : RoundStart x v z)
    (hy : y.timers = (Proposer.openRound v z).timers) : Retries x y true := by
  have hz : ∀ t ∈ z.timers, t ∈ x.timers := by
    rcases hstart with ⟨rfl, -⟩ | ⟨id, -, rfl, -⟩
    · exact fun t ht => ht
    · exact fun t ht => (List.mem_filter.mp ht).1
  refine Retries.of_cons (k := z.nextTimer) (l := z.timers) ?_ hz
  rw [hy, ← hstart.same.2.2.1]
  rfl

theorem ReplyEvent.ne_broadcast {d : ℕ} {e : Event} (h : ReplyEvent x d r e) (m : PaxosMessage)
    (dests : List ℕ) : e ≠ .broadcast m dests := by
  rcases h with ⟨rfl, -⟩ | ⟨rfl, -⟩ <;> intro he <;> cases he

/-- An action that leaves the proposer and the machines alone and broadcasts nothing for it. -/
theorem ProposerChange.of_eq (hp : y.proposer = x.proposer) (hmach : y.machines = x.machines)
    (hsent : Broadcasts x y []) (htimers : Retries x y false) :
    ProposerChange R E net x y := by
  refine .same ?_ ?_ ?_ ?_ ?_ ?_ ?_ ?_ hmach hsent htimers <;> rw [hp] <;> exact id

/-- The acceptor's decisions leave the proposer and its broadcasts. -/
theorem ProposerChange.of_take {d : ℕ} {l : List Event}
    (hz : ∃ a db trace, z = { x with acceptor := a, db := db, trace := trace })
    (hl : z.trace = l ++ x.trace) (hno : ∀ m dests, .broadcast m dests ∉ l)
    (hy : y = Acceptor.answer d r z) : ProposerChange R E net x y := by
  obtain ⟨a, db, trace, hz⟩ := hz
  have hframe : y.proposer = x.proposer ∧ y.machines = x.machines ∧ y.timers = x.timers := by
    obtain ⟨trace', hanswer⟩ := Acceptor.answer_frame z d r
    rw [hy, hanswer, hz]
    exact ⟨rfl, rfl, rfl⟩
  obtain ⟨hp, hmach, htimers⟩ := hframe
  obtain ⟨e, he, hreply⟩ := Acceptor.answer_trace d r z
  refine .of_eq hp hmach ?_ (.of_eq htimers)
  refine Broadcasts.of_append (l := e :: l) (by rw [hy, he, hl]; rfl) ?_
  intro m dests hd
  rcases List.mem_cons.mp hd with hd | hd
  · exact absurd hd.symm (hreply.ne_broadcast m dests)
  · exact absurd hd (hno m dests)

theorem ProposerChange.of_quiet (h : Quiet x y) : ProposerChange R E net x y := by
  obtain ⟨l, hl, hquiet⟩ := h.trace
  refine .same h.proposerId h.proposalId h.maxBallot h.value h.counter h.preparing h.accepting
    (by rw [h.skipPrepare]; exact id) h.machines (Broadcasts.of_append hl ?_)
    fun id i hid => Or.inl (h.timers id i hid)
  intro m dests hd
  have htype : m.type = .askForLearn := by simpa [Event.isQuiet] using hquiet _ hd
  exact Or.inr (by rw [htype]; rfl)

/-- The broadcasts of the start of a round. -/
theorem Broadcasts.of_beginRound {v : PaxosValue} (hstart : RoundStart x v z) :
    Broadcasts x (Proposer.beginRound E v z)
      [Proposer.prepareMessage (Proposer.openRound v z)] := by
  have hopen := Proposer.openRound_trace hstart
  generalize hm : Proposer.prepareMessage (Proposer.openRound v z) = m at hopen ⊢
  obtain ⟨l, hl, hmem⟩ := Acceptor.takePrepare_trace E m (Proposer.openRound v z)
  obtain ⟨-, -, -, -, hy⟩ := Proposer.beginRound_take E v z
  rw [hm] at hy
  refine Broadcasts.of_append (l := .handed (Acceptor.takePrepare E m (Proposer.openRound v z)).1 ::
    (l ++ [.handed m, .broadcast m (x.others x.memberIds)])) ?_ ?_
  · rw [hy, hl, hopen]
    simp
  · intro m' dests hd
    simp only [List.mem_cons, List.mem_append, List.not_mem_nil, or_false, reduceCtorEq,
      false_or, Event.broadcast.injEq] at hd
    rcases hd with hd | hd
    · rcases hmem _ hd with ⟨r, ok, h⟩ | ⟨h, -⟩ <;> cases h
    · exact Or.inl ⟨by simp [hd.1], hd.2⟩

/-- **What an action does to the proposer.** -/
theorem Act.proposerChange (h : Act R E net x y) : ProposerChange R E net x y := by
  -- Removing a timer sets none: it only filters the list.
  have hless : ∀ (p : ℕ × TimerCallback → Bool), ∀ t ∈ x.timers.filter p, t ∈ x.timers :=
    fun p t ht => (List.mem_filter.mp ht).1
  cases h with
  | quiet h => exact .of_quiet h
  | setNow => exact .of_eq rfl rfl (.of_eq rfl) (.of_eq rfl)
  | propose machineId value context draw =>
    -- The timer that is set here is the one of the proposal, not the one of a retry.
    refine .of_eq rfl rfl (.of_cons rfl (by intro m dests he; cases he)) ?_
    intro id i hid
    rcases List.mem_cons.mp hid with heq | hmem
    · cases heq
    · exact Or.inl hmem
  | timeout =>
    exact .same rfl rfl rfl rfl rfl (by intro h; cases h) (by intro h; cases h) id rfl
      (.of_cons rfl (by intro m dests he; cases he)) (.of_subset (hless _) false)
  | openRound z v hstart hrule hrecv =>
    refine .opened z v hstart hrule hrecv rfl (.of_append (l := [_, _])
      (Proposer.openRound_trace hstart) ?_) (.of_roundStart hstart rfl)
    intro m dests hd
    simp only [List.mem_cons, List.not_mem_nil, or_false, reduceCtorEq, false_or,
      Event.broadcast.injEq] at hd
    exact Or.inl ⟨by simp [hd.1], hd.2⟩
  | beginRound z v hstart hrule hrecv =>
    refine .began z v hstart hrule hrecv rfl (.of_beginRound hstart) (.of_roundStart hstart ?_)
    obtain ⟨a, db, trace, hframe⟩ := Acceptor.takePrepare_frame E
      (Proposer.prepareMessage (Proposer.openRound v z)) (Proposer.openRound v z)
    simp only [Proposer.beginRound, Node.emit, hframe]
  | takePrepare m =>
    obtain ⟨l, hl, hmem⟩ := Acceptor.takePrepare_trace E m x
    -- An acceptor writes and answers: nothing of that is a broadcast.
    refine .of_take (Acceptor.takePrepare_frame E m x) hl ?_ rfl
    intro m' dests hd
    rcases hmem _ hd with ⟨r, ok, h⟩ | ⟨h, -⟩ <;> cases h
  | countPrepare m hm htype hprep hid hcur => exact .counted m hm htype hprep hid hcur rfl
  | passPrepare m hm htype hprep hid hcur hpass =>
    refine .passed m hm htype hprep hid hcur hpass rfl (.of_append (l := [_, _]) rfl ?_)
      (.of_cons (k := x.nextTimer) rfl (hless _))
    intro m' dests hd
    simp only [List.mem_cons, List.not_mem_nil, or_false, reduceCtorEq,
      Event.broadcast.injEq] at hd
    exact Or.inl ⟨by rw [hd.1]; exact List.mem_singleton_self _, hd.2⟩
  | directAccept hskip hrej hrule hbusy hvalid =>
    refine .direct hskip hrej hrule hbusy hvalid rfl (.of_cons rfl ?_)
      (.of_cons (k := x.nextTimer) rfl fun t ht => ht)
    intro m dests he
    cases he
    exact Or.inl ⟨List.mem_singleton_self _, rfl⟩
  | takeAccept m =>
    obtain ⟨l, hl, hmem⟩ := Acceptor.takeAccept_trace E m x
    refine .of_take (Acceptor.takeAccept_frame E m x) hl ?_ rfl
    intro m' dests hd
    rcases hmem _ hd with ⟨r, ok, h⟩ | ⟨h, -⟩ <;> cases h
  | countAccept m hm htype hacc hid hcur => exact .countedAccept m hm htype hacc hid hcur rfl
  | passAccept m hm htype hacc hid hcur hpass =>
    refine .passedAccept m hm htype hacc hid hcur hpass rfl (.of_append (l := [_, _]) rfl ?_)
      (.of_subset (hless _) false)
    intro m' dests hd
    simp only [List.mem_cons, List.not_mem_nil, or_false, reduceCtorEq,
      Event.broadcast.injEq] at hd
    exact Or.inl ⟨by rw [hd.1]; exact List.mem_singleton_self _, hd.2⟩
  | giveUp m hm hphase hid hcur =>
    exact .gaveUp m hm hphase hid hcur rfl (.of_cons (k := x.nextTimer) rfl (hless _))
  | learn => exact .of_eq rfl rfl (.of_eq rfl) (.of_eq rfl)
  | learnValue =>
    exact .of_eq rfl rfl (.of_cons rfl (by intro m dests he; cases he)) (.of_eq rfl)
  | tellFollowers ballot hlearned =>
    unfold Learner.broadcastMessageToFollower
    split_ifs
    · exact .of_eq rfl rfl (.of_eq rfl) (.of_eq rfl)
    · refine .of_eq rfl rfl (.of_cons rfl ?_) (.of_eq rfl)
      intro m dests he
      cases he
      exact Or.inr rfl
  | checkLearn hl =>
    -- The propose timer is dropped whatever the machines say; on success the instance moves on.
    have hsent : Broadcasts x (Instance.checkLearn E x) [] := by
      refine .of_append (Instance.checkLearn_trace hl) ?_
      intro m dests hd
      unfold Instance.executionEvents at hd
      split_ifs at hd <;> simp at hd
    have htimers : Retries x (Instance.afterExecute E x) false := by
      refine .of_subset ?_ false
      unfold Instance.afterExecute
      dsimp only
      split_ifs
      · exact hless _
      · exact fun t ht => ht
    cases hok : (Instance.execution E x).1 with
    | true =>
      rw [Instance.checkLearn_of_true hl hok] at hsent ⊢
      exact .next hl hok rfl hsent htimers
    | false =>
      rw [Instance.checkLearn_of_false hl hok] at hsent ⊢
      exact .same rfl rfl rfl rfl rfl id id (by intro h; cases h)
        (Machines.execute_of_false hok) hsent htimers
  | serve => exact .of_eq rfl rfl (.of_cons rfl (by intro m dests he; cases he)) (.of_eq rfl)
  | finishCheckpoint => exact .of_eq rfl rfl (.of_eq rfl) (.of_eq rfl)
  | gcLoop =>
    obtain ⟨db, m, g, hframe⟩ := LogCleaner.gcLoop_frame E x
    rw [hframe]
    exact .of_eq rfl rfl (.of_eq rfl) (.of_eq rfl)

end

/-! ## What starts a round -/

/-- How an event starts a round of the proposer. -/
inductive RoundKind where
  /-- The round starts with `Prepare`. -/
  | prepare
  /-- The round starts with `Accept` at once. -/
  | accept
  /-- The event starts no round. -/
  | none
deriving DecidableEq, Repr

/-- The function that `Proposer::NewPropose` calls. -/
def Proposer.newProposeKind (p : Proposer) : RoundKind :=
  if p.skipPrepare = true ∧ p.wasRejectedBySomeone = false then .accept else .prepare

/-- How an event of a node starts a round: a proposal of a member calls `NewPropose`, and the retry
timer of the current instance calls `Prepare`. -/
def Node.roundKind (E : Env) (x : Node) : NodeEvent → RoundKind
  | .propose _ _ _ _ =>
    if x.isValidNodeId x.nodeId then x.proposer.newProposeKind else .none
  | .tryBeMaster _ =>
    if (x.machines.master.leaseTime ≤ E.nowMillis ∨ x.machines.master.nodeId = x.nodeId) ∧
        x.isValidNodeId x.nodeId = true then x.proposer.newProposeKind
    else .none
  | .timer id =>
    if x.timers.lookup id = some (.retry x.proposer.instanceId) then .prepare else .none
  | _ => .none

/-- `y` is `x` in all that a round reads, before the round: only the proposal, the clock and the
timers may differ. -/
structure SameRound (x y : Node) : Prop where
  config : y.config = x.config
  acceptor : y.acceptor = x.acceptor
  learner : y.learner = x.learner
  proposer : y.proposer = x.proposer
  machines : y.machines = x.machines
  broadcast : ∀ m dests, .broadcast m dests ∈ y.trace ↔ .broadcast m dests ∈ x.trace

/-- The start of a proposal is the same for the round. -/
theorem SameRound.startPropose (E : Env) (machineId : ℕ) (value : List UInt8)
    (context : Option Context) (draw : ℕ) (h : SameRound x z) :
    SameRound x (Instance.startPropose E machineId value context draw z) := by
  obtain ⟨v, pt, sn, nt, ts, hframe⟩ :=
    Instance.startPropose_frame E machineId value context draw z
  rw [hframe]
  refine { h with broadcast := fun m dests => ?_ }
  rw [← h.broadcast]
  simp

/-- What the rules ask for at an event, from what they ask for where it starts a round and where it
handles a message. -/
theorem Rules.allows_of {R : Rules} {E : Env} {ev : NodeEvent}
    (hpropose : ∀ machineId value context draw,
      ev = .propose machineId value context draw → R.propose E x machineId value context)
    (hmaster : ∀ draw, ev = .tryBeMaster draw → R.propose E { x with groupNow := E.nowMillis }
      masterMachineId (Group.masterBytes x) (some .groupNow))
    (hprepare : x.roundKind E ev = .prepare → ∀ y, SameRound x y → R.PrepareOk y)
    (hskip : x.roundKind E ev = .accept → ∀ y, SameRound x y → R.SkipOk y)
    (hmessage : ∀ m, ev = .paxosMessage m → net m ∧
      (x.learner.isReceivingCheckpoint = false → R.MessageOk x m)) (hclean : ev = .gcLoop → R.clean)
    (hcheckpoint : ev = .finishCheckpoint → R.checkpoint) :
    R.Allows E net x ev := by
  have hrefl : SameRound x x := ⟨rfl, rfl, rfl, rfl, rfl, fun _ _ => Iff.rfl⟩
  have hnow : SameRound x { x with groupNow := E.nowMillis } :=
    ⟨rfl, rfl, rfl, rfl, rfl, fun _ _ => Iff.rfl⟩
  have hstart : ∀ y, SameRound x y → x.roundKind E ev = x.proposer.newProposeKind →
      R.StartOk y := by
    intro y hy hkind
    unfold Rules.StartOk
    unfold Proposer.newProposeKind at hkind
    rw [hy.proposer]
    split_ifs with hsk
    · rw [if_pos hsk] at hkind
      exact hskip hkind y hy
    · rw [if_neg hsk] at hkind
      exact hprepare hkind y hy
  cases ev with
  | propose machineId value context draw =>
    refine ⟨hpropose _ _ _ _ rfl, fun hvalid => hstart _ (hrefl.startPropose ..) ?_⟩
    exact if_pos hvalid
  | tryBeMaster draw =>
    intro hmay
    refine ⟨hmaster draw rfl, fun hvalid => hstart _ (hnow.startPropose ..) ?_⟩
    exact if_pos ⟨hmay, hvalid⟩
  | timer id =>
    intro htimer
    exact hprepare (if_pos htimer) _ ⟨rfl, rfl, rfl, rfl, rfl, fun _ _ => Iff.rfl⟩
  | paxosMessage m => exact hmessage m rfl
  | gcLoop => exact hclean rfl
  | finishCheckpoint => exact hcheckpoint rfl
  | _ => trivial

end Skywalker
