import Skywalker.Execution

/-!
# What an event does for the proposer

An event of a node may start a round by `Prepare`, and it may bring a reply to the proposer, from
the network or, by a call from inside, from the node's own acceptor. `OnPrepareReply` and
`OnAccpetReply` look at the rejected id only after all that a counted reply leads to: the `ACCEPT`,
the acceptor's answer to it, the chosen value and its execution.

`Aside` is what the parts of the handlers do that neither start a round nor handle a
`PREPARE_REPLY`, and `Follows` what a handler does that handles at most one, which is already
counted. Both say that every reply handled on the way is heeded in the end.
-/

namespace Skywalker

open TransitionSystem

variable {p : Proposer} {m r : PaxosMessage} {k : List Event} {sent : List PaxosMessage}
  {x y z : Node} {E : Env}

/-! ## Turns -/

/-- A step of the run of a node. -/
abbrev Turn := Transition Node (Env × NodeEvent)

/-- The types that the proposer handles. -/
def PaxosMessageType.isReply : PaxosMessageType → Bool
  | .prepareReply => true
  | .acceptReply => true
  | _ => false

/-- The reply that a call from inside the node brings. -/
def Event.reply? : Event → Option PaxosMessage
  | .handed m => if m.type.isReply then some m else none
  | _ => none

/-- The reply that arrives in an event, if any. -/
def NodeEvent.reply? : NodeEvent → Option PaxosMessage
  | .paxosMessage m => if m.type.isReply then some m else none
  | _ => none

/-- The `PREPARE` that an entry broadcasts. -/
def Event.prepare? : Event → Option PaxosMessage
  | .broadcast m _ => if m.type = .prepare then some m else none
  | _ => none

/-- The reply that arrives, which `OnPaxosMessage` drops while a checkpoint is being received. -/
def arrivedIn (t : Turn) : List PaxosMessage :=
  if t.before.learner.isReceivingCheckpoint then [] else t.action.2.reply?.toList

/-- The replies that the proposer handles, newest first. -/
def repliesIn (t : Turn) : List PaxosMessage :=
  (t.before.added t.after).filterMap Event.reply? ++ arrivedIn t

/-- The `PREPARE`s that are broadcast. -/
def preparesIn (t : Turn) : List PaxosMessage :=
  (t.before.added t.after).filterMap Event.prepare?

/-- The `PREPARE_REPLY`s among the replies that are for an instance. -/
def promisesFor (instanceId : ℕ) (l : List PaxosMessage) : List PaxosMessage :=
  l.filter fun m => m.type = .prepareReply && m.instanceId = instanceId

/-- The `PREPARE_REPLY`s of a turn that are for the proposer's instance. -/
def promisesIn (t : Turn) : List PaxosMessage :=
  promisesFor t.before.proposer.instanceId (repliesIn t)

/-! ## Aside -/

/-- The proposer has noted the rejected id of a reply. -/
def Proposer.Heeds (p : Proposer) (m : PaxosMessage) : Prop :=
  m.rejectedId ≤ p.maxProposalId ∧
    (p.proposalId ≤ m.rejectedId → p.wasRejectedBySomeone = true)

/-- `q` is `p` after replies that start no round. -/
structure Proposer.Noted (p q : Proposer) : Prop where
  proposalId : q.proposalId = p.proposalId
  maxProposalId : p.maxProposalId ≤ q.maxProposalId
  wasRejected : p.wasRejectedBySomeone = true → q.wasRejectedBySomeone = true

theorem Proposer.Heeds.mono {q : Proposer} (h : p.Heeds m) (hpq : p.Noted q) : q.Heeds m := by
  refine ⟨h.1.trans hpq.maxProposalId, fun hle => hpq.wasRejected (h.2 ?_)⟩
  rw [hpq.proposalId] at hle
  exact hle

theorem Proposer.Noted.trans {q r : Proposer} (h : p.Noted q) (h' : q.Noted r) : p.Noted r where
  proposalId := h'.proposalId.trans h.proposalId
  maxProposalId := h.maxProposalId.trans h'.maxProposalId
  wasRejected := fun hp => h'.wasRejected (h.wasRejected hp)

/-- Entries of the first phase of a round: the broadcast of `Prepare`, and the node's own reply. -/
def Event.isPrepare : Event → Bool
  | .broadcast m _ => m.type = .prepare
  | .handed m => m.type = .prepareReply
  | _ => false

/-- Entries of its end: the pass, and the broadcast of `Accept`. -/
def Event.isAccept : Event → Bool
  | .broadcast m _ => m.type = .accept
  | .preparePassed _ _ => true
  | _ => false

/-- What is done aside from a round. -/
structure Aside (x y : Node) : Prop where
  config : y.config = x.config
  proposeValue : y.proposeValue = x.proposeValue
  noted : x.proposer.Noted y.proposer
  maxBallot : y.proposer.maxBallot = x.proposer.maxBallot
  value : y.proposer.value = x.proposer.value
  preparing : y.proposer.preparing = true → x.proposer.preparing = true
  trace : ∃ l, y.trace = l ++ x.trace ∧
    ∀ e ∈ l, e.isPrepare = false ∧ e.isAccept = false ∧
      ∀ m, e.reply? = some m → y.proposer.Heeds m

namespace Aside

/-- The proposer is left alone, and what is appended is not for it. -/
theorem of_proposer {l : List Event} (hconfig : y.config = x.config)
    (hvalue : y.proposeValue = x.proposeValue) (hp : y.proposer = x.proposer)
    (htrace : y.trace = l ++ x.trace)
    (hl : ∀ e ∈ l, e.isPrepare = false ∧ e.isAccept = false ∧ e.reply? = none) :
    Aside x y where
  config := hconfig
  proposeValue := hvalue
  noted := by
    rw [hp]
    exact ⟨rfl, le_refl _, id⟩
  maxBallot := by rw [hp]
  value := by rw [hp]
  preparing := by
    rw [hp]
    exact id
  trace := ⟨l, htrace, fun e he => ⟨(hl e he).1, (hl e he).2.1, fun m hm => by
    rw [(hl e he).2.2] at hm
    cases hm⟩⟩

theorem refl (x : Node) : Aside x x := .of_proposer (l := []) rfl rfl rfl rfl nofun

theorem trans (h : Aside x y) (h' : Aside y z) : Aside x z where
  config := h'.config.trans h.config
  proposeValue := h'.proposeValue.trans h.proposeValue
  noted := h.noted.trans h'.noted
  maxBallot := h'.maxBallot.trans h.maxBallot
  value := h'.value.trans h.value
  preparing := fun hz => h.preparing (h'.preparing hz)
  trace := by
    obtain ⟨l, hl, hl'⟩ := h.trace
    obtain ⟨k, hk, hk'⟩ := h'.trace
    refine ⟨k ++ l, by rw [hk, hl, List.append_assoc], fun e he => ?_⟩
    obtain he | he := List.mem_append.mp he
    · exact hk' e he
    · exact ⟨(hl' e he).1, (hl' e he).2.1, fun m hm => ((hl' e he).2.2 m hm).mono h'.noted⟩

/-- A step with one entry in the trace that is not for the proposer is aside from the rounds. -/
theorem of_cons {e : Event} (hconfig : y.config = x.config)
    (hvalue : y.proposeValue = x.proposeValue) (hp : y.proposer = x.proposer)
    (htrace : y.trace = e :: x.trace) (hprep : e.isPrepare = false) (hacc : e.isAccept = false)
    (hr : e.reply? = none) : Aside x y := by
  refine .of_proposer (l := [e]) hconfig hvalue hp htrace fun d hd => ?_
  rw [List.mem_singleton.mp hd]
  exact ⟨hprep, hacc, hr⟩

theorem emit (x : Node) {e : Event} (hprep : e.isPrepare = false) (hacc : e.isAccept = false)
    (hr : e.reply? = none) : Aside x (x.emit e) := .of_cons rfl rfl rfl rfl hprep hacc hr

theorem setMaxProposalId (m : PaxosMessage) (x : Node) :
    Aside x (Proposer.setMaxProposalId m x) where
  config := rfl
  proposeValue := rfl
  noted := ⟨rfl, le_max_left _ _, fun h => by simp [Proposer.setMaxProposalId, h]⟩
  maxBallot := rfl
  value := rfl
  preparing := id
  trace := ⟨[], rfl, nofun⟩

end Aside

/-- A reply is heeded once its rejected id is noted. -/
theorem Proposer.heeds_setMaxProposalId (m : PaxosMessage) (x : Node) :
    (Proposer.setMaxProposalId m x).proposer.Heeds m := by
  refine ⟨le_max_right _ _, fun hle => ?_⟩
  have hle : x.proposer.proposalId ≤ m.rejectedId := hle
  simp [Proposer.setMaxProposalId, hle]

namespace Aside

variable (E : Env)

theorem checkLearn (x : Node) : Aside x (Instance.checkLearn E x) := by
  have hafter : Aside x (Instance.afterExecute E x) := by
    refine .of_proposer rfl rfl rfl rfl fun e he => ?_
    unfold Instance.executionEvents at he
    split_ifs at he <;> simp at he
    · obtain rfl | rfl := he <;> exact ⟨rfl, rfl, rfl⟩
    · rw [he]
      exact ⟨rfl, rfl, rfl⟩
  by_cases hl : x.learner.hasLearned = true
  · cases hok : (Instance.execution E x).1 with
    | true =>
      rw [Instance.checkLearn_of_true hl hok]
      exact { hafter with noted := ⟨rfl, le_refl _, id⟩ }
    | false =>
      rw [Instance.checkLearn_of_false hl hok]
      exact { hafter with noted := ⟨rfl, le_refl _, id⟩ }
  · rw [Instance.checkLearn, if_neg hl]
    exact refl x

variable {E}

theorem frame {handler : Node → Node}
    (h : x.learner.isReceivingCheckpoint = false → Aside x (handler x)) :
    Aside x (Instance.frame E handler x) := by
  unfold Instance.frame
  split_ifs with hrecv
  · exact refl x
  · exact (h (Bool.eq_false_iff.mpr hrecv)).trans (checkLearn E _)

/-- A call from inside the node of a message that is not for the proposer. -/
theorem hand {handler : Node → Node} (hm : m.type.isReply = false)
    (h : x.learner.isReceivingCheckpoint = false →
      Aside (x.emit (.handed m)) (handler (x.emit (.handed m)))) :
    Aside x (Instance.hand E m handler x) := by
  have hprep : m.type ≠ .prepareReply := by
    rintro htype
    rw [htype] at hm
    cases hm
  refine (emit x ?_ rfl ?_).trans (frame h)
  · simp [Event.isPrepare, hprep]
  · simp [Event.reply?, hm]

theorem toFollowers (ballot : BallotNumber) :
    Aside x (Learner.broadcastMessageToFollower E ballot x) := by
  unfold Learner.broadcastMessageToFollower
  split_ifs
  · exact refl x
  · exact emit x rfl rfl rfl

theorem onNewChosenValue (m : PaxosMessage) : Aside x (Learner.onNewChosenValue E m x) := by
  unfold Learner.onNewChosenValue
  split_ifs
  · have hlearn : Aside x (Learner.finishLearnValue x.acceptor.acceptedValue x) := { refl x with }
    exact hlearn.trans (toFollowers _)
  · exact refl x
  · exact refl x

/-- What `OnAccpetReply` does once the reply is counted is aside from the rounds. -/
theorem settleAccept : Aside x (Proposer.settleAccept E x) := by
  have hend : Aside x { x with proposer := { x.proposer with accepting := false } } :=
    { refl x with noted := ⟨rfl, le_refl _, id⟩ }
  unfold Proposer.settleAccept
  split_ifs
  · -- A majority accepted: the pass is noted, and the value announced.
    have hpass : Aside x (Proposer.passAccept x) := by
      refine .trans (y := x.emit (.acceptPassed x.proposer.instanceId x.proposer.proposalId
        x.proposer.value)) (emit x rfl rfl rfl) ?_
      refine .trans (y := Proposer.removeRetryTimer { x.emit (.acceptPassed x.proposer.instanceId
        x.proposer.proposalId x.proposer.value) with
          proposer := { x.proposer with accepting := false } }) ?_ (emit _ rfl rfl rfl)
      exact { refl _ with noted := ⟨rfl, le_refl _, id⟩ }
    exact hpass.trans (hand rfl fun _ => onNewChosenValue _)
  · exact { hend with noted := ⟨rfl, le_refl _, id⟩ }
  · exact refl x

theorem onAccpetReply (m : PaxosMessage) : Aside x (Proposer.onAccpetReply E m x) := by
  refine .trans ?_ (setMaxProposalId m _)
  split_ifs
  · refine .trans (y := { x with proposer := { x.proposer with
      counter := x.proposer.counter.add m } }) ?_ settleAccept
    exact { refl x with noted := ⟨rfl, le_refl _, id⟩ }
  · exact refl x

/-- The acceptor's reply to an `ACCEPT` leaves, or is handled at once. -/
theorem replyAccept {dest : ℕ} (hrecv : x.learner.isReceivingCheckpoint = false)
    (hr : r.type = .acceptReply) :
    Aside x (Acceptor.reply E dest r (Proposer.onAccpetReply E r) x) := by
  unfold Acceptor.reply
  split_ifs
  · -- The entry of the call is heeded when the call returns.
    have hy : Aside (x.emit (.handed r)) (Instance.hand E r (Proposer.onAccpetReply E r) x) :=
      frame fun _ => onAccpetReply r
    have hheeds : (Instance.hand E r (Proposer.onAccpetReply E r) x).proposer.Heeds r := by
      have hframe : Instance.hand E r (Proposer.onAccpetReply E r) x =
          Instance.checkLearn E (Proposer.onAccpetReply E r (x.emit (.handed r))) :=
        if_neg (Bool.eq_false_iff.mp hrecv)
      rw [hframe]
      exact (Proposer.heeds_setMaxProposalId r _).mono (checkLearn E _).noted
    refine { hy with trace := ?_ }
    obtain ⟨l, hl, hl'⟩ := hy.trace
    refine ⟨l ++ [.handed r], by rw [hl, List.append_assoc]; rfl, fun e he => ?_⟩
    obtain he | he := List.mem_append.mp he
    · exact hl' e he
    · rw [List.mem_singleton.mp he]
      refine ⟨by simp [Event.isPrepare, hr], rfl, fun m hm => ?_⟩
      simp only [Event.reply?, hr, PaxosMessageType.isReply, if_true, Option.some.injEq] at hm
      exact hm ▸ hheeds
  · exact emit x rfl rfl rfl

theorem onAccpet (m : PaxosMessage) (hrecv : x.learner.isReceivingCheckpoint = false) :
    Aside x (Acceptor.onAccpet E m x) := by
  unfold Acceptor.onAccpet
  split_ifs
  · obtain ⟨a, db, trace, hframe⟩ := Acceptor.takeAccept_frame E m x
    obtain ⟨l, hl, hmem⟩ := Acceptor.takeAccept_trace E m x
    have htake : Aside x (Acceptor.takeAccept E m x).2 := by
      refine .of_proposer (l := l) ?_ ?_ ?_ hl fun e he => ?_
      · rw [hframe]
      · rw [hframe]
      · rw [hframe]
      · obtain ⟨r, ok, rfl⟩ | ⟨rfl, -⟩ := hmem e he <;> exact ⟨rfl, rfl, rfl⟩
    refine htake.trans (replyAccept ?_ (Acceptor.takeAccept_reply E m x).1)
    rw [hframe]
    exact hrecv
  · exact hand rfl fun _ => onNewChosenValue _
  · exact refl x

theorem accept : Aside (Proposer.startAccept x) (Proposer.accept E x) :=
  hand rfl fun hrecv => onAccpet _ hrecv

/-- The learner's answers and questions are aside from the rounds. -/
theorem onAskForLearn (m : PaxosMessage) : Aside x (Learner.onAskForLearn E m x) := by
  unfold Learner.onAskForLearn
  split_ifs
  · split
    · exact emit x rfl rfl rfl
    · exact refl x
  · exact { refl x with }
  · exact refl x
  · exact refl x

theorem onSendNowInstanceId (m : PaxosMessage) : Aside x (Learner.onSendNowInstanceId m x) := by
  unfold Learner.onSendNowInstanceId
  split_ifs
  · exact .of_cons rfl rfl rfl rfl rfl rfl rfl
  · exact refl x
  · exact .of_cons rfl rfl rfl rfl rfl rfl rfl
  · exact refl x
  · exact refl x

theorem onSendLearnedValue (m : PaxosMessage) : Aside x (Learner.onSendLearnedValue E m x) := by
  have hput : Aside x (Learner.writeToDB E m x).2 := .of_cons rfl rfl rfl rfl rfl rfl rfl
  unfold Learner.onSendLearnedValue
  dsimp only
  split_ifs
  · have hlearn : Aside x (Learner.finishLearnValue m.value (Learner.writeToDB E m x).2) :=
      { hput with }
    exact hlearn.trans (toFollowers _)
  · exact hput
  · exact refl x

/-- The messages that neither are nor lead to a `PREPARE_REPLY`. -/
theorem handle (hprep : m.type ≠ .prepare) (hreply : m.type ≠ .prepareReply)
    (hrecv : x.learner.isReceivingCheckpoint = false) : Aside x (Instance.handle E m x) := by
  unfold Instance.handle
  cases htype : m.type with
  | prepare => exact absurd htype hprep
  | accept => exact onAccpet m hrecv
  | prepareReply => exact absurd htype hreply
  | acceptReply => exact onAccpetReply m
  | newChosenValue => exact onNewChosenValue m
  | askForLearn => exact onAskForLearn m
  | sendLearnedValue => exact onSendLearnedValue m
  | sendNowInstanceId => exact onSendNowInstanceId m
  | comfirmAskForLearn | askForCheckpoint => exact { refl x with }

end Aside

/-! ## A `PREPARE_REPLY` -/

/-- What follows once a reply is counted, which leaves the proposer `p`: the round stays open, it
ends, or it passes, and then the `ACCEPT` is that of `p`. -/
structure Follows (p : Proposer) (x y : Node) : Prop where
  config : y.config = x.config
  proposeValue : y.proposeValue = x.proposeValue
  noted : p.Noted y.proposer
  preparing : y.proposer.preparing = true → p.preparing = true ∧
    y.proposer.maxBallot = p.maxBallot ∧ y.proposer.value = p.value
  trace : ∃ l, y.trace = l ++ x.trace ∧
    (∀ e ∈ l, e.isPrepare = false ∧ ∀ m, e.reply? = some m → y.proposer.Heeds m) ∧
    ∀ i q, .preparePassed i q ∈ l → p.preparing = true ∧ ∀ m dests, .broadcast m dests ∈ l →
      m.type = .accept → m = Proposer.acceptMessage { x with proposer := p }

namespace Follows

/-- A step that is aside from the rounds may follow. -/
theorem aside (h : Follows p x y) (h' : Aside y z) : Follows p x z where
  config := h'.config.trans h.config
  proposeValue := h'.proposeValue.trans h.proposeValue
  noted := h.noted.trans h'.noted
  preparing := by
    intro hz
    obtain ⟨hp, hmax, hval⟩ := h.preparing (h'.preparing hz)
    exact ⟨hp, h'.maxBallot.trans hmax, h'.value.trans hval⟩
  trace := by
    obtain ⟨l, hl, hent, hpass⟩ := h.trace
    obtain ⟨k, hk, hk'⟩ := h'.trace
    refine ⟨k ++ l, by rw [hk, hl, List.append_assoc], fun e he => ?_, fun i q hmem => ?_⟩
    · obtain he | he := List.mem_append.mp he
      · exact ⟨(hk' e he).1, (hk' e he).2.2⟩
      · exact ⟨(hent e he).1, fun m hm => ((hent e he).2 m hm).mono h'.noted⟩
    · have hold : ∀ e ∈ k ++ l, e.isAccept = true → e ∈ l := by
        intro e he hacc
        obtain he | he := List.mem_append.mp he
        · rw [(hk' e he).2.1] at hacc
          cases hacc
        · exact he
      obtain ⟨hp, hmsg⟩ := hpass i q (hold _ hmem rfl)
      refine ⟨hp, fun m dests hm htype => hmsg m dests (hold _ hm ?_) htype⟩
      simp [Event.isAccept, htype]

theorem refl (x : Node) : Follows x.proposer x x where
  config := rfl
  proposeValue := rfl
  noted := ⟨rfl, le_refl _, id⟩
  preparing := fun h => ⟨h, rfl, rfl⟩
  trace := ⟨[], rfl, nofun, nofun⟩

/-- What `OnPrepareReply` does once the reply is counted follows the proposer. -/
theorem settlePrepare (hprep : x.proposer.preparing = true) :
    Follows x.proposer x (Proposer.settlePrepare E x) := by
  unfold Proposer.settlePrepare
  split_ifs
  · have hpass : Follows x.proposer x (Proposer.passPrepare x) :=
      { refl x with
        noted := ⟨rfl, le_refl _, id⟩
        preparing := nofun
        trace := by
          refine ⟨[.broadcast (Proposer.acceptMessage x) (x.others x.memberIds),
            .preparePassed x.proposer.instanceId x.proposer.proposalId], rfl, fun e he => ?_,
            fun i q _ => ⟨hprep, fun m dests hm _ => ?_⟩⟩
          · rw [List.mem_pair] at he
            obtain rfl | rfl := he <;> exact ⟨rfl, nofun⟩
          · rw [List.mem_pair] at hm
            obtain heq | heq := hm <;> cases heq
            rfl }
    exact hpass.aside Aside.accept
  · exact { refl x with noted := ⟨rfl, le_refl _, id⟩, preparing := nofun }
  · exact refl x

end Follows

/-- The proposer with a `PREPARE_REPLY` counted, where `OnPrepareReply` counts it. -/
def Proposer.counted (p : Proposer) (m : PaxosMessage) : Proposer :=
  if p.preparing = true ∧ m.instanceId = p.instanceId then p.countPrepareReply m else p

/-- The proposer with `PREPARE_REPLY`s counted, of which the last one came first. -/
def Proposer.countAll (p : Proposer) (l : List PaxosMessage) : Proposer :=
  l.foldr (fun m p => p.countPrepareReply m) p

theorem Proposer.noted_countPrepareReply (p : Proposer) (m : PaxosMessage) :
    p.Noted (p.countPrepareReply m) := by
  obtain ⟨b, v, h⟩ := Proposer.countPrepareReply_frame m p
  rw [h]
  exact ⟨rfl, le_refl _, id⟩

namespace Follows

/-- `OnPrepareReply` follows the proposer that has counted the reply, and heeds it. -/
theorem onPrepareReply (m : PaxosMessage) :
    Follows (x.proposer.counted m) x (Proposer.onPrepareReply E m x) ∧
      (Proposer.onPrepareReply E m x).proposer.Heeds m := by
  refine ⟨?_, Proposer.heeds_setMaxProposalId m _⟩
  refine Follows.aside ?_ (.setMaxProposalId m _)
  unfold Proposer.counted
  split_ifs with hcount
  · have hsettle := settlePrepare (E := E)
      (x := { x with proposer := x.proposer.countPrepareReply m })
      ((Proposer.countPrepareReply_preparing m x.proposer).trans hcount.1)
    exact ⟨hsettle.config, hsettle.proposeValue, hsettle.noted, hsettle.preparing, hsettle.trace⟩
  · exact refl x

end Follows

/-! ## What an event handles -/

/-- From `x` to `y` the `PREPARE`s in `sent` are broadcast and the replies in `arrived` are handled,
besides those of the node's own acceptor. The round, if any, started with the proposer `p`. -/
inductive Handled (p : Proposer) (arrived sent : List PaxosMessage) (x y : Node) : Prop where
  | mk (q : Proposer) (z : Node) (l : List Event) (htrace : z.trace = l ++ x.trace)
      (hconfig : z.config = x.config) (hvalue : z.proposeValue = x.proposeValue)
      (hfollows : Follows q z y) (hnoted : p.Noted q)
      (hprep : q.preparing = true → p.preparing = true)
      (hcount : p.preparing = true → q =
        p.countAll (promisesFor x.proposer.instanceId (l.filterMap Event.reply? ++ arrived)))
      (hl : ∀ e ∈ l, e.isAccept = false ∧ ∀ m, e.reply? = some m → y.proposer.Heeds m)
      (harrived : ∀ m ∈ arrived, y.proposer.Heeds m) (hsent : l.filterMap Event.prepare? = sent)

namespace Handled

variable {arrived : List PaxosMessage}

theorem of_aside_of_arrived (h : Aside x y)
    (harr : ∀ m ∈ arrived, y.proposer.Heeds m ∧ m.type ≠ .prepareReply) :
    Handled x.proposer arrived [] x y := by
  refine .mk x.proposer x [] rfl rfl rfl ((Follows.refl x).aside h) ⟨rfl, le_refl _, id⟩ id
    (fun _ => ?_) nofun (fun m hm => (harr m hm).1) rfl
  have hnone : promisesFor x.proposer.instanceId arrived = [] := by
    refine List.filter_eq_nil_iff.mpr fun m hm hprom => (harr m hm).2 ?_
    exact of_decide_eq_true (Bool.and_eq_true_iff.mp hprom).1
  rw [List.filterMap_nil, List.nil_append, hnone]
  rfl

theorem of_aside (h : Aside x y) : Handled x.proposer [] [] x y := of_aside_of_arrived h nofun

theorem aside (h : Handled p arrived sent x y) (h' : Aside y z) :
    Handled p arrived sent x z := by
  obtain ⟨q, w, l, htrace, hconfig, hvalue, hfollows, hnoted, hprep, hcount, hl, harr, hsent⟩ := h
  refine .mk q w l htrace hconfig hvalue (hfollows.aside h') hnoted hprep hcount ?_ ?_ hsent
  · exact fun e he => ⟨(hl e he).1, fun m hm => ((hl e he).2 m hm).mono h'.noted⟩
  · exact fun m hm => (harr m hm).mono h'.noted

/-- A `PREPARE_REPLY` that arrives is handled as such. -/
theorem onPrepareReply (hm : m.type = .prepareReply) :
    Handled x.proposer [m] [] x (Proposer.onPrepareReply E m x) := by
  obtain ⟨hfollows, hheeds⟩ := Follows.onPrepareReply (E := E) (x := x) m
  refine .mk (x.proposer.counted m) x [] rfl rfl rfl hfollows ?_ ?_ ?_ nofun ?_ rfl
  · unfold Proposer.counted
    split_ifs
    · exact Proposer.noted_countPrepareReply x.proposer m
    · exact ⟨rfl, le_refl _, id⟩
  · unfold Proposer.counted
    split_ifs with hcount
    · exact fun _ => hcount.1
    · exact id
  · intro hprep
    by_cases hid : m.instanceId = x.proposer.instanceId
    · simp [Proposer.counted, hprep, hid, promisesFor, hm, Proposer.countAll]
    · simp [Proposer.counted, hid, promisesFor, Proposer.countAll]
  · intro m' hm'
    rw [List.mem_singleton.mp hm']
    exact hheeds

theorem proposeValue (h : Handled p arrived sent x y) : y.proposeValue = x.proposeValue := by
  obtain ⟨q, w, l, -, -, hvalue, hfollows, -⟩ := h
  exact hfollows.proposeValue.trans hvalue

/-- A step that is not for the proposer may come before. -/
theorem after (h : Handled p arrived sent z y) (htrace : z.trace = k ++ x.trace)
    (hconfig : z.config = x.config) (hvalue : z.proposeValue = x.proposeValue)
    (hid : z.proposer.instanceId = x.proposer.instanceId)
    (hk : ∀ e ∈ k, e.isAccept = false ∧ e.reply? = none) :
    Handled p arrived (sent ++ k.filterMap Event.prepare?) x y := by
  obtain ⟨q, w, l, hw, hc, hv, hfollows, hnoted, hprep, hcount, hl, harr, hsent⟩ := h
  have hnone : k.filterMap Event.reply? = [] :=
    List.filterMap_eq_nil_iff.mpr fun e he => (hk e he).2
  refine .mk q w (l ++ k) (by rw [hw, htrace, List.append_assoc]) (hc.trans hconfig)
    (hv.trans hvalue) hfollows hnoted hprep ?_ ?_ harr (by rw [List.filterMap_append, hsent])
  · rw [List.filterMap_append, hnone, List.append_nil, ← hid]
    exact hcount
  · intro e he
    obtain he | he := List.mem_append.mp he
    · exact hl e he
    · exact ⟨(hk e he).1, fun m hm => by rw [(hk e he).2] at hm; cases hm⟩

/-- The acceptor's reply to a `PREPARE` leaves, or is counted at once. -/
theorem replyPrepare {dest : ℕ} (hrecv : x.learner.isReceivingCheckpoint = false)
    (hr : r.type = .prepareReply) :
    Handled x.proposer [] [] x (Acceptor.reply E dest r (Proposer.onPrepareReply E r) x) := by
  unfold Acceptor.reply
  split_ifs
  · have hhand : Instance.hand E r (Proposer.onPrepareReply E r) x =
        Instance.checkLearn E (Proposer.onPrepareReply E r (x.emit (.handed r))) :=
      if_neg (Bool.eq_false_iff.mp hrecv)
    rw [hhand]
    refine Handled.aside ?_ (.checkLearn E _)
    -- From the entry of the call on, the reply is one that arrives.
    obtain ⟨q, v, k, hv, hc, hval, hfollows, hnoted, hprep, hcount, hk, harr, hsent⟩ :=
      onPrepareReply (E := E) (x := x.emit (.handed r)) hr
    have hreply : Event.reply? (.handed r) = some r := by
      simp [Event.reply?, hr, PaxosMessageType.isReply]
    refine .mk q v (k ++ [.handed r]) ?_ hc hval hfollows hnoted hprep ?_ ?_ nofun ?_
    · rw [hv, List.append_assoc]
      rfl
    · rw [List.filterMap_append, List.filterMap_cons_some hreply, List.filterMap_nil,
        List.append_nil]
      exact hcount
    · intro e he
      obtain he | he := List.mem_append.mp he
      · exact hk e he
      · rw [List.mem_singleton.mp he]
        refine ⟨rfl, fun m hm => ?_⟩
        rw [hreply] at hm
        exact harr m (List.mem_singleton.mpr (Option.some.inj hm).symm)
    · rw [List.filterMap_append, hsent]
      rfl
  · exact of_aside (.emit x rfl rfl rfl)

/-- `OnPrepare` is handled without an arrival and without a new round. -/
theorem onPrepare (m : PaxosMessage) (hrecv : x.learner.isReceivingCheckpoint = false) :
    Handled x.proposer [] [] x (Acceptor.onPrepare E m x) := by
  unfold Acceptor.onPrepare
  split_ifs
  · obtain ⟨a, db, trace, hframe⟩ := Acceptor.takePrepare_frame E m x
    obtain ⟨l, hl, hmem⟩ := Acceptor.takePrepare_trace E m x
    have hreply : Handled (Acceptor.takePrepare E m x).2.proposer [] []
        (Acceptor.takePrepare E m x).2 (Acceptor.reply E m.nodeId (Acceptor.takePrepare E m x).1
          (Proposer.onPrepareReply E (Acceptor.takePrepare E m x).1)
          (Acceptor.takePrepare E m x).2) := by
      refine replyPrepare ?_ (Acceptor.takePrepare_reply E m x).1
      rw [hframe]
      exact hrecv
    have hproposer : (Acceptor.takePrepare E m x).2.proposer = x.proposer := by rw [hframe]
    have hnone : l.filterMap Event.prepare? = [] := by
      refine List.filterMap_eq_nil_iff.mpr fun e he => ?_
      obtain ⟨r, ok, rfl⟩ | ⟨rfl, -⟩ := hmem e he <;> rfl
    rw [hproposer] at hreply
    have hafter := hreply.after hl (by rw [hframe]) (by rw [hframe]) (by rw [hframe])
      fun e he => by obtain ⟨r, ok, rfl⟩ | ⟨rfl, -⟩ := hmem e he <;> exact ⟨rfl, rfl⟩
    rw [hnone] at hafter
    exact hafter
  · exact of_aside (.hand rfl fun _ => .onNewChosenValue _)
  · exact of_aside (.refl x)

/-- `Prepare` is handled as the start of a round. -/
theorem prepare (b : Bool) :
    Handled (Proposer.startPrepare b x).proposer []
      [Proposer.prepareMessage (Proposer.startPrepare b x)] x (Proposer.prepare E b x) := by
  have hopen : Handled (Proposer.startPrepare b x).proposer [] []
      ((Proposer.startPrepare b x).emit
        (.handed (Proposer.prepareMessage (Proposer.startPrepare b x))))
      (Proposer.prepare E b x) := by
    unfold Proposer.prepare Instance.hand Instance.frame
    dsimp only
    split_ifs with hrecv
    · have hnone := of_aside (Aside.refl ((Proposer.startPrepare b x).emit
        (.handed (Proposer.prepareMessage (Proposer.startPrepare b x)))))
      exact hnone
    · exact (onPrepare _ (Bool.eq_false_iff.mpr hrecv)).aside (.checkLearn E _)
  have htrace : ((Proposer.startPrepare b x).emit
      (.handed (Proposer.prepareMessage (Proposer.startPrepare b x)))).trace =
      [.handed (Proposer.prepareMessage (Proposer.startPrepare b x)),
        .broadcast (Proposer.prepareMessage (Proposer.startPrepare b x))
          (x.others x.memberIds)] ++ x.trace := rfl
  refine hopen.after htrace rfl rfl rfl fun e he => ?_
  obtain rfl | rfl := List.mem_pair.mp he <;> exact ⟨rfl, rfl⟩

/-- `Accept` without `Prepare` is handled without a new round of promises. -/
theorem directAccept (v : PaxosValue) :
    Handled x.proposer [] [] x
      (Proposer.accept E { x with proposer := { x.proposer with value := v } }) := by
  refine .mk x.proposer x [] rfl rfl rfl (.aside ?_ Aside.accept) ⟨rfl, le_refl _, id⟩ id
    (fun _ => rfl) nofun nofun rfl
  refine ⟨rfl, rfl, ⟨rfl, le_refl _, id⟩, nofun, [_], rfl, fun e he => ?_, fun i q hmem => ?_⟩
  · rw [List.mem_singleton.mp he]
    exact ⟨rfl, nofun⟩
  · cases List.mem_singleton.mp hmem

end Handled

/-! ## What a turn takes -/

/-- What a turn does, from the proposer `p` on. -/
structure Took (p : Proposer) (t : Turn) : Prop where
  noted : p.Noted t.after.proposer
  heeds : ∀ m ∈ repliesIn t, t.after.proposer.Heeds m
  /-- If the round is open, its replies are counted. -/
  preparing : t.after.proposer.preparing = true → p.preparing = true ∧
    t.after.proposer.maxBallot = (p.countAll (promisesIn t)).maxBallot ∧
    t.after.proposer.value = (p.countAll (promisesIn t)).value
  /-- If it passes, the `ACCEPT` has what they lead to. -/
  passed : ∀ i q, .preparePassed i q ∈ t.before.added t.after → p.preparing = true ∧
    ∀ m dests, .broadcast m dests ∈ t.before.added t.after → m.type = .accept →
      m = Proposer.acceptMessage { t.before with proposer := p.countAll (promisesIn t) }

/-- A turn that begins with the entries `k`. -/
theorem Handled.took {t : Turn} (h : Handled p (arrivedIn t) sent x t.after)
    (htrace : x.trace = k ++ t.before.trace) (hconfig : x.config = t.before.config)
    (hid : x.proposer.instanceId = t.before.proposer.instanceId)
    (hk : ∀ e ∈ k, e.isAccept = false ∧ e.reply? = none ∧ e.prepare? = none) :
    Took p t ∧ preparesIn t = sent := by
  obtain ⟨q, w, l, hw, hc, -, hfollows, hnoted, hprep, hcount, hl, harr, hsent⟩ := h
  obtain ⟨f, hf, hent, hpass⟩ := hfollows.trace
  have hadded : t.before.added t.after = f ++ (l ++ k) :=
    Node.added_of_append (by rw [hf, hw, htrace, List.append_assoc, List.append_assoc])
  have hknone : k.filterMap Event.reply? = [] :=
    List.filterMap_eq_nil_iff.mpr fun e he => (hk e he).2.1
  have hkprep : k.filterMap Event.prepare? = [] :=
    List.filterMap_eq_nil_iff.mpr fun e he => (hk e he).2.2
  have hreplies : repliesIn t =
      f.filterMap Event.reply? ++ (l.filterMap Event.reply? ++ arrivedIn t) := by
    rw [repliesIn, hadded, List.filterMap_append, List.filterMap_append, hknone, List.append_nil,
      List.append_assoc]
  -- What follows handles no other `PREPARE_REPLY`.
  have hpromises : promisesIn t =
      promisesFor x.proposer.instanceId (l.filterMap Event.reply? ++ arrivedIn t) := by
    have hfnone : promisesFor x.proposer.instanceId (f.filterMap Event.reply?) = [] := by
      refine List.filter_eq_nil_iff.mpr fun m hm hprom => ?_
      obtain ⟨e, he, hreply⟩ := List.mem_filterMap.mp hm
      have hno := (hent e he).1
      unfold Event.reply? at hreply
      split at hreply
      · simp only [Option.ite_none_right_eq_some, Option.some.injEq] at hreply
        simp [Event.isPrepare, hreply.2] at hno
        simp [hno] at hprom
      · cases hreply
    rw [promisesIn, hreplies, ← hid, promisesFor, List.filter_append]
    exact (congrArg (· ++ _) hfnone).trans (List.nil_append _)
  have hq : p.preparing = true → q = p.countAll (promisesIn t) := by
    rw [hpromises]
    exact hcount
  refine ⟨⟨hnoted.trans hfollows.noted, fun m hm => ?_, fun hopen => ?_, fun i r hmem => ?_⟩, ?_⟩
  · rw [hreplies] at hm
    obtain hm | hm := List.mem_append.mp hm
    · obtain ⟨e, he, hreply⟩ := List.mem_filterMap.mp hm
      exact (hent e he).2 m hreply
    · obtain hm | hm := List.mem_append.mp hm
      · obtain ⟨e, he, hreply⟩ := List.mem_filterMap.mp hm
        exact (hl e he).2 m hreply
      · exact harr m hm
  · obtain ⟨hqp, hmax, hval⟩ := hfollows.preparing hopen
    rw [← hq (hprep hqp)]
    exact ⟨hprep hqp, hmax, hval⟩
  · -- The pass and the `ACCEPT` are among what follows.
    rw [hadded] at hmem ⊢
    have hin : ∀ e ∈ f ++ (l ++ k), e.isAccept = true → e ∈ f := by
      intro e he hacc
      obtain he | he := List.mem_append.mp he
      · exact he
      · obtain he | he := List.mem_append.mp he
        · rw [(hl e he).1] at hacc
          cases hacc
        · rw [(hk e he).1] at hacc
          cases hacc
    obtain ⟨hqp, hmsg⟩ := hpass i r (hin _ hmem rfl)
    refine ⟨hprep hqp, fun m dests hm htype => ?_⟩
    rw [hmsg m dests (hin _ hm (by simp [Event.isAccept, htype])) htype, ← hq (hprep hqp)]
    simp only [Proposer.acceptMessage, Node.nodeId, hc, hconfig]
  · have hfprep : f.filterMap Event.prepare? = [] := by
      refine List.filterMap_eq_nil_iff.mpr fun e he => ?_
      have hno := (hent e he).1
      unfold Event.prepare?
      split
      · simp [Event.isPrepare] at hno
        simp [hno]
      · rfl
    rw [preparesIn, hadded, List.filterMap_append, List.filterMap_append, hfprep, hkprep,
      List.append_nil]
    exact hsent

/-- The value that the proposer holds when an event calls `Prepare`. -/
def startValueIn (t : Turn) : PaxosValue :=
  match t.action.2 with
  | .timer _ => t.before.proposer.value
  | _ => t.after.proposeValue

/-- `p` is the proposer `q` in a new round for the value `v`. -/
structure Opens (q : Proposer) (v : PaxosValue) (p : Proposer) : Prop where
  preparing : p.preparing = true
  maxBallot : p.maxBallot = {}
  value : p.value = v
  instanceId : p.instanceId = q.instanceId
  proposalId : p.proposalId = q.nextProposalId
  maxProposalId : p.maxProposalId = q.maxProposalId

/-- A turn starts a round or it does not. -/
inductive TurnCase (t : Turn) : Prop where
  | kept (h : Took t.before.proposer t) (hsent : preparesIn t = [])
  | opened (p : Proposer) (hp : Opens t.before.proposer (startValueIn t) p) (h : Took p t)
      (hsent : preparesIn t = [Proposer.prepareMessage { t.before with proposer := p }])

namespace TurnCase

variable {t : Turn}

theorem of_handled (h : Handled t.before.proposer (arrivedIn t) [] t.before t.after) :
    TurnCase t := by
  obtain ⟨htook, hsent⟩ := h.took (k := []) rfl rfl rfl nofun
  exact .kept htook hsent

theorem of_aside (harr : arrivedIn t = []) (h : Aside t.before t.after) : TurnCase t :=
  of_handled (harr ▸ .of_aside h)

/-- A turn that calls `Prepare` opens a round. -/
theorem of_prepare (harr : arrivedIn t = []) (htrace : z.trace = k ++ t.before.trace)
    (hk : ∀ e ∈ k, e.isAccept = false ∧ e.reply? = none ∧ e.prepare? = none)
    (hconfig : z.config = t.before.config)
    (hp : z.proposer = { t.before.proposer with value := startValueIn t })
    (ht : t.after = Proposer.prepare E t.before.proposer.wasRejectedBySomeone z) :
    TurnCase t := by
  have hround : Handled (Proposer.startPrepare t.before.proposer.wasRejectedBySomeone z).proposer
      (arrivedIn t) [Proposer.prepareMessage
        (Proposer.startPrepare t.before.proposer.wasRejectedBySomeone z)] z t.after := by
    rw [harr, ht]
    exact .prepare _
  obtain ⟨htook, hsent⟩ := hround.took htrace hconfig (by rw [hp]) hk
  refine .opened _ ⟨rfl, rfl, ?_, ?_, ?_, ?_⟩ htook (hsent.trans ?_)
  · exact (congrArg Proposer.value hp :)
  · exact (congrArg Proposer.instanceId hp :)
  · change (z.proposer.newRound _).proposalId = _
    rw [hp]
    rfl
  · exact (congrArg Proposer.maxProposalId hp :)
  · simp only [Proposer.prepareMessage, Proposer.startPrepare, Node.nodeId, ← hconfig]
    rfl

/-- A call of `NewPropose` by a proposal. -/
theorem of_newPropose (harr : arrivedIn t = []) (hevent : ∀ id, t.action.2 ≠ .timer id)
    (htrace : z.trace = k ++ t.before.trace)
    (hk : ∀ e ∈ k, e.isAccept = false ∧ e.reply? = none ∧ e.prepare? = none)
    (hconfig : z.config = t.before.config) (hp : z.proposer = t.before.proposer)
    (ht : t.after = Proposer.newPropose E z.proposeValue z) : TurnCase t := by
  unfold Proposer.newPropose at ht
  dsimp only at ht
  split_ifs at ht with hskip
  · have hdirect : Handled t.before.proposer (arrivedIn t) [] z t.after := by
      rw [harr, ht, ← hp]
      exact .directAccept _
    obtain ⟨htook, hsent⟩ := hdirect.took htrace hconfig (by rw [hp]) hk
    exact .kept htook hsent
  · have hvalue : startValueIn t = z.proposeValue := by
      have hafter : t.after.proposeValue = z.proposeValue := by
        rw [ht]
        exact (Handled.prepare _).proposeValue
      unfold startValueIn
      split
      case h_1 id hid => exact absurd hid (hevent id)
      case h_2 => exact hafter
    refine of_prepare (z := { z with proposer := { z.proposer with value := z.proposeValue } }) harr
      htrace hk hconfig ?_ (by rw [← hp]; exact ht)
    rw [hvalue, hp]

end TurnCase

/-- A proposal, of a member or not. -/
theorem TurnCase.of_onPropose {t : Turn} (harr : arrivedIn t = [])
    (hevent : ∀ id, t.action.2 ≠ .timer id) (hz : Aside t.before z)
    (htrace : z.trace = t.before.trace) (hp : z.proposer = t.before.proposer) {machineId : ℕ}
    {value : List UInt8} {context : Option Context} {draw : ℕ}
    (ht : t.after = Instance.onPropose E machineId value context draw z) : TurnCase t := by
  unfold Instance.onPropose at ht
  split_ifs at ht
  · obtain ⟨v, pt, sn, nt, ts, hframe⟩ :=
      Instance.startPropose_frame E machineId value context draw z
    have htr : (Instance.startPropose E machineId value context draw z).trace =
        [.proposed z.instanceId E.nowMillis v] ++ t.before.trace := by
      rw [hframe, htrace]
      rfl
    refine of_newPropose harr hevent htr ?_ (by rw [hframe]; exact hz.config)
      (by rw [hframe]; exact hp) ht
    intro e he
    rw [List.mem_singleton.mp he]
    exact ⟨rfl, rfl, rfl⟩
  · refine of_aside harr (hz.trans ?_)
    rw [ht]
    exact .emit z rfl rfl rfl

theorem Aside.askForLearn (b : Bool) (x : Node) :
    Aside x (Learner.askForLearn E b x) := by
  unfold Learner.askForLearn
  split_ifs <;> exact .of_cons rfl rfl rfl rfl rfl rfl rfl

/-- A function of the learn loop is aside from the rounds. -/
theorem Aside.runLearnLoop (x : Node) : Aside x (Learner.runLearnLoop x) := by
  unfold Learner.runLearnLoop
  split
  · exact refl x
  · exact .of_cons rfl rfl rfl rfl rfl rfl rfl
  · exact { refl x with }
  · split_ifs
    · split
      · exact .of_cons rfl rfl rfl rfl rfl rfl rfl
      · exact { refl x with }
    · exact { refl x with }

/-- A turn in which a timer fires is one of the cases. -/
theorem TurnCase.of_timer {t : Turn} {id : ℕ} (harr : arrivedIn t = [])
    (hevent : t.action.2 = .timer id) (cb : TimerCallback)
    (ht : t.after = (t.before.removeTimer id).runTimer E cb) : TurnCase t := by
  have hremove : Aside t.before (t.before.removeTimer id) := { Aside.refl t.before with }
  cases cb with
  | retry i =>
    change t.after = Proposer.onRetryTimer E i (t.before.removeTimer id) at ht
    unfold Proposer.onRetryTimer at ht
    split_ifs at ht
    · refine of_prepare (z := t.before.removeTimer id) (k := []) harr rfl nofun rfl ?_ ht
      have hvalue : startValueIn t = t.before.proposer.value := by
        unfold startValueIn
        rw [hevent]
      rw [hvalue]
      rfl
    · exact of_aside harr (ht ▸ hremove)
  | propose =>
    refine of_aside harr (hremove.trans ?_)
    rw [ht]
    exact .trans (y := Proposer.quitPropose (t.before.removeTimer id))
      { Aside.refl _ with noted := ⟨rfl, le_refl _, fun h => h⟩, preparing := nofun }
      { Aside.emit (Proposer.quitPropose (t.before.removeTimer id))
          (e := .completed _ _) rfl rfl rfl with }
  | learn =>
    refine of_aside harr (hremove.trans ?_)
    rw [ht]
    exact .askForLearn true _

/-- A turn in which a message arrives is one of the cases. -/
theorem TurnCase.of_paxosMessage {t : Turn} (hevent : t.action.2 = .paxosMessage m)
    (ht : t.after = Instance.onPaxosMessage E m t.before) :
    TurnCase t := by
  by_cases hrecv : t.before.learner.isReceivingCheckpoint = true
  · -- It is dropped.
    have harr : arrivedIn t = [] := if_pos hrecv
    have hsame : t.after = t.before := ht.trans (if_pos hrecv)
    exact of_aside harr (hsame ▸ .refl _)
  · have hrecv' := Bool.eq_false_iff.mpr hrecv
    have harr : arrivedIn t = if m.type.isReply then [m] else [] := by
      rw [arrivedIn, if_neg hrecv, hevent]
      change (if m.type.isReply then some m else none).toList = _
      split_ifs <;> rfl
    by_cases hprep : m.type = .prepare
    · have hhandle : Instance.handle E m t.before = Acceptor.onPrepare E m t.before := by
        rw [Instance.handle, hprep]
      have hnone : arrivedIn t = [] := by rw [harr, hprep]; rfl
      refine of_handled ?_
      rw [hnone, ht, Instance.onPaxosMessage, Instance.frame, if_neg hrecv, hhandle]
      exact (Handled.onPrepare m hrecv').aside (.checkLearn E _)
    by_cases hreply : m.type = .prepareReply
    · have hhandle : Instance.handle E m t.before = Proposer.onPrepareReply E m t.before := by
        rw [Instance.handle, hreply]
      have hone : arrivedIn t = [m] := by rw [harr, hreply]; rfl
      refine of_handled ?_
      rw [hone, ht, Instance.onPaxosMessage, Instance.frame, if_neg hrecv, hhandle]
      exact (Handled.onPrepareReply hreply).aside (.checkLearn E _)
    · have haside : Aside t.before t.after := ht ▸ .frame (Aside.handle hprep hreply)
      refine of_handled (.of_aside_of_arrived haside fun m' hm' => ?_)
      rw [harr] at hm'
      split_ifs at hm' with hisReply
      · rw [List.mem_singleton.mp hm']
        refine ⟨?_, hreply⟩
        -- The other reply is an `ACCEPT_REPLY`.
        have hacc : m.type = .acceptReply := by
          cases htype : m.type <;> simp_all [PaxosMessageType.isReply]
        have hhandle : Instance.handle E m t.before = Proposer.onAccpetReply E m t.before := by
          rw [Instance.handle, hacc]
        rw [ht, Instance.onPaxosMessage, Instance.frame, if_neg hrecv, hhandle]
        exact (Proposer.heeds_setMaxProposalId m _).mono (Aside.checkLearn E _).noted
      · cases hm'

/-- **Every event is one of the cases.** -/
theorem turn_cases {a : Env × NodeEvent} (h : x.stepIn a = some y) :
    TurnCase ⟨x, a, y⟩ := by
  obtain ⟨E, ev⟩ := a
  have hnone : ev.reply? = none → arrivedIn ⟨x, (E, ev), y⟩ = [] := by
    intro hev
    simp [arrivedIn, hev]
  cases ev with
  | propose machineId value context draw =>
    obtain ⟨-, heq⟩ := Option.ite_none_right_eq_some.mp h
    exact .of_onPropose (hnone rfl) nofun (.refl x) rfl rfl (Option.some.inj heq).symm
  | tryBeMaster draw =>
    obtain ⟨-, heq⟩ := Option.ite_none_right_eq_some.mp h
    have heq := (Option.some.inj heq).symm
    unfold Group.tryBeMasterInLoop at heq
    dsimp only at heq
    have hnow : Aside x { x with groupNow := E.nowMillis } := { Aside.refl x with }
    split_ifs at heq
    · exact .of_onPropose (hnone rfl) nofun hnow rfl rfl heq
    · exact .of_aside (hnone rfl) (heq ▸ hnow.trans (.emit _ rfl rfl rfl))
  | timer id =>
    cases hcb : x.timers.lookup id with
    | none => simp [Node.stepIn, Node.step, hcb] at h
    | some cb =>
      have heq : (x.removeTimer id).runTimer E cb = y := by
        simpa [Node.stepIn, Node.step, hcb] using h
      exact .of_timer (hnone rfl) rfl cb heq.symm
  | paxosMessage m => exact .of_paxosMessage rfl (Option.some.inj h).symm
  | checkpointMessage => exact .of_aside (hnone rfl) (Option.some.inj h ▸ { Aside.refl x with })
  | syncData addTimer => exact .of_aside (hnone rfl) (Option.some.inj h ▸ .askForLearn addTimer x)
  | learnLoop =>
    obtain ⟨-, heq⟩ := Option.ite_none_left_eq_some.mp h
    exact .of_aside (hnone rfl) (Option.some.inj heq ▸ .runLearnLoop x)
  | finishCheckpoint =>
    obtain ⟨-, heq⟩ := Option.ite_none_right_eq_some.mp h
    exact .of_aside (hnone rfl) (Option.some.inj heq ▸ { Aside.refl x with })
  | gcLoop =>
    obtain ⟨db, m, g, hframe⟩ := LogCleaner.gcLoop_frame E x
    have heq : LogCleaner.gcLoop E x = y := Option.some.inj h
    rw [hframe] at heq
    exact .of_aside (hnone rfl) (heq ▸ { Aside.refl x with })

end Skywalker
