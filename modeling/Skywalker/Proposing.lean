import Skywalker.Recovery
import Skywalker.Events

/-!
# The outstanding proposal

What a client's proposal goes through on its node. `OnPropose` starts it with a timer, `CheckLearn`
or the timer ends it, and everything else that a node does leaves it alone: `ClientStep` lists what
the handlers do to the proposal and to the timers, and `Node.step_client` breaks every event into
such steps. `Node.Client` and `Node.Owned` are what the steps keep: the timer of an outstanding
proposal is pending, and a proposal that was completed with `OK` was completed for a value with its
id.
-/

namespace Skywalker

open TransitionSystem Relation

variable {f : Node → Node} {E : Env} {x y : Node} {ev : NodeEvent} {cb : TimerCallback}
  {dirs : List (ℕ × Machines)} {l : List Event}

/-! ## What handlers do to a proposal -/

/-- Entries of the trace for the start and the end of a proposal. -/
def Event.isProposal : Event → Bool
  | .proposed _ _ _ => true
  | .completed _ _ => true
  | _ => false

/-- Entries of the trace about a client's proposal: its start and its end, the calls of `Execute`,
and the start of a process, which drops it. -/
def Event.isClient : Event → Bool
  | .executed _ _ _ _ => true
  | .recovered _ _ => true
  | e => e.isProposal

theorem Event.isProposal_of_isClient {e : Event} (h : e.isClient = false) :
    e.isProposal = false := by
  cases e <;> first | rfl | exact h

/-- The proposal of a node and its timers. -/
def Node.client (x : Node) :=
  (x.isProposing, x.context, x.proposeValue, x.groupNow, x.instanceId, x.proposeTimer, x.nextTimer,
    x.timers, x.proposer.retryTimer, x.learner.learnTimer)

/-- `y` has the proposal and the timers of `x`. -/
structure SameClient (x y : Node) : Prop where
  isProposing : y.isProposing = x.isProposing
  context : y.context = x.context
  proposeValue : y.proposeValue = x.proposeValue
  groupNow : y.groupNow = x.groupNow
  instanceId : y.instanceId = x.instanceId
  proposeTimer : y.proposeTimer = x.proposeTimer
  nextTimer : y.nextTimer = x.nextTimer
  timers : y.timers = x.timers
  retryTimer : y.proposer.retryTimer = x.proposer.retryTimer
  learnTimer : y.learner.learnTimer = x.learner.learnTimer
  trace : ∃ l, y.trace = l ++ x.trace ∧ ∀ e ∈ l, e.isClient = false

/-- What the handlers do to a proposal. -/
inductive ClientStep : Node → Node → Prop where
  /-- Nothing of the client's changes. -/
  | same {x y : Node} (h : SameClient x y) : ClientStep x y
  /-- The proposer sets its timer. -/
  | addRetryTimer {x : Node} : ClientStep x (Proposer.addRetryTimer x)
  /-- The proposer drops its timer. -/
  | removeRetryTimer {x : Node} : ClientStep x (Proposer.removeRetryTimer x)
  /-- The learner sets its timer. -/
  | addLearnTimer {x : Node} : ClientStep x (Learner.addLearnTimer x)
  /-- The learner drops its timer. -/
  | removeLearnTimer {x : Node} : ClientStep x (x.removeTimer x.learner.learnTimer)
  /-- `CheckLearn`, which may complete the proposal. -/
  | checkLearn (E : Env) {x : Node} : ClientStep x (Instance.checkLearn E x)

/-- A sequence of such steps. -/
abbrev ClientChain : Node → Node → Prop := ReflTransGen ClientStep

namespace ClientChain

/-- A node that differs elsewhere, with the same trace. -/
theorem of_same (h : y.client = x.client) (htr : y.trace = x.trace) : ClientChain x y := by
  simp only [Node.client, Prod.mk.injEq] at h
  obtain ⟨hp, hc, hv, hg, hi, ht, hn, hts, hr, hl⟩ := h
  exact .single (.same ⟨hp, hc, hv, hg, hi, ht, hn, hts, hr, hl, [], htr, by simp⟩)

theorem emit {e : Event} (h : e.isClient = false) : ClientChain x (x.emit e) :=
  .single (.same ⟨rfl, rfl, rfl, rfl, rfl, rfl, rfl, rfl, rfl, rfl, [e], rfl, by simpa using h⟩)

theorem frame (h : ClientChain x (f x)) :
    ClientChain x (Instance.frame E f x) := by
  unfold Instance.frame
  split_ifs
  · exact .refl
  · exact h.tail (.checkLearn E)

theorem hand {msg : PaxosMessage} (h : ∀ z, ClientChain z (f z)) :
    ClientChain x (Instance.hand E msg f x) :=
  (emit (e := .handed msg) rfl).trans (frame (h _))

theorem put (r : PaxosInstance) : ClientChain x (x.put E r).2 :=
  .single (.same ⟨rfl, rfl, rfl, rfl, rfl, rfl, rfl, rfl, rfl, rfl, [.put r _], rfl,
    by simp [Event.isClient, Event.isProposal]⟩)

/-! ### The learner -/

theorem broadcastMessageToFollower (b : BallotNumber) :
    ClientChain x (Learner.broadcastMessageToFollower E b x) := by
  unfold Learner.broadcastMessageToFollower
  split_ifs
  · exact .refl
  · exact emit rfl

theorem finishLearnValue (v : PaxosValue) : ClientChain x (Learner.finishLearnValue v x) :=
  of_same rfl rfl

theorem onNewChosenValue (msg : PaxosMessage) (x : Node) :
    ClientChain x (Learner.onNewChosenValue E msg x) := by
  unfold Learner.onNewChosenValue
  split_ifs
  · exact (finishLearnValue _).trans (broadcastMessageToFollower _)
  · exact .refl
  · exact .refl

theorem onSendLearnedValue (msg : PaxosMessage) (x : Node) :
    ClientChain x (Learner.onSendLearnedValue E msg x) := by
  have hput : ClientChain x (Learner.writeToDB E msg x).2 := put _
  unfold Learner.onSendLearnedValue
  dsimp only
  split_ifs
  · exact hput.trans ((finishLearnValue _).trans (broadcastMessageToFollower _))
  · exact hput
  · exact .refl

theorem askForLearn (addTimer : Bool) (x : Node) :
    ClientChain x (Learner.askForLearn E addTimer x) := by
  have hask : ClientChain x (Learner.askForLearn E false x) := by
    unfold Learner.askForLearn
    dsimp only
    refine ReflTransGen.trans ?_ (emit rfl)
    exact of_same rfl rfl
  cases addTimer with
  | false => exact hask
  | true => exact hask.tail .addLearnTimer

theorem onAskForLearn (msg : PaxosMessage) (x : Node) :
    ClientChain x (Learner.onAskForLearn E msg x) := by
  unfold Learner.onAskForLearn
  split_ifs
  · split
    · exact emit rfl
    · exact .refl
  · exact of_same rfl rfl
  · exact .refl
  · exact .refl

theorem onSendNowInstanceId (msg : PaxosMessage) (x : Node) :
    ClientChain x (Learner.onSendNowInstanceId msg x) := by
  unfold Learner.onSendNowInstanceId
  dsimp only
  split_ifs
  · exact (emit rfl).trans (of_same rfl rfl)
  · exact .refl
  · exact (emit rfl).trans (of_same rfl rfl)
  · exact .refl
  · exact .refl

theorem runLearnLoop (x : Node) : ClientChain x (Learner.runLearnLoop x) := by
  have hdrop : ∀ ts, ClientChain x { x with learnTasks := ts } :=
    fun ts => of_same rfl rfl
  unfold Learner.runLearnLoop
  split
  · exact .refl
  · exact (hdrop _).trans (emit rfl)
  · exact hdrop _
  · split_ifs
    · split
      · exact (hdrop _).trans (emit rfl)
      · exact hdrop _
    · exact hdrop _

/-! ### The proposer and the acceptor -/

theorem proposerNewChosenValue (x : Node) : ClientChain x (Proposer.newChosenValue E x) :=
  (emit rfl).trans (hand (onNewChosenValue _))

theorem acceptorNewChosenValue (msg : PaxosMessage) (x : Node) :
    ClientChain x (Acceptor.newChosenValue E msg x) := hand (onNewChosenValue _)

theorem resetRetryTimer (x : Node) :
    ClientChain x (Proposer.addRetryTimer (Proposer.removeRetryTimer x)) :=
  (ReflTransGen.single .removeRetryTimer).tail .addRetryTimer

/-- `Proposer::OnAccpetReply` is a chain, whether the round passes, fails or goes on. -/
theorem onAccpetReply (msg : PaxosMessage) (x : Node) :
    ClientChain x (Proposer.onAccpetReply E msg x) := by
  have hset : ∀ y, ClientChain y (Proposer.setMaxProposalId msg y) :=
    fun y => of_same rfl rfl
  have hsettle : ∀ y, ClientChain y (Proposer.settleAccept E y) := by
    intro y
    unfold Proposer.settleAccept
    dsimp only
    split_ifs
    · refine ReflTransGen.trans ?_ (.head .removeRetryTimer (proposerNewChosenValue _))
      refine ReflTransGen.trans (b := y.emit (.acceptPassed y.proposer.instanceId
        y.proposer.proposalId y.proposer.value)) (emit rfl) ?_
      exact of_same rfl rfl
    · refine ReflTransGen.trans ?_ (resetRetryTimer _)
      exact of_same rfl rfl
    · exact .refl
  unfold Proposer.onAccpetReply
  refine ReflTransGen.trans ?_ (hset _)
  split_ifs
  · refine ReflTransGen.trans ?_ (hsettle _)
    exact of_same rfl rfl
  · exact .refl

theorem writeToDB (x : Node) : ClientChain x (Acceptor.writeToDB E x) := put _

theorem reply (dest : ℕ) (m : PaxosMessage) (h : ∀ z, ClientChain z (f z)) (x : Node) :
    ClientChain x (Acceptor.reply E dest m f x) := by
  unfold Acceptor.reply
  split_ifs
  · exact hand h
  · exact emit rfl

theorem takeAccept (msg : PaxosMessage) (x : Node) :
    ClientChain x (Acceptor.takeAccept E msg x).2 := by
  unfold Acceptor.takeAccept
  split_ifs
  · refine (emit (e := .accepted msg.instanceId msg.ballot msg.value) rfl).trans
      (.trans ?_ (writeToDB _))
    exact of_same rfl rfl
  · exact .refl

theorem onAccpet (msg : PaxosMessage) (x : Node) :
    ClientChain x (Acceptor.onAccpet E msg x) := by
  unfold Acceptor.onAccpet
  dsimp only
  split_ifs
  · exact (takeAccept msg x).trans (reply _ _ (onAccpetReply _) _)
  · exact acceptorNewChosenValue msg x
  · exact .refl

theorem accept (x : Node) : ClientChain x (Proposer.accept E x) := by
  refine ReflTransGen.trans (b := Proposer.startAccept x) ?_ (hand (onAccpet _))
  refine ReflTransGen.trans ?_ ((ReflTransGen.single .addRetryTimer).trans (emit rfl))
  exact of_same rfl rfl

/-- `Proposer::OnPrepareReply` is a chain, whether the round passes, fails or goes on. -/
theorem onPrepareReply (msg : PaxosMessage) (x : Node) :
    ClientChain x (Proposer.onPrepareReply E msg x) := by
  have hset : ∀ y, ClientChain y (Proposer.setMaxProposalId msg y) :=
    fun y => of_same rfl rfl
  have hsettle : ∀ y, ClientChain y (Proposer.settlePrepare E y) := by
    intro y
    unfold Proposer.settlePrepare
    dsimp only
    split_ifs
    · refine ReflTransGen.trans ?_ (.head .removeRetryTimer (accept _))
      refine ReflTransGen.trans (b := y.emit (.preparePassed y.proposer.instanceId
        y.proposer.proposalId)) (emit rfl) ?_
      exact of_same rfl rfl
    · refine ReflTransGen.trans ?_ (resetRetryTimer _)
      exact of_same rfl rfl
    · exact .refl
  have hcount : ClientChain x { x with proposer := x.proposer.countPrepareReply msg } := by
    refine of_same ?_ rfl
    unfold Node.client Proposer.countPrepareReply
    dsimp only
    split_ifs <;> rfl
  unfold Proposer.onPrepareReply
  refine ReflTransGen.trans ?_ (hset _)
  split_ifs
  · exact hcount.trans (hsettle _)
  · exact .refl

theorem takePrepare (msg : PaxosMessage) (x : Node) :
    ClientChain x (Acceptor.takePrepare E msg x).2 := by
  unfold Acceptor.takePrepare
  split_ifs
  · refine (emit (e := .promised msg.instanceId msg.ballot) rfl).trans (.trans ?_ (writeToDB _))
    exact of_same rfl rfl
  · exact .refl

theorem onPrepare (msg : PaxosMessage) (x : Node) :
    ClientChain x (Acceptor.onPrepare E msg x) := by
  unfold Acceptor.onPrepare
  dsimp only
  split_ifs
  · exact (takePrepare msg x).trans (reply _ _ (onPrepareReply _) _)
  · exact acceptorNewChosenValue msg x
  · exact .refl

theorem prepare (needNewProposalId : Bool) (x : Node) :
    ClientChain x (Proposer.prepare E needNewProposalId x) := by
  refine ReflTransGen.trans (b := Proposer.startPrepare needNewProposalId x) ?_
    (hand (onPrepare _))
  refine ReflTransGen.trans ?_ ((ReflTransGen.single .addRetryTimer).trans (emit rfl))
  exact of_same rfl rfl

theorem newPropose (v : PaxosValue) (x : Node) : ClientChain x (Proposer.newPropose E v x) := by
  have hval : ClientChain x { x with proposer := { x.proposer with value := v } } :=
    of_same rfl rfl
  unfold Proposer.newPropose
  dsimp only
  split_ifs
  · exact hval.trans (accept _)
  · exact hval.trans (prepare _ _)

theorem handle (msg : PaxosMessage) (x : Node) : ClientChain x (Instance.handle E msg x) := by
  have hqueue : ∀ t, ClientChain x (x.queueInLearnLoop t) :=
    fun t => of_same rfl rfl
  unfold Instance.handle
  cases msg.type with
  | prepare => exact onPrepare msg x
  | accept => exact onAccpet msg x
  | prepareReply => exact onPrepareReply msg x
  | acceptReply => exact onAccpetReply msg x
  | newChosenValue => exact onNewChosenValue msg x
  | askForLearn => exact onAskForLearn msg x
  | sendLearnedValue => exact onSendLearnedValue msg x
  | sendNowInstanceId => exact onSendNowInstanceId msg x
  | comfirmAskForLearn | askForCheckpoint => exact hqueue _

theorem gcLoop (x : Node) : ClientChain x (LogCleaner.gcLoop E x) := by
  obtain ⟨db, m, g, hframe⟩ := LogCleaner.gcLoop_frame E x
  rw [hframe]
  exact of_same rfl rfl

end ClientChain

/-! ## One event -/

/-- How an event begins, as far as the proposal is concerned. Everything that follows is a
`ClientChain`. -/
inductive ClientEvent (E : Env) (x : Node) : NodeEvent → Node → Prop where
  /-- `OnPropose` starts a proposal on a member. -/
  | propose {machineId : ℕ} {value : List UInt8} {context : Option Context} {draw : ℕ}
      (hidle : x.isProposing = false) (hdraw : drawOk draw = true) :
      ClientEvent E x (.propose machineId value context draw)
        (Instance.startPropose E machineId value context draw x)
  /-- `OnPropose` rejects a proposal on a node that is no member. -/
  | proposeInvalid {machineId : ℕ} {value : List UInt8} {context : Option Context} {draw : ℕ}
      {s : Status} (hidle : x.isProposing = false) (hs : s.code = .invalidNode) :
      ClientEvent E x (.propose machineId value context draw) (x.emit (.completed x.instanceId s))
  /-- `TryBeMasterInLoop` starts a proposal of the node as master. -/
  | tryBeMaster {draw : ℕ} (hidle : x.isProposing = false) (hdraw : drawOk draw = true) :
      ClientEvent E x (.tryBeMaster draw)
        (Instance.startPropose E masterMachineId (x.config.codec.serializeMasterState
            { x.machines.master with nodeId := x.nodeId, leaseTime := x.config.masterLeaseTime })
          (some .groupNow) draw { x with groupNow := E.nowMillis })
  /-- `TryBeMasterInLoop` completes the proposal at once. -/
  | tryBeMasterConflict {draw : ℕ} {s : Status} (hidle : x.isProposing = false)
      (hs : s.code ≠ .ok) :
      ClientEvent E x (.tryBeMaster draw)
        ({ x with groupNow := E.nowMillis }.emit (.completed x.instanceId s))
  /-- The propose timer fires and ends the proposal. -/
  | timeout {id : ℕ} (htimer : x.timers.lookup id = some .propose) :
      ClientEvent E x (.timer id) (Instance.onProposeTimeout (x.removeTimer id))
  /-- Another timer fires and is no longer pending. -/
  | timer {id : ℕ} {cb : TimerCallback} (htimer : x.timers.lookup id = some cb)
      (hne : cb ≠ .propose) : ClientEvent E x (.timer id) (x.removeTimer id)
  /-- Every other event leaves the proposal as it is. -/
  | other {ev : NodeEvent} (hp : ∀ m v c d, ev ≠ .propose m v c d) (hm : ∀ d, ev ≠ .tryBeMaster d)
      (ht : ∀ id, ev ≠ .timer id) : ClientEvent E x ev x

/-- Every event begins in one of these ways, and the rest of it is a chain. -/
theorem Node.step_client (h : x.step E ev = some y) :
    ∃ z, ClientEvent E x ev z ∧ ClientChain z y := by
  -- The events with no part of their own in the proposal.
  have hother : (∀ m v c d, ev ≠ .propose m v c d) → (∀ d, ev ≠ .tryBeMaster d) →
      (∀ id, ev ≠ .timer id) → ClientChain x y → ∃ z, ClientEvent E x ev z ∧ ClientChain z y :=
    fun hp hm ht hc => ⟨x, .other hp hm ht, hc⟩
  cases ev with
  | propose machineId value context draw =>
    simp only [Node.step, Option.ite_none_right_eq_some, Option.some.injEq] at h
    obtain ⟨⟨hidle, hdraw⟩, rfl⟩ := h
    unfold Instance.onPropose
    split_ifs
    · exact ⟨_, .propose hidle hdraw, .newPropose _ _⟩
    · exact ⟨_, .proposeInvalid hidle rfl, .refl⟩
  | tryBeMaster draw =>
    simp only [Node.step, Option.ite_none_right_eq_some, Option.some.injEq] at h
    obtain ⟨⟨hidle, hdraw⟩, rfl⟩ := h
    unfold Group.tryBeMasterInLoop Instance.onPropose
    dsimp only
    split_ifs
    · exact ⟨_, .tryBeMaster hidle hdraw, .newPropose _ _⟩
    · exact ⟨_, .tryBeMasterConflict (s := { code := .invalidNode, msg := _ }) hidle (by simp),
        .refl⟩
    · exact ⟨_, .tryBeMasterConflict (s := { code := .conflict, msg := _ }) hidle (by simp),
        .refl⟩
  | timer id =>
    unfold Node.step at h
    cases hcb : x.timers.lookup id with
    | none => simp [hcb] at h
    | some cb =>
      obtain rfl : (x.removeTimer id).runTimer E cb = y := by simpa [hcb] using h
      cases cb with
      | propose => exact ⟨_, .timeout hcb, .refl⟩
      | learn => exact ⟨_, .timer hcb (by simp), .askForLearn true _⟩
      | retry i =>
        refine ⟨_, .timer hcb (by simp), ?_⟩
        unfold Node.runTimer Proposer.onRetryTimer
        dsimp only
        split_ifs
        · exact .prepare _ _
        · exact .refl
  | paxosMessage msg =>
    obtain rfl := Option.some.inj h
    exact hother (by simp) (by simp) (by simp) (.frame (.handle msg x))
  | checkpointMessage =>
    obtain rfl := Option.some.inj h
    exact hother (by simp) (by simp) (by simp)
      ((ReflTransGen.single .removeLearnTimer).tail .addLearnTimer)
  | syncData addTimer =>
    obtain rfl := Option.some.inj h
    exact hother (by simp) (by simp) (by simp) (.askForLearn addTimer x)
  | learnLoop =>
    simp only [Node.step, Option.ite_none_left_eq_some, Option.some.injEq] at h
    obtain ⟨-, rfl⟩ := h
    exact hother (by simp) (by simp) (by simp) (.runLearnLoop x)
  | finishCheckpoint =>
    simp only [Node.step, Option.ite_none_right_eq_some, Option.some.injEq] at h
    obtain ⟨-, rfl⟩ := h
    exact hother (by simp) (by simp) (by simp)
      (.of_same rfl rfl)
  | gcLoop =>
    obtain rfl := Option.some.inj h
    exact hother (by simp) (by simp) (by simp) (.gcLoop x)

/-! ## The timer of a proposal -/

/-- What holds of the proposal and the timers of a node. -/
structure Node.Client (x : Node) : Prop where
  /-- A timer has a number that was given out. -/
  old : ∀ t ∈ x.timers, t.1 < x.nextTimer
  /-- Each number names one timer. -/
  nodup : (x.timers.map Prod.fst).Nodup
  /-- So does the proposer's handle. -/
  retryOld : x.proposer.retryTimer < x.nextTimer
  /-- So does the learner's handle. -/
  learnOld : x.learner.learnTimer < x.nextTimer
  /-- While a proposal is outstanding, its timer is pending. -/
  pending : x.isProposing = true → (x.proposeTimer, .propose) ∈ x.timers
  /-- The proposer's handle does not name it. -/
  retryNe : x.isProposing = true → x.proposer.retryTimer ≠ x.proposeTimer
  /-- The learner's handle does not name it. -/
  learnNe : x.isProposing = true → x.learner.learnTimer ≠ x.proposeTimer
  /-- No other propose timer is pending. -/
  only : ∀ id, (id, .propose) ∈ x.timers → x.isProposing = true ∧ id = x.proposeTimer
  /-- Without a proposal there is no context. -/
  context : x.isProposing = false → x.context = none

/-- The part of a node that a proposal is about, after `CheckLearn` has executed a value. -/
theorem Instance.checkLearn_client (hl : x.learner.hasLearned = true) :
    (checkLearn E x).isProposing = false ∧
    (checkLearn E x).context = (if x.isProposing then none else x.context) ∧
    (checkLearn E x).timers =
      (if x.isProposing then (x.removeTimer x.proposeTimer).timers else x.timers) ∧
    (checkLearn E x).proposeTimer = x.proposeTimer ∧
    (checkLearn E x).nextTimer = x.nextTimer ∧
    (checkLearn E x).proposer.retryTimer = x.proposer.retryTimer ∧
    (checkLearn E x).learner.learnTimer = x.learner.learnTimer := by
  cases h : (execution E x).1 with
  | false =>
    rw [checkLearn_of_false hl h]
    exact ⟨rfl, rfl, rfl, rfl, rfl, rfl, rfl⟩
  | true =>
    rw [checkLearn_of_true hl h]
    exact ⟨rfl, rfl, rfl, rfl, rfl, rfl, rfl⟩

namespace Node.Client

/-- A new timer of another kind, whose handle goes to the proposer or the learner. -/
theorem runAfter (h : x.Client) (hcb : cb ≠ .propose) {r l : ℕ}
    (hr : r = x.proposer.retryTimer ∨ r = x.nextTimer)
    (hl : l = x.learner.learnTimer ∨ l = x.nextTimer) (hp : y.isProposing = x.isProposing)
    (hc : y.context = x.context) (ht : y.proposeTimer = x.proposeTimer)
    (hn : y.nextTimer = x.nextTimer + 1) (hts : y.timers = (x.nextTimer, cb) :: x.timers)
    (hyr : y.proposer.retryTimer = r) (hyl : y.learner.learnTimer = l) : y.Client := by
  have hold : x.isProposing = true → x.proposeTimer < x.nextTimer :=
    fun hx => h.old _ (h.pending hx)
  have hro := h.retryOld
  have hlo := h.learnOld
  refine ⟨?_, ?_, ?_, ?_, ?_, ?_, ?_, ?_, ?_⟩
  · intro t htm
    rw [hts] at htm
    rw [hn]
    rcases List.mem_cons.mp htm with rfl | htm
    · exact Nat.lt_succ_self _
    · exact Nat.lt_succ_of_lt (h.old t htm)
  -- The new handle is above all old ones.
  · rw [hts, List.map_cons, List.nodup_cons]
    refine ⟨fun hmem => ?_, h.nodup⟩
    obtain ⟨t, htm, heq⟩ := List.mem_map.mp hmem
    exact absurd (h.old t htm) (by simp [heq])
  · rw [hyr, hn]
    omega
  · rw [hyl, hn]
    omega
  · intro hy
    rw [hts, ht]
    exact List.mem_cons_of_mem _ (h.pending (hp ▸ hy))
  · intro hy
    rw [hyr, ht]
    have hne := h.retryNe (hp ▸ hy)
    have hlt := hold (hp ▸ hy)
    omega
  · intro hy
    rw [hyl, ht]
    have hne := h.learnNe (hp ▸ hy)
    have hlt := hold (hp ▸ hy)
    omega
  · intro id hid
    rw [hts] at hid
    rw [hp, ht]
    rcases List.mem_cons.mp hid with heq | hid
    · exact absurd (congrArg Prod.snd heq).symm hcb
    · exact h.only id hid
  · intro hy
    rw [hc]
    exact h.context (hp ▸ hy)

/-- A timer other than that of the proposal is dropped. -/
theorem removeTimer (h : x.Client) {i : ℕ} (hi : x.isProposing = true → i ≠ x.proposeTimer) :
    (x.removeTimer i).Client where
  old t ht := h.old t (List.mem_filter.mp ht).1
  nodup := h.nodup.sublist (List.filter_sublist.map _)
  retryOld := h.retryOld
  learnOld := h.learnOld
  pending hx := List.mem_filter.mpr ⟨h.pending hx, bne_iff_ne.mpr (hi hx).symm⟩
  retryNe := h.retryNe
  learnNe := h.learnNe
  only j hj := h.only j (List.mem_filter.mp hj).1
  context := h.context

/-- A proposal ends, and its timer with it. -/
theorem finish (h : x.Client) (hp : y.isProposing = false) (hc : y.context = none)
    (hn : y.nextTimer = x.nextTimer)
    (hts : y.timers = x.timers.filter fun t => t.1 != x.proposeTimer)
    (hr : y.proposer.retryTimer = x.proposer.retryTimer)
    (hl : y.learner.learnTimer = x.learner.learnTimer) : y.Client where
  old t ht := by
    rw [hts] at ht
    exact hn ▸ h.old t (List.mem_filter.mp ht).1
  nodup := hts ▸ h.nodup.sublist (List.filter_sublist.map _)
  retryOld := hr ▸ hn ▸ h.retryOld
  learnOld := hl ▸ hn ▸ h.learnOld
  pending hy := by simp [hp] at hy
  retryNe hy := by simp [hp] at hy
  learnNe hy := by simp [hp] at hy
  only id hid := by
    rw [hts] at hid
    obtain ⟨hmem, hne⟩ := List.mem_filter.mp hid
    exact absurd (h.only id hmem).2 (by simpa using hne)
  context _ := hc

/-- A node that differs elsewhere has its timers in order as well. -/
theorem congr (h : x.Client) (hp : y.isProposing = x.isProposing) (hc : y.context = x.context)
    (ht : y.proposeTimer = x.proposeTimer) (hn : y.nextTimer = x.nextTimer)
    (hts : y.timers = x.timers) (hr : y.proposer.retryTimer = x.proposer.retryTimer)
    (hl : y.learner.learnTimer = x.learner.learnTimer) : y.Client := by
  constructor
  · rw [hts, hn]
    exact h.old
  · rw [hts]
    exact h.nodup
  · rw [hr, hn]
    exact h.retryOld
  · rw [hl, hn]
    exact h.learnOld
  · rw [hp, ht, hts]
    exact h.pending
  · rw [hp, hr, ht]
    exact h.retryNe
  · rw [hp, hl, ht]
    exact h.learnNe
  · rw [hts, hp, ht]
    exact h.only
  · rw [hp, hc]
    exact h.context

theorem checkLearn (h : x.Client) : (Instance.checkLearn E x).Client := by
  by_cases hl : x.learner.hasLearned = true
  · obtain ⟨hp, hc, hts, ht, hn, hr, hlt⟩ := Instance.checkLearn_client (E := E) hl
    cases hx : x.isProposing with
    | true =>
      rw [hx, if_pos rfl] at hc hts
      exact h.finish hp hc hn hts hr hlt
    | false =>
      simp only [hx, Bool.false_eq_true, if_false] at hc hts
      exact h.congr (hp.trans hx.symm) hc ht hn hts hr hlt
  · have heq : Instance.checkLearn E x = x := by simp [Instance.checkLearn, hl]
    exact heq.symm ▸ h

theorem step (h : x.Client) (hs : ClientStep x y) : y.Client := by
  cases hs with
  | same hxy =>
    exact h.congr hxy.isProposing hxy.context hxy.proposeTimer hxy.nextTimer hxy.timers
      hxy.retryTimer hxy.learnTimer
  | addRetryTimer =>
    exact h.runAfter (by simp) (Or.inr rfl) (Or.inl rfl)
      rfl rfl rfl rfl rfl rfl rfl
  | removeRetryTimer => exact h.removeTimer h.retryNe
  | addLearnTimer =>
    exact h.runAfter (by simp) (Or.inl rfl) (Or.inr rfl) rfl rfl rfl rfl rfl rfl rfl
  | removeLearnTimer => exact h.removeTimer h.learnNe
  | checkLearn => exact h.checkLearn

/-- A proposal starts with a new timer. -/
theorem startPropose (h : x.Client) (hidle : x.isProposing = false) (machineId : ℕ)
    (value : List UInt8) (context : Option Context) (draw : ℕ) :
    (Instance.startPropose E machineId value context draw x).Client where
  old t ht := by
    rcases List.mem_cons.mp ht with rfl | ht
    · exact Nat.lt_succ_self _
    · exact Nat.lt_succ_of_lt (h.old t ht)
  nodup := by
    refine List.nodup_cons.mpr ⟨fun hmem => ?_, h.nodup⟩
    obtain ⟨t, htm, heq⟩ := List.mem_map.mp hmem
    exact absurd (heq ▸ h.old t htm) (Nat.lt_irrefl _)
  retryOld := Nat.lt_succ_of_lt h.retryOld
  learnOld := Nat.lt_succ_of_lt h.learnOld
  pending _ := List.mem_cons_self
  retryNe _ := Nat.ne_of_lt h.retryOld
  learnNe _ := Nat.ne_of_lt h.learnOld
  only id hid := by
    rcases List.mem_cons.mp hid with heq | hid
    · exact ⟨rfl, congrArg Prod.fst heq⟩
    · exact absurd (h.only id hid).1 (by simp [hidle])
  context hy := by cases hy

/-- A timer that fires is that of the proposal exactly when it carries its callback. -/
theorem lookup_eq_propose_iff (h : x.Client) {id : ℕ} (hcb : x.timers.lookup id = some cb) :
    cb = .propose ↔ x.isProposing = true ∧ id = x.proposeTimer := by
  have hmem : (id, cb) ∈ x.timers := by
    obtain ⟨l₁, l₂, hl, -⟩ := List.lookup_eq_some_iff.mp hcb
    exact hl ▸ List.mem_append_right _ List.mem_cons_self
  constructor
  · rintro rfl
    exact h.only id hmem
  · rintro ⟨hx, rfl⟩
    exact congrArg Prod.snd (List.inj_on_of_nodup_map h.nodup hmem (h.pending hx) rfl)

/-- The propose timer fires only for the outstanding proposal, and ends it. -/
theorem timeout (h : x.Client) {id : ℕ} (hcb : x.timers.lookup id = some .propose) :
    (Instance.onProposeTimeout (x.removeTimer id)).Client := by
  obtain ⟨-, rfl⟩ := (h.lookup_eq_propose_iff hcb).mp rfl
  have hdone : (Instance.complete {} (x.removeTimer x.proposeTimer)).Client :=
    h.finish rfl rfl rfl rfl rfl rfl
  exact (hdone.removeTimer (i := x.proposer.retryTimer) nofun).congr rfl rfl rfl rfl rfl rfl rfl

theorem event (h : x.Client) (hev : ClientEvent E x ev y) : y.Client := by
  cases hev with
  | propose hidle => exact h.startPropose hidle _ _ _ _
  | proposeInvalid => exact h.congr rfl rfl rfl rfl rfl rfl rfl
  | tryBeMaster hidle =>
    exact (h.congr (y := { x with groupNow := E.nowMillis }) rfl rfl rfl rfl rfl rfl
      rfl).startPropose hidle _ _ _ _
  | tryBeMasterConflict => exact h.congr rfl rfl rfl rfl rfl rfl rfl
  | timeout htimer => exact h.timeout htimer
  | timer htimer hne =>
    exact h.removeTimer fun hx heq => hne ((h.lookup_eq_propose_iff htimer).mpr ⟨hx, heq⟩)
  | other => exact h

theorem recover {config : Config} {db : DB} {trace : List Event}
    (hrec : Node.recover E config db dirs trace = some x) : x.Client := by
  obtain ⟨a, h⟩ := Node.recover_spec hrec
  constructor
  · rw [h.timers]
    exact nofun
  · rw [h.timers]
    exact List.nodup_nil
  · rw [h.proposer, h.nextTimer]
    exact Nat.zero_lt_one
  · rw [h.learner, h.nextTimer]
    exact Nat.zero_lt_one
  · rw [h.isProposing]
    exact nofun
  · rw [h.isProposing]
    exact nofun
  · rw [h.isProposing]
    exact nofun
  · rw [h.timers]
    exact nofun
  · exact fun _ => h.context

end Node.Client

theorem Node.Client.of_step (h : x.Client) (hstep : x.step E ev = some y) : y.Client := by
  obtain ⟨z, hev, hchain⟩ := Node.step_client hstep
  exact invariant_of_actions (fun _ _ hs hst => Node.Client.step hs hst) hchain (h.event hev)

/-! ## Completions -/

/-- The arguments of a call of `propose_cb_`. -/
def Event.completion : Event → Option (ℕ × Status)
  | .completed i st => some (i, st)
  | _ => none

/-- The calls of `propose_cb_` in a part of the trace, oldest first. -/
def completions (l : List Event) : List (ℕ × Status) := (l.filterMap Event.completion).reverse

theorem completions_append (l l' : List Event) :
    completions (l' ++ l) = completions l ++ completions l' := by
  simp [completions]

theorem completions_eq_nil (h : ∀ e ∈ l, e.isProposal = false) :
    completions l = [] := by
  refine List.reverse_eq_nil_iff.mpr (List.filterMap_eq_nil_iff.mpr fun e he => ?_)
  have hq := h e he
  cases e <;> first | rfl | simp [Event.isProposal] at hq

theorem completions_executionEvents (E : Env) (x : Node) :
    (completions (Instance.executionEvents E x)).length = x.isProposing.toNat := by
  cases hx : x.isProposing <;> simp [Instance.executionEvents, completions, hx, Event.completion]

/-- `y` is reached from `x` with as many completions as proposals ended, where `n` proposals were
handed over. -/
def Settles (n : ℕ) (x y : Node) : Prop :=
  ∃ l, y.trace = l ++ x.trace ∧
    (completions l).length + y.isProposing.toNat = x.isProposing.toNat + n

theorem Settles.trans {n m : ℕ} {z : Node} (h : Settles n x y) (h' : Settles m y z) :
    Settles (n + m) x z := by
  obtain ⟨l, hl, hn⟩ := h
  obtain ⟨l', hl', hm⟩ := h'
  refine ⟨l' ++ l, by rw [hl', hl, List.append_assoc], ?_⟩
  rw [completions_append, List.length_append]
  omega

/-- The handlers complete a proposal when they end it. -/
theorem ClientStep.settles (h : ClientStep x y) : Settles 0 x y := by
  cases h with
  | same hxy =>
    obtain ⟨l, hl, hq⟩ := hxy.trace
    have hnone := completions_eq_nil fun e he => Event.isProposal_of_isClient (hq e he)
    exact ⟨l, hl, by simp [hnone, hxy.isProposing]⟩
  | checkLearn E =>
    by_cases hlearned : x.learner.hasLearned = true
    · refine ⟨_, Instance.checkLearn_trace hlearned, ?_⟩
      rw [completions_executionEvents, (Instance.checkLearn_client hlearned).1]
      rfl
    · exact ⟨[], by simp [Instance.checkLearn, hlearned], by simp [Instance.checkLearn, hlearned,
        completions]⟩
  | _ => exact ⟨[], rfl, Nat.zero_add _⟩

/-- A chain of steps completes as many proposals as it ends. -/
theorem ClientChain.settles (h : ClientChain x y) : Settles 0 x y := by
  refine invariant_of_actions (P := Settles 0 x) (fun s t hs hst => hs.trans hst.settles) h ?_
  exact ⟨[], rfl, Nat.zero_add _⟩

/-- Whether an event is a function that `ProposeQueue` hands to the loop. -/
def NodeEvent.isHandler : NodeEvent → Bool
  | .propose _ _ _ _ => true
  | .tryBeMaster _ => true
  | _ => false

/-- Every event completes at most the outstanding proposal: what was outstanding or is handed over
is completed by the event, or outstanding after it. -/
theorem Node.step_settles (h : x.Client) (hstep : x.step E ev = some y) :
    Settles ev.isHandler.toNat x y := by
  obtain ⟨z, hev, hchain⟩ := Node.step_client hstep
  refine Settles.trans (m := 0) (y := z) ?_ hchain.settles
  cases hev with
  | propose hidle => exact ⟨[_], rfl, by rw [hidle]; rfl⟩
  | proposeInvalid hidle =>
    exact ⟨[_], rfl, by simp [completions, Event.completion, NodeEvent.isHandler, Node.emit, hidle]⟩
  | tryBeMaster hidle => exact ⟨[_], rfl, by rw [hidle]; rfl⟩
  | tryBeMasterConflict hidle =>
    exact ⟨[_], rfl, by simp [completions, Event.completion, NodeEvent.isHandler, Node.emit, hidle]⟩
  | timeout htimer =>
    obtain ⟨hx, -⟩ := (h.lookup_eq_propose_iff htimer).mp rfl
    exact ⟨[_], rfl, by rw [hx]; rfl⟩
  | timer => exact ⟨[], rfl, Nat.zero_add _⟩
  | other hp hm =>
    refine ⟨[], rfl, ?_⟩
    cases ev with
    | propose m v c d => exact absurd rfl (hp m v c d)
    | tryBeMaster d => exact absurd rfl (hm d)
    | _ => exact Nat.zero_add _

/-! ## The value of a proposal -/

/-- The value that a node has proposed last. -/
def lastProposed (trace : List Event) : Option PaxosValue :=
  trace.findSome? fun
    | .proposed _ _ v => some v
    | _ => none

/-- A completion with `OK` comes right after the successful execution of a value that has the id of
the value proposed last. -/
def CompletedOwn (older : List Event) : Event → Prop
  | .completed i st => st.code = .ok → ∃ v c rest w, older = .executed i v c true :: rest ∧
      lastProposed rest = some w ∧ w.valueId = v.valueId
  | _ => True

/-- What a node keeps about the values of its proposals. -/
structure Node.Owned (x : Node) : Prop where
  /-- The outstanding proposal is the last one. -/
  current : x.isProposing = true → lastProposed x.trace = some x.proposeValue
  /-- Every completion was of a proposal of its own. -/
  completed : AtEach CompletedOwn x.trace

theorem lastProposed_append {l' : List Event} (h : ∀ e ∈ l', e.isProposal = false) :
    lastProposed (l' ++ l) = lastProposed l := by
  refine List.findSome?_append.trans ?_
  rw [List.findSome?_eq_none_iff.mpr fun e he => ?_, Option.none_or]
  · rfl
  · have hq := h e he
    cases e <;> first | rfl | simp [Event.isProposal] at hq

namespace Node.Owned

theorem append (h : x.Owned) (htr : y.trace = l ++ x.trace) (hq : ∀ e ∈ l, e.isProposal = false)
    (hp : y.isProposing = true → x.isProposing = true ∧ y.proposeValue = x.proposeValue) :
    y.Owned where
  current hy := by
    obtain ⟨hx, hv⟩ := hp hy
    rw [htr, lastProposed_append hq, hv]
    exact h.current hx
  completed := by
    rw [htr]
    refine h.completed.append fun e he l' => ?_
    have hqe := hq e he
    cases e <;> trivial

theorem complete (h : x.Owned) {i : ℕ} {st : Status} (hst : st.code ≠ .ok)
    (htr : y.trace = .completed i st :: x.trace) (hp : y.isProposing = false) : y.Owned where
  current hy := by simp [hp] at hy
  completed := htr ▸ ⟨fun hok => absurd hok hst, h.completed⟩

/-- `CheckLearn` completes with `OK` only when `Execute` succeeds on a value with the id of the
proposal. -/
theorem learnStatus_ok {success my : Bool} {v : PaxosValue}
    (h : (Instance.learnStatus success my v).code = .ok) : success = true ∧ my = true := by
  cases success <;> cases my <;> simp_all [Instance.learnStatus]

/-- `CheckLearn` completes the outstanding proposal with a status that is true of it. -/
theorem checkLearn (h : x.Owned) : (Instance.checkLearn E x).Owned := by
  by_cases hl : x.learner.hasLearned = true
  · have hp := (Instance.checkLearn_client (E := E) hl).1
    refine ⟨fun hy => by simp [hp] at hy, ?_⟩
    rw [Instance.checkLearn_trace hl]
    unfold Instance.executionEvents
    cases hx : x.isProposing with
    | false => exact ⟨trivial, h.completed⟩
    | true =>
      refine ⟨fun hok => ?_, trivial, h.completed⟩
      obtain ⟨hs, hmy⟩ := learnStatus_ok hok
      refine ⟨x.learner.learnedValue, _, x.trace, x.proposeValue, by rw [hs]; rfl, h.current hx, ?_⟩
      simpa [Instance.isMine, hx] using hmy
  · have heq : Instance.checkLearn E x = x := by simp [Instance.checkLearn, hl]
    exact heq.symm ▸ h

/-- Every step of the handlers keeps the completions true. -/
theorem step (h : x.Owned) (hs : ClientStep x y) : y.Owned := by
  cases hs with
  | same hxy =>
    obtain ⟨l, hl, hq⟩ := hxy.trace
    exact h.append hl (fun e he => Event.isProposal_of_isClient (hq e he))
      fun hy => ⟨hxy.isProposing ▸ hy, hxy.proposeValue⟩
  | checkLearn => exact h.checkLearn
  | _ => exact h.append (l := []) rfl nofun fun hy => ⟨hy, rfl⟩

theorem startPropose (h : x.Owned) (machineId : ℕ) (value : List UInt8) (context : Option Context)
    (draw : ℕ) : (Instance.startPropose E machineId value context draw x).Owned :=
  ⟨fun _ => rfl, trivial, h.completed⟩

theorem event (h : x.Owned) (hev : ClientEvent E x ev y) : y.Owned := by
  cases hev with
  | propose => exact h.startPropose _ _ _ _
  | proposeInvalid hidle hst => exact h.complete (by simp [hst]) rfl hidle
  | tryBeMaster =>
    exact (h.append (y := { x with groupNow := E.nowMillis }) (l := []) rfl nofun
      fun hy => ⟨hy, rfl⟩).startPropose _ _ _ _
  | tryBeMasterConflict hidle hst => exact h.complete hst rfl hidle
  | timeout => exact h.complete (by simp) rfl rfl
  | timer => exact h.append (l := []) rfl nofun fun hy => ⟨hy, rfl⟩
  | other => exact h

theorem of_step (h : x.Owned) (hstep : x.step E ev = some y) : y.Owned := by
  obtain ⟨z, hev, hchain⟩ := Node.step_client hstep
  exact invariant_of_actions (fun _ _ hs hst => step hs hst) hchain (h.event hev)

theorem recover (h : x.Owned) {config : Config} {db : DB}
    (hrec : Node.recover E config db dirs x.trace = some y) : y.Owned := by
  obtain ⟨a, hy⟩ := Node.recover_spec hrec
  obtain ⟨l, htr, hreplayed⟩ := hy.trace_eq
  refine h.append (l := .recovered y.instanceId y.machines.membership :: l) htr ?_ ?_
  · intro e he
    rcases List.mem_cons.mp he with rfl | he
    · rfl
    · obtain ⟨j, r, ok, rfl, -⟩ := hreplayed e he
      rfl
  · intro hp
    simp [hy.isProposing] at hp

end Node.Owned

end Skywalker
