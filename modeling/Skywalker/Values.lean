import Skywalker.Messages
import Skywalker.Rounds
import Skywalker.Durable

/-!
# The values that a group handles

A value is built by `OnPropose` and then travels: through the proposer, `ACCEPT`s, acceptors,
promises that report what was accepted, log records, `SEND_LEARNED_VALUE`s and recovery. `Values`
says that a predicate holds of the value in each of these places. Where nothing was accepted, a
place holds the default value of an unset field, of which only a second predicate is known.
-/

namespace Skywalker

variable {E : Env} {net : PaxosMessage → Prop} {y : Node} {p : ℕ} {v : PaxosValue}
  {m : PaxosMessage} {dirs : List (ℕ × Machines)}

/-! ## What an action does to the proposal -/

/-- What an action does to the outstanding proposal of a node. -/
inductive ProposalChange (R : Rules) (E : Env) (x y : Node) : Prop where
  /-- At most, the proposal is completed. -/
  | same (hvalue : y.proposeValue = x.proposeValue)
      (hbusy : y.isProposing = true →
        x.isProposing = true ∧ y.context = x.context ∧ y.groupNow = x.groupNow)
  /-- `OnPropose` builds a value and takes it as the proposal. -/
  | started (machineId : ℕ) (value : List UInt8) (context : Option Context) (draw : ℕ)
      (hidle : x.isProposing = false) (hdraw : drawOk draw = true)
      (hvalid : x.isValidNodeId x.nodeId = true) (hrule : R.propose E x machineId value context)
      (hy : y = Instance.startPropose E machineId value context draw x)

/-- **What an action does to the proposal.** -/
theorem Act.proposalChange {R : Rules} {x : Node} (h : Act R E net x y) :
    ProposalChange R E x y := by
  cases h.outerChange with
  | same h => exact .same h.proposeValue fun hz => ⟨h.isProposing ▸ hz, h.context, h.groupNow⟩
  | setNow hidle =>
    refine .same rfl fun hz => ?_
    rw [hidle] at hz
    cases hz
  | propose machineId value context draw hidle hdraw hvalid hrule =>
    exact .started machineId value context draw hidle hdraw hvalid hrule rfl
  | timeout | executed | failed => exact .same rfl fun hz => by cases hz
  | finishCheckpoint => exact .same rfl fun hz => ⟨hz, rfl, rfl⟩
  | gcLoop db m g hrule hframe =>
    rw [hframe]
    exact .same rfl fun hz => ⟨hz, rfl, rfl⟩

/-! ## Places that hold values -/

section

variable (Ok Ok₀ : PaxosValue → Prop)

/-- The value of a place that holds it under a proposal id, or by default. -/
def Held (p : ℕ) (v : PaxosValue) : Prop := if p = 0 then Ok₀ v else Ok v

/-- What a `PREPARE_REPLY` reports of an accepted value. -/
structure PaxosMessage.Reports (m : PaxosMessage) : Prop where
  node : m.preAcceptedId = 0 → m.preAcceptedNodeId = 0
  value : Held Ok Ok₀ m.preAcceptedId m.value

/-- The value that an entry of the trace carries. -/
def Event.Carries : Event → Prop
  | .send _ m =>
    (m.type = .sendLearnedValue → Ok m.value) ∧ (m.type = .prepareReply → m.Reports Ok Ok₀)
  | .broadcast m _ => m.type = .accept ∨ m.type = .sendLearnedValue → Ok m.value
  | .handed m => m.type = .prepareReply → m.Reports Ok Ok₀
  | .accepted _ _ v => Ok v
  | .executed _ v _ _ => Ok v
  | .replayed _ v _ => Ok v
  | _ => True

/-- The proposer has a round, or will have one when a timer fires. -/
def Proposer.Active (x : Node) : Prop :=
  x.proposer.preparing = true ∨ x.proposer.accepting = true ∨
    ∃ id i, (id, TimerCallback.retry i) ∈ x.timers

/-- The values of a node. -/
structure Node.Values (x : Node) : Prop where
  acceptor : Held Ok Ok₀ x.acceptor.acceptedBallot.proposalId x.acceptor.acceptedValue
  records : ∀ i r, x.db.get i = some r → Held Ok Ok₀ r.accepted.proposalId r.acceptedValue
  learner : x.learner.hasLearned = true → Ok x.learner.learnedValue
  proposer : Proposer.Active x → Ok x.proposer.value
  proposal : x.isProposing = true → Ok x.proposeValue
  trace : ∀ e ∈ x.trace, e.Carries Ok Ok₀

/-- The values of a message from the network. -/
structure PaxosMessage.Delivers (m : PaxosMessage) : Prop where
  accept : m.type = .accept → Ok m.value
  learned : m.type = .sendLearnedValue → Ok m.value
  report : m.type = .prepareReply → m.Reports Ok Ok₀

end

section

variable {Ok Ok' Ok₀ Ok₀' : PaxosValue → Prop}

theorem Held.mono (himp : ∀ v, Ok v → Ok' v) (himp₀ : ∀ v, Ok₀ v → Ok₀' v) (h : Held Ok Ok₀ p v) :
    Held Ok' Ok₀' p v := by
  unfold Held at h ⊢
  split_ifs with hp
  · rw [if_pos hp] at h
    exact himp₀ v h
  · rw [if_neg hp] at h
    exact himp v h

theorem PaxosMessage.Reports.mono (himp : ∀ v, Ok v → Ok' v) (himp₀ : ∀ v, Ok₀ v → Ok₀' v)
    (h : m.Reports Ok Ok₀) : m.Reports Ok' Ok₀' :=
  ⟨h.node, h.value.mono himp himp₀⟩

theorem Held.of_ok (himp : ∀ v, Ok v → Ok₀ v) (h : Ok v) :
    Held Ok Ok₀ p v := by
  unfold Held
  split_ifs
  · exact himp v h
  · exact h

theorem Held.ok (h : Held Ok Ok₀ p v) (hp : 0 < p) : Ok v := by
  unfold Held at h
  rwa [if_neg (Nat.pos_iff_ne_zero.mp hp)] at h

theorem Held.default (h₀ : Ok₀ {}) : Held Ok Ok₀ 0 {} := by
  unfold Held
  rwa [if_pos rfl]

namespace Node.Values

variable {R : Rules} {x : Node}

/-- The values of a node with weaker predicates. -/
theorem mono (h : x.Values Ok Ok₀) (himp : ∀ v, Ok v → Ok' v) (himp₀ : ∀ v, Ok₀ v → Ok₀' v) :
    x.Values Ok' Ok₀' where
  acceptor := h.acceptor.mono himp himp₀
  records i r hr := (h.records i r hr).mono himp himp₀
  learner hl := himp _ (h.learner hl)
  proposer ha := himp _ (h.proposer ha)
  proposal hp := himp _ (h.proposal hp)
  trace e he := by
    have hold := h.trace e he
    cases e with
    | send d m => exact ⟨fun ht => himp _ (hold.1 ht), fun ht => (hold.2 ht).mono himp himp₀⟩
    | broadcast m dests => exact fun ht => himp _ (hold ht)
    | handed m => exact fun ht => (hold ht).mono himp himp₀
    | accepted | executed | replayed => exact himp _ hold
    | _ => trivial

/-! ## One action -/

/-- The broadcasts that an action appends carry such values. -/
theorem broadcast_new (h : x.Values Ok Ok₀) {dests : List ℕ}
    (hnew : NewEvent R E net x y (.broadcast m dests)) :
    (Event.broadcast m dests).Carries Ok Ok₀ := by
  intro htype
  cases hnew with
  | quiet he =>
    have hask : m.type = .askForLearn := by simpa [Event.isQuiet] using he
    rw [hask] at htype
    rcases htype with ht | ht <;> cases ht
  | prepare => rcases htype with ht | ht <;> cases ht
  | prepareReply _ _ he => exact absurd rfl (he.ne_broadcast m dests)
  | accept _ _ hprep => exact h.proposer (Or.inl hprep)
  | directAccept _ _ _ hbusy _ hy =>
    rw [hy]
    exact h.proposal hbusy
  | acceptReply _ _ he => exact absurd rfl (he.ne_broadcast m dests)
  | newChosenValue => rcases htype with ht | ht <;> cases ht
  | toFollowers hlearned => exact h.learner hlearned

theorem heard_accept (h : x.Values Ok Ok₀) (hw : x.WF) (hact : Act R E net x y)
    (hnet : ∀ m, net m → m.Delivers Ok Ok₀) (hm : Heard net x y .accept m) :
    Ok m.value := by
  rcases hm.heard with hin | ⟨-, dests, hd⟩
  · exact (hnet m hin).accept hm.type_eq
  · have hcarries : (Event.broadcast m dests).Carries Ok Ok₀ := by
      rcases hact.mem_trace hw hd with hold | hnew
      · exact h.trace _ hold
      · exact h.broadcast_new hnew
    exact hcarries (Or.inl hm.type_eq)

/-- The report of a promise, and of a rejection. -/
theorem report (h₀ : Ok₀ {})
    (hacc : Held Ok Ok₀ x.acceptor.acceptedBallot.proposalId x.acceptor.acceptedValue)
    {r : PaxosMessage} (hr : r = Acceptor.promise m x ∨ r = Acceptor.rejection .prepareReply m x) :
    r.Reports Ok Ok₀ := by
  rcases hr with rfl | rfl
  · unfold Acceptor.promise
    split_ifs with hpos
    · exact ⟨fun hz => absurd hz (Nat.pos_iff_ne_zero.mp hpos), hacc⟩
    · exact ⟨fun _ => rfl, Held.default h₀⟩
  · exact ⟨fun _ => rfl, Held.default h₀⟩

/-- The entries that an action appends carry values that satisfy the predicate, when it does not
serve a record in which nothing was accepted. -/
theorem carries_new (h : x.Values Ok Ok₀) (h₀ : Ok₀ {}) (hw : x.WF) (hact : Act R E net x y)
    (hnet : ∀ m, net m → m.Delivers Ok Ok₀)
    (hserve : ∀ i r, x.db.get i = some r → i < x.instanceId → Held Ok Ok₀ r.accepted.proposalId
      r.acceptedValue → Ok r.acceptedValue) {e : Event} (hnew : NewEvent R E net x y e) :
    e.Carries Ok Ok₀ := by
  have hbroadcast : ∀ m dests, e = .broadcast m dests → e.Carries Ok Ok₀ := by
    rintro m dests rfl
    exact h.broadcast_new hnew
  -- An answer of the acceptor leaves as a call or as a message.
  have hanswer : ∀ {d : ℕ} {r : PaxosMessage}, ReplyEvent x d r e →
      r.type ≠ .sendLearnedValue → (r.type = .prepareReply → r.Reports Ok Ok₀) →
      e.Carries Ok Ok₀ := by
    rintro d r (⟨rfl, -⟩ | ⟨rfl, -⟩) hne hrep
    · exact hrep
    · exact ⟨fun ht => absurd ht hne, hrep⟩
  cases hnew with
  | quiet he =>
    cases e with
    | send d m =>
      simp only [Event.isQuiet, Bool.or_eq_true, decide_eq_true_eq] at he
      constructor <;> intro ht <;> rcases he with (he | he) | he <;> rw [ht] at he <;> cases he
    | broadcast m dests => exact hbroadcast m dests rfl
    | handed m =>
      intro ht
      simp [Event.isQuiet, ht] at he
    | accepted | executed | replayed => cases he
    | _ => trivial
  | prepare => exact hbroadcast _ _ rfl
  | prepareReply _ hr he =>
    have hreport := report h₀ h.acceptor (hr.imp (fun hr => hr.2.1) fun hr => hr.2)
    refine hanswer he ?_ fun _ => hreport
    rcases hr with ⟨-, rfl, -⟩ | ⟨-, rfl⟩
    · rw [(Traced.promise_fields _ x).1]
      simp
    · simp [Acceptor.rejection, Acceptor.replyTo]
  | accept | directAccept => exact hbroadcast _ _ rfl
  | accepted hm => exact h.heard_accept hw hact hnet hm
  | acceptReply _ hr he =>
    refine hanswer he ?_ ?_
    · rcases hr with ⟨-, rfl, -⟩ | ⟨-, rfl⟩ <;> simp [Acceptor.rejection, Acceptor.replyTo]
    · rcases hr with ⟨-, rfl, -⟩ | ⟨-, rfl⟩ <;> simp [Acceptor.rejection, Acceptor.replyTo]
  | newChosenValue | toFollowers => exact hbroadcast _ _ rfl
  | serve hget hid =>
    refine ⟨fun _ => hserve _ _ hget hid (h.records _ _ hget), fun ht => ?_⟩
    cases ht
  | executed hlearned => exact h.learner hlearned
  | _ => trivial

/-- The value of the proposer after an action. -/
theorem proposer_act (h : x.Values Ok Ok₀) (h₀ : Ok₀ {}) (hch : ProposerChange R E net x y)
    (hreport : ∀ m, Answered net x m → m.type = .prepareReply → m.Reports Ok Ok₀)
    (hy : Proposer.Active y) : Ok y.proposer.value := by
  -- A round starts with the proposal or with the value that a timer left to it.
  have hround : ∀ {v z}, RoundStart x v z → Ok v := by
    rintro v z (⟨-, rfl, hbusy, -⟩ | ⟨id, hid, -, rfl⟩)
    · exact h.proposal hbusy
    · exact h.proposer (Or.inr (Or.inr ⟨id, _, hid⟩))
  -- A counted reply brings its value along only with a ballot.
  have hcount : ∀ {p : Proposer} {m : PaxosMessage}, Ok p.value → m.Reports Ok Ok₀ →
      Ok (p.countPrepareReply m).value := by
    intro p m hp hm
    unfold Proposer.countPrepareReply
    dsimp only
    split_ifs with hc
    · refine hm.value.ok (Nat.pos_of_ne_zero fun hz => ?_)
      have hzero : m.preAccepted = {} := by
        unfold PaxosMessage.preAccepted
        rw [hz, hm.node hz]
      rw [hzero] at hc
      exact absurd hc.2 (not_lt.mpr (BallotNumber.zero_le _))
    · exact hp
  -- Otherwise an active proposer was active before, with the same value.
  have hkeep : y.proposer.value = x.proposer.value →
      (y.proposer.preparing = true → x.proposer.preparing = true) →
      (y.proposer.accepting = true → x.proposer.accepting = true) → Retries x y false →
      Ok y.proposer.value := by
    intro hv hprep hacc htimers
    rw [hv]
    rcases hy with hy | hy | ⟨id, i, hid⟩
    · exact h.proposer (Or.inl (hprep hy))
    · exact h.proposer (Or.inr (Or.inl (hacc hy)))
    · rcases htimers id i hid with hold | ⟨hf, -⟩
      · exact h.proposer (Or.inr (Or.inr ⟨id, i, hold⟩))
      · cases hf
  cases hch with
  | same hid hpid hmax hval hcnt hprep hacc hskip hmach hsent htimers =>
    exact hkeep hval hprep hacc htimers
  | opened z v hstart hrule hrecv hyeq =>
    rw [hyeq]
    exact hround hstart
  | began z v hstart hrule hrecv hyeq =>
    rw [hyeq, Proposer.beginRound_proposer]
    refine hcount (hround hstart) ?_
    have hacc := h.acceptor
    rw [← hstart.same.2.1] at hacc
    have hown : Proposer.ownReply E v z = Acceptor.promise
          (Proposer.prepareMessage (Proposer.openRound v z)) (Proposer.openRound v z) ∨
        Proposer.ownReply E v z = Acceptor.rejection .prepareReply
          (Proposer.prepareMessage (Proposer.openRound v z)) (Proposer.openRound v z) := by
      by_cases hle : z.acceptor.promisedBallot ≤ Proposer.nextBallot z
      · exact Or.inl (Proposer.ownReply_of_le E v hle)
      · exact Or.inr (Proposer.ownReply_of_not_le E v hle)
    exact report h₀ hacc hown
  | counted m hm htype hprep hid hcur hyeq =>
    rw [hyeq]
    exact hcount (h.proposer (Or.inl hprep)) (hreport m hm htype)
  | passed m hm htype hprep hid hcur hpass hyeq =>
    rw [hyeq]
    exact h.proposer (Or.inl hprep)
  | direct hskip hrej hrule hbusy hvalid hyeq =>
    rw [hyeq]
    exact h.proposal hbusy
  | countedAccept m hm htype hacc hid hcur hyeq
  | passedAccept m hm htype hacc hid hcur hpass hyeq =>
    rw [hyeq]
    exact h.proposer (Or.inr (Or.inl hacc))
  | gaveUp m hm hphase hid hcur hyeq =>
    rw [hyeq]
    rcases hphase with ⟨-, hp⟩ | ⟨-, ha⟩
    · exact h.proposer (Or.inl hp)
    · exact h.proposer (Or.inr (Or.inl ha))
  | next hl hok hyeq hsent htimers =>
    refine hkeep (by rw [hyeq]; rfl) ?_ ?_ htimers <;> rw [hyeq] <;> exact id

/-- **Every action keeps the values of a node**, when the messages that it reads carry such values,
proposals build them and no record is served in which nothing was accepted. -/
theorem act (h : x.Values Ok Ok₀) (himp : ∀ v, Ok v → Ok₀ v) (h₀ : Ok₀ {}) (hw : x.WF)
    (hact : Act R E net x y) (hnet : ∀ m, net m → m.Delivers Ok Ok₀)
    (hpos : ∀ m, Announced net x m → 1 ≤ m.proposalId)
    (hserve : ∀ i r, x.db.get i = some r → i < x.instanceId → Held Ok Ok₀ r.accepted.proposalId
      r.acceptedValue → Ok r.acceptedValue)
    (hpropose : ∀ machineId value context draw, R.propose E x machineId value context →
      drawOk draw = true → y = Instance.startPropose E machineId value context draw x →
      Ok y.proposeValue) : y.Values Ok Ok₀ := by
  have hanswered : ∀ m, Answered net x m → m.type = .prepareReply → m.Reports Ok Ok₀ := by
    rintro m (hm | hm) htype
    · exact (hnet m hm).report htype
    · exact h.trace _ hm htype
  have hwrite : ∀ {k : ℕ}, Held Ok Ok₀ y.acceptor.acceptedBallot.proposalId
      y.acceptor.acceptedValue → y.db = x.db.write (E.putOk k) y.acceptor.record →
      ∀ i r, y.db.get i = some r → Held Ok Ok₀ r.accepted.proposalId r.acceptedValue := by
    intro k hacc hdb i r hr
    rw [hdb] at hr
    rcases DB.get_write_cases hr with ⟨-, rfl⟩ | hold
    · exact hacc
    · exact h.records i r hold
  have hlearner : ∀ {b v}, y.learner.hasLearned = b → y.learner.learnedValue = v →
      (b = true → Ok v) → y.learner.hasLearned = true → Ok y.learner.learnedValue := by
    rintro b v hb rfl hok hy
    exact hok (hb ▸ hy)
  -- What the acceptor, the log and the learner hold.
  have hstore : Held Ok Ok₀ y.acceptor.acceptedBallot.proposalId y.acceptor.acceptedValue ∧
      (∀ i r, y.db.get i = some r → Held Ok Ok₀ r.accepted.proposalId r.acceptedValue) ∧
      (y.learner.hasLearned = true → Ok y.learner.learnedValue) := by
    cases hact.storeChange hw with
    | same hacc hdb hid hl hv =>
      exact ⟨by rw [hacc]; exact h.acceptor, by rw [hdb]; exact h.records, hlearner hl hv h.learner⟩
    | promised m k hm hle hkeep hacc hdb hid hl hv =>
      have hheld : Held Ok Ok₀ y.acceptor.acceptedBallot.proposalId y.acceptor.acceptedValue := by
        rw [hacc]
        exact h.acceptor
      exact ⟨hheld, hwrite hheld hdb, hlearner hl hv h.learner⟩
    | accepted m k hm hle hkeep hacc hdb hid hl hv =>
      have hheld : Held Ok Ok₀ y.acceptor.acceptedBallot.proposalId y.acceptor.acceptedValue := by
        rw [hacc]
        exact Held.of_ok himp (h.heard_accept hw hact hnet hm)
      exact ⟨hheld, hwrite hheld hdb, hlearner hl hv h.learner⟩
    | learned m hm hmid hballot hacc hdb hid hl hv =>
      refine ⟨by rw [hacc]; exact h.acceptor, by rw [hdb]; exact h.records,
        hlearner hl hv fun _ => h.acceptor.ok ?_⟩
      rw [← hballot]
      exact hpos m hm
    | learnedValue m hm htype hmid hrule hacc hdb hid hl hv =>
      have hok := (hnet m hm).learned htype
      refine ⟨by rw [hacc]; exact h.acceptor, fun i r hr => ?_, hlearner hl hv fun _ => hok⟩
      rw [hdb] at hr
      rcases DB.get_put_cases hr with ⟨-, rfl⟩ | hold
      · exact Held.of_ok himp hok
      · exact h.records i r hold
    | executed hl hok hy hacc hdb hid hl' hv =>
      refine ⟨?_, by rw [hdb]; exact h.records, fun hyl => by rw [hl'] at hyl; cases hyl⟩
      rw [hacc, Acceptor.nextInstance_eq]
      exact Held.default h₀
    | cleaned hrule hy hdb hkept hacc hid hl hv =>
      exact ⟨by rw [hacc]; exact h.acceptor, fun i r hr => h.records i r (hdb i r hr),
        hlearner hl hv h.learner⟩
  refine ⟨hstore.1, hstore.2.1, hstore.2.2, h.proposer_act h₀ hact.proposerChange hanswered,
    ?_, ?_⟩
  · intro hy
    cases hact.proposalChange with
    | same hvalue hbusy =>
      rw [hvalue]
      exact h.proposal (hbusy hy).1
    | started machineId value context draw hidle hdraw hvalid hrule hyeq =>
      exact hpropose machineId value context draw hrule hdraw hyeq
  · intro e he
    rcases hact.mem_trace hw he with hold | hnew
    · exact h.trace e hold
    · exact h.carries_new h₀ hw hact hnet hserve hnew

/-- Recovery keeps the values of a node, when the replay reads no record in which nothing was
accepted. -/
theorem recover (h : x.Values Ok Ok₀) (h₀ : Ok₀ {}) {a : Acceptor} (hrec : x.Restarts E dirs a y)
    (hreplay : ∀ i r, x.db.get i = some r → i < a.instanceId → Held Ok Ok₀ r.accepted.proposalId
      r.acceptedValue → Ok r.acceptedValue) : y.Values Ok Ok₀ := by
  refine ⟨?_, by rw [hrec.db_eq]; exact h.records, ?_, ?_, ?_, ?_⟩
  · rcases hrec.acceptor_cases with ⟨r, hr, -, hacc, hval⟩ | ⟨-, hacc, hval⟩
    · rw [hacc, hval]
      exact h.records _ r hr
    · rw [hacc, hval]
      exact Held.default h₀
  · intro hy
    rw [hrec.learner] at hy
    cases hy
  · intro hy
    unfold Proposer.Active at hy
    rw [hrec.proposer, hrec.timers] at hy
    rcases hy with hy | hy | ⟨id, i, hid⟩
    · cases hy
    · cases hy
    · simp at hid
  · intro hy
    rw [hrec.isProposing] at hy
    cases hy
  · intro e he
    rcases hrec.mem_trace he with hold | ⟨i, ms, rfl⟩ | ⟨j, r, ok, rfl, hget, hj⟩
    · exact h.trace e hold
    · trivial
    · exact hreplay j r hget hj (h.records j r hget)

/-- The values of the first process of a node. -/
theorem fresh (h₀ : Ok₀ {}) (config : Config) : (Node.fresh config).Values Ok Ok₀ := by
  refine ⟨Held.default h₀, ?_, ?_, ?_, ?_, ?_⟩
  · intro i r hr
    cases hr
  · intro hy
    cases hy
  · rintro (hy | hy | ⟨id, i, hid⟩)
    · cases hy
    · cases hy
    · cases hid
  · intro hy
    cases hy
  · intro e he
    rw [List.mem_singleton.mp he]
    trivial

end Node.Values

/-! ## The system -/

/-- The values of all nodes. -/
def Sys.Values (Ok Ok₀ : PaxosValue → Prop) (s : Sys) : Prop := ∀ n, (s n).Values Ok Ok₀

namespace Sys.Values

variable {s : Sys}

theorem delivers (h : s.Values Ok Ok₀) {n : ℕ} (hm : s.inFlight n m = true) (htr : Traced s) :
    m.Delivers Ok Ok₀ := by
  rcases Traced.of_inFlight hm with hsend | ⟨dests, hd, -⟩
  · obtain ⟨hl, hr⟩ := (h m.nodeId).trace _ hsend
    exact ⟨fun ht => absurd ht (htr.send _ _ _ hsend).2.1, hl, hr⟩
  · have hcarries := (h m.nodeId).trace _ hd
    exact ⟨fun ht => hcarries (Or.inl ht), fun ht => hcarries (Or.inr ht),
      fun ht => absurd ht (htr.broadcast _ _ _ hd).1⟩

/-- Every action of the system keeps the values. -/
theorem micro {C : Setup} {P : Policy} {t : Sys} (h : s.Values Ok Ok₀) (himp : ∀ v, Ok v → Ok₀ v)
    (h₀ : Ok₀ {}) (hw : s.WF C) (htr : Traced s) (hst : Micro P s t)
    (hserve : ∀ n i r, (s n).db.get i = some r → i < (s n).instanceId →
      Held Ok Ok₀ r.accepted.proposalId r.acceptedValue → Ok r.acceptedValue)
    (hpropose : ∀ n E machineId value context draw, P.env E →
      P.rules.propose E (s n) machineId value context → drawOk draw = true →
      t n = Instance.startPropose E machineId value context draw (s n) → Ok (t n).proposeValue) :
    t.Values Ok Ok₀ := by
  obtain ⟨n, E, henv, hact, hother, -, -⟩ := hst.newEvents hw
  refine Sys.forall_of_others (Q := fun _ x => x.Values Ok Ok₀) hother (fun k _ => h k) ?_
  refine (h n).act himp h₀ (hw n).1 hact (fun m hm => h.delivers hm htr)
    (fun m hm => htr.announced_pos hm) (hserve n) ?_
  exact fun machineId value context draw => hpropose n E machineId value context draw henv

/-- A recovery keeps the values. -/
theorem recover (h : s.Values Ok Ok₀) (h₀ : Ok₀ {}) {n : ℕ} {a : Acceptor}
    (hrec : (s n).Restarts E dirs a y)
    (hreplay : ∀ i r, (s n).db.get i = some r → i < a.instanceId →
      Held Ok Ok₀ r.accepted.proposalId r.acceptedValue → Ok r.acceptedValue) :
    Sys.Values Ok Ok₀ (Function.update s n y) :=
  Sys.forall_update (Q := fun _ x => x.Values Ok Ok₀) h ((h n).recover h₀ hrec hreplay)

theorem init (h₀ : Ok₀ {}) (C : Setup) : (System.init C).Values Ok Ok₀ :=
  fun _ => Node.Values.fresh h₀ _

end Sys.Values

end

end Skywalker
