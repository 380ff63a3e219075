import Skywalker.Proposals

/-!
# What nodes learn is decided

A learner takes a value in three ways: a `NEW_CHOSEN_VALUE` names the ballot under which its
acceptor accepted, a `PREPARE` or `ACCEPT` of the next instance does so, or another node sends the
value from its log. `Carried` says when a ballot that a proposer takes to the next instance has been
announced in the one before, and `Learned` that everything that is learned, stored below the
instance, served or executed is decided.
-/

namespace Skywalker

open Voting

variable {x y : Node} {type : PaxosMessageType} {i n p : ℕ} {s t : Sys} {R : Rules} {E : Env}
  {dirs : List (ℕ × Machines)} {a : Acceptor} {net : PaxosMessage → Prop}

/-! ## Ballots that are carried to the next instance -/

/-- Whether a node broadcast a message of a type for an instance and a proposal id. -/
def Node.uses (x : Node) (type : PaxosMessageType) (i p : ℕ) : Bool :=
  x.trace.any fun
    | .broadcast m _ => m.type = type && m.instanceId = i && m.proposalId = p
    | _ => false

/-- A node uses a proposal id when its trace has a broadcast of that type, instance and id. -/
theorem Node.uses_iff :
    x.uses type i p = true ↔ ∃ m dests, .broadcast m dests ∈ x.trace ∧ m.type = type ∧
      m.instanceId = i ∧ m.proposalId = p := by
  unfold Node.uses
  rw [List.any_eq_true]
  constructor
  · rintro ⟨e, he, hm⟩
    cases e with
    | broadcast m dests =>
      simp only [Bool.and_eq_true, decide_eq_true_eq] at hm
      exact ⟨m, dests, he, hm.1.1, hm.1.2, hm.2⟩
    | _ => cases hm
  · rintro ⟨m, dests, he, ht, hi, hp⟩
    exact ⟨_, he, by simp [ht, hi, hp]⟩

theorem Sys.used_iff :
    s.used n type i p ↔ (s n).uses type i p = true := by
  rw [Node.uses_iff]
  constructor
  · rintro ⟨m, ⟨dests, hd⟩, hrest⟩
    exact ⟨m, dests, hd, hrest⟩
  · rintro ⟨m, dests, hd, hrest⟩
    exact ⟨m, ⟨dests, hd⟩, hrest⟩

/-- The condition where a round starts with a ballot that was not rejected: if an `ACCEPT` of the
instance before carried the ballot, it was announced there. -/
def Proposer.CarriesSafely (x : Node) : Prop :=
  x.proposer.wasRejectedBySomeone = false →
    x.uses .accept (x.proposer.instanceId - 1) x.proposer.proposalId = true →
    x.uses .newChosenValue (x.proposer.instanceId - 1) x.proposer.proposalId = true

instance (x : Node) : Decidable (Proposer.CarriesSafely x) :=
  inferInstanceAs (Decidable (_ → _ → _))

/-- How an action uses a ballot of the node for a message of a type. -/
inductive NewUse (R : Rules) (s : Sys) (n : ℕ) : PaxosMessageType → ℕ → Prop where
  /-- `Prepare` is called for a proposal or by the retry timer. -/
  | prepare (z : Node) (v : PaxosValue) (hstart : RoundStart (s n) v z) (hrule : R.prepare z) :
      NewUse R s n .prepare (s n).proposer.nextProposalId
  /-- A majority has promised in the round that is open. -/
  | passed (m : PaxosMessage) (hm : Answered (fun m => s.inFlight n m = true) (s n) m)
      (htype : m.type = .prepareReply) (hid : m.instanceId = (s n).proposer.instanceId)
      (hcur : R.current m.type → m.proposalId = (s n).proposer.proposalId) :
      NewUse R s n .accept (s n).proposer.proposalId
  /-- `Prepare` is skipped for a new proposal. -/
  | skipped (hrej : (s n).proposer.wasRejectedBySomeone = false) (hrule : R.skip (s n)) :
      NewUse R s n .accept (s n).proposer.proposalId
  /-- A majority has accepted in the round that is open. -/
  | chosen (m : PaxosMessage) (hm : Answered (fun m => s.inFlight n m = true) (s n) m)
      (htype : m.type = .acceptReply) (hacc : (s n).proposer.accepting = true)
      (hid : m.instanceId = (s n).proposer.instanceId)
      (hcur : R.current m.type → m.proposalId = (s n).proposer.proposalId)
      (hpass : Proposer.isPassedOnThisRound (s n) = true) :
      NewUse R s n .newChosenValue (s n).proposer.proposalId

/-- A ballot was used before, or the action uses it in the current instance. -/
theorem ProposerChange.used_cases (hch : ProposerChange R E (s.Network n) (s n) (t n))
    (hused : t.used n type i p) (htype : type.isProposers = true) :
    s.used n type i p ∨ (i = (s n).proposer.instanceId ∧ NewUse R s n type p) := by
  obtain ⟨m, ⟨dests, hd⟩, rfl, rfl, rfl⟩ := hused
  have hcases : ∀ {new : List PaxosMessage}, Broadcasts (s n) (t n) new →
      s.used n m.type m.instanceId m.proposalId ∨ m ∈ new := by
    intro new hsent
    rcases hsent m dests hd with hold | ⟨hnew, -⟩ | hother
    · exact Or.inl ⟨m, ⟨dests, hold⟩, rfl, rfl, rfl⟩
    · exact Or.inr hnew
    · rw [hother] at htype
      cases htype
  have hnone : Broadcasts (s n) (t n) [] → s.used n m.type m.instanceId m.proposalId :=
    fun hsent => (hcases hsent).resolve_right (by simp)
  -- The `PREPARE` of a round that starts.
  have hround : ∀ {z v}, RoundStart (s n) v z → R.prepare z →
      m = Proposer.prepareMessage (Proposer.openRound v z) →
      m.instanceId = (s n).proposer.instanceId ∧ NewUse R s n m.type m.proposalId := by
    rintro z v hstart hrule rfl
    obtain ⟨-, -, hprop, -⟩ := hstart.same
    have hid : (Proposer.prepareMessage (Proposer.openRound v z)).instanceId =
        (s n).proposer.instanceId := by
      rw [← hprop]
      rfl
    have hpid : (Proposer.prepareMessage (Proposer.openRound v z)).proposalId =
        (s n).proposer.nextProposalId := by
      rw [← hprop]
      rfl
    rw [hpid]
    exact ⟨hid, .prepare z v hstart hrule⟩
  cases hch with
  | same hid hpid hmax hval hcnt hprep hacc hskip hmach hsent => exact Or.inl (hnone hsent)
  | opened z v hstart hrule hrecv hy hsent | began z v hstart hrule hrecv hy hsent =>
    exact (hcases hsent).imp id fun hm => hround hstart hrule (List.mem_singleton.mp hm)
  | counted m' hm htype' hprep hid hcur hy => exact Or.inl (hnone (.of_eq (by rw [hy])))
  | passed m' hm htype' hprep hid hcur hpass hy hsent =>
    refine (hcases hsent).imp id fun hmem => ?_
    rw [List.mem_singleton.mp hmem]
    exact ⟨rfl, .passed m' hm htype' hid hcur⟩
  | direct hskip hrej hrule hbusy hvalid hy hsent =>
    refine (hcases hsent).imp id fun hmem => ?_
    rw [List.mem_singleton.mp hmem, hy]
    exact ⟨rfl, .skipped hrej hrule⟩
  | countedAccept m' hm htype' hacc hid hcur hy => exact Or.inl (hnone (.of_eq (by rw [hy])))
  | passedAccept m' hm htype' hacc hid hcur hpass hy hsent =>
    refine (hcases hsent).imp id fun hmem => ?_
    rw [List.mem_singleton.mp hmem]
    exact ⟨rfl, .chosen m' hm htype' hacc hid hcur hpass⟩
  | gaveUp m' hm hphase hid hcur hy => exact Or.inl (hnone (.of_eq (by rw [hy]; rfl)))
  | next hl hok hy hsent => exact Or.inl (hnone hsent)

/-- What the ballots of the node `n` tell from one instance to the next. -/
structure Carried (M : Finset ℕ) (s : Sys) (n : ℕ) : Prop where
  /-- A ballot that goes on in the next instance, and that an `ACCEPT` carried, was announced. -/
  next : ∀ i p, s.used n .prepare (i + 1) p ∨ s.used n .accept (i + 1) p → s.used n .accept i p →
    s.used n .newChosenValue i p
  /-- Where a ballot was announced, a majority accepted a value under it. -/
  chosen : ∀ i p, s.used n .newChosenValue i p →
    ∃ v, (s.board i).ChosenAt (majorities M) ⟨p, n⟩ v

namespace Carried

variable {M : Finset ℕ}

/-- What a node that meets the condition takes to its next instance was announced. -/
theorem announced_before (hx : x.trace = (s n).trace) (hprop : x.proposer = (s n).proposer)
    (hsafe : Proposer.CarriesSafely x) (hrej : (s n).proposer.wasRejectedBySomeone = false)
    (hi : i + 1 = (s n).proposer.instanceId) (hacc : s.used n .accept i (s n).proposer.proposalId) :
    s.used n .newChosenValue i (s n).proposer.proposalId := by
  have hprev : (s n).proposer.instanceId - 1 = i := by omega
  unfold Proposer.CarriesSafely Node.uses at hsafe
  rw [hx, hprop, hprev] at hsafe
  exact Sys.used_iff.mpr (hsafe hrej (Sys.used_iff.mp hacc))

/-- A ballot that the action takes to the next instance was announced. -/
theorem next_new (h : Carried M s n) (hrounds : Rounds M s) (hcurrent : ∀ type, R.current type)
    (hprepare : ∀ x, R.prepare x → Proposer.CarriesSafely x)
    (hskip : ∀ x, R.skip x → Proposer.CarriesSafely x) (htype : type = .prepare ∨ type = .accept)
    (hi : i + 1 = (s n).proposer.instanceId) (hnew : NewUse R s n type p)
    (hacc : s.used n .accept i p) : s.used n .newChosenValue i p := by
  cases hnew with
  | prepare z v hstart hrule =>
    obtain ⟨htr, -, hprop, -⟩ := hstart.same
    cases hrej : (s n).proposer.wasRejectedBySomeone with
    | true =>
      -- The id is new, so that no `ACCEPT` carried it.
      obtain ⟨m, ⟨dests, hd⟩, ht, -, hp⟩ := hacc
      have hnew : (s n).proposer.proposalId < (s n).proposer.nextProposalId := by
        rw [Proposer.nextProposalId, Proposer.newRound, hrej]
        dsimp only
        rw [if_pos rfl]
        split_ifs <;> omega
      rcases (hrounds.ballots n).ids m dests hd (by rw [ht]; rfl) with hlt | ⟨heq, -⟩ <;> omega
    | false =>
      have hsame : (s n).proposer.nextProposalId = (s n).proposer.proposalId := by
        rw [Proposer.nextProposalId, Proposer.newRound, hrej]
        rfl
      rw [hsame] at hacc ⊢
      exact announced_before htr hprop (hprepare z hrule) hrej hi hacc
  | passed m hm hmt hid hcur =>
    -- The `PREPARE` of the round was out before.
    have hused := hrounds.used_prepare hm hmt hid (hcur (hcurrent _))
    rw [← hi] at hused
    exact h.next i _ (Or.inl hused) hacc
  | skipped hrej hrule => exact announced_before rfl rfl (hskip _ hrule) hrej hi hacc
  | chosen => rcases htype with ht | ht <;> cases ht

/-- Every action keeps what ballots tell. -/
theorem micro {C : Setup} {P : Policy} (h : Carried M s n) (hw : s.WF C) (hrounds : Rounds M s)
    (hcurrent : ∀ type, P.rules.current type)
    (hprepare : ∀ x, P.rules.prepare x → Proposer.CarriesSafely x)
    (hskip : ∀ x, P.rules.skip x → Proposer.CarriesSafely x) (hst : Micro P s t) :
    Carried M t n := by
  have hext := hst.board_extends hw
  obtain ⟨k, E, -, hact, hother, hgrow, -⟩ := hst.newEvents hw
  by_cases hk : n = k
  · subst hk
    have hch := hact.proposerChange
    constructor
    · intro i p hnext hacc
      -- One of the two messages of the next instance, of a type that is left open.
      obtain ⟨type, htype, hnext⟩ : ∃ type, (type = .prepare ∨ type = .accept) ∧
          t.used n type (i + 1) p := by
        rcases hnext with hu | hu
        · exact ⟨_, Or.inl rfl, hu⟩
        · exact ⟨_, Or.inr rfl, hu⟩
      have hproposers : type.isProposers = true := by rcases htype with rfl | rfl <;> rfl
      rcases hch.used_cases hnext hproposers with hold | ⟨hi, hnew⟩
      · rcases hch.used_cases hacc rfl with holdacc | ⟨hi, hnew⟩
        · refine hgrow.used (h.next i p ?_ holdacc)
          rcases htype with rfl | rfl
          · exact Or.inl hold
          · exact Or.inr hold
        · -- A ballot of a later instance is not used any more.
          obtain ⟨m, ⟨dests, hd⟩, rfl, him, hpm⟩ := hold
          have hp : p = (s n).proposer.proposalId := by cases hnew <;> rfl
          rcases (hrounds.ballots n).ids m dests hd hproposers with hlt | ⟨heq, hle⟩ <;> omega
      · rcases hch.used_cases hacc rfl with holdacc | ⟨hi', -⟩
        · exact hgrow.used (h.next_new hrounds hcurrent hprepare hskip htype hi hnew holdacc)
        · omega
    · intro i p hused
      rcases hch.used_cases hused rfl with hold | ⟨hi, hnew⟩
      · obtain ⟨v, hv⟩ := h.chosen i p hold
        exact ⟨v, hv.extend (hext i)⟩
      · subst hi
        cases hnew with
        | chosen m hm hmt hacc hid hcur hpass =>
          have hu := hrounds.used_accept hm hmt hid (hcur (hcurrent _))
          have hcounted := hrounds.acceptors n hacc hu
          have hQ := hrounds.majority hpass fun a ha => (hcounted a ha).1
          exact ⟨_, _, hQ, fun a ha => hgrow a _ (hcounted a ha).2⟩
  · have hback : ∀ {type i p}, t.used n type i p → s.used n type i p := by
      intro type i p hu
      unfold Sys.used Sys.sent at hu ⊢
      rwa [hother n hk] at hu
    constructor
    · exact fun i p hnext hacc => hgrow.used (h.next i p (hnext.imp hback hback) (hback hacc))
    · intro i p hu
      obtain ⟨v, hv⟩ := h.chosen i p (hback hu)
      exact ⟨v, hv.extend (hext i)⟩

theorem recover {k : ℕ} (h : Carried M s n) (hrec : (s k).Restarts E dirs a y)
    (hprom : (s k).acceptor.promisedBallot ≤ a.promisedBallot) :
    Carried M (Function.update s k y) n := by
  constructor
  · intro i p hnext hacc
    have hnext := hnext.imp hrec.used_old hrec.used_old
    exact hrec.grows.1.used (h.next i p hnext (hrec.used_old hacc))
  · intro i p hu
    obtain ⟨v, hv⟩ := h.chosen i p (hrec.used_old hu)
    exact ⟨v, hv.extend (hrec.board_extends hprom i)⟩

theorem init (C : Setup) (n : ℕ) : Carried M (System.init C) n := by
  have hnone : ∀ {type i p}, ¬ (System.init C).used n type i p := by
    rintro type i p ⟨m, ⟨dests, hd⟩, -⟩
    cases List.mem_singleton.mp hd
  exact ⟨fun i p _ hacc => absurd hacc hnone, fun i p hu => absurd hu hnone⟩

/-- **A ballot that is announced to an acceptor which accepted under it is that of a decision.** The
announcement is a `NEW_CHOSEN_VALUE`, or a message of the next instance. -/
theorem decided_of_announced (h : ∀ n, Carried M s n) (hrounds : Rounds M s) (hstored : Stored M s)
    (hprops : Proposals M s) {m : PaxosMessage}
    (hacc : (s n).acceptor.instanceId = (s n).instanceId) (hm : Announced (s.Network n) (s n) m)
    (hid : m.instanceId = (s n).instanceId) (hballot : m.ballot = (s n).acceptor.acceptedBallot) :
    s.Decided M (s n).instanceId (s n).acceptor.acceptedValue := by
  have hpos : 0 < (s n).acceptor.acceptedBallot.proposalId := by
    rw [← hballot]
    exact hrounds.traced.announced_pos hm
  have hbacked := hstored.acceptor n hpos
  rw [← hballot, ← hid] at hbacked
  rw [← hid]
  rcases hbacked with ⟨a, hvote⟩ | hdecided
  · have hproposed := (hrounds.traced.accepted a _ _ _ hvote).proposes.used
    -- The node of the ballot announced it in this instance.
    have hannounced : s.used m.nodeId .newChosenValue m.instanceId m.proposalId := by
      rcases hm with ⟨hnet, ht⟩ | ⟨⟨dests, hd⟩, ht⟩ | ⟨m', hnet, ht, hnext, hmid, hmb⟩
      · obtain ⟨dests, hd, -⟩ := (hrounds.traced.sent_of_inFlight hnet (Or.inr (Or.inr ht))).1
        exact ⟨m, ⟨dests, hd⟩, ht, rfl, rfl⟩
      · have hn := ((hrounds.traced.broadcast n m dests hd).2.2 (Or.inr (Or.inr ht))).1
        rw [hn]
        exact ⟨m, ⟨dests, hd⟩, ht, rfl, rfl⟩
      · obtain ⟨dests, hd, -⟩ := (hrounds.traced.sent_of_inFlight hnet (ht.imp id Or.inl)).1
        have hnode : m.nodeId = m'.nodeId := congrArg BallotNumber.nodeId hmb
        have hpid : m.proposalId = m'.proposalId := congrArg BallotNumber.proposalId hmb
        have hinst : m'.instanceId = m.instanceId + 1 := by omega
        refine (h m.nodeId).next _ _ ?_ hproposed
        rw [hnode, hpid]
        exact ht.imp (fun ht => ⟨m', ⟨dests, hd⟩, ht, hinst, rfl⟩)
          fun ht => ⟨m', ⟨dests, hd⟩, ht, hinst, rfl⟩
    obtain ⟨v, hchosen⟩ := (h m.nodeId).chosen _ _ hannounced
    have heq := (hprops.sound hrounds m.instanceId).eq_of_chosenAt_of_le hchosen hvote (le_refl _)
    rw [heq]
    exact ⟨_, hchosen⟩
  · exact hdecided

end Carried

/-! ## What a node has learned -/

/-- What an entry of the trace says about decisions: values that are sent as learned, and values
that are executed, satisfy `D` in their instance. -/
def Event.Tells (D : ℕ → PaxosValue → Prop) : Event → Prop
  | .send _ m => m.type = .sendLearnedValue → D m.instanceId m.value
  | .broadcast m _ => m.type = .sendLearnedValue → D m.instanceId m.value
  | .executed i v _ _ => D i v
  | .replayed i v _ => D i v
  | _ => True

/-- What a node has learned satisfies `D`. -/
structure Node.Learned (D : ℕ → PaxosValue → Prop) (x : Node) : Prop where
  trace : ∀ e ∈ x.trace, e.Tells D
  /-- The records below the instance. -/
  records : ∀ i r, i < x.instanceId → x.db.get i = some r → D i r.acceptedValue
  /-- The record of the instance has the acceptor's value, unless the learner wrote it. -/
  held : ∀ r, x.db.get x.instanceId = some r → 0 < x.acceptor.acceptedBallot.proposalId →
    r.acceptedValue = x.acceptor.acceptedValue ∨ D x.instanceId r.acceptedValue
  /-- The learned value, and that of the record of the instance. -/
  learner : x.learner.hasLearned = true → D x.instanceId x.learner.learnedValue ∧
    ∃ r, x.db.get x.instanceId = some r ∧ D x.instanceId r.acceptedValue

namespace Node.Learned

variable {D D' : ℕ → PaxosValue → Prop}

theorem mono (h : x.Learned D) (himp : ∀ i v, D i v → D' i v) : x.Learned D' where
  trace e he := by
    have hold := h.trace e he
    cases e with
    | send d m | broadcast m dests => exact fun ht => himp _ _ (hold ht)
    | executed | replayed => exact himp _ _ hold
    | _ => trivial
  records i r hi hr := himp _ _ (h.records i r hi hr)
  held r hr hpos := (h.held r hr hpos).imp id (himp _ _)
  learner hl := by
    obtain ⟨hv, r, hr, hrv⟩ := h.learner hl
    exact ⟨himp _ _ hv, r, hr, himp _ _ hrv⟩

/-- The entries that an action appends tell what was learned. -/
theorem tells_new (h : x.Learned D) (hw : x.WF) (hstore : x.Stores) {e : Event}
    (hnew : NewEvent R E net x y e) : e.Tells D := by
  have hsent : ∀ {m}, ((∃ d, e = .send d m) ∨ ∃ dests, e = .broadcast m dests) →
      m.type = .sendLearnedValue → D m.instanceId m.value := by
    intro m he ht
    rcases hnew.learned_cases he ht with ⟨i, r, hget, hid, rfl⟩ | ⟨hl, ballot, -, rfl⟩
    · show D r.instanceId r.acceptedValue
      rw [(hstore.keys i r hget).1]
      exact h.records i r hid hget
    · show D x.learner.instanceId x.learner.learnedValue
      rw [hw.learnerId]
      exact (h.learner hl).1
  cases e with
  | send d m => exact hsent (Or.inl ⟨d, rfl⟩)
  | broadcast m dests => exact hsent (Or.inr ⟨dests, rfl⟩)
  | executed =>
    cases hnew with
    | executed hl => exact (h.learner hl).1
    | quiet he => cases he
    | prepareReply _ _ he | acceptReply _ _ he => rcases he with ⟨he, -⟩ | ⟨he, -⟩ <;> cases he
  | replayed =>
    cases hnew with
    | quiet he => cases he
    | prepareReply _ _ he | acceptReply _ _ he => rcases he with ⟨he, -⟩ | ⟨he, -⟩ <;> cases he
  | _ => trivial

/-- **Every action keeps what a node has learned**, when writes succeed, nothing else is written
over a learned value, and what the network and the acceptor offer to the learner satisfies `D`. -/
theorem act (h : x.Learned D) (hw : x.WF) (hstore : x.Stores) (hput : ∀ k, E.putOk k = true)
    (hkeeps : R.keepsLearned)
    (hnet : ∀ m, net m → m.type = .sendLearnedValue → D m.instanceId m.value)
    (hannounced : ∀ m, Announced net x m → m.instanceId = x.instanceId →
      m.ballot = x.acceptor.acceptedBallot →
      0 < x.acceptor.acceptedBallot.proposalId ∧ D x.instanceId x.acceptor.acceptedValue)
    (hact : Act R E net x y) : y.Learned D := by
  have hw' := hact.wf hw
  have htrace : ∀ e ∈ y.trace, e.Tells D := by
    intro e he
    rcases hact.mem_trace hw he with hold | hnew
    · exact h.trace e hold
    · exact h.tells_new hw hstore hnew
  -- A record that is put at the instance, when no other changes.
  have hputs : ∀ {r : PaxosInstance}, y.instanceId = x.instanceId →
      y.db = x.db.put y.instanceId r →
      (0 < y.acceptor.acceptedBallot.proposalId →
        r.acceptedValue = y.acceptor.acceptedValue ∨ D y.instanceId r.acceptedValue) →
      (y.learner.hasLearned = true → D y.instanceId y.learner.learnedValue ∧
        D y.instanceId r.acceptedValue) → y.Learned D := by
    intro r hid hdb hheld hlearner
    have hget : y.db.get y.instanceId = some r := by rw [hdb, DB.get_put_self]
    refine ⟨htrace, ?_, ?_, ?_⟩
    · intro i q hi hq
      rw [hdb, DB.get_put_of_ne _ _ (Nat.ne_of_lt hi)] at hq
      exact h.records i q (by omega) hq
    · intro q hq hpos
      obtain rfl : r = q := Option.some.inj (hget.symm.trans hq)
      exact hheld hpos
    · intro hl
      obtain ⟨hd, hr⟩ := hlearner hl
      exact ⟨hd, r, hget, hr⟩
  -- The acceptor writes its own record, which must have the learned value if there is one.
  have hwrite : ∀ {k : ℕ}, y.instanceId = x.instanceId →
      y.db = x.db.write (E.putOk k) y.acceptor.record →
      y.learner.hasLearned = x.learner.hasLearned →
      y.learner.learnedValue = x.learner.learnedValue →
      (x.learner.hasLearned = true → y.acceptor.acceptedValue = x.learner.learnedValue) →
      y.Learned D := by
    intro k hid hdb hl hv hval
    have hkey : y.acceptor.record.instanceId = y.instanceId := hw'.acceptorId
    rw [DB.write, hput k, if_pos rfl, hkey] at hdb
    refine hputs hid hdb (fun _ => Or.inl rfl) fun hyl => ?_
    rw [hl] at hyl
    have hd := (h.learner hyl).1
    have hown : y.acceptor.record.acceptedValue = x.learner.learnedValue := hval hyl
    rw [hv, hid, hown]
    exact ⟨hd, hd⟩
  cases hact.storeChange hw with
  | same hacc hdb hid hl hv =>
    refine ⟨htrace, ?_, ?_, ?_⟩ <;> rw [hdb, hid]
    · exact h.records
    · rw [hacc]
      exact h.held
    · rw [hl, hv]
      exact h.learner
  | promised m k hm hle hkeep hacc hdb hid hl hv | accepted m k hm hle hkeep hacc hdb hid hl hv =>
    refine hwrite hid hdb hl hv fun hxl => ?_
    rw [hacc]
    exact hkeep hkeeps hxl
  | learned m hm hmid hballot hacc hdb hid hl hv =>
    obtain ⟨hpos, hd⟩ := hannounced m hm hmid hballot
    refine ⟨htrace, ?_, ?_, ?_⟩ <;> rw [hdb, hid]
    · exact h.records
    · rw [hacc]
      exact h.held
    · -- The acceptor wrote the record, or the learner wrote it with the same value.
      intro _
      rw [hv]
      obtain ⟨r, hr⟩ := hstore.stored hpos
      refine ⟨hd, r, hr, ?_⟩
      rcases h.held r hr hpos with heq | hdr
      · rw [heq]
        exact hd
      · exact hdr
  | learnedValue m hm htype hmid hrule hacc hdb hid hl hv =>
    have hd : D y.instanceId m.value := by
      rw [hid, ← hmid]
      exact hnet m hm htype
    refine hputs (r := Learner.record m) hid (by rw [hdb, hid, hmid]) (fun _ => Or.inr hd)
      fun _ => ?_
    rw [hv]
    exact ⟨hd, hd⟩
  | executed hl hok hy hacc hdb hid hyl hv =>
    refine ⟨htrace, ?_, ?_, ?_⟩
    · intro i r hi hr
      rw [hdb] at hr
      rcases Nat.lt_or_ge i x.instanceId with hlt | hge
      · exact h.records i r hlt hr
      · -- The instance that the node leaves has the executed value in its record.
        obtain rfl : i = x.instanceId := by omega
        obtain ⟨-, q, hq, hd⟩ := h.learner hl
        obtain rfl : q = r := Option.some.inj (hq.symm.trans hr)
        exact hd
    · intro r hr
      rw [hdb] at hr
      have hle := (hstore.keys _ r hr).2
      omega
    · intro hl'
      rw [hyl] at hl'
      cases hl'
  | cleaned hrule hy hdb hkept hacc hid hl hv =>
    have hsame : y.db.get y.instanceId = x.db.get x.instanceId := by
      rw [hid]
      exact hkept _ hstore.maxChosen
    refine ⟨htrace, ?_, ?_, ?_⟩
    · intro i r hi hr
      rw [hid] at hi
      exact h.records i r hi (hdb i r hr)
    · rw [hsame, hacc, hid]
      exact h.held
    · rw [hsame, hl, hv, hid]
      exact h.learner

/-- Recovery keeps what a node has learned, when an instance that it jumps over has no record but
one that satisfies `D`. -/
theorem recover (h : x.Learned D) (hstore : x.Stores) (hrec : x.Restarts E dirs a y)
    (hjump : x.instanceId < y.instanceId → ∀ r, x.db.get x.instanceId = some r →
      D x.instanceId r.acceptedValue) : y.Learned D := by
  have hbelow : ∀ i r, i < y.instanceId → x.db.get i = some r → D i r.acceptedValue := by
    intro i r hi hr
    rcases (hstore.keys i r hr).2.lt_or_eq with hlt | rfl
    · exact h.records i r hlt hr
    · exact hjump hi r hr
  refine ⟨?_, ?_, ?_, ?_⟩
  · intro e he
    rcases hrec.mem_trace he with hold | ⟨i, ms, rfl⟩ | ⟨j, r, ok, rfl, hr, hj⟩
    · exact h.trace e hold
    · trivial
    · have hinst := hrec.instanceId
      exact hbelow j r (by omega) hr
  · intro i r hi hr
    rw [hrec.db_eq] at hr
    exact hbelow i r hi hr
  · intro r hr _
    rw [hrec.db_eq] at hr
    obtain ⟨hacc, -, -, hval⟩ := hrec.acceptor_of_get hr
    rw [hacc, hval]
    exact Or.inl rfl
  · intro hl
    rw [hrec.learner] at hl
    cases hl

theorem fresh (config : Config) : (Node.fresh config).Learned D := by
  refine ⟨?_, ?_, ?_, ?_⟩
  · intro e he
    rw [List.mem_singleton.mp he]
    trivial
  · intro i r _ hr
    cases hr
  · intro r hr
    cases hr
  · intro hl
    cases hl

end Node.Learned

/-! ## What acceptors and logs hold -/

namespace Stored

variable {M : Finset ℕ}

/-- Every action keeps the held values backed, when what the network offers to learners is
decided. -/
theorem micro {C : Setup} {P : Policy} (h : Stored M s) (hw : s.WF C) (hst : Micro P s t)
    (hnet : ∀ n m, s.inFlight n m = true → m.type = .sendLearnedValue →
      s.Decided M m.instanceId m.value) : Stored M t := by
  have hext := hst.board_extends hw
  have hwt := hw.micro hst
  obtain ⟨k, E, -, hact, hother, -, -⟩ := hst.newEvents hw
  have hold : ∀ i r, (s k).db.get i = some r → 0 < r.accepted.proposalId →
      t.Backed M i r.accepted r.acceptedValue :=
    fun i r hr hpos => (h.records k i r hr hpos).extend (hext i)
  have haccept : 0 < (s k).acceptor.acceptedBallot.proposalId → t.Backed M (s k).instanceId
      (s k).acceptor.acceptedBallot (s k).acceptor.acceptedValue :=
    fun hpos => (h.acceptor k hpos).extend (hext _)
  -- The acceptor writes what it has.
  have hwrite : ∀ {ok : Bool}, (t k).db = (s k).db.write ok (t k).acceptor.record →
      (0 < (t k).acceptor.acceptedBallot.proposalId → t.Backed M (t k).instanceId
        (t k).acceptor.acceptedBallot (t k).acceptor.acceptedValue) →
      ∀ i r, (t k).db.get i = some r → 0 < r.accepted.proposalId →
        t.Backed M i r.accepted r.acceptedValue := by
    intro ok hdb hacc i r hr hpos
    rw [hdb] at hr
    rcases DB.get_write_cases hr with ⟨rfl, rfl⟩ | hr
    · have hkey : (t k).acceptor.record.instanceId = (t k).instanceId := (hwt k).1.acceptorId
      rw [hkey]
      exact hacc hpos
    · exact hold i r hr hpos
  have hnode : (0 < (t k).acceptor.acceptedBallot.proposalId → t.Backed M (t k).instanceId
        (t k).acceptor.acceptedBallot (t k).acceptor.acceptedValue) ∧
      ∀ i r, (t k).db.get i = some r → 0 < r.accepted.proposalId →
        t.Backed M i r.accepted r.acceptedValue := by
    cases hact.storeChange (hw k).1 with
    | same hacc hdb hid =>
      rw [hacc, hdb, hid]
      exact ⟨haccept, hold⟩
    | promised m j hm hle hkeep hacc hdb hid =>
      have hnew : 0 < (t k).acceptor.acceptedBallot.proposalId → t.Backed M (t k).instanceId
          (t k).acceptor.acceptedBallot (t k).acceptor.acceptedValue := by
        rw [hacc, hid]
        exact haccept
      exact ⟨hnew, hwrite hdb hnew⟩
    | accepted m j hm hle hkeep hacc hdb hid hl hv htrace =>
      have hnew : 0 < (t k).acceptor.acceptedBallot.proposalId → t.Backed M (t k).instanceId
          (t k).acceptor.acceptedBallot (t k).acceptor.acceptedValue := by
        intro _
        have hmid : m.instanceId = (t k).instanceId := by
          rw [hm.id, (hw k).1.acceptorId, hid]
        rw [hmid] at htrace
        rw [hacc]
        exact Or.inl ⟨k, htrace⟩
      exact ⟨hnew, hwrite hdb hnew⟩
    | learned m hm hmid hballot hacc hdb hid =>
      rw [hacc, hdb, hid]
      exact ⟨haccept, hold⟩
    | learnedValue m hm htype hmid hrule hacc hdb hid =>
      rw [hacc, hid]
      refine ⟨haccept, fun i r hr hpos => ?_⟩
      rw [hdb] at hr
      rcases DB.get_put_cases hr with ⟨rfl, rfl⟩ | hr
      · exact Or.inr ((hnet k m hm htype).extend (hext _))
      · exact hold i r hr hpos
    | executed hl hok hy hacc hdb hid =>
      rw [hdb]
      refine ⟨fun hpos => ?_, hold⟩
      rw [hacc, Acceptor.nextInstance_eq] at hpos
      exact absurd hpos (Nat.lt_irrefl 0)
    | cleaned hrule hy hdb hkept hacc hid =>
      rw [hacc, hid]
      exact ⟨haccept, fun i r hr => hold i r (hdb i r hr)⟩
  constructor
  · exact Sys.forall_of_others (Q := fun _ x => 0 < x.acceptor.acceptedBallot.proposalId →
        t.Backed M x.instanceId x.acceptor.acceptedBallot x.acceptor.acceptedValue) hother
      (fun a _ hpos => (h.acceptor a hpos).extend (hext _)) hnode.1
  · exact Sys.forall_of_others (Q := fun _ x => ∀ i r, x.db.get i = some r →
        0 < r.accepted.proposalId → t.Backed M i r.accepted r.acceptedValue) hother
      (fun a _ i r hr hpos => (h.records a i r hr hpos).extend (hext i)) hnode.2

/-- What a new process loads from the log is backed as it was. -/
theorem recover {k : ℕ} (h : Stored M s) (hrec : (s k).Restarts E dirs a y)
    (hprom : (s k).acceptor.promisedBallot ≤ a.promisedBallot) :
    Stored M (Function.update s k y) := by
  have hext := hrec.board_extends hprom
  constructor
  · refine Sys.forall_update (Q := fun _ x => 0 < x.acceptor.acceptedBallot.proposalId →
      Sys.Backed (Function.update s k y) M x.instanceId x.acceptor.acceptedBallot
        x.acceptor.acceptedValue)
      (fun n hpos => (h.acceptor n hpos).extend (hext _)) fun hpos => ?_
    -- The acceptor has what it read from the record of its instance.
    rcases hrec.acceptor_cases with ⟨r, hr, -, hball, hval⟩ | ⟨-, hball, -⟩
    · rw [hball] at hpos
      rw [hball, hval]
      exact (h.records k _ r hr hpos).extend (hext _)
    · rw [hball] at hpos
      exact absurd hpos (Nat.lt_irrefl 0)
  · refine Sys.forall_update (Q := fun _ x => ∀ i r, x.db.get i = some r →
      0 < r.accepted.proposalId → Sys.Backed (Function.update s k y) M i r.accepted r.acceptedValue)
      (fun n i r hr hpos => (h.records n i r hr hpos).extend (hext i)) fun i r hr hpos => ?_
    rw [hrec.db_eq] at hr
    exact (h.records k i r hr hpos).extend (hext i)

theorem init (C : Setup) : Stored M (System.init C) := by
  constructor
  · intro n hpos
    exact absurd hpos (Nat.lt_irrefl 0)
  · intro n i r hr
    cases hr

end Stored

end Skywalker
