import Skywalker.Votes

/-!
# Proposals are safe

A proposer learns from the promises that it counts what was accepted below its ballot. `ReportOk`
says what one promise reports, `Finds` what the promises of a round amount to, and `Proposals` that
every `ACCEPT` that is broadcast is safe on the board of its instance. A round that skips `Prepare`
relies on promises of an earlier instance, whose acceptors have not voted below the ballot since.
-/

namespace Skywalker

open Voting

variable {s t : Sys} {n : ℕ} {m : PaxosMessage} {C : Setup} {P : Policy} {E : Env}
  {dirs : List (ℕ × Machines)} {a : Acceptor} {y : Node} {M : Finset ℕ}

/-! ## What promises report -/

/-- The acceptor and the log of every node hold values that are backed. -/
structure Stored (M : Finset ℕ) (s : Sys) : Prop where
  acceptor : ∀ a, 0 < (s a).acceptor.acceptedBallot.proposalId →
    s.Backed M (s a).instanceId (s a).acceptor.acceptedBallot (s a).acceptor.acceptedValue
  records : ∀ a i r, (s a).db.get i = some r → 0 < r.accepted.proposalId →
    s.Backed M i r.accepted r.acceptedValue

/-- What a promise of `a` to `d` reports: no vote of `a` below the promised ballot is above the
reported one, and the reported value is backed. -/
structure Sys.ReportOk (s : Sys) (M : Finset ℕ) (a d : ℕ) (r : PaxosMessage) : Prop where
  complete : ∀ c v, .accepted r.instanceId c v ∈ (s a).trace →
    c ≤ r.preAccepted ∨ ⟨r.proposalId, d⟩ ≤ c
  unset : r.preAcceptedId = 0 → r.preAcceptedNodeId = 0
  backed : 0 < r.preAcceptedId → s.Backed M r.instanceId r.preAccepted r.value

/-- Every promise reports what it should. -/
def Reported (M : Finset ℕ) (s : Sys) : Prop :=
  ∀ a d r, s.replied a d r → r.type = .prepareReply → r.rejectedId = 0 → s.ReportOk M a d r

theorem Traced.vote_pos (h : Traced s) {a i : ℕ} {b : BallotNumber} {v : PaxosValue}
    (hv : .accepted i b v ∈ (s a).trace) : 1 ≤ b.proposalId := by
  obtain ⟨m, ⟨dests, hd⟩, ht, -, hp, -⟩ := (h.accepted a i b v hv).proposes
  have hpos := ((h.broadcast _ m dests hd).2.2 (Or.inr (Or.inl ht))).2.2
  omega

namespace Reported

/-- A promise is a report of what the acceptor has. -/
theorem promise_ok (hst : Stored M s) (hcur : ∀ b v, .accepted m.instanceId b v ∈ (s n).trace →
      1 ≤ b.proposalId ∧ b ≤ (s n).acceptor.acceptedBallot) (hid : m.instanceId = (s n).instanceId)
    :
    s.ReportOk M n m.nodeId (Acceptor.promise m (s n)) := by
  have hfields := Traced.promise_fields m (s n)
  refine ⟨?_, ?_, ?_⟩
  · intro c v hv
    rw [hfields.2.2.1] at hv
    obtain ⟨hpos, hle⟩ := hcur c v hv
    have hacc := BallotNumber.proposalId_le hle
    unfold Acceptor.promise
    rw [if_pos (by omega)]
    exact Or.inl hle
  · unfold Acceptor.promise
    split_ifs with hpos
    · exact fun h0 => absurd h0 (Nat.pos_iff_ne_zero.mp hpos)
    · exact fun _ => rfl
  · unfold Acceptor.promise
    split_ifs with hpos
    · intro _
      show s.Backed M m.instanceId _ _
      rw [hid]
      exact hst.acceptor n hpos
    · exact fun h0 => absurd h0 (Nat.lt_irrefl 0)

/-- A report stays right while the promise that it belongs to holds. -/
theorem extend {a d : ℕ} {r : PaxosMessage} (h : s.ReportOk M a d r)
    (hext : ∀ i, (s.board i).Extends (t.board i))
    (hprom : ⟨r.proposalId, d⟩ ≤ (s a).acceptor.promisedBallot) : t.ReportOk M a d r := by
  refine ⟨fun c v hv => ?_, h.unset, fun hpos => (h.backed hpos).extend (hext _)⟩
  rcases (hext r.instanceId).new a c v hv with hold | hle
  · exact h.complete c v hold
  · exact Or.inr (hprom.trans hle)

/-- Every action keeps the reports of promises right. -/
theorem micro (h : Reported M s) (hw : s.WF C) (htr : Traced s) (htrt : Traced t)
    (hmem : ∀ n, (s n).Remembers) (hmemt : ∀ n, (t n).Remembers) (hstored : Stored M s)
    (hst : Micro P s t) : Reported M t := by
  have hext := hst.board_extends hw
  have hwt := hw.micro hst
  obtain ⟨n, E, -, hact, hother, hgrow, hnew⟩ := hst.newEvents hw
  have hn := hw.nodeId n
  have hbroadcast : ∀ m dests, .broadcast m dests ∈ (t n).trace →
      m.type = .prepare ∨ m.type = .accept ∨ m.type = .newChosenValue → 1 ≤ m.proposalId :=
    fun m dests hd ht => ((htrt.broadcast n m dests hd).2.2 ht).2.2
  intro a d r hr htype hrej
  rcases Sys.replied_cases hn hnew a d r hr with hold | ⟨rfl, e, he, hev⟩
  · have hpromise := (htr.prepareReply a d r hold htype).2 hrej
    exact extend (h a d r hold htype hrej) hext ((hmem a).promised _ _ hpromise)
  · obtain ⟨m, hm, rfl, hcase⟩ := Traced.prepareReply_new hev he htype
    have hpos := (htr.sent_of_heard hgrow hn hbroadcast (Or.inl rfl) hm).2
    have hid : m.instanceId = (s a).instanceId := hm.id.trans (hw a).1.acceptorId
    rcases hcase with ⟨hle, rfl, htaken⟩ | ⟨hle, rfl⟩
    · -- The report is right before the action, and a vote that comes with it is not below the
      -- promise.
      have hok : s.ReportOk M a m.nodeId (Acceptor.promise m (s a)) := by
        refine promise_ok hstored (fun b v hv => ⟨htr.vote_pos hv, ?_⟩) hid
        rw [hid] at hv
        exact (hmem a).current b v hv
      refine ⟨fun c v hv => ?_, hok.unset, fun hp => (hok.backed hp).extend (hext _)⟩
      rcases hnew a _ hv with hold | ⟨-, hvote⟩
      · exact hok.complete c v hold
      · have hc := (hvote.vote_cases (hw a).1 (hwt a).1).2.2.1
        obtain ⟨-, -, -, hpid, -⟩ := Traced.promise_fields m (s a)
        rw [hpid, hc]
        exact Or.inr ((hmemt a).promised _ _ htaken)
    · exact absurd hrej (Traced.rejectedId_ne_zero hpos hle)

theorem recover (h : Reported M s) (hrec : (s n).Restarts E dirs a y) (htr : Traced s)
    (hmem : ∀ n, (s n).Remembers) (hprom : (s n).acceptor.promisedBallot ≤ a.promisedBallot) :
    Reported M (Function.update s n y) := by
  intro k d r hr htype hrej
  have hold := hrec.replied_old hr
  have hpromise := (htr.prepareReply k d r hold htype).2 hrej
  exact extend (h k d r hold htype hrej) (hrec.board_extends hprom) ((hmem k).promised _ _ hpromise)

theorem init (C : Setup) : Reported M (System.init C) := by
  intro a d r hr
  rcases hr with hr | ⟨-, hr⟩ <;> cases List.mem_singleton.mp hr

end Reported

/-! ## What a round finds out -/

/-- What the promises that a proposer of `n` has counted amount to: no counted acceptor voted below
the ballot and above the largest report, and the value of that report is backed. -/
structure Sys.Finds (s : Sys) (M : Finset ℕ) (n : ℕ) (p : Proposer) : Prop where
  bounded : ∀ a ∈ p.counter.promisorsOrAcceptors, ∀ c v, .accepted p.instanceId c v ∈ (s a).trace →
    c ≤ p.maxBallot ∨ ⟨p.proposalId, n⟩ ≤ c
  top : p.maxBallot ≤ ⟨p.proposalId, n⟩
  held : p.maxBallot = {} ∨ s.Backed M p.instanceId p.maxBallot p.value

namespace Sys.Finds

variable {p q : Proposer}

theorem of_start (hcnt : p.counter = {}) (hmax : p.maxBallot = {}) : s.Finds M n p := by
  refine ⟨?_, ?_, Or.inl hmax⟩
  · intro a ha
    rw [hcnt] at ha
    cases ha
  · rw [hmax]
    exact BallotNumber.zero_le _

/-- The findings depend on these fields only. -/
theorem congr (h : s.Finds M n p) (hid : q.instanceId = p.instanceId)
    (hpid : q.proposalId = p.proposalId) (hmax : q.maxBallot = p.maxBallot)
    (hval : q.value = p.value) (hcnt : q.counter = p.counter) : s.Finds M n q := by
  refine ⟨?_, ?_, ?_⟩
  · rw [hcnt, hid, hpid, hmax]
    exact h.bounded
  · rw [hmax, hpid]
    exact h.top
  · rw [hmax, hid, hval]
    exact h.held

/-- The findings stay right while the counted acceptors keep their promises. -/
theorem extend (h : s.Finds M n p) (hext : ∀ i, (s.board i).Extends (t.board i))
    (hprom : ∀ a ∈ p.counter.promisorsOrAcceptors,
      ⟨p.proposalId, n⟩ ≤ (s a).acceptor.promisedBallot) : t.Finds M n p := by
  refine ⟨?_, h.top, h.held.imp id fun hb => hb.extend (hext _)⟩
  intro a ha c v hv
  rcases (hext p.instanceId).new a c v hv with hold | hle
  · exact h.bounded a ha c v hold
  · exact Or.inr ((hprom a ha).trans hle)

/-- What a proposer has found stays backed when it counts one more reply. -/
theorem count (h : s.Finds M n p) (hid : m.instanceId = p.instanceId)
    (hpid : m.proposalId = p.proposalId) (hle : m.preAccepted ≤ ⟨m.proposalId, n⟩)
    (hrep : m.rejectedId = 0 → s.ReportOk M m.nodeId n m) :
    s.Finds M n (p.countPrepareReply m) := by
  -- The largest report does not fall, and covers the new one.
  have hmono : p.maxBallot ≤ (p.countPrepareReply m).maxBallot ∧
      (m.rejectedId = 0 → m.preAccepted ≤ (p.countPrepareReply m).maxBallot) := by
    unfold Proposer.countPrepareReply
    dsimp only
    split_ifs with hc
    · exact ⟨hc.2.le, fun _ => le_refl _⟩
    · exact ⟨le_refl _, fun h0 => not_lt.mp fun hlt => hc ⟨h0, hlt⟩⟩
  refine ⟨?_, ?_, ?_⟩
  · intro a ha c v hv
    rw [Proposer.countPrepareReply_counter] at ha
    rw [Proposer.countPrepareReply_instanceId] at hv
    rw [Proposer.countPrepareReply_proposalId]
    rcases Counter.mem_add ha with hold | ⟨rfl, hrej⟩
    · exact (h.bounded a hold c v hv).imp (fun hb => hb.trans hmono.1) id
    · rw [← hid] at hv
      rw [← hpid]
      exact ((hrep hrej).complete c v hv).imp (fun hb => hb.trans (hmono.2 hrej)) id
  · rw [Proposer.countPrepareReply_proposalId]
    unfold Proposer.countPrepareReply
    dsimp only
    split_ifs
    · rw [← hpid]
      exact hle
    · exact h.top
  · rw [Proposer.countPrepareReply_instanceId]
    unfold Proposer.countPrepareReply
    dsimp only
    split_ifs with hc
    · -- A report above another one is not the empty one.
      have hpos : 0 < m.preAcceptedId := by
        by_contra h0
        have hzero : m.preAcceptedId = 0 := by omega
        have hempty : m.preAccepted = {} := by
          unfold PaxosMessage.preAccepted
          rw [hzero, (hrep hc.1).unset hzero]
        rw [hempty] at hc
        exact absurd hc.2 (not_lt.mpr (BallotNumber.zero_le _))
      rw [← hid]
      exact Or.inr ((hrep hc.1).backed hpos)
    · exact h.held

end Sys.Finds

/-- The proposer of a node in the first phase of a round. -/
def Findings (M : Finset ℕ) (s : Sys) (n : ℕ) : Prop :=
  (s n).proposer.preparing = true →
    s.used n .prepare (s n).proposer.instanceId (s n).proposer.proposalId →
    s.Finds M n (s n).proposer

namespace Findings

/-- The counted acceptors keep their promises. -/
theorem promised (hrounds : Rounds M s) (hmem : ∀ n, (s n).Remembers)
    (hprep : (s n).proposer.preparing = true)
    (hused : s.used n .prepare (s n).proposer.instanceId (s n).proposer.proposalId) (a : ℕ)
    (ha : a ∈ (s n).proposer.counter.promisorsOrAcceptors) :
    ⟨(s n).proposer.proposalId, n⟩ ≤ (s a).acceptor.promisedBallot :=
  (hmem a).promised _ _ (hrounds.promisors n hprep hused a ha).2

/-- Every action keeps the findings right. -/
theorem micro (h : Findings M s n) (hw : s.WF C) (hrounds : Rounds M s) (hroundst : Rounds M t)
    (hmem : ∀ n, (s n).Remembers) (hrep : Reported M t) (hcurrent : ∀ type, P.rules.current type)
    (hst : Micro P s t) : Findings M t n := by
  have hext := hst.board_extends hw
  obtain ⟨k, E, -, hact, hother, hgrow, -⟩ := hst.newEvents hw
  have hn := hw.nodeId n
  intro hprep hused
  by_cases hk : n = k
  · subst hk
    have hch := hact.proposerChange
    rcases hch.preparing_cases (hw n).1
        ((hrounds.ballots n).ids.not_used rfl (Nat.lt_succ_self _)) hprep hused with
      ⟨hp, hu, hid, hpid, hmax, hval, hcnt⟩ | ⟨z, v, hstart, hy⟩ | ⟨z, v, hstart, hy⟩ |
      ⟨m, hm, htype, hp, hid, hcur, hy⟩
    · refine ((h hp hu).extend hext ?_).congr hid hpid hmax hval hcnt
      exact promised hrounds hmem hp hu
    · rw [hy]
      exact .of_start rfl rfl
    · -- The node's own reply is counted.
      have hprop := Proposer.beginRound_proposer E v z
      rw [← hy] at hprop
      obtain ⟨htype, -, hid, hpid⟩ := Acceptor.takePrepare_reply E
        (Proposer.prepareMessage (Proposer.openRound v z)) (Proposer.openRound v z)
      have hhanded : .handed (Proposer.ownReply E v z) ∈ (t n).trace := by
        rw [hy]
        exact List.mem_cons_self
      have hreply : t.replied n n (Proposer.ownReply E v z) := Or.inr ⟨rfl, hhanded⟩
      have hself : (Proposer.ownReply E v z).nodeId = n :=
        hroundst.traced.handed n _ hhanded (Or.inl htype)
      rw [hprop]
      refine Sys.Finds.count (.of_start rfl rfl) hid hpid ?_ fun hrej => ?_
      · exact hroundst.reports.reported n n _ hreply htype
      · rw [hself]
        exact hrep n n _ hreply htype hrej
    -- The reply of another node, to this round as the rules demand.
    · have hpid := hcur (hcurrent _)
      have hu := hrounds.used_prepare hm htype hid hpid
      have hreply := hrounds.traced.replied_of_answered hm (Or.inl htype)
      have hfinds := (h hp hu).extend hext (promised hrounds hmem hp hu)
      have hprop : (t n).proposer = (s n).proposer.countPrepareReply m := by rw [hy]
      rw [hprop]
      refine hfinds.count hid hpid (hrounds.reports.reported _ _ _ hreply htype) fun hrej => ?_
      exact hrep _ _ _ (hgrow.replied hreply) htype hrej
  · have heq := hother n hk
    unfold Sys.used Sys.sent at hused
    rw [heq] at hprep hused ⊢
    exact (h hprep hused).extend hext (promised hrounds hmem hprep hused)

theorem recover {k : ℕ} (h : Findings M s n) (hrounds : Rounds M s) (hmem : ∀ n, (s n).Remembers)
    (hrec : (s k).Restarts E dirs a y) (hprom : (s k).acceptor.promisedBallot ≤ a.promisedBallot) :
    Findings M (Function.update s k y) n := by
  intro hprep hused
  have hused := hrec.used_old hused
  have hsame := hrec.eq_of_round (.inl hprep)
  rw [hsame] at hprep hused ⊢
  exact (h hprep hused).extend (hrec.board_extends hprom) (promised hrounds hmem hprep hused)

theorem init (C : Setup) (n : ℕ) : Findings M (System.init C) n := fun hprep => by cases hprep

end Findings

/-! ## Safe proposals -/

/-- What is proposed is safe, and a proposer that may skip `Prepare` has a majority's promises for
its ballot, of an instance in which an `ACCEPT` carried it. -/
structure Proposals (M : Finset ℕ) (s : Sys) : Prop where
  safe : ∀ n i p v, s.proposes n i p v → (s.board i).SafeAt (majorities M) ⟨p, n⟩ v
  skip : ∀ n, (s n).proposer.skipPrepare = true → ∃ j ≤ (s n).proposer.instanceId,
    s.used n .accept j (s n).proposer.proposalId ∧ ∃ Q ∈ (majorities M).sets,
      ∀ a ∈ Q, .promised j ⟨(s n).proposer.proposalId, n⟩ ∈ (s a).trace

namespace Proposals

/-- The votes of the system are sound. -/
theorem sound (h : Proposals M s) (hrounds : Rounds M s) (i : ℕ) :
    (s.board i).Sound (majorities M) := by
  have hproposed : ∀ a b v, (s.board i).votes a b v → s.proposes b.nodeId i b.proposalId v :=
    fun a b v hv => (hrounds.traced.accepted a i b v hv).proposes
  constructor
  · intro a a' b v w hv hw
    exact (hrounds.ballots b.nodeId).unique i b.proposalId v w
      (Sys.proposes_iff.mp (hproposed a b v hv)) (Sys.proposes_iff.mp (hproposed a' b w hw))
  · intro a b v hv
    exact h.safe b.nodeId i b.proposalId v (hproposed a b v hv)

/-- The value of a round that a majority promised is safe. -/
theorem safe_of_passed (h : Proposals M s) (hrounds : Rounds M s) (hmem : ∀ n, (s n).Remembers)
    (hfind : Findings M s n) (hprep : (s n).proposer.preparing = true)
    (hused : s.used n .prepare (s n).proposer.instanceId (s n).proposer.proposalId)
    (hpass : Proposer.isPassedOnThisRound (s n) = true) :
    (s.board (s n).proposer.instanceId).SafeAt (majorities M) ⟨(s n).proposer.proposalId, n⟩
      (s n).proposer.value := by
  have hfinds := hfind hprep hused
  have hprom := Findings.promised hrounds hmem hprep hused
  have hQ := hrounds.majority hpass fun a ha => (hrounds.promisors n hprep hused a ha).1
  rcases hfinds.held with hnone | ⟨a, hvote⟩ | hdecided
  · -- Nobody in the majority has voted below the ballot.
    refine Board.safeAt_of_silent hQ hprom fun a ha c w hv => ?_
    refine (hfinds.bounded a ha c w hv).resolve_left fun hle => ?_
    have hpos := hrounds.traced.vote_pos hv
    rw [hnone] at hle
    have hzero : c.proposalId ≤ 0 := BallotNumber.proposalId_le hle
    omega
  · exact (h.sound hrounds _).safeAt_of_report hQ hprom hfinds.bounded hvote
  · exact (h.sound hrounds _).safeAt_of_chosen hQ hprom hdecided

/-- Every value is safe where `Prepare` is skipped with a ballot that is new to the instance. -/
theorem safe_of_skipped (h : Proposals M s) (hmem : ∀ n, (s n).Remembers)
    (hskip : (s n).proposer.skipPrepare = true) (hsafe : Proposer.SkipsSafely (s n))
    (v : PaxosValue) :
    (s.board (s n).proposer.instanceId).SafeAt (majorities M) ⟨(s n).proposer.proposalId, n⟩ v := by
  obtain ⟨j, hj, ⟨m, ⟨dests, hd⟩, ht, hi, hp⟩, Q, hQ, hpromised⟩ := h.skip n hskip
  -- The `ACCEPT` that carried the ballot was for an earlier instance.
  have hlt : j < (s n).proposer.instanceId := by
    refine lt_of_le_of_ne hj fun heq => ?_
    have hmemb : m.value ∈ (s n).sentAccepts (s n).proposer.instanceId (s n).proposer.proposalId :=
      Node.mem_sentAccepts.mpr ⟨m, dests, hd, ht, hi.trans heq, hp, rfl⟩
    rw [hsafe] at hmemb
    cases hmemb
  refine Board.safeAt_of_silent hQ ?_ ?_
  · exact fun a ha => (hmem a).promised _ _ (hpromised a ha)
  · exact fun a ha c w hv => (hmem a).later _ _ _ c w (hpromised a ha) hv hlt

/-- A proposal that an action adds is safe. -/
theorem safe_new {R : Rules} (h : Proposals M s) (hrounds : Rounds M s)
    (hmem : ∀ n, (s n).Remembers) (hfind : Findings M s n) (hcurrent : ∀ type, R.current type)
    (hskips : ∀ x, R.skip x → Proposer.SkipsSafely x)
    (hch : ProposerChange R E (s.Network n) (s n) (t n)) {i p : ℕ} {v : PaxosValue}
    (hv : v ∈ (t n).sentAccepts i p) :
    v ∈ (s n).sentAccepts i p ∨ (s.board i).SafeAt (majorities M) ⟨p, n⟩ v := by
  -- Most actions broadcast no `ACCEPT`.
  have hkeep : ∀ {new : List PaxosMessage}, Broadcasts (s n) (t n) new →
      (∀ m ∈ new, m.type ≠ .accept) → v ∈ (s n).sentAccepts i p :=
    fun hsent hnone => Ballots.sentAccepts_keep hsent hnone hv
  have hnone : (t n).trace = (s n).trace → v ∈ (s n).sentAccepts i p :=
    fun htr => hkeep (.of_eq htr) (by simp)
  cases hch with
  | same hid hpid hmax hval hcnt hprep hacc hskip hmach hsent =>
    exact Or.inl (hkeep hsent (by simp))
  | opened z w hstart hrule hrecv hy hsent | began z w hstart hrule hrecv hy hsent =>
    exact Or.inl (hkeep hsent (by simp [Proposer.prepareMessage]))
  | counted m hm htype hprep hid hcur hy =>
    exact Or.inl (hnone (by rw [hy]))
  | passed m hm htype hprep hid hcur hpass hy hsent =>
    rcases hsent.sentAccepts hv with hold | ⟨m', hm', -, rfl, rfl, rfl⟩
    · exact Or.inl hold
    · obtain rfl := List.mem_singleton.mp hm'
      have hused := hrounds.used_prepare hm htype hid (hcur (hcurrent _))
      exact Or.inr (h.safe_of_passed hrounds hmem hfind hprep hused hpass)
  | direct hskip hrej hrule hbusy hvalid hy hsent =>
    rcases hsent.sentAccepts hv with hold | ⟨m', hm', -, rfl, rfl, -⟩
    · exact Or.inl hold
    · obtain rfl := List.mem_singleton.mp hm'
      rw [hy]
      exact Or.inr (h.safe_of_skipped hmem hskip (hskips _ hrule) v)
  | countedAccept m hm htype hacc hid hcur hy =>
    exact Or.inl (hnone (by rw [hy]))
  | passedAccept m hm htype hacc hid hcur hpass hy hsent =>
    exact Or.inl (hkeep hsent (by simp [Proposer.newChosenMessage]))
  | gaveUp m hm hphase hid hcur hy =>
    exact Or.inl (hnone (by rw [hy]; rfl))
  | next hl hok hy hsent => exact Or.inl (hkeep hsent (by simp))

/-- The promises that skipping `Prepare` rests on, after an action of the node. -/
theorem skip_act {R : Rules} (h : Proposals M s) (hrounds : Rounds M s)
    (hcurrent : ∀ type, R.current type) (hgrow : s.Grows t)
    (hch : ProposerChange R E (s.Network n) (s n) (t n))
    (hskip : (t n).proposer.skipPrepare = true) :
    ∃ j ≤ (t n).proposer.instanceId,
      t.used n .accept j (t n).proposer.proposalId ∧ ∃ Q ∈ (majorities M).sets,
        ∀ a ∈ Q, .promised j ⟨(t n).proposer.proposalId, n⟩ ∈ (t a).trace := by
  have hkeep : (s n).proposer.skipPrepare = true →
      (s n).proposer.instanceId ≤ (t n).proposer.instanceId →
      (t n).proposer.proposalId = (s n).proposer.proposalId →
      ∃ j ≤ (t n).proposer.instanceId, t.used n .accept j (t n).proposer.proposalId ∧
        ∃ Q ∈ (majorities M).sets,
          ∀ a ∈ Q, .promised j ⟨(t n).proposer.proposalId, n⟩ ∈ (t a).trace := by
    intro hold hid hpid
    obtain ⟨j, hj, hused, Q, hQ, hpromised⟩ := h.skip n hold
    rw [hpid]
    exact ⟨j, hj.trans hid, hgrow.used hused, Q, hQ, fun a ha => hgrow a _ (hpromised a ha)⟩
  cases hch with
  | same hid hpid hmax hval hcnt hprep hacc hskip' => exact hkeep (hskip' hskip) hid.ge hpid
  | opened z v hstart hrule hrecv hy =>
    rw [hy] at hskip
    cases hskip
  | began z v hstart hrule hrecv hy =>
    rw [hy, Proposer.beginRound_proposer, Proposer.countPrepareReply_skipPrepare] at hskip
    cases hskip
  | counted m hm htype hprep hid hcur hy =>
    refine hkeep ?_ ?_ ?_
    · rw [hy] at hskip
      simpa using hskip
    · rw [hy, Proposer.countPrepareReply_instanceId]
    · rw [hy, Proposer.countPrepareReply_proposalId]
  | passed m hm htype hprep hid hcur hpass hy =>
    -- The majority that let the first phase pass.
    have hused := hrounds.used_prepare hm htype hid (hcur (hcurrent _))
    have hcounted := hrounds.promisors n hprep hused
    have hQ := hrounds.majority hpass fun a ha => (hcounted a ha).1
    have hid' : (t n).proposer.instanceId = (s n).proposer.instanceId := by rw [hy]; rfl
    have hpid' : (t n).proposer.proposalId = (s n).proposer.proposalId := by rw [hy]; rfl
    rw [hid', hpid']
    refine ⟨_, le_refl _, ?_, _, hQ, fun a ha => hgrow a _ (hcounted a ha).2⟩
    refine ⟨Proposer.acceptMessage (s n), ⟨(s n).others (s n).memberIds, ?_⟩, rfl, rfl, rfl⟩
    rw [hy]
    exact List.mem_cons_self
  | direct hskip' hrej hrule hbusy hvalid hy =>
    exact hkeep hskip' (by rw [hy]; exact le_refl _) (by rw [hy]; rfl)
  | countedAccept m hm htype hacc hid hcur hy =>
    refine hkeep ?_ (by rw [hy]) (by rw [hy])
    rw [hy] at hskip
    exact hskip
  | passedAccept m hm htype hacc hid hcur hpass hy | gaveUp m hm hphase hid hcur hy =>
    refine hkeep ?_ (by rw [hy]; exact le_refl _) (by rw [hy]; rfl)
    rw [hy] at hskip
    exact hskip
  | next hl hok hy =>
    refine hkeep ?_ (by rw [hy]; exact Nat.le_succ _) (by rw [hy]; rfl)
    rw [hy] at hskip
    exact hskip

/-- **Every action keeps the proposals safe.** -/
theorem micro (h : Proposals M s) (hw : s.WF C) (hrounds : Rounds M s) (hmem : ∀ n, (s n).Remembers)
    (hfind : ∀ n, Findings M s n) (hP : P.KeepsRounds) (hst : Micro P s t) : Proposals M t := by
  have hext := hst.board_extends hw
  obtain ⟨k, E, -, hact, hother, hgrow, -⟩ := hst.newEvents hw
  constructor
  · intro n i p v hv
    rw [Sys.proposes_iff] at hv
    have hsafe : (s.board i).SafeAt (majorities M) ⟨p, n⟩ v := by
      by_cases hk : n = k
      · subst hk
        rcases h.safe_new hrounds hmem (hfind n) hP.current hP.skip hact.proposerChange hv with
          hold | hnew
        · exact h.safe n i p v (Sys.proposes_iff.mpr hold)
        · exact hnew
      · rw [hother n hk] at hv
        exact h.safe n i p v (Sys.proposes_iff.mpr hv)
    exact hsafe.extend (hext i)
  · intro n hskip
    by_cases hk : n = k
    · subst hk
      exact h.skip_act hrounds hP.current hgrow hact.proposerChange hskip
    · rw [hother n hk] at hskip ⊢
      obtain ⟨j, hj, hused, Q, hQ, hpromised⟩ := h.skip n hskip
      exact ⟨j, hj, hgrow.used hused, Q, hQ, fun a ha => hgrow a _ (hpromised a ha)⟩

theorem recover {k : ℕ} (h : Proposals M s) (hrec : (s k).Restarts E dirs a y)
    (hprom : (s k).acceptor.promisedBallot ≤ a.promisedBallot) :
    Proposals M (Function.update s k y) := by
  have hgrow := hrec.grows.1
  constructor
  · rintro n i p v ⟨m, ⟨dests, hd⟩, hrest⟩
    have hold := hrec.mem_old_at hd rfl
    exact (h.safe n i p v ⟨m, ⟨dests, hold⟩, hrest⟩).extend (hrec.board_extends hprom i)
  · intro n hskip
    have hsame := hrec.eq_of_round (.inr (.inr hskip))
    rw [hsame] at hskip ⊢
    obtain ⟨j, hj, hused, Q, hQ, hpromised⟩ := h.skip n hskip
    exact ⟨j, hj, hgrow.used hused, Q, hQ, fun a ha => hgrow a _ (hpromised a ha)⟩

theorem init (C : Setup) : Proposals M (System.init C) := by
  constructor
  · rintro n i p v ⟨m, ⟨dests, hd⟩, -⟩
    cases List.mem_singleton.mp hd
  · intro n hskip
    cases hskip

end Proposals

end Skywalker
