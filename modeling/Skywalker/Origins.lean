import Skywalker.Reconfiguration
import Skywalker.Agreement

/-!
# Where a value was proposed

`OnPropose` proposes a value for the instance that the node is in. A value stays in the proposer
when the instance is left, with rounds that are still open and timers that are still set, but
nothing of this reaches an `ACCEPT` of a later instance: replies are counted only in the round that
they answer, and a retry timer does nothing after its instance. A value that is decided for an
instance was thus proposed for that instance (`Origins.of_decided`), while the node that proposed it
was there.
-/

namespace Skywalker

variable {i : ℕ} {v : PaxosValue} {R : Rules} {E : Env} {net : PaxosMessage → Prop} {x y : Node}

/-! ## Proposals for an instance -/

/-- Some node proposed the value for the instance, at the time. -/
def Sys.ProposedAt (s : Sys) (i : ℕ) (v : PaxosValue) (time : ℕ) : Prop :=
  ∃ n, .proposed i time v ∈ (s n).trace

/-- Some node proposed the value for the instance. -/
def Sys.ProposedFor (s : Sys) (i : ℕ) (v : PaxosValue) : Prop := ∃ time, s.ProposedAt i v time

theorem Sys.ProposedFor.grow {s t : Sys} (h : s.ProposedFor i v) (hgrow : s.Grows t) :
    t.ProposedFor i v := by
  obtain ⟨time, n, he⟩ := h
  exact ⟨time, n, hgrow n _ he⟩

/-- The proposer of a node has a round of its instance, or will have one when a timer fires. -/
def Sys.InRound (s : Sys) (n : ℕ) : Prop :=
  ((s n).proposer.preparing = true ∧
    s.used n .prepare (s n).proposer.instanceId (s n).proposer.proposalId) ∨
  ((s n).proposer.accepting = true ∧
    s.used n .accept (s n).proposer.instanceId (s n).proposer.proposalId) ∨
  ∃ id, (id, TimerCallback.retry (s n).proposer.instanceId) ∈ (s n).timers

/-- Values are offered for the instances that they were proposed for. -/
structure Origins (s : Sys) : Prop where
  accepts : ∀ n i p v, s.proposes n i p v → s.ProposedFor i v
  proposal : ∀ n, (s n).isProposing = true → s.ProposedFor (s n).instanceId (s n).proposeValue
  round : ∀ n, s.InRound n → s.ProposedFor (s n).proposer.instanceId (s n).proposer.value
  timers : ∀ n id i, (id, TimerCallback.retry i) ∈ (s n).timers → i ≤ (s n).proposer.instanceId

/-! ## What an action does to timers and values -/

/-- Every retry timer after an action was there before, or is for the instance of its round. -/
theorem ProposerChange.retries (h : ProposerChange R E net x y) : ∃ sets, Retries x y sets := by
  cases h with
  | same _ _ _ _ _ _ _ _ _ _ htimers | opened _ _ _ _ _ _ _ htimers | began _ _ _ _ _ _ _ htimers =>
    exact ⟨_, htimers⟩
  | counted _ _ _ _ _ _ hy => exact ⟨_, .of_eq (by rw [hy])⟩
  | passed _ _ _ _ _ _ _ _ _ htimers | direct _ _ _ _ _ _ _ htimers => exact ⟨_, htimers⟩
  | countedAccept _ _ _ _ _ _ hy => exact ⟨_, .of_eq (by rw [hy])⟩
  | passedAccept _ _ _ _ _ _ _ _ _ htimers | gaveUp _ _ _ _ _ _ htimers | next _ _ _ _ htimers =>
    exact ⟨_, htimers⟩

theorem Act.instanceId_of_proposing (h : Act R E net x y) (hbusy : y.isProposing = true) :
    y.instanceId = x.instanceId := by
  rcases h.advance_cases with ⟨-, hid⟩ | ⟨hy, -⟩
  · exact hid
  · -- `CheckLearn` completes the proposal.
    rw [hy] at hbusy
    cases hbusy

theorem Proposer.countPrepareReply_value (p : Proposer) (m : PaxosMessage) :
    (p.countPrepareReply m).value = p.value ∨
      p.maxBallot < (p.countPrepareReply m).maxBallot := by
  unfold Proposer.countPrepareReply
  dsimp only
  split_ifs with hc
  · exact .inr hc.2
  · exact .inl rfl

/-- The `PREPARE` at the start of a round is in the trace. -/
theorem Proposer.beginRound_broadcast {z : Node} (hstart : RoundStart x v z) :
    .broadcast (prepareMessage (openRound v z)) (x.others x.memberIds) ∈
      (beginRound E v z).trace := by
  have hopen := openRound_trace hstart
  obtain ⟨l, hl, -⟩ := Acceptor.takePrepare_trace E (prepareMessage (openRound v z)) (openRound v z)
  refine List.mem_cons_of_mem _ ?_
  rw [hl, hopen]
  exact List.mem_append_right _ (List.mem_cons_of_mem _ List.mem_cons_self)

namespace Origins

variable {C : Setup} {P : Policy} {M : Finset ℕ} {s t : Sys} {n : ℕ}

/-- What somebody accepted, or what is decided, was proposed for the instance. -/
theorem of_backed (haccepts : ∀ n i p v, s.proposes n i p v → s.ProposedFor i v) (htr : Traced s)
    {b : BallotNumber} (h : s.Backed M i b v) : s.ProposedFor i v := by
  have hvote : ∀ {a b}, .accepted i b v ∈ (s a).trace → s.ProposedFor i v :=
    fun hv => haccepts _ _ _ _ (htr.accepted _ _ _ _ hv).proposes
  rcases h with ⟨a, hv⟩ | ⟨b, hb⟩
  · exact hvote hv
  · obtain ⟨a, hv⟩ := hb.exists_vote
    exact hvote hv

/-- **A value that is decided for an instance was proposed for it.** -/
theorem of_decided (h : Origins s) (htr : Traced s) (hv : s.Decided M i v) : s.ProposedFor i v :=
  of_backed (b := {}) h.accepts htr (.inr hv)

theorem of_roundStart (h : Origins s) (hw : s.WF C) {z : Node} (hstart : RoundStart (s n) v z) :
    s.ProposedFor (s n).proposer.instanceId v := by
  rcases hstart with ⟨-, rfl, hbusy, -⟩ | ⟨id, hid, -, rfl⟩
  · rw [(hw n).1.proposerId]
    exact h.proposal n hbusy
  · exact h.round n (.inr (.inr ⟨id, hid⟩))

/-- The value of a round to which a reply arrives. -/
theorem of_answered (h : Origins s) (hrounds : Rounds M s) {m : PaxosMessage}
    (hm : Answered (s.Network n) (s n) m)
    (hphase : m.type = .prepareReply ∧ (s n).proposer.preparing = true ∨
      m.type = .acceptReply ∧ (s n).proposer.accepting = true)
    (hid : m.instanceId = (s n).proposer.instanceId)
    (hpid : m.proposalId = (s n).proposer.proposalId) :
    s.ProposedFor (s n).proposer.instanceId (s n).proposer.value := by
  rcases hphase with ⟨htype, hprep⟩ | ⟨htype, hacc⟩
  · exact h.round n (.inl ⟨hprep, hrounds.used_prepare hm htype hid hpid⟩)
  · exact h.round n (.inr (.inl ⟨hacc, hrounds.used_accept hm htype hid hpid⟩))

/-- The values of the `ACCEPT`s that an action of the node adds. -/
theorem accepts_act (h : Origins s) (hw : s.WF C) (hrounds : Rounds M s)
    (hcurrent : ∀ type, R.current type) (hch : ProposerChange R E (s.Network n) (s n) (t n)) {p : ℕ}
    (hv : v ∈ (t n).sentAccepts i p) : s.ProposedFor i v := by
  have hold : v ∈ (s n).sentAccepts i p → s.ProposedFor i v :=
    fun hv => h.accepts n i p v (Sys.proposes_iff.mpr hv)
  -- Most actions broadcast no `ACCEPT`.
  have hkeep : ∀ {new : List PaxosMessage}, Broadcasts (s n) (t n) new →
      (∀ m ∈ new, m.type ≠ .accept) → s.ProposedFor i v :=
    fun hsent hnone => hold (Ballots.sentAccepts_keep hsent hnone hv)
  cases hch with
  | same hid hpid hmax hval hcnt hprep hacc hskip hmach hsent => exact hkeep hsent (by simp)
  | opened z w hstart hrule hrecv hy hsent | began z w hstart hrule hrecv hy hsent =>
    exact hkeep hsent (by simp [Proposer.prepareMessage])
  | counted m hm htype hprep hid hcur hy => exact hkeep (.of_eq (by rw [hy])) (by simp)
  | passed m hm htype hprep hid hcur hpass hy hsent =>
    rcases hsent.sentAccepts hv with hv | ⟨m', hm', -, rfl, -, rfl⟩
    · exact hold hv
    · obtain rfl := List.mem_singleton.mp hm'
      exact h.of_answered hrounds hm (.inl ⟨htype, hprep⟩) hid (hcur (hcurrent _))
  | direct hskip hrej hrule hbusy hvalid hy hsent =>
    rcases hsent.sentAccepts hv with hv | ⟨m', hm', -, rfl, -, rfl⟩
    · exact hold hv
    · obtain rfl := List.mem_singleton.mp hm'
      rw [hy]
      have hprop := h.proposal n hbusy
      rw [← (hw n).1.proposerId] at hprop
      exact hprop
  | countedAccept m hm htype hacc hid hcur hy => exact hkeep (.of_eq (by rw [hy])) (by simp)
  | passedAccept m hm htype hacc hid hcur hpass hy hsent =>
    exact hkeep hsent (by simp [Proposer.newChosenMessage])
  | gaveUp m hm hphase hid hcur hy => exact hkeep (.of_eq (by rw [hy]; rfl)) (by simp)
  | next hl hok hy hsent => exact hkeep hsent (by simp)

/-- The value of the round after an action of the node, when the `ACCEPT`s have their values from
proposals for their instances. -/
theorem round_act (h : Origins s) (hw : s.WF C) (hrounds : Rounds M s) (htr : Traced t)
    (hfind : Findings M t n) (hcurrent : ∀ type, R.current type) (hgrow : s.Grows t)
    (haccepts : ∀ n i p v, t.proposes n i p v → t.ProposedFor i v)
    (hch : ProposerChange R E (s.Network n) (s n) (t n)) (hin : t.InRound n) :
    t.ProposedFor (t n).proposer.instanceId (t n).proposer.value := by
  have hids := (hrounds.ballots n).ids
  -- A reply with a ballot above all before brings its value along, which somebody accepted.
  have hreported : ∀ {q : Proposer} {m : PaxosMessage}, (t n).proposer = q.countPrepareReply m →
      (t n).proposer.preparing = true →
      t.used n .prepare (t n).proposer.instanceId (t n).proposer.proposalId →
      t.ProposedFor q.instanceId q.value →
      t.ProposedFor (t n).proposer.instanceId (t n).proposer.value := by
    intro q m hq hprep hused hprop
    rcases Proposer.countPrepareReply_value q m with hval | hlt
    · rw [hq, hval, Proposer.countPrepareReply_instanceId]
      exact hprop
    · rw [← hq] at hlt
      have hne : (t n).proposer.maxBallot ≠ {} :=
        ((BallotNumber.zero_le _).trans_lt hlt).ne'
      exact of_backed haccepts htr ((hfind hprep hused).held.resolve_left hne)
  cases hch with
  | same hid hpid hmax hval hcnt hprep hacc hskip hmach hsent htimers =>
    rw [hid, hval]
    refine (h.round n ?_).grow hgrow
    unfold Sys.InRound at hin
    rw [hid, hpid] at hin
    rcases hin with ⟨hp, hused⟩ | ⟨ha, hused⟩ | ⟨id, hmem⟩
    · exact .inl ⟨hprep hp, hsent.used rfl (by simp) hused⟩
    · exact .inr (.inl ⟨hacc ha, hsent.used rfl (by simp) hused⟩)
    · exact .inr (.inr ⟨id, (htimers id _ hmem).resolve_right (by simp)⟩)
  | opened z v hstart hrule hrecv hy =>
    have hprop := (h.of_roundStart hw hstart).grow hgrow
    rw [← hstart.same.2.2.1] at hprop
    rw [hy]
    exact hprop
  | began z v hstart hrule hrecv hy =>
    have hprop := (h.of_roundStart hw hstart).grow hgrow
    rw [← hstart.same.2.2.1] at hprop
    have hq := Proposer.beginRound_proposer E v z
    rw [← hy] at hq
    refine hreported hq ?_ ?_ hprop
    · rw [hq, Proposer.countPrepareReply_preparing]
      rfl
    · have hd := Proposer.beginRound_broadcast (E := E) hstart
      rw [← hy] at hd
      refine ⟨_, ⟨_, hd⟩, rfl, ?_, ?_⟩
      · rw [hy, Proposer.beginRound_instanceId]
        rfl
      · rw [hy, Proposer.beginRound_proposalId]
        rfl
  | counted m hm htype hprep hid hcur hy =>
    have hpid := hcur (hcurrent _)
    have hq : (t n).proposer = (s n).proposer.countPrepareReply m := by rw [hy]
    refine hreported hq ?_ ?_ ((h.of_answered hrounds hm (.inl ⟨htype, hprep⟩) hid hpid).grow hgrow)
    · rw [hq, Proposer.countPrepareReply_preparing]
      exact hprep
    · rw [hq, Proposer.countPrepareReply_instanceId, Proposer.countPrepareReply_proposalId]
      exact hgrow.used (hrounds.used_prepare hm htype hid hpid)
  | passed m hm htype hprep hid hcur hpass hy =>
    rw [hy]
    exact (h.of_answered hrounds hm (.inl ⟨htype, hprep⟩) hid (hcur (hcurrent _))).grow hgrow
  | direct hskip hrej hrule hbusy hvalid hy =>
    have hprop := (h.proposal n hbusy).grow hgrow
    rw [← (hw n).1.proposerId] at hprop
    rw [hy]
    exact hprop
  | countedAccept m hm htype hacc hid hcur hy | passedAccept m hm htype hacc hid hcur hpass hy =>
    rw [hy]
    exact (h.of_answered hrounds hm (.inr ⟨htype, hacc⟩) hid (hcur (hcurrent _))).grow hgrow
  | gaveUp m hm hphase hid hcur hy =>
    rw [hy]
    exact (h.of_answered hrounds hm hphase hid (hcur (hcurrent _))).grow hgrow
  | next hl hok hy hsent htimers =>
    -- Nothing of the instance before belongs to the next one.
    have hid : (t n).proposer.instanceId = (s n).proposer.instanceId + 1 := by rw [hy]; rfl
    have hpid : (t n).proposer.proposalId = (s n).proposer.proposalId := by rw [hy]; rfl
    have hnone : ∀ {type : PaxosMessageType}, type.isProposers = true →
        ¬ t.used n type ((s n).proposer.instanceId + 1) (s n).proposer.proposalId :=
      fun ht hused => hids.not_used ht (Nat.lt_succ_self _) (hsent.used ht (by simp) hused)
    unfold Sys.InRound at hin
    rw [hid, hpid] at hin
    rcases hin with ⟨-, hused⟩ | ⟨-, hused⟩ | ⟨id, hmem⟩
    · exact absurd hused (hnone rfl)
    · exact absurd hused (hnone rfl)
    · have hle := h.timers n id _ ((htimers id _ hmem).resolve_right (by simp))
      omega

/-- **Every action offers values for the instances that they were proposed for.** -/
theorem micro (h : Origins s) (hw : s.WF C) (hcons : Consensus M s) (hcons' : Consensus M t)
    (hcurrent : ∀ type, P.rules.current type) (hst : Micro P s t) : Origins t := by
  obtain ⟨k, E, -, hact, hother, hgrow, -⟩ := hst.newEvents hw
  have hch := hact.proposerChange
  have haccepts : ∀ n i p v, t.proposes n i p v → t.ProposedFor i v := by
    intro n i p v hv
    rw [Sys.proposes_iff] at hv
    by_cases hk : n = k
    · subst hk
      exact (h.accepts_act hw hcons.rounds hcurrent hch hv).grow hgrow
    · rw [hother n hk, ← Sys.proposes_iff] at hv
      exact (h.accepts n i p v hv).grow hgrow
  have hproposal : (t k).isProposing = true →
      t.ProposedFor (t k).instanceId (t k).proposeValue := by
    intro hbusy
    cases hact.proposalChange with
    | same hvalue hold =>
      rw [hvalue, hact.instanceId_of_proposing hbusy]
      exact (h.proposal k (hold hbusy).1).grow hgrow
    | started machineId value context draw hidle hdraw hvalid hrule hy =>
      refine ⟨E.nowMillis, k, ?_⟩
      rw [hy]
      exact List.mem_cons_self
  -- A retry is set for the instance of the proposer, which never falls.
  have htimers : ∀ id i, (id, TimerCallback.retry i) ∈ (t k).timers →
      i ≤ (t k).proposer.instanceId := by
    intro id i hid
    obtain ⟨-, -, -, -, hle⟩ := hch.advances
    obtain ⟨sets, hretries⟩ := hch.retries
    rcases hretries id i hid with hold | ⟨-, rfl⟩
    · exact (h.timers k id i hold).trans hle
    · exact hle
  refine ⟨haccepts, ?_, fun n hin => ?_, ?_⟩
  · exact Sys.forall_of_others
      (Q := fun _ x => x.isProposing = true → t.ProposedFor x.instanceId x.proposeValue) hother
      (fun n _ hbusy => (h.proposal n hbusy).grow hgrow) hproposal
  · by_cases hk : n = k
    · subst hk
      exact h.round_act hw hcons.rounds hcons'.rounds.traced (hcons'.findings n) hcurrent hgrow
        haccepts hch hin
    · have heq := hother n hk
      unfold Sys.InRound Sys.used Sys.sent at hin
      rw [heq] at hin ⊢
      exact (h.round n hin).grow hgrow
  · exact Sys.forall_of_others
      (Q := fun _ x => ∀ id i, (id, TimerCallback.retry i) ∈ x.timers → i ≤ x.proposer.instanceId)
      hother (fun n _ => h.timers n) htimers

/-- A new process has no proposal and no timer. -/
theorem recover {dirs : List (ℕ × Machines)} {a : Acceptor} (h : Origins s)
    (hrec : (s n).Restarts E dirs a y) : Origins (Function.update s n y) := by
  have hgrow := hrec.grows.1
  constructor
  · rintro k i p v ⟨m, ⟨dests, hd⟩, hrest⟩
    have hold := hrec.mem_old_at hd rfl
    exact (h.accepts k i p v ⟨m, ⟨dests, hold⟩, hrest⟩).grow hgrow
  · refine Sys.forall_update (Q := fun _ x => x.isProposing = true →
      Sys.ProposedFor (Function.update s n y) x.instanceId x.proposeValue)
      (fun k hbusy => (h.proposal k hbusy).grow hgrow) fun hbusy => ?_
    rw [hrec.isProposing] at hbusy
    cases hbusy
  · intro k hin
    by_cases hk : k = n
    · subst hk
      unfold Sys.InRound at hin
      rw [Function.update_self, hrec.proposer, hrec.timers] at hin
      rcases hin with ⟨hp, -⟩ | ⟨ha, -⟩ | ⟨id, hid⟩
      · cases hp
      · cases ha
      · cases hid
    · unfold Sys.InRound Sys.used Sys.sent at hin
      rw [Function.update_of_ne hk] at hin ⊢
      exact (h.round k hin).grow hgrow
  · refine Sys.forall_update
      (Q := fun _ x => ∀ id i, (id, TimerCallback.retry i) ∈ x.timers → i ≤ x.proposer.instanceId)
      h.timers ?_
    intro id i hid
    rw [hrec.timers] at hid
    cases hid

theorem init (C : Setup) : Origins (System.init C) := by
  constructor
  · rintro n i p v ⟨m, ⟨dests, hd⟩, -⟩
    cases List.mem_singleton.mp hd
  · intro n hbusy
    cases hbusy
  · rintro n (⟨hp, -⟩ | ⟨ha, -⟩ | ⟨id, hid⟩)
    · cases hp
    · cases ha
    · cases hid
  · intro n id i hid
    cases hid

end Origins

end Skywalker
