import Skywalker.Messages
import Skywalker.Rounds
import Skywalker.Durable

/-!
# The ballots of a proposer

A proposer that is not rejected keeps its proposal id, over time-outs, retries and later proposals
of the same instance. All its `ACCEPT`s of one ballot then have to carry one value, since acceptors
that take them count for one round. `Ballots` is the invariant of a proposer that sees to this. It
is kept as long as a ballot that was in an `ACCEPT` of the instance is used again only by `Prepare`,
while the node's own acceptor still holds that ballot and its value; `NewPropose` does not look at
either.
-/

namespace Skywalker

open TransitionSystem

variable {R : Rules} {E : Env} {net : PaxosMessage → Prop} {x y : Node} {dirs : List (ℕ × Machines)}
  {a : Acceptor} {C : Setup} {i n p : ℕ} {v : PaxosValue} {s : Sys} {new : List PaxosMessage}
  {m : PaxosMessage}

/-! ## What acceptors report -/

/-- The acceptor of a node, and each record of its log, has accepted nothing above its promise. -/
structure Node.Ordered (x : Node) : Prop where
  acceptor : x.acceptor.acceptedBallot ≤ x.acceptor.promisedBallot
  records : ∀ i r, x.db.get i = some r → r.accepted ≤ r.promised

/-- What an acceptor has accepted stays below what it has promised. -/
theorem Node.Ordered.act (h : x.Ordered) (hst : StoreChange R E net x y) : y.Ordered := by
  -- A write of the acceptor puts its own two ballots into the record.
  have hwrite : ∀ {ok : Bool}, y.acceptor.acceptedBallot ≤ y.acceptor.promisedBallot →
      y.db = x.db.write ok y.acceptor.record → y.Ordered := by
    intro ok hacc hdb
    refine ⟨hacc, fun i r hr => ?_⟩
    rw [hdb] at hr
    rcases DB.get_write_cases hr with ⟨-, rfl⟩ | hold
    · exact hacc
    · exact h.records i r hold
  cases hst with
  | same hacc hdb => exact ⟨by rw [hacc]; exact h.acceptor, by rw [hdb]; exact h.records⟩
  | promised m k hm hle hkeep hacc hdb =>
    refine hwrite ?_ hdb
    rw [hacc]
    exact h.acceptor.trans hle
  | accepted m k hm hle hkeep hacc hdb =>
    refine hwrite ?_ hdb
    rw [hacc]
  | learned m hm hmid hballot hacc hdb =>
    exact ⟨by rw [hacc]; exact h.acceptor, by rw [hdb]; exact h.records⟩
  | learnedValue m hm htype hmid hrule hacc hdb =>
    refine ⟨by rw [hacc]; exact h.acceptor, fun i r hr => ?_⟩
    rw [hdb] at hr
    rcases DB.get_put_cases hr with ⟨-, rfl⟩ | hold
    · exact le_refl _
    · exact h.records i r hold
  | executed hl hok hy hacc hdb =>
    refine ⟨?_, by rw [hdb]; exact h.records⟩
    rw [hacc, Acceptor.nextInstance_eq]
    exact BallotNumber.zero_le _
  | cleaned hrule hy hdb hkept hacc =>
    exact ⟨by rw [hacc]; exact h.acceptor, fun i r hr => h.records i r (hdb i r hr)⟩

theorem Node.Ordered.recover (h : x.Ordered) (hrec : x.Restarts E dirs a y) : y.Ordered := by
  refine ⟨?_, by rw [hrec.db_eq]; exact h.records⟩
  rcases hrec.acceptor_cases with ⟨r, hr, hprom, hacc, -⟩ | ⟨-, hacc, -⟩
  · rw [hprom, hacc]
    exact h.records _ r hr
  · rw [hacc]
    exact BallotNumber.zero_le _

/-- A promise reports nothing above the ballot that it promises. -/
structure Reports (s : Sys) : Prop where
  ordered : ∀ a, (s a).Ordered
  reported : ∀ a d r, s.replied a d r → r.type = .prepareReply →
    r.preAccepted ≤ ⟨r.proposalId, d⟩

namespace Reports

/-- What an acceptor has accepted is not above the ballot that it promises in an action. -/
theorem micro {P : Policy} {t : Sys} (h : Reports s) (hw : s.WF C) (hst : Micro P s t) :
    Reports t := by
  obtain ⟨n, E, -, hact, hother, hgrow, hmem⟩ := hst.newEvents hw
  refine ⟨?_, fun a d r hr htype => ?_⟩
  · exact Sys.forall_of_others (Q := fun _ x => x.Ordered) hother (fun a _ => h.ordered a)
      ((h.ordered n).act (hact.storeChange (hw n).1))
  · rcases Sys.replied_cases (hw.nodeId n) hmem a d r hr with hold | ⟨rfl, e, he, hnew⟩
    · exact h.reported a d r hold htype
    · obtain ⟨m, hm, rfl, hcase⟩ := Traced.prepareReply_new hnew he htype
      rcases hcase with ⟨hle, rfl, -⟩ | ⟨-, rfl⟩
      · rw [(Traced.promise_fields m (s a)).2.2.2.1]
        unfold Acceptor.promise
        split_ifs
        · exact ((h.ordered a).acceptor).trans hle
        · exact BallotNumber.zero_le _
      · exact BallotNumber.zero_le _

/-- Recovery keeps the bound on reports. -/
theorem recover (h : Reports s) (hrec : (s n).Restarts E dirs a y) :
    Reports (Function.update s n y) where
  ordered := Sys.forall_update (Q := fun _ x => x.Ordered) h.ordered ((h.ordered n).recover hrec)
  reported k d r hr htype := h.reported k d r (hrec.replied_old hr) htype

theorem init (C : Setup) : Reports (System.init C) := by
  refine ⟨fun a => ⟨le_refl _, fun i r hr => by cases hr⟩, fun a d r hr => ?_⟩
  rcases hr with hr | ⟨-, hr⟩ <;> cases List.mem_singleton.mp hr

end Reports

/-! ## The ids that a node used -/

/-- In an action neither the proposal id nor the instance of a proposer falls, and what it
broadcasts has both. -/
theorem ProposerChange.advances (hch : ProposerChange R E net x y) : ∃ new, Broadcasts x y new ∧
      (∀ m ∈ new, m.proposalId = y.proposer.proposalId ∧ m.instanceId = y.proposer.instanceId) ∧
      x.proposer.proposalId ≤ y.proposer.proposalId ∧
      x.proposer.instanceId ≤ y.proposer.instanceId := by
  cases hch with
  | same hid hpid hmax hval hcnt hprep hacc hskip hmach hsent =>
    exact ⟨[], hsent, by simp, hpid.ge, hid.ge⟩
  | opened z v hstart hrule hrecv hy hsent =>
    obtain ⟨-, -, hprop, -⟩ := hstart.same
    refine ⟨_, hsent, ?_, ?_, ?_⟩
    · intro m hm
      rw [List.mem_singleton.mp hm, hy]
      exact ⟨rfl, rfl⟩
    · rw [hy, ← hprop]
      exact Proposer.le_nextProposalId z.proposer
    · rw [hy, ← hprop]
      exact le_refl _
  | began z v hstart hrule hrecv hy hsent =>
    obtain ⟨-, -, hprop, -⟩ := hstart.same
    have hyid : y.proposer.instanceId = z.proposer.instanceId := by
      rw [hy, Proposer.beginRound_instanceId]
    have hypid : y.proposer.proposalId = z.proposer.nextProposalId := by
      rw [hy, Proposer.beginRound_proposalId]
    refine ⟨_, hsent, ?_, ?_, ?_⟩
    · intro m hm
      rw [List.mem_singleton.mp hm, hyid, hypid]
      exact ⟨rfl, rfl⟩
    · rw [hypid, ← hprop]
      exact Proposer.le_nextProposalId z.proposer
    · rw [hyid, hprop]
  | counted m hm htype hprep hid hcur hy =>
    subst hy
    refine ⟨[], .of_eq rfl, by simp, ?_, ?_⟩ <;> simp
  | passed m hm htype hprep hid hcur hpass hy hsent =>
    subst hy
    refine ⟨_, hsent, ?_, le_refl _, le_refl _⟩
    intro m' hm'
    rw [List.mem_singleton.mp hm']
    exact ⟨rfl, rfl⟩
  | direct hskip hrej hrule hbusy hvalid hy hsent =>
    refine ⟨_, hsent, ?_, ?_, ?_⟩
    · intro m hm
      rw [List.mem_singleton.mp hm]
      exact ⟨rfl, rfl⟩
    · rw [hy]
      exact le_refl _
    · rw [hy]
      exact le_refl _
  | countedAccept m hm htype hacc hid hcur hy =>
    subst hy
    exact ⟨[], .of_eq rfl, by simp, le_refl _, le_refl _⟩
  | passedAccept m hm htype hacc hid hcur hpass hy hsent =>
    subst hy
    refine ⟨_, hsent, ?_, le_refl _, le_refl _⟩
    intro m' hm'
    rw [List.mem_singleton.mp hm']
    exact ⟨rfl, rfl⟩
  | gaveUp m hm hphase hid hcur hy =>
    subst hy
    exact ⟨[], .of_eq rfl, by simp, le_refl _, le_refl _⟩
  | next hl hok hy hsent =>
    subst hy
    exact ⟨[], hsent, by simp, le_refl _, Nat.le_succ _⟩

/-- Every proposal id in a broadcast of the proposer is below the current one, or is the current one
and was used in no later instance. -/
def Node.IdsBelow (x : Node) : Prop :=
  ∀ m dests, .broadcast m dests ∈ x.trace → m.type.isProposers = true →
    m.proposalId < x.proposer.proposalId ∨
      (m.proposalId = x.proposer.proposalId ∧ m.instanceId ≤ x.proposer.instanceId)

namespace Node.IdsBelow

theorem act (h : x.IdsBelow) (hch : ProposerChange R E net x y) : y.IdsBelow := by
  obtain ⟨new, hsent, hnew, hle, hid⟩ := hch.advances
  intro m dests hd ht
  rcases hsent m dests hd with hold | ⟨hmem, -⟩ | hother
  · rcases h m dests hold ht with hlt | ⟨heq, hi⟩
    · exact Or.inl (lt_of_lt_of_le hlt hle)
    · omega
  · obtain ⟨hp, hi⟩ := hnew m hmem
    exact Or.inr ⟨hp, hi.le⟩
  · rw [hother] at ht
    cases ht

theorem recover (hrec : x.Restarts E dirs a y)
    (hfresh : ∀ m dests, .broadcast m dests ∈ x.trace → m.type.isProposers = true →
      m.proposalId ≤ a.promisedBallot.proposalId) : y.IdsBelow := by
  intro m dests hd ht
  rw [hrec.proposer]
  exact Or.inl (Nat.lt_succ_of_le (hfresh m dests (hrec.mem_old hd rfl) ht))

theorem fresh (config : Config) : (Node.fresh config).IdsBelow := by
  intro m dests hd
  cases List.mem_singleton.mp hd

end Node.IdsBelow

/-! ## The values of a ballot -/

/-- The values of the `ACCEPT`s that a node broadcast for an instance and a proposal id. -/
def Node.sentAccepts (x : Node) (i p : ℕ) : List PaxosValue :=
  x.trace.filterMap fun
    | .broadcast m _ =>
      if m.type = .accept ∧ m.instanceId = i ∧ m.proposalId = p then some m.value else none
    | _ => none

/-- A value is in the list when an `ACCEPT` with it was broadcast. -/
theorem Node.mem_sentAccepts :
    v ∈ x.sentAccepts i p ↔ ∃ m dests, .broadcast m dests ∈ x.trace ∧ m.type = .accept ∧
      m.instanceId = i ∧ m.proposalId = p ∧ m.value = v := by
  unfold Node.sentAccepts
  rw [List.mem_filterMap]
  constructor
  · rintro ⟨e, he, hv⟩
    cases e with
    | broadcast m dests =>
      simp only [Option.ite_none_right_eq_some, Option.some.injEq] at hv
      obtain ⟨⟨ht, hi, hp⟩, hv⟩ := hv
      exact ⟨m, dests, he, ht, hi, hp, hv⟩
    | _ => cases hv
  · rintro ⟨m, dests, he, ht, hi, hp, hv⟩
    refine ⟨_, he, ?_⟩
    simp [ht, hi, hp, hv]

theorem Sys.proposes_iff :
    s.proposes n i p v ↔ v ∈ (s n).sentAccepts i p := by
  rw [Node.mem_sentAccepts]
  constructor
  · rintro ⟨m, ⟨dests, hd⟩, hrest⟩
    exact ⟨m, dests, hd, hrest⟩
  · rintro ⟨m, dests, hd, hrest⟩
    exact ⟨m, ⟨dests, hd⟩, hrest⟩

/-- The values after an action, with the broadcasts that it appends. -/
theorem Broadcasts.sentAccepts (h : Broadcasts x y new) (hv : v ∈ y.sentAccepts i p) :
    v ∈ x.sentAccepts i p ∨
      ∃ m ∈ new, m.type = .accept ∧ m.instanceId = i ∧ m.proposalId = p ∧ m.value = v := by
  obtain ⟨m, dests, hd, ht, hrest⟩ := Node.mem_sentAccepts.mp hv
  rcases h m dests hd with hold | ⟨hnew, -⟩ | hother
  · exact Or.inl (Node.mem_sentAccepts.mpr ⟨m, dests, hold, ht, hrest⟩)
  · exact Or.inr ⟨m, hnew, ht, hrest⟩
  · rw [ht] at hother
    cases hother

/-- Whether the ballot of the proposer may be prepared once more: where an `ACCEPT` of the instance
carried it, the node's own acceptor hears the `PREPARE` and still holds the ballot with that
value. -/
def Proposer.HoldsBallot (x : Node) : Prop :=
  ∀ v ∈ x.sentAccepts x.proposer.instanceId x.proposer.proposalId,
    x.learner.isReceivingCheckpoint = false ∧
    x.acceptor.promisedBallot = ⟨x.proposer.proposalId, x.nodeId⟩ ∧
    x.acceptor.acceptedBallot = ⟨x.proposer.proposalId, x.nodeId⟩ ∧ x.acceptor.acceptedValue = v

/-- The condition where `Prepare` is called: without a rejection it uses its ballot again. -/
def Proposer.PreparesSafely (x : Node) : Prop :=
  x.proposer.wasRejectedBySomeone = false → HoldsBallot x

/-- The condition where `Prepare` is skipped: no `ACCEPT` of the instance carried the ballot. -/
def Proposer.SkipsSafely (x : Node) : Prop :=
  x.sentAccepts x.proposer.instanceId x.proposer.proposalId = []

instance (x : Node) : Decidable (Proposer.HoldsBallot x) :=
  inferInstanceAs (Decidable (∀ v ∈ x.sentAccepts _ _, _))

instance (x : Node) : Decidable (Proposer.PreparesSafely x) :=
  inferInstanceAs (Decidable (_ → _))

instance (x : Node) : Decidable (Proposer.SkipsSafely x) :=
  inferInstanceAs (Decidable (_ = _))

/-- The invariant of a proposer's ballots. -/
structure Ballots (x : Node) : Prop where
  /-- The ids that the node used are not above the current one. -/
  ids : x.IdsBelow
  /-- One ballot carries one value. -/
  unique : ∀ i p v w, v ∈ x.sentAccepts i p → w ∈ x.sentAccepts i p → v = w
  /-- A ballot that is prepared once more has its value back, under a report that no other
  exceeds. -/
  preparing : x.proposer.preparing = true →
    ∀ v ∈ x.sentAccepts x.proposer.instanceId x.proposer.proposalId,
      x.proposer.maxBallot = ⟨x.proposer.proposalId, x.nodeId⟩ ∧ x.proposer.value = v
  /-- The value of the second phase is the one that the ballot carries. -/
  accepting : x.proposer.accepting = true →
    ∀ v ∈ x.sentAccepts x.proposer.instanceId x.proposer.proposalId, x.proposer.value = v

namespace Ballots

theorem ids_of_mem (h : Ballots x) (hv : v ∈ x.sentAccepts i p) :
    p < x.proposer.proposalId ∨ (p = x.proposer.proposalId ∧ i ≤ x.proposer.instanceId) := by
  obtain ⟨m, dests, hd, ht, rfl, rfl, -⟩ := Node.mem_sentAccepts.mp hv
  exact h.ids m dests hd (by rw [ht]; rfl)

theorem not_mem_of_lt (h : Ballots x) (hp : x.proposer.proposalId < p) :
    v ∉ x.sentAccepts i p := by
  intro hv
  rcases h.ids_of_mem hv with hlt | ⟨heq, -⟩ <;> omega

theorem not_mem_of_later (h : Ballots x) (hi : x.proposer.instanceId < i) :
    v ∉ x.sentAccepts i x.proposer.proposalId := by
  intro hv
  rcases h.ids_of_mem hv with hlt | ⟨-, hle⟩ <;> omega

/-- Where no `ACCEPT` is broadcast, the values are those of before. -/
theorem sentAccepts_keep (hsent : Broadcasts x y new) (hnone : ∀ m ∈ new, m.type ≠ .accept)
    (hv : v ∈ y.sentAccepts i p) : v ∈ x.sentAccepts i p := by
  rcases hsent.sentAccepts hv with hold | ⟨m, hnew, ht, -⟩
  · exact hold
  · exact absurd ht (hnone m hnew)

/-- The invariant where the proposer stays in its round, or leaves it. -/
theorem of_same (h : Ballots x) (hids : y.IdsBelow) (hnode : y.nodeId = x.nodeId)
    (hsent : Broadcasts x y new) (hnone : ∀ m ∈ new, m.type = .newChosenValue)
    (hid : y.proposer.instanceId = x.proposer.instanceId)
    (hpid : y.proposer.proposalId = x.proposer.proposalId)
    (hprep : y.proposer.preparing = true → x.proposer.preparing = true ∧
      (x.proposer.maxBallot = ⟨x.proposer.proposalId, x.nodeId⟩ →
        y.proposer.maxBallot = x.proposer.maxBallot ∧ y.proposer.value = x.proposer.value))
    (hacc : y.proposer.accepting = true → x.proposer.accepting = true ∧
      y.proposer.value = x.proposer.value) : Ballots y := by
  have hkeep : ∀ {i p v}, v ∈ y.sentAccepts i p → v ∈ x.sentAccepts i p := by
    intro i p v hv
    refine sentAccepts_keep hsent (fun m hm => ?_) hv
    rw [hnone m hm]
    exact fun hne => by cases hne
  refine ⟨hids, ?_, ?_, ?_⟩
  · exact fun i p v w hv hw => h.unique i p v w (hkeep hv) (hkeep hw)
  · intro hy v hv
    rw [hid, hpid] at hv
    obtain ⟨hx, hstay⟩ := hprep hy
    obtain ⟨hmax, hval⟩ := h.preparing hx v (hkeep hv)
    obtain ⟨hmax', hval'⟩ := hstay hmax
    rw [hpid, hnode, hmax', hval', hmax, hval]
    exact ⟨rfl, rfl⟩
  · intro hy v hv
    rw [hid, hpid] at hv
    obtain ⟨hx, hval⟩ := hacc hy
    rw [hval]
    exact h.accepting hx v (hkeep hv)

/-- A reply that reports no ballot above the one that the round already found changes nothing. -/
theorem countPrepareReply_of_le {p : Proposer} (h : m.preAccepted ≤ p.maxBallot) :
    (p.countPrepareReply m).maxBallot = p.maxBallot ∧ (p.countPrepareReply m).value = p.value := by
  unfold Proposer.countPrepareReply
  dsimp only
  rw [if_neg fun hc => absurd hc.2 (not_lt.mpr h)]
  exact ⟨rfl, rfl⟩

/-- The invariant at the start of a round. -/
theorem of_round (h : Ballots x) (hids : y.IdsBelow) (hnode : y.nodeId = x.nodeId)
    (hsent : Broadcasts x y [m]) (htype : m.type = .prepare)
    (hid : y.proposer.instanceId = x.proposer.instanceId)
    (hpid : y.proposer.proposalId = x.proposer.nextProposalId) (hacc : y.proposer.accepting = false)
    (hback : x.proposer.wasRejectedBySomeone = false →
      ∀ v ∈ x.sentAccepts x.proposer.instanceId x.proposer.proposalId,
        y.proposer.maxBallot = ⟨x.proposer.proposalId, x.nodeId⟩ ∧ y.proposer.value = v) :
    Ballots y := by
  have hkeep : ∀ {i p v}, v ∈ y.sentAccepts i p → v ∈ x.sentAccepts i p := by
    intro i p v hv
    refine sentAccepts_keep hsent (fun m' hm' => ?_) hv
    rw [List.mem_singleton.mp hm', htype]
    exact fun hne => by cases hne
  refine ⟨hids, ?_, ?_, ?_⟩
  · exact fun i p v w hv hw => h.unique i p v w (hkeep hv) (hkeep hw)
  · intro _ v hv
    have hold := hkeep hv
    rw [hid] at hold
    cases hrej : x.proposer.wasRejectedBySomeone with
    | false =>
      -- The ballot is used again, and the node's own acceptor gives its value back.
      have hsame : y.proposer.proposalId = x.proposer.proposalId := by
        rw [hpid, Proposer.nextProposalId, Proposer.newRound, hrej]
        rfl
      rw [hsame] at hold ⊢
      rw [hnode]
      exact hback hrej v hold
    | true =>
      -- The id is new, so that no `ACCEPT` carried it.
      have hnew : x.proposer.proposalId < y.proposer.proposalId := by
        rw [hpid, Proposer.nextProposalId, Proposer.newRound, hrej]
        dsimp only
        rw [if_pos rfl]
        split_ifs <;> omega
      exact absurd hold (h.not_mem_of_lt hnew)
  · intro hy
    rw [hacc] at hy
    cases hy

/-- The invariant where an `ACCEPT` is broadcast: no other value may have been proposed with its
ballot. -/
theorem of_accept (h : Ballots x) (hids : y.IdsBelow) (hsent : Broadcasts x y [m])
    (hmi : m.instanceId = x.proposer.instanceId) (hmp : m.proposalId = x.proposer.proposalId)
    (hmv : m.value = y.proposer.value) (hid : y.proposer.instanceId = x.proposer.instanceId)
    (hpid : y.proposer.proposalId = x.proposer.proposalId) (hprep : y.proposer.preparing = false)
    (hone : ∀ v ∈ x.sentAccepts x.proposer.instanceId x.proposer.proposalId, y.proposer.value = v) :
    Ballots y := by
  have hcases : ∀ {i p v}, v ∈ y.sentAccepts i p → v ∈ x.sentAccepts i p ∨
      (i = x.proposer.instanceId ∧ p = x.proposer.proposalId ∧ v = y.proposer.value) := by
    intro i p v hv
    rcases hsent.sentAccepts hv with hold | ⟨m', hm', -, hi, hp, hval⟩
    · exact Or.inl hold
    · obtain rfl := List.mem_singleton.mp hm'
      exact Or.inr ⟨hi ▸ hmi, hp ▸ hmp, hval ▸ hmv⟩
  refine ⟨hids, ?_, ?_, ?_⟩
  · intro i p v w hv hw
    rcases hcases hv with hv | ⟨hi, hp, rfl⟩ <;> rcases hcases hw with hw | ⟨hi', hp', rfl⟩
    · exact h.unique i p v w hv hw
    · subst hi' hp'
      exact (hone v hv).symm
    · subst hi hp
      exact hone w hw
    · rfl
  · intro hy
    rw [hprep] at hy
    cases hy
  · intro _ v hv
    rw [hid, hpid] at hv
    rcases hcases hv with hold | ⟨-, -, rfl⟩
    · exact hone v hold
    · rfl

theorem sentAccepts_congr {z : Node} (h : z.trace = x.trace) : z.sentAccepts = x.sentAccepts := by
  funext i p
  unfold Node.sentAccepts
  rw [h]

/-- The own acceptor gives back the value of a ballot that it still holds. -/
theorem holds_back {z : Node} {w : PaxosValue} (hw : x.WF) (hstart : RoundStart x v z)
    (hrej : x.proposer.wasRejectedBySomeone = false) (hholds : Proposer.HoldsBallot z)
    (hv : w ∈ x.sentAccepts x.proposer.instanceId x.proposer.proposalId) :
    (Proposer.beginRound E v z).proposer.maxBallot = ⟨x.proposer.proposalId, x.nodeId⟩ ∧
      (Proposer.beginRound E v z).proposer.value = w := by
  obtain ⟨htr, hacc, hprop, hconf, -, -, -⟩ := hstart.same
  have hnode : z.nodeId = x.nodeId := by
    unfold Node.nodeId
    rw [hconf]
  have hmem : w ∈ z.sentAccepts z.proposer.instanceId z.proposer.proposalId := by
    rw [sentAccepts_congr htr, hprop]
    exact hv
  obtain ⟨-, hprom, hacc, hval⟩ := hholds w hmem
  have hnext : Proposer.nextBallot z = ⟨z.proposer.proposalId, z.nodeId⟩ := by
    unfold Proposer.nextBallot Proposer.nextProposalId Proposer.newRound
    rw [hprop, hrej]
    rfl
  have hpos : 0 < z.acceptor.acceptedBallot.proposalId := by
    rw [hacc, hprop]
    exact hw.proposalId
  obtain ⟨hvalue, hmax⟩ := Proposer.beginRound_value_of_le E v (x := z)
    (by rw [hprom, hnext]) hpos
  rw [hmax, hvalue, hacc, hval, hprop, hnode]
  exact ⟨rfl, rfl⟩

/-- **Every action keeps the invariant of a proposer's ballots** when the rules see to the two
conditions, and no promise reports a ballot above the one that it answers. -/
theorem act (h : Ballots x) (hw : x.WF) (hch : ProposerChange R E net x y)
    (hnode : y.nodeId = x.nodeId)
    (hprepare : ∀ z, z.nodeId = x.nodeId → R.prepare z → Proposer.PreparesSafely z)
    (hskips : R.skip x → Proposer.SkipsSafely x)
    (hreply : ∀ m, Answered net x m → m.type = .prepareReply →
      m.instanceId = x.proposer.instanceId →
        m.preAccepted ≤ ⟨x.proposer.proposalId, x.nodeId⟩) : Ballots y := by
  have hids := h.ids.act hch
  cases hch with
  | same hid hpid hmax hval hcnt hprep hacc hskip hmach hsent =>
    refine h.of_same hids hnode hsent (by simp) hid hpid ?_ ?_
    · exact fun hy => ⟨hprep hy, fun _ => ⟨hmax, hval⟩⟩
    · exact fun hy => ⟨hacc hy, hval⟩
  | opened z v hstart hrule hrecv hy hsent =>
    obtain ⟨htr, -, hprop, hconf, -, hlearner, -⟩ := hstart.same
    subst hy
    refine h.of_round hids hnode hsent rfl ?_ ?_ rfl ?_
    · rw [← hprop]
      rfl
    · rw [← hprop]
      rfl
    · intro hrej w hw'
      -- While a checkpoint is received the node does not hear itself.
      have hsafe := hprepare z (by unfold Node.nodeId; rw [hconf]) hrule (by rw [hprop]; exact hrej)
      have hmem : w ∈ z.sentAccepts z.proposer.instanceId z.proposer.proposalId := by
        rw [sentAccepts_congr htr, hprop]
        exact hw'
      have hfalse := (hsafe w hmem).1
      rw [hlearner, hrecv] at hfalse
      cases hfalse
  | began z v hstart hrule hrecv hy hsent =>
    obtain ⟨htr, -, hprop, hconf, -, -, -⟩ := hstart.same
    have hyid : y.proposer.instanceId = z.proposer.instanceId := by
      rw [hy, Proposer.beginRound_instanceId]
    have hypid : y.proposer.proposalId = z.proposer.nextProposalId := by
      rw [hy, Proposer.beginRound_proposalId]
    refine h.of_round hids hnode hsent rfl (by rw [hyid, hprop]) (by rw [hypid, hprop]) ?_ ?_
    · rw [hy, Proposer.beginRound_proposer, Proposer.countPrepareReply_accepting]
      rfl
    · intro hrej w hw'
      have hsafe := hprepare z (by unfold Node.nodeId; rw [hconf]) hrule (by rw [hprop]; exact hrej)
      rw [hy]
      exact holds_back hw hstart hrej hsafe hw'
  | counted m hm htype hprep hid hcur hy =>
    subst hy
    have hsent : Broadcasts x { x with proposer := x.proposer.countPrepareReply m } [] := .of_eq rfl
    refine h.of_same hids rfl hsent (by simp) (by simp) (by simp) ?_ ?_
    · intro _
      refine ⟨hprep, fun hmax => countPrepareReply_of_le ?_⟩
      rw [hmax]
      exact hreply m hm htype hid
    · intro hy
      have hacc : x.proposer.accepting = true := by simpa using hy
      rw [hw.phase hprep] at hacc
      cases hacc
  | passed m hm htype hprep hid hcur hpass hy hsent =>
    subst hy
    refine h.of_accept hids hsent rfl rfl rfl rfl rfl rfl ?_
    exact fun v hv => (h.preparing hprep v hv).2
  | direct hskip hrej hrule hbusy hvalid hy hsent =>
    subst hy
    refine h.of_accept hids hsent rfl rfl rfl rfl rfl rfl ?_
    intro v hv
    rw [hskips hrule] at hv
    simp at hv
  | countedAccept m hm htype hacc hid hcur hy =>
    subst hy
    have hsent : Broadcasts x
        { x with proposer := { x.proposer with counter := x.proposer.counter.add m } } [] :=
      .of_eq rfl
    refine h.of_same hids rfl hsent (by simp) rfl rfl ?_ ?_
    · exact fun hy => ⟨hy, fun _ => ⟨rfl, rfl⟩⟩
    · exact fun _ => ⟨hacc, rfl⟩
  | passedAccept m hm htype hacc hid hcur hpass hy hsent =>
    subst hy
    refine h.of_same hids rfl hsent (by simp [Proposer.newChosenMessage]) rfl rfl ?_ ?_
    · exact fun hy => ⟨hy, fun _ => ⟨rfl, rfl⟩⟩
    · intro hy
      cases hy
  | gaveUp m hm hphase hid hcur hy =>
    subst hy
    have hsent : Broadcasts x (Proposer.giveUp x) [] := .of_eq rfl
    refine h.of_same hids rfl hsent (by simp) rfl rfl ?_ ?_ <;> (intro hy; cases hy)
  | next hl hok hy hsent =>
    -- Nothing was proposed yet in the next instance with the current id.
    have hid : y.proposer.instanceId = x.proposer.instanceId + 1 := by rw [hy]; rfl
    have hpid : y.proposer.proposalId = x.proposer.proposalId := by rw [hy]; rfl
    have hkeep : ∀ {i p v}, v ∈ y.sentAccepts i p → v ∈ x.sentAccepts i p :=
      fun hv => sentAccepts_keep hsent (by simp) hv
    have hnone : ∀ v, v ∉ y.sentAccepts y.proposer.instanceId y.proposer.proposalId := by
      intro v hv
      have hold := hkeep hv
      rw [hpid] at hold
      exact h.not_mem_of_later (by omega) hold
    refine ⟨hids, ?_, ?_, ?_⟩
    · exact fun i p v w hv hw => h.unique i p v w (hkeep hv) (hkeep hw)
    · exact fun _ v hv => absurd hv (hnone v)
    · exact fun _ v hv => absurd hv (hnone v)

/-! ## In the system -/

/-- No reply that can be counted reports a ballot above the proposer's. -/
theorem reply_le (h : Ballots (s n)) (htr : Traced s) (hrep : Reports s) (hn : (s n).nodeId = n)
    (hm : Answered (s.Network n) (s n) m) (htype : m.type = .prepareReply) :
    m.preAccepted ≤ ⟨(s n).proposer.proposalId, (s n).nodeId⟩ := by
  have hreply := htr.replied_of_answered hm (Or.inl htype)
  obtain ⟨m', ⟨dests, hd⟩, ht, -, hp⟩ := (htr.prepareReply _ _ _ hreply htype).1.used
  have hid : m.proposalId ≤ (s n).proposer.proposalId := by
    rcases h.ids m' dests hd (by rw [ht]; rfl) with hlt | ⟨heq, -⟩ <;> omega
  refine (hrep.reported _ _ _ hreply htype).trans ?_
  rw [hn, BallotNumber.le_iff]
  dsimp only
  omega

/-- Every action of the system keeps the invariant of a node whose actions meet the conditions. -/
theorem micro {P : Policy} {t : Sys} (h : Ballots (s n)) (hw : s.WF C) (htr : Traced s)
    (hrep : Reports s) (hst : Micro P s t)
    (hprepare : ∀ z, z.nodeId = n → P.rules.prepare z → Proposer.PreparesSafely z)
    (hskips : ∀ z, z.nodeId = n → P.rules.skip z → Proposer.SkipsSafely z) : Ballots (t n) := by
  obtain ⟨k, E, -, hact, hother, -, -⟩ := hst.newEvents hw
  by_cases hk : n = k
  · subst hk
    have hn := hw.nodeId n
    have hnode : (t n).nodeId = (s n).nodeId := by
      unfold Node.nodeId
      rw [hact.config_eq]
    refine h.act (hw n).1 hact.proposerChange hnode ?_ (hskips _ hn) ?_
    · exact fun z hz => hprepare z (hz.trans hn)
    · exact fun m hm htype _ => h.reply_le htr hrep hn hm htype
  · rw [hother n hk]
    exact h

theorem fresh (config : Config) : Ballots (Node.fresh config) := by
  have hnone : ∀ i p v, v ∉ (Node.fresh config).sentAccepts i p := by
    intro i p v hv
    obtain ⟨m, dests, hd, -⟩ := Node.mem_sentAccepts.mp hv
    cases List.mem_singleton.mp hd
  refine ⟨.fresh config, ?_, ?_, ?_⟩
  · exact fun i p v w hv => absurd hv (hnone i p v)
  · exact fun _ v hv => absurd hv (hnone _ _ v)
  · exact fun _ v hv => absurd hv (hnone _ _ v)

/-- The ballots of a process that starts above every id that the node used. -/
theorem recover (h : Ballots x) (hrec : x.Restarts E dirs a y)
    (hfresh : ∀ m dests, .broadcast m dests ∈ x.trace → m.type.isProposers = true →
      m.proposalId ≤ a.promisedBallot.proposalId) : Ballots y := by
  have hkeep : ∀ {i p v}, v ∈ y.sentAccepts i p → v ∈ x.sentAccepts i p := by
    intro i p v hv
    obtain ⟨m, dests, hd, hrest⟩ := Node.mem_sentAccepts.mp hv
    exact Node.mem_sentAccepts.mpr ⟨m, dests, hrec.mem_old hd rfl, hrest⟩
  refine ⟨.recover hrec hfresh, ?_, ?_, ?_⟩
  · exact fun i p v w hv hw => h.unique i p v w (hkeep hv) (hkeep hw)
  · intro hy
    rw [hrec.proposer] at hy
    cases hy
  · intro hy
    rw [hrec.proposer] at hy
    cases hy

end Ballots

/-! ## One value per ballot -/

theorem SameRound.sentAccepts (h : SameRound x y) :
    v ∈ y.sentAccepts i p ↔ v ∈ x.sentAccepts i p := by
  simp only [Node.mem_sentAccepts, h.broadcast]

/-- The condition of `Prepare` does not depend on the proposal. -/
theorem SameRound.preparesSafely (h : SameRound x y) (hx : Proposer.PreparesSafely x) :
    Proposer.PreparesSafely y := by
  have hnode : y.nodeId = x.nodeId := by
    unfold Node.nodeId
    rw [h.config]
  intro hrej v hv
  rw [h.proposer, h.sentAccepts] at hv
  rw [h.proposer] at hrej ⊢
  rw [h.acceptor, h.learner, hnode]
  exact hx hrej v hv

theorem SameRound.skipsSafely (h : SameRound x y) (hx : Proposer.SkipsSafely x) :
    Proposer.SkipsSafely y := by
  unfold Proposer.SkipsSafely at hx ⊢
  rw [List.eq_nil_iff_forall_not_mem] at hx ⊢
  intro v hv
  rw [h.proposer, h.sentAccepts] at hv
  exact hx v hv

/-- Whether an event reuses no ballot with another value. -/
def Node.reusesSafely (E : Env) (x : Node) (ev : NodeEvent) : Bool :=
  match x.roundKind E ev with
  | .prepare => decide (Proposer.PreparesSafely x)
  | .accept => decide (Proposer.SkipsSafely x)
  | .none => true

/-- The condition on a step: the node `n` does not restart, and where one of its events starts a
round it reuses no ballot with another value. The other nodes are free. -/
def ReusesSafely (n : ℕ) (s : Sys) (a : Env × Label) : Bool :=
  match a.2 with
  | .node k ev => k ≠ n || (s n).reusesSafely a.1 ev
  | .restart k => k ≠ n
  | .install k _ _ => k ≠ n

/-- The policy of such runs. -/
def Policy.reusesSafely (n : ℕ) : Policy where
  rules :=
    { prepare := fun x => x.nodeId = n → Proposer.PreparesSafely x
      skip := fun x => x.nodeId = n → Proposer.SkipsSafely x }
  restart _ k := k ≠ n
  install _ k _ _ := k ≠ n

/-- The test on the events gives what the policy asks of the actions. -/
theorem Policy.reusesSafely_permits {a : Env × Label} (hw : s.WF C)
    (h : ReusesSafely n s a = true) : (Policy.reusesSafely n).Permits s a := by
  obtain ⟨E, l⟩ := a
  refine ⟨trivial, ?_⟩
  cases l with
  | restart k | install k source c => exact (of_decide_eq_true h : k ≠ n)
  | node k ev =>
    intro hallowed
    -- An event that starts no round of the node `n` is free.
    have hcond : ∀ y, SameRound (s k) y → y.nodeId = n →
        k = n ∧ (s n).reusesSafely E ev = true := by
      intro y hy hyn
      have hk : k = n := by
        rw [← hyn]
        unfold Node.nodeId
        rw [hy.config]
        exact (hw.nodeId k).symm
      simpa [ReusesSafely, hk] using h
    refine Rules.allows_of (fun _ _ _ _ _ => trivial) (fun _ _ => trivial) ?_ ?_ ?_
      (fun _ => trivial) fun _ => trivial
    · intro hkind y hy
      refine ⟨fun hyn => ?_, fun hk => hk.elim⟩
      obtain ⟨rfl, hsafe⟩ := hcond y hy hyn
      rw [Node.reusesSafely, hkind] at hsafe
      exact hy.preparesSafely (of_decide_eq_true hsafe)
    · intro hkind y hy
      refine ⟨fun hyn => ?_, fun hk => hk.elim⟩
      obtain ⟨rfl, hsafe⟩ := hcond y hy hyn
      rw [Node.reusesSafely, hkind] at hsafe
      exact hy.skipsSafely (of_decide_eq_true hsafe)
    · rintro m rfl
      refine ⟨hallowed, fun hrecv => ?_⟩
      exact Rules.messageOk_of_free (fun _ => id) id trivial

/-- **One value per ballot.** In every run in which the node `n` does not restart and reuses a
ballot only where its own acceptor still holds it, all the `ACCEPT`s of the node for one instance
and one proposal id carry the same value. -/
theorem one_value_per_ballot {C : Setup} {n : ℕ} {s : Sys}
    (hrun : Reaches System.step (fun s a => ReusesSafely n s a = true) (System.init C) s)
    {m m' : PaxosMessage} {dests dests' : List ℕ} (hm : .broadcast m dests ∈ (s n).trace)
    (hm' : .broadcast m' dests' ∈ (s n).trace) (htype : m.type = .accept)
    (htype' : m'.type = .accept) (hinstance : m.instanceId = m'.instanceId)
    (hproposal : m.proposalId = m'.proposalId) : m.value = m'.value := by
  have hinv : Traced s ∧ Reports s ∧ Ballots (s n) := by
    refine (Policy.invariant (P := Policy.reusesSafely n)
      (I := fun s => Traced s ∧ Reports s ∧ Ballots (s n)) hrun ?_ ?_ ?_ ?_).2
    · exact ⟨.init C, .init C, .fresh _⟩
    · exact fun s a hw _ hok => Policy.reusesSafely_permits hw hok
    · rintro s t hw ⟨htr, hrep, hb⟩ hst
      exact ⟨htr.micro hw hst, hrep.micro hw hst, hb.micro hw htr hrep hst
        (fun z hz hrule => hrule hz) fun z hz hrule => hrule hz⟩
    · rintro s k E dirs a y hw ⟨htr, hrep, hb⟩ - hwhy hrec
      have hk : k ≠ n := by
        rcases hwhy with ⟨hk, -⟩ | ⟨source, c, saved, hk, -⟩ <;> exact hk
      refine ⟨htr.recover hrec.grows.1 hrec.grows.2, hrep.recover hrec, ?_⟩
      rw [Function.update_of_ne hk.symm]
      exact hb
  refine hinv.2.2.unique m.instanceId m.proposalId m.value m'.value ?_ ?_
  · exact Node.mem_sentAccepts.mpr ⟨m, dests, hm, htype, rfl, rfl, rfl⟩
  · exact Node.mem_sentAccepts.mpr ⟨m', dests', hm', htype', hinstance.symm, hproposal.symm, rfl⟩

/-- Node 1 of a group of three gets its first value into an `ACCEPT`: it proposes, node 2 promises,
and the promise arrives. -/
def firstAccept : List (Env × Label) :=
  [({}, .node 1 (.propose 7 [1] none 256)),
   ({}, .node 2 (.paxosMessage
      { type := .prepare, nodeId := 1, instanceId := 1, proposalId := 1 })),
   ({}, .node 1 (.paxosMessage
     { type := .prepareReply, nodeId := 2, instanceId := 1, proposalId := 1 }))]

/-- The value of that `ACCEPT`. -/
def firstValue : PaxosValue := { valueId := 257, machineId := 7, userData := [1] }

/-- The retry timer fires while the replies to the `ACCEPT` are out, and the promise of node 2
arrives once more: the ballot is prepared and accepted a second time. -/
def acceptTwice : List (Env × Label) := firstAccept ++
  ([({}, .node 1 (.timer 3)),
    ({}, .node 1 (.paxosMessage
      { type := .prepareReply, nodeId := 2, instanceId := 1, proposalId := 1 }))] :
    List (Env × Label))

/-- Two `ACCEPT`s with the ballot `(1, 1)`, and both carry the first value. -/
theorem one_value_per_ballot_retry : ∃ s m m' dests dests',
    Reaches System.step (fun s a => ReusesSafely 1 s a = true)
      (System.init (.uniform trioMember)) s ∧
    (s 1).sentAccepts 1 1 = [firstValue, firstValue] ∧
    .broadcast m dests ∈ (s 1).trace ∧ .broadcast m' dests' ∈ (s 1).trace ∧
    m.type = .accept ∧ m'.type = .accept ∧ m.instanceId = m'.instanceId ∧
    m.proposalId = m'.proposalId ∧ m.value = m'.value := by
  have hend : (runChecked System.step (ReusesSafely 1) (System.init (.uniform trioMember))
      acceptTwice).map (fun s => (s 1).sentAccepts 1 1) = some [firstValue, firstValue] := by
    decide +kernel
  obtain ⟨s, hs, hsent⟩ := Option.map_eq_some_iff.mp hend
  have hrun : Reaches System.step (fun s a => ReusesSafely 1 s a = true)
      (System.init (.uniform trioMember)) s :=
    Reaches.of_runChecked acceptTwice (fun _ _ _ h => h) hs
  obtain ⟨m, dests, hd, ht, hi, hp, -⟩ := Node.mem_sentAccepts.mp
    (show firstValue ∈ (s 1).sentAccepts 1 1 by rw [hsent]; simp)
  exact ⟨s, m, m, dests, dests, hrun, hsent, hd, hd, ht, ht, rfl, rfl,
    one_value_per_ballot hrun hd hd ht ht rfl rfl⟩

/-- The proposal times out, and the next proposal of the node skips `Prepare`. -/
def acceptAnother : List (Env × Label) := firstAccept ++
  ([({}, .node 1 (.timer 1)), ({}, .node 1 (.propose 7 [2] none 256))] : List (Env × Label))

/-- Two `ACCEPT`s with the ballot `(1, 1)` carry different values. -/
theorem two_values_under_one_ballot : ∃ s v w,
    run System.step (System.init (.uniform trioMember)) acceptAnother = some s ∧
    v ∈ (s 1).sentAccepts 1 1 ∧ w ∈ (s 1).sentAccepts 1 1 ∧ v ≠ w := by
  have hend : (run System.step (System.init (.uniform trioMember)) acceptAnother).map
      (fun s => (s 1).sentAccepts 1 1) =
        some [{ valueId := 258, machineId := 7, userData := [2] }, firstValue] := by
    decide +kernel
  obtain ⟨s, hs, hsent⟩ := Option.map_eq_some_iff.mp hend
  refine ⟨s, { valueId := 258, machineId := 7, userData := [2] }, firstValue, hs, ?_, ?_, ?_⟩
  · rw [hsent]
    exact List.mem_cons_self
  · rw [hsent]
    exact List.mem_cons_of_mem _ List.mem_cons_self
  · decide

end Skywalker
