import Skywalker.Ballots
import Skywalker.Members

/-!
# Quorums

`Counter` keeps the nodes that answered, not what they answered to. A promise that counts for the
round belongs to the round's ballot only if its `proposal_id` is the proposer's, which
`OnPrepareReply` and `OnAccpetReply` do not look at. Where every counted reply has the current id,
the counted nodes are members that promised the ballot, or accepted it with the proposer's value, in
the current instance.
-/

namespace Skywalker

open TransitionSystem

variable {x y z : Node} {a k n : ℕ} {new : List PaxosMessage} {R : Rules} {E : Env}
  {dirs : List (ℕ × Machines)} {m : PaxosMessage} {s t : Sys} {type : PaxosMessageType} {C : Setup}
  {P : Policy} {M : Finset ℕ} {e : Event} {net : PaxosMessage → Prop} {members : ℕ → Finset ℕ}

/-! ## Who is asked -/

/-- Why a node takes part in a round of its instance: it starts one, it has checked that it is a
member, or a reply to it has arrived. -/
def Engaged (net : PaxosMessage → Prop) (x : Node) : Prop :=
  (∃ z v, RoundStart x v z) ∨ x.isValidNodeId x.nodeId = true ∨
    ∃ r, Answered net x r ∧ (r.type = .prepareReply ∨ r.type = .acceptReply) ∧
      r.instanceId = x.proposer.instanceId

/-- A new broadcast of the proposer goes to the other members, at the node's instance. -/
theorem NewEvent.proposers_broadcast {dests : List ℕ}
    (h : NewEvent R E net x y (.broadcast m dests)) (htype : m.type.isProposers = true) :
    dests = x.others x.memberIds ∧ m.instanceId = x.proposer.instanceId ∧ Engaged net x := by
  generalize he : Event.broadcast m dests = e at h
  cases h with
  | quiet hq =>
    subst he
    have hm : m.type = .askForLearn := by simpa [Event.isQuiet] using hq
    rw [hm] at htype
    cases htype
  | prepare hstart =>
    obtain ⟨rfl, rfl⟩ := Event.broadcast.inj he
    refine ⟨rfl, ?_, .inl ⟨_, _, hstart⟩⟩
    rw [← hstart.same.2.2.1]
    rfl
  | prepareReply _ _ hr | acceptReply _ _ hr => rcases hr with ⟨rfl, -⟩ | ⟨rfl, -⟩ <;> cases he
  | accept hm ht _ hid =>
    obtain ⟨rfl, rfl⟩ := Event.broadcast.inj he
    exact ⟨rfl, rfl, .inr (.inr ⟨_, hm, .inl ht, hid⟩)⟩
  | directAccept _ _ _ _ hvalid hy =>
    obtain ⟨rfl, rfl⟩ := Event.broadcast.inj he
    refine ⟨rfl, ?_, .inr (.inl hvalid)⟩
    rw [hy]
    rfl
  | newChosenValue hm ht _ hid =>
    obtain ⟨rfl, rfl⟩ := Event.broadcast.inj he
    exact ⟨rfl, rfl, .inr (.inr ⟨_, hm, .inr ht, hid⟩)⟩
  | toFollowers =>
    obtain ⟨rfl, rfl⟩ := Event.broadcast.inj he
    cases htype
  | _ => cases he

/-- A new retry timer is for the node's instance. -/
theorem ProposerChange.new_retry (h : ProposerChange R E net x y) {id i : ℕ}
    (hid : (id, TimerCallback.retry i) ∈ y.timers) :
    (id, TimerCallback.retry i) ∈ x.timers ∨ (i = x.proposer.instanceId ∧ Engaged net x) := by
  have hset : ∀ {b : Bool}, Retries x y b → (b = true → Engaged net x) →
      (id, TimerCallback.retry i) ∈ x.timers ∨ (i = x.proposer.instanceId ∧ Engaged net x) :=
    fun hr hwhy => (hr id i hid).imp_right fun hnew => ⟨hnew.2, hwhy hnew.1⟩
  have hkeep : y.timers = x.timers → (id, TimerCallback.retry i) ∈ x.timers := fun heq => heq ▸ hid
  cases h with
  | same _ _ _ _ _ _ _ _ _ _ htimers => exact hset htimers nofun
  | opened z v hstart _ _ _ _ htimers | began z v hstart _ _ _ _ htimers =>
    exact hset htimers fun _ => .inl ⟨z, v, hstart⟩
  | counted m _ _ _ _ _ hy => exact .inl (hkeep (by rw [hy]))
  | passed m hm ht _ hi _ _ _ _ htimers =>
    exact hset htimers fun _ => .inr (.inr ⟨m, hm, .inl ht, hi⟩)
  | direct _ _ _ _ hvalid _ _ htimers => exact hset htimers fun _ => .inr (.inl hvalid)
  | countedAccept m _ _ _ _ _ hy => exact .inl (hkeep (by rw [hy]))
  | passedAccept m _ _ _ _ _ _ _ _ htimers => exact hset htimers nofun
  | gaveUp m hm hphase hi _ _ htimers =>
    exact hset htimers fun _ => .inr (.inr ⟨m, hm, hphase.imp And.left And.left, hi⟩)
  | next _ _ _ _ htimers => exact hset htimers nofun

/-- A reply that reaches a node answers a broadcast that it made for the instance. -/
theorem Traced.broadcast_of_answered (h : Traced s) {r : PaxosMessage}
    (hr : Answered (s.Network n) (s n) r) (htype : r.type = .prepareReply ∨ r.type = .acceptReply) :
    ∃ m dests, .broadcast m dests ∈ (s n).trace ∧ m.type.isProposers = true ∧
      m.instanceId = r.instanceId := by
  have hreply := h.replied_of_answered hr htype
  rcases htype with ht | ht
  · obtain ⟨m, ⟨dests, hd⟩, hm, hi, -⟩ := (h.prepareReply _ _ _ hreply ht).1.used
    exact ⟨m, dests, hd, by rw [hm]; rfl, hi⟩
  · obtain ⟨v, hoffer, -⟩ := h.acceptReply _ _ _ hreply ht
    obtain ⟨m, ⟨dests, hd⟩, hm, hi, -⟩ := hoffer.asked.used
    exact ⟨m, dests, hd, by rw [hm]; rfl, hi⟩

theorem Node.others_toFinset (x : Node) (l : List ℕ) :
    (x.others l).toFinset = l.toFinset.erase x.nodeId := by
  ext a
  simp [Node.others, and_comm]

/-- Every node has the members of its instance. -/
def Sys.HasMembers (members : ℕ → Finset ℕ) (s : Sys) : Prop :=
  ∀ n, (s n).memberIds.toFinset = members (s n).instanceId

/-- The proposers' broadcasts of an instance go to its other members, and the node that makes them
is a member. So is a node that waits for a retry timer of the instance. -/
structure Sys.AsksMembers (members : ℕ → Finset ℕ) (s : Sys) : Prop where
  asked : ∀ n m dests, .broadcast m dests ∈ (s n).trace → m.type.isProposers = true →
    n ∈ members m.instanceId ∧ dests.toFinset = (members m.instanceId).erase n
  retry : ∀ n id i, (id, TimerCallback.retry i) ∈ (s n).timers → n ∈ members i

namespace Sys.AsksMembers

theorem mem_of_asked {i p : ℕ} (h : s.AsksMembers members) (htype : type.isProposers = true)
    (ha : s.asked n a type i p) : a ∈ members i := by
  obtain ⟨m, ⟨dests, hd, hmem⟩, ht, rfl, -⟩ := ha
  obtain ⟨hself, hdests⟩ := h.asked n m dests hd (by rw [ht]; exact htype)
  rcases hmem with hmem | rfl
  · exact Finset.mem_of_mem_erase (hdests ▸ List.mem_toFinset.mpr hmem)
  · exact hself

/-- A node that takes part in a round is a member. -/
theorem mem_of_engaged (h : s.AsksMembers members) (hin : s.HasMembers members) (hw : s.WF C)
    (htr : Traced s) (hwhy : Engaged (s.Network n) (s n)) :
    n ∈ members (s n).proposer.instanceId := by
  have hvalid : (s n).isValidNodeId (s n).nodeId = true →
      n ∈ members (s n).proposer.instanceId := by
    intro hv
    have hmem : (s n).nodeId ∈ (s n).memberIds := of_decide_eq_true hv
    rw [hw.nodeId n] at hmem
    rwa [(hw n).1.proposerId, ← hin n, List.mem_toFinset]
  rcases hwhy with ⟨z, v, ⟨-, -, -, hv⟩ | ⟨id, hid, -, -⟩⟩ | hv | ⟨r, hr, htype, hid⟩
  · exact hvalid hv
  · exact h.retry n id _ hid
  · exact hvalid hv
  · obtain ⟨m, dests, hd, hm, hi⟩ := htr.broadcast_of_answered hr htype
    rw [← hid, ← hi]
    exact (h.asked n m dests hd hm).1

/-- A round is broadcast to the members that the node has then. -/
theorem micro (h : s.AsksMembers members) (hin : s.HasMembers members) (hw : s.WF C)
    (htr : Traced s) (hst : Micro P s t) : t.AsksMembers members := by
  obtain ⟨n, E, -, hact, hother, -, hmem⟩ := hst.newEvents hw
  constructor
  · intro k m dests hd htype
    rcases hmem k _ hd with hold | ⟨rfl, hnew⟩
    · exact h.asked k m dests hold htype
    · obtain ⟨rfl, hid, hwhy⟩ := hnew.proposers_broadcast htype
      rw [hid]
      refine ⟨h.mem_of_engaged hin hw htr hwhy, ?_⟩
      rw [Node.others_toFinset, hin k, (hw k).1.proposerId, hw.nodeId k]
  · refine Sys.forall_of_others
      (Q := fun k x => ∀ id i, (id, TimerCallback.retry i) ∈ x.timers → k ∈ members i) hother
      (fun k _ => h.retry k) fun id i hid => ?_
    rcases hact.proposerChange.new_retry hid with hold | ⟨rfl, hwhy⟩
    · exact h.retry n id i hold
    · exact h.mem_of_engaged hin hw htr hwhy

theorem recover {a : Acceptor} (h : s.AsksMembers members) (hrec : (s n).Restarts E dirs a y) :
    Sys.AsksMembers members (Function.update s n y) := by
  constructor
  · intro k m dests hd htype
    exact h.asked k m dests (hrec.mem_old_at hd rfl) htype
  · refine Sys.forall_update
      (Q := fun k x => ∀ id i, (id, TimerCallback.retry i) ∈ x.timers → k ∈ members i) h.retry ?_
    intro id i hid
    rw [hrec.timers] at hid
    cases hid

theorem init (C : Setup) : (System.init C).AsksMembers members where
  asked n m dests hd := by cases List.mem_singleton.mp hd
  retry n id i hid := by cases hid

end Sys.AsksMembers

/-! ## Who is counted -/

/-- A node in the counter was there before or is the sender of a reply that rejects nothing. -/
theorem Counter.mem_add {c : Counter} (h : a ∈ (c.add m).promisorsOrAcceptors) :
    a ∈ c.promisorsOrAcceptors ∨ (a = m.nodeId ∧ m.rejectedId = 0) := by
  unfold Counter.add at h
  dsimp only at h
  split_ifs at h with hrej
  · rcases Finset.mem_insert.mp h with rfl | hold
    · exact Or.inr ⟨rfl, hrej⟩
    · exact Or.inl hold
  · exact Or.inl h

/-- In the first phase of a round, the nodes that the counter of `n` holds are members of the
instance that promised the ballot of the round. -/
def Promisors (members : ℕ → Finset ℕ) (s : Sys) (n : ℕ) : Prop :=
  (s n).proposer.preparing = true →
    s.used n .prepare (s n).proposer.instanceId (s n).proposer.proposalId →
    ∀ a ∈ (s n).proposer.counter.promisorsOrAcceptors, a ∈ members (s n).proposer.instanceId ∧
      .promised (s n).proposer.instanceId ⟨(s n).proposer.proposalId, n⟩ ∈ (s a).trace

/-- In the second phase, they are members that accepted the value of the round under its ballot. -/
def Acceptors (members : ℕ → Finset ℕ) (s : Sys) (n : ℕ) : Prop :=
  (s n).proposer.accepting = true →
    s.used n .accept (s n).proposer.instanceId (s n).proposer.proposalId →
    ∀ a ∈ (s n).proposer.counter.promisorsOrAcceptors, a ∈ members (s n).proposer.instanceId ∧
      .accepted (s n).proposer.instanceId ⟨(s n).proposer.proposalId, n⟩ (s n).proposer.value ∈
        (s a).trace

/-- A proposal id that was used in the current instance only is not used in the next. -/
theorem Node.IdsBelow.not_used {i : ℕ} (h : (s n).IdsBelow) (htype : type.isProposers = true)
    (hi : (s n).proposer.instanceId < i) :
    ¬ s.used n type i (s n).proposer.proposalId := by
  rintro ⟨m, ⟨dests, hd⟩, ht, hmi, hmp⟩
  rcases h m dests hd (by rw [ht]; exact htype) with hlt | ⟨-, hle⟩ <;> omega

/-- What a broadcast of the proposer was used for before the action. -/
theorem Broadcasts.used {i p : ℕ} (h : Broadcasts (s n) (t n) new) (htype : type.isProposers = true)
    (hnew : ∀ m ∈ new, m.type ≠ type) (hused : t.used n type i p) : s.used n type i p := by
  obtain ⟨m, ⟨dests, hd⟩, ht, hrest⟩ := hused
  rcases h m dests hd with hold | ⟨hmem, -⟩ | hother
  · exact ⟨m, ⟨dests, hold⟩, ht, hrest⟩
  · exact absurd ht (hnew m hmem)
  · rw [ht, htype] at hother
    cases hother

/-- The own promise at the start of a round. -/
theorem Proposer.beginRound_promised (E : Env) (v : PaxosValue)
    (h : z.acceptor.promisedBallot ≤ nextBallot z) :
    .promised z.proposer.instanceId (nextBallot z) ∈ (beginRound E v z).trace :=
  List.mem_cons_of_mem _ (Acceptor.takePrepare_of_le (E := E)
    (m := prepareMessage (openRound v z)) (x := openRound v z) h).2.2

/-- At the start of a round, at most the node's own reply is counted, which is then a promise. -/
theorem RoundStart.counted_own {v : PaxosValue} (hstart : RoundStart x v z) (hn : x.nodeId = n)
    (hpos : 1 ≤ x.proposer.proposalId)
    (ha : a ∈ (Proposer.beginRound E v z).proposer.counter.promisorsOrAcceptors) :
    a = n ∧ .promised (Proposer.beginRound E v z).proposer.instanceId
      ⟨(Proposer.beginRound E v z).proposer.proposalId, n⟩ ∈ (Proposer.beginRound E v z).trace := by
  obtain ⟨-, -, hprop, hconf, -, -, -⟩ := hstart.same
  have hz : z.nodeId = n := by
    unfold Node.nodeId
    rw [hconf]
    exact hn
  have hround := Proposer.beginRound_proposer E v z
  rw [hround, Proposer.countPrepareReply_counter] at ha
  rcases Counter.mem_add ha with hempty | ⟨rfl, hrej⟩
  · cases hempty
  · have hle := (Proposer.ownReply_rejectedId E v (hprop ▸ hpos)).mp hrej
    obtain ⟨-, hself, -, -⟩ := Acceptor.takePrepare_reply E
      (Proposer.prepareMessage (Proposer.openRound v z)) (Proposer.openRound v z)
    have hpromise := Proposer.beginRound_promised E v hle
    rw [Proposer.nextBallot, hz] at hpromise
    rw [hround, Proposer.countPrepareReply_instanceId, Proposer.countPrepareReply_proposalId]
    exact ⟨hself.trans hz, hself.trans hz ▸ hpromise⟩

/-- How the first phase of a round is reached in an action: it goes on, it starts, or a reply is
counted. -/
theorem ProposerChange.preparing_cases (hch : ProposerChange R E (s.Network n) (s n) (t n))
    (hw : (s n).WF)
    (hnext : ¬ s.used n .prepare ((s n).proposer.instanceId + 1) (s n).proposer.proposalId)
    (hprep : (t n).proposer.preparing = true)
    (hused : t.used n .prepare (t n).proposer.instanceId (t n).proposer.proposalId) :
    ((s n).proposer.preparing = true ∧
      s.used n .prepare (s n).proposer.instanceId (s n).proposer.proposalId ∧
      (t n).proposer.instanceId = (s n).proposer.instanceId ∧
      (t n).proposer.proposalId = (s n).proposer.proposalId ∧
      (t n).proposer.maxBallot = (s n).proposer.maxBallot ∧
      (t n).proposer.value = (s n).proposer.value ∧
      (t n).proposer.counter = (s n).proposer.counter) ∨
    (∃ z v, RoundStart (s n) v z ∧ t n = Proposer.openRound v z) ∨
    (∃ z v, RoundStart (s n) v z ∧ t n = Proposer.beginRound E v z) ∨
    (∃ m, Answered (s.Network n) (s n) m ∧ m.type = .prepareReply ∧
      (s n).proposer.preparing = true ∧ m.instanceId = (s n).proposer.instanceId ∧
      (R.current m.type → m.proposalId = (s n).proposer.proposalId) ∧
      t n = { s n with proposer := (s n).proposer.countPrepareReply m }) := by
  have hphase : (s n).proposer.accepting = true → ¬ (s n).proposer.preparing = true := by
    intro hacc hp
    rw [hw.not_preparing hacc] at hp
    cases hp
  cases hch with
  | same hid hpid hmax hval hcnt hprep' hacc hskip hmach hsent =>
    rw [hid, hpid] at hused
    exact Or.inl ⟨hprep' hprep, hsent.used rfl (by simp) hused, hid, hpid, hmax, hval, hcnt⟩
  | opened z v hstart hrule hrecv hy => exact Or.inr (Or.inl ⟨z, v, hstart, hy⟩)
  | began z v hstart hrule hrecv hy => exact Or.inr (Or.inr (Or.inl ⟨z, v, hstart, hy⟩))
  | counted m hm htype hprep' hid hcur hy =>
    exact Or.inr (Or.inr (Or.inr ⟨m, hm, htype, hprep', hid, hcur, hy⟩))
  | passed m hm htype hprep' hid hcur hpass hy | direct hskip hrej hrule hbusy hvalid hy =>
    rw [hy] at hprep
    cases hprep
  | countedAccept m hm htype hacc hid hcur hy | passedAccept m hm htype hacc hid hcur hpass hy =>
    rw [hy] at hprep
    exact absurd hprep (hphase hacc)
  | gaveUp m hm hphase hid hcur hy =>
    rw [hy] at hprep
    cases hprep
  | next hl hok hy hsent =>
    -- The proposal id is used in no instance above the present one.
    have hold := hsent.used rfl (by simp) hused
    rw [hy] at hold
    exact absurd hold hnext

namespace Promisors

/-- Every action of the node keeps who is counted, when no `PREPARE` of the next instance is out. -/
theorem act (h : Promisors members s n) (hask : s.AsksMembers members) (hin : s.HasMembers members)
    (hw : s.WF C) (htr : Traced s) (hgrow : s.Grows t)
    (hnext : ¬ s.used n .prepare ((s n).proposer.instanceId + 1) (s n).proposer.proposalId)
    (hcurrent : R.current .prepareReply) (hch : ProposerChange R E (s.Network n) (s n) (t n)) :
    Promisors members t n := by
  intro hprep hused a ha
  rcases hch.preparing_cases (hw n).1 hnext hprep hused with
    ⟨hp, hu, hid, hpid, -, -, hcnt⟩ | ⟨z, v, -, hy⟩ | ⟨z, v, hstart, hy⟩ |
    ⟨m, hm, htype, hp, hid, hcur, hy⟩
  · rw [hid, hpid]
    rw [hcnt] at ha
    obtain ⟨hmem, hpromise⟩ := h hp hu a ha
    exact ⟨hmem, hgrow a _ hpromise⟩
  · rw [hy] at ha
    cases ha
  · have hid : (t n).proposer.instanceId = (s n).proposer.instanceId := by
      rw [hy, Proposer.beginRound_instanceId, ← hstart.same.2.2.1]
    rw [hy] at ha
    -- The only reply so far is the node's own.
    obtain ⟨rfl, hpromise⟩ := hstart.counted_own (hw.nodeId n) (hw n).1.proposalId ha
    rw [← hy] at hpromise
    refine ⟨?_, hpromise⟩
    rw [hid]
    exact hask.mem_of_engaged hin hw htr (.inl ⟨z, v, hstart⟩)
  · -- The reply answers the present round, so that its sender was asked in it.
    have hpid : m.proposalId = (s n).proposer.proposalId := hcur (htype ▸ hcurrent)
    have hreply := htr.replied_of_answered hm (.inl htype)
    obtain ⟨hasked, hpromise⟩ := htr.prepareReply _ _ _ hreply htype
    rw [hid, hpid] at hasked hpromise
    have hprop : (t n).proposer = (s n).proposer.countPrepareReply m := by rw [hy]
    rw [hprop, Proposer.countPrepareReply_counter] at ha
    rw [hprop, Proposer.countPrepareReply_instanceId, Proposer.countPrepareReply_proposalId]
    rcases Counter.mem_add ha with hold | ⟨rfl, hrej⟩
    · obtain ⟨hmem, hold⟩ := h hp hasked.used a hold
      exact ⟨hmem, hgrow a _ hold⟩
    · exact ⟨hask.mem_of_asked rfl hasked, hgrow _ _ (hpromise hrej)⟩

theorem micro (h : Promisors members s n) (hask : s.AsksMembers members)
    (hin : s.HasMembers members) (hw : s.WF C) (htr : Traced s)
    (hnext : ¬ s.used n .prepare ((s n).proposer.instanceId + 1) (s n).proposer.proposalId)
    (hcurrent : P.rules.current .prepareReply) (hst : Micro P s t) : Promisors members t n := by
  obtain ⟨k, E, -, hact, hother, hgrow, -⟩ := hst.newEvents hw
  by_cases hk : n = k
  · subst hk
    exact h.act hask hin hw htr hgrow hnext hcurrent hact.proposerChange
  · have heq := hother n hk
    intro hprep hused a ha
    unfold Sys.used Sys.sent at hused
    rw [heq] at hprep hused ha ⊢
    obtain ⟨hmem, hpromise⟩ := h hprep hused a ha
    exact ⟨hmem, hgrow a _ hpromise⟩

/-- A recovered process has counted nobody. -/
theorem recover {a : Acceptor} (h : Promisors members s n) (hrec : (s k).Restarts E dirs a y) :
    Promisors members (Function.update s k y) n := by
  intro hprep hused b hb
  have hused := hrec.used_old hused
  have hsame := hrec.eq_of_round (.inl hprep)
  rw [hsame] at hprep hused hb ⊢
  obtain ⟨hmem, hpromise⟩ := h hprep hused b hb
  exact ⟨hmem, hrec.grows.1 b _ hpromise⟩

theorem init (C : Setup) (n : ℕ) : Promisors members (System.init C) n :=
  fun hprep => by cases hprep

end Promisors

namespace Acceptors

/-- Every action of the node keeps who is counted in the second phase, when one ballot carries one
value. -/
theorem act (h : Acceptors members s n) (hask : s.AsksMembers members) (hw : (s n).WF)
    (htr : Traced s) (hb : Ballots (s n)) (hgrow : s.Grows t)
    (hch : ProposerChange R E (s.Network n) (s n) (t n)) (hcurrent : R.current .acceptReply) :
    Acceptors members t n := by
  intro hacc hused a ha
  have hkeep : (s n).proposer.accepting = true →
      s.used n .accept (s n).proposer.instanceId (s n).proposer.proposalId →
      ∀ {a}, a ∈ (s n).proposer.counter.promisorsOrAcceptors →
        a ∈ members (s n).proposer.instanceId ∧ .accepted (s n).proposer.instanceId
          ⟨(s n).proposer.proposalId, n⟩ (s n).proposer.value ∈ (t a).trace := by
    intro hp hu a ha
    obtain ⟨hmem, haccept⟩ := h hp hu a ha
    exact ⟨hmem, hgrow a _ haccept⟩
  have hphase : (s n).proposer.preparing = true → (s n).proposer.accepting = true → False := by
    intro hp ha
    rw [hw.phase hp] at ha
    cases ha
  cases hch with
  | same hid hpid hmax hval hcnt hprep hacc' hskip hmach hsent htimers =>
    rw [hid, hpid] at hused ⊢
    rw [hcnt] at ha
    rw [hval]
    exact hkeep (hacc' hacc) (hsent.used rfl (by simp) hused) ha
  | opened z v hstart hrule hrecv hy =>
    rw [hy] at hacc
    cases hacc
  | began z v hstart hrule hrecv hy =>
    rw [hy, Proposer.beginRound_proposer, Proposer.countPrepareReply_accepting] at hacc
    cases hacc
  | counted m hm htype hprep hid hcur hy =>
    rw [hy] at hacc
    exact absurd (by simpa using hacc) (hphase hprep)
  | passed m hm htype hprep hid hcur hpass hy | direct hskip hrej hrule hbusy hvalid hy =>
    rw [hy] at ha
    cases ha
  | countedAccept m hm htype hacc' hid hcur hy =>
    have hpid : m.proposalId = (s n).proposer.proposalId := hcur (htype ▸ hcurrent)
    have hreply := htr.replied_of_answered hm (Or.inr htype)
    obtain ⟨v, hoffer, haccept⟩ := htr.acceptReply _ _ _ hreply htype
    rw [hid, hpid] at hoffer haccept
    -- The reply answers an `ACCEPT` of the round, and these carry the value of the proposer.
    have hval : (s n).proposer.value = v :=
      hb.accepting hacc' v (Sys.proposes_iff.mp hoffer.proposes)
    rw [← hval] at haccept
    rw [hy] at ha ⊢
    rcases Counter.mem_add ha with hold | ⟨rfl, hrej⟩
    · exact hkeep hacc' hoffer.asked.used hold
    · exact ⟨hask.mem_of_asked rfl hoffer.asked, hgrow _ _ (haccept hrej)⟩
  | passedAccept m hm htype hacc' hid hcur hpass hy | gaveUp m hm hphase hid hcur hy =>
    rw [hy] at hacc
    cases hacc
  | next hl hok hy hsent =>
    have hold := hsent.used rfl (by simp) hused
    rw [hy] at hold
    exact absurd hold (hb.ids.not_used rfl (Nat.lt_succ_self _))

theorem micro (h : Acceptors members s n) (hask : s.AsksMembers members) (hw : s.WF C)
    (htr : Traced s) (hb : Ballots (s n)) (hcurrent : P.rules.current .acceptReply)
    (hst : Micro P s t) : Acceptors members t n := by
  obtain ⟨k, E, -, hact, hother, hgrow, -⟩ := hst.newEvents hw
  by_cases hk : n = k
  · subst hk
    exact h.act hask (hw n).1 htr hb hgrow hact.proposerChange hcurrent
  · have heq := hother n hk
    intro hacc hused a ha
    unfold Sys.used Sys.sent at hused
    rw [heq] at hacc hused ha ⊢
    obtain ⟨hmem, haccept⟩ := h hacc hused a ha
    exact ⟨hmem, hgrow a _ haccept⟩

/-- A recovered process has counted nobody. -/
theorem recover {a : Acceptor} (h : Acceptors members s n) (hrec : (s k).Restarts E dirs a y) :
    Acceptors members (Function.update s k y) n := by
  intro hacc hused b hb
  have hused := hrec.used_old hused
  have hsame := hrec.eq_of_round (.inr (.inl hacc))
  rw [hsame] at hacc hused hb ⊢
  obtain ⟨hmem, haccept⟩ := h hacc hused b hb
  exact ⟨hmem, hrec.grows.1 b _ haccept⟩

theorem init (C : Setup) (n : ℕ) : Acceptors members (System.init C) n :=
  fun hacc => by cases hacc

end Acceptors

/-! ## Rounds of a group with a fixed membership -/

/-- The proposal ids of the next process of a node are above all that it used. -/
def Node.StartsFresh (x : Node) : Prop :=
  ∀ a, Acceptor.readFromDB x.db = some a → ∀ m dests, .broadcast m dests ∈ x.trace →
    m.type.isProposers = true → m.proposalId ≤ a.promisedBallot.proposalId

/-- What the steps of a run have to see to, so that rounds count what they should. -/
structure Policy.KeepsRounds (P : Policy) : Prop where
  members : ∀ E x machineId value context, P.rules.propose E x machineId value context →
    machineId ≠ membershipMachineId
  prepare : ∀ x, P.rules.prepare x → Proposer.PreparesSafely x
  skip : ∀ x, P.rules.skip x → Proposer.SkipsSafely x
  current : ∀ type, P.rules.current type
  recovers : ∀ s n dirs, P.Recovers s n dirs → (s n).StartsFresh

/-- The invariants of the rounds of a group with the members `M`. -/
structure Rounds (M : Finset ℕ) (s : Sys) : Prop where
  traced : Traced s
  reports : Reports s
  members : FixedMembers M s
  ballots : ∀ n, Ballots (s n)
  asks : s.AsksMembers fun _ => M
  promisors : ∀ n, Promisors (fun _ => M) s n
  acceptors : ∀ n, Acceptors (fun _ => M) s n

namespace Rounds

theorem micro (h : Rounds M s) (hw : s.WF C) (hP : P.KeepsRounds) (hst : Micro P s t) :
    Rounds M t where
  traced := h.traced.micro hw hst
  reports := h.reports.micro hw hst
  members := h.members.micro hw h.traced hst hP.members
  ballots n := (h.ballots n).micro hw h.traced h.reports hst (fun z _ => hP.prepare z)
    fun z _ => hP.skip z
  asks := h.asks.micro h.members.members hw h.traced hst
  promisors n := (h.promisors n).micro h.asks h.members.members hw h.traced
    ((h.ballots n).ids.not_used rfl (Nat.lt_succ_self _)) (hP.current _) hst
  acceptors n := (h.acceptors n).micro h.asks hw h.traced (h.ballots n) (hP.current _) hst

theorem recover {a : Acceptor} (h : Rounds M s) (hw : s.WF C) (hP : P.KeepsRounds)
    (hC : C.HasMembers M) (hwhy : P.Recovers s n dirs) (hrec : (s n).Restarts E dirs a y) :
    Rounds M (Function.update s n y) := by
  have hfresh := hP.recovers s n dirs hwhy a hrec.read
  refine ⟨h.traced.recover hrec.grows.1 hrec.grows.2, h.reports.recover hrec,
    h.members.recover hw hC hwhy hrec, ?_, h.asks.recover hrec,
    fun k => (h.promisors k).recover hrec, fun k => (h.acceptors k).recover hrec⟩
  exact Sys.forall_update (Q := fun _ x => Ballots x) h.ballots ((h.ballots n).recover hrec hfresh)

theorem init (hC : C.HasMembers M) : Rounds M (System.init C) where
  traced := .init C
  reports := .init C
  members := .init hC
  ballots _ := .fresh _
  asks := .init C
  promisors n := .init C n
  acceptors n := .init C n

end Rounds

/-! ## Quorums of the current round -/

/-- A majority of the members each have an entry in their trace. For the node `n` only the part
`older` of its trace counts. -/
def Sys.Quorum (s : Sys) (M : Finset ℕ) (n : ℕ) (older : List Event) (e : Event) : Prop :=
  ∃ Q ⊆ M, M.card / 2 + 1 ≤ Q.card ∧ ∀ a ∈ Q, e ∈ if a = n then older else (s a).trace

/-- What a round that passed at the node `n` was based on. -/
def Sys.PassedBy (s : Sys) (M : Finset ℕ) (n : ℕ) (older : List Event) : Event → Prop
  | .preparePassed i p => s.Quorum M n older (.promised i ⟨p, n⟩)
  | .acceptPassed i p v => s.Quorum M n older (.accepted i ⟨p, n⟩ v)
  | _ => True

/-- A quorum stays one while other traces grow. -/
theorem Sys.PassedBy.mono {older : List Event} (h : s.PassedBy M n older e) (hgrow : s.Grows t) :
    t.PassedBy M n older e := by
  have hquorum : ∀ {e'}, s.Quorum M n older e' → t.Quorum M n older e' := by
    rintro e' ⟨Q, hQ, hcard, hmem⟩
    refine ⟨Q, hQ, hcard, fun a ha => ?_⟩
    have hold := hmem a ha
    split_ifs at hold ⊢
    · exact hold
    · exact hgrow a _ hold
  cases e with
  | preparePassed i p | acceptPassed i p v => exact hquorum h
  | _ => trivial

namespace Rounds

/-- The counted nodes are a majority once the round passes. -/
theorem majority (h : Rounds M s) (hpass : Proposer.isPassedOnThisRound (s n) = true)
    (hmem : ∀ a ∈ (s n).proposer.counter.promisorsOrAcceptors, a ∈ M) :
    (s n).proposer.counter.promisorsOrAcceptors ⊆ M ∧
      M.card / 2 + 1 ≤ (s n).proposer.counter.promisorsOrAcceptors.card := by
  have hcard : (s n).getMajoritySize ≤ (s n).proposer.counter.promisorsOrAcceptors.card :=
    of_decide_eq_true hpass
  unfold Node.getMajoritySize at hcard
  rw [h.members.length n] at hcard
  exact ⟨hmem, hcard⟩

/-- They are a quorum for what each of them has done. -/
theorem quorum (h : Rounds M s) (l : List Event) (hpass : Proposer.isPassedOnThisRound (s n) = true)
    (hmem : ∀ a ∈ (s n).proposer.counter.promisorsOrAcceptors,
      a ∈ M ∧ e ∈ (s a).trace) : s.Quorum M n (l ++ (s n).trace) e := by
  obtain ⟨hsub, hcard⟩ := h.majority hpass fun a ha => (hmem a ha).1
  refine ⟨_, hsub, hcard, fun a ha => ?_⟩
  split_ifs with hself
  · subst hself
    exact List.mem_append_right l (hmem a ha).2
  · exact (hmem a ha).2

/-- A reply of the first phase that is counted answers a `PREPARE` of the round. -/
theorem used_prepare (h : Rounds M s) (hm : Answered (s.Network n) (s n) m)
    (htype : m.type = .prepareReply) (hid : m.instanceId = (s n).proposer.instanceId)
    (hpid : m.proposalId = (s n).proposer.proposalId) :
    s.used n .prepare (s n).proposer.instanceId (s n).proposer.proposalId := by
  have hreply := h.traced.replied_of_answered hm (Or.inl htype)
  have hasked := (h.traced.prepareReply _ _ _ hreply htype).1
  rw [hid, hpid] at hasked
  exact hasked.used

/-- A reply of the second phase that is counted answers an `ACCEPT` of the round. -/
theorem used_accept (h : Rounds M s) (hm : Answered (s.Network n) (s n) m)
    (htype : m.type = .acceptReply) (hid : m.instanceId = (s n).proposer.instanceId)
    (hpid : m.proposalId = (s n).proposer.proposalId) :
    s.used n .accept (s n).proposer.instanceId (s n).proposer.proposalId := by
  have hreply := h.traced.replied_of_answered hm (Or.inr htype)
  obtain ⟨v, hoffer, -⟩ := h.traced.acceptReply _ _ _ hreply htype
  rw [hid, hpid] at hoffer
  exact hoffer.asked.used

/-- A round that passes in an action is based on a quorum. -/
theorem passedBy_new (h : Rounds M s) (hnew : NewEvent R E (s.Network n) (s n) y e)
    (hcurrent : ∀ type, R.current type) (l : List Event) : s.PassedBy M n (l ++ (s n).trace) e := by
  cases hnew with
  | quiet he =>
    cases e with
    | preparePassed | acceptPassed => cases he
    | _ => trivial
  | preparePassed hm htype hprep hid hcur hpass =>
    have hused := h.used_prepare hm htype hid (hcur (hcurrent _))
    exact h.quorum l hpass (h.promisors n hprep hused)
  | acceptPassed hm htype hacc hid hcur hpass =>
    have hused := h.used_accept hm htype hid (hcur (hcurrent _))
    exact h.quorum l hpass (h.acceptors n hacc hused)
  | prepareReply _ _ he | acceptReply _ _ he => rcases he with ⟨rfl, -⟩ | ⟨rfl, -⟩ <;> trivial
  | _ => trivial

theorem passed_micro (h : Rounds M s) (hw : s.WF C) (hP : P.KeepsRounds) (hst : Micro P s t)
    (hpassed : ∀ n, AtEach (s.PassedBy M n) (s n).trace) (n : ℕ) :
    AtEach (t.PassedBy M n) (t n).trace :=
  hst.atEach (Q := fun s => s.PassedBy M) hw (fun hgrow hq => hq.mono hgrow) hpassed
    (fun _ _ _ l hnew => h.passedBy_new hnew hP.current l) n

theorem passed_recover {a : Acceptor} (hrec : (s k).Restarts E dirs a y)
    (hpassed : ∀ n, AtEach (s.PassedBy M n) (s n).trace) (n : ℕ) :
    AtEach (Sys.PassedBy (Function.update s k y) M n) (Function.update s k y n).trace := by
  refine hrec.atEach (Q := fun s => s.PassedBy M) (fun hgrow hq => hq.mono hgrow) hpassed ?_ n
  intro s n older e he
  cases e with
  | preparePassed | acceptPassed => cases he
  | _ => trivial

end Rounds

/-! ## The condition on runs -/

/-- Whether an event proposes no change of the membership. -/
def NodeEvent.keepsMembers : NodeEvent → Bool
  | .propose machineId _ _ _ => machineId ≠ membershipMachineId
  | _ => true

/-- Whether a reply that an event counts answers the current round. -/
def Node.countsCurrent (x : Node) : NodeEvent → Bool
  | .paxosMessage m => x.learner.isReceivingCheckpoint || decide
      (m.type = .prepareReply ∧ x.proposer.preparing = true ∨
        m.type = .acceptReply ∧ x.proposer.accepting = true →
        m.instanceId = x.proposer.instanceId → m.proposalId = x.proposer.proposalId)
  | _ => true

/-- Whether the next process of a node starts above every proposal id that the node used. -/
def Node.startsFresh (x : Node) : Bool :=
  (Acceptor.readFromDB x.db).all fun a => x.trace.all fun
    | .broadcast m _ => !m.type.isProposers || m.proposalId ≤ a.promisedBallot.proposalId
    | _ => true

theorem Node.StartsFresh.of_check (h : x.startsFresh = true) : x.StartsFresh := by
  intro a ha m dests hd htype
  unfold Node.startsFresh at h
  rw [ha, Option.all_some, List.all_eq_true] at h
  have hm := h _ hd
  simpa [htype] using hm

/-- The condition on a step: no membership change is proposed, a ballot is not reused with another
value, replies are counted in the round that they answer, and a process starts with a new id. -/
def CountsCurrent (s : Sys) (a : Env × Label) : Bool :=
  match a.2 with
  | .node n ev => ev.keepsMembers && (s n).reusesSafely a.1 ev && (s n).countsCurrent ev
  | .restart n => (s n).startsFresh
  | .install n _ _ => (s n).startsFresh

/-- The policy of such runs. -/
def Policy.countsCurrent : Policy where
  rules :=
    { propose := fun _ _ machineId _ _ => machineId ≠ membershipMachineId
      prepare := Proposer.PreparesSafely
      skip := Proposer.SkipsSafely
      current := fun _ => True }
  restart s n := (s n).StartsFresh
  install s n _ _ := (s n).StartsFresh

theorem Policy.countsCurrent_keepsRounds : Policy.countsCurrent.KeepsRounds where
  members _ _ _ _ _ h := h
  prepare _ h := h
  skip _ h := h
  current _ := trivial
  recovers s n dirs h := by
    rcases h with ⟨h, -⟩ | ⟨source, c, saved, h, -⟩ <;> exact h

/-- The test on the events gives what the policy asks of the actions. -/
theorem Policy.countsCurrent_permits {a : Env × Label} (hw : s.WF C) (htr : Traced s)
    (h : CountsCurrent s a = true) : Policy.countsCurrent.Permits s a := by
  obtain ⟨E, l⟩ := a
  refine ⟨trivial, ?_⟩
  cases l with
  | restart n | install n source c => exact Node.StartsFresh.of_check h
  | node n ev =>
    intro hallowed
    simp only [CountsCurrent, Bool.and_eq_true] at h
    obtain ⟨⟨hmembers, hreuse⟩, hcounts⟩ := h
    unfold Node.reusesSafely at hreuse
    refine Rules.allows_of ?_ ?_ ?_ ?_ ?_ (fun _ => trivial) fun _ => trivial
    · rintro machineId value context draw rfl
      exact (of_decide_eq_true hmembers : machineId ≠ membershipMachineId)
    · exact fun _ _ => (by decide : masterMachineId ≠ membershipMachineId)
    · intro hkind y hy
      rw [hkind] at hreuse
      exact ⟨hy.preparesSafely (of_decide_eq_true hreuse), fun hk => hk.elim⟩
    · intro hkind y hy
      rw [hkind] at hreuse
      exact ⟨hy.skipsSafely (of_decide_eq_true hreuse), fun hk => hk.elim⟩
    · rintro m rfl
      refine ⟨hallowed, fun hrecv => Rules.messageOk_of ?_ ?_ (fun hk => hk.elim)
        fun _ _ => trivial⟩
      · exact fun _ htype => htr.nodeId_ne_of_inFlight hw hallowed htype
      · intro _ hphase hid
        simp only [Node.countsCurrent, hrecv, Bool.false_or, decide_eq_true_eq] at hcounts
        exact hcounts hphase hid

/-- **Quorums are of the current round.** In every run of a group with the members `M` in which
replies are counted only in the round that they answer, ballots are not reused with another value
and processes start with new ids: where a round of the node `n` passed, a majority of the members
had promised its ballot in its instance, or had accepted its ballot with its value. -/
theorem quorum_of_current_round {C : Setup} {M : Finset ℕ} {s : Sys}
    (hC : ∀ n, (Membership.ofOptions (C.config n).membership).ids.toFinset = M)
    (hrun : Reaches System.step (fun s a => CountsCurrent s a = true) (System.init C) s) (n : ℕ)
    (newer older : List Event) :
    (∀ i p, (s n).trace = newer ++ .preparePassed i p :: older →
      s.Quorum M n older (.promised i ⟨p, n⟩)) ∧
    (∀ i p v, (s n).trace = newer ++ .acceptPassed i p v :: older →
      s.Quorum M n older (.accepted i ⟨p, n⟩ v)) := by
  have hinv : Rounds M s ∧ ∀ n, AtEach (s.PassedBy M n) (s n).trace := by
    refine (Policy.invariant (P := Policy.countsCurrent)
      (I := fun s => Rounds M s ∧ ∀ n, AtEach (s.PassedBy M n) (s n).trace) hrun ?_ ?_ ?_ ?_).2
    · exact ⟨.init hC, fun n => ⟨trivial, trivial⟩⟩
    · exact fun s a hw hs hok => Policy.countsCurrent_permits hw hs.1.traced hok
    · rintro s t hw ⟨hrounds, hpassed⟩ hst
      exact ⟨hrounds.micro hw Policy.countsCurrent_keepsRounds hst,
        hrounds.passed_micro hw Policy.countsCurrent_keepsRounds hst hpassed⟩
    · rintro s k E dirs a y hw ⟨hrounds, hpassed⟩ - hwhy hrec
      exact ⟨hrounds.recover hw Policy.countsCurrent_keepsRounds hC hwhy hrec,
        Rounds.passed_recover hrec hpassed⟩
  exact ⟨fun i p hsplit => (hinv.2 n).of_split hsplit,
    fun i p v hsplit => (hinv.2 n).of_split hsplit⟩

/-- The first value of node 1 is also accepted by node 2, and node 1 hears of it. -/
def firstChosen : List (Env × Label) := firstAccept ++
  ([({}, .node 2 (.paxosMessage { type := .accept, nodeId := 1, instanceId := 1, proposalId := 1,
                                  value := firstValue })),
    ({}, .node 1 (.paxosMessage
      { type := .acceptReply, nodeId := 2, instanceId := 1, proposalId := 1 }))] :
    List (Env × Label))

theorem trio_members (n : ℕ) :
    (Membership.ofOptions ((Setup.uniform trioMember).config n).membership).ids.toFinset =
      {1, 2, 3} := by
  show (Membership.ofOptions trioMember.membership).ids.toFinset = {1, 2, 3}
  decide

/-- Both phases of the round pass, and each is based on a majority of the three. -/
theorem quorum_of_current_round_trio : ∃ s newer older newer' older',
    Reaches System.step (fun s a => CountsCurrent s a = true)
      (System.init (.uniform trioMember)) s ∧
    (s 1).trace = newer ++ .preparePassed 1 1 :: older ∧
    s.Quorum {1, 2, 3} 1 older (.promised 1 ⟨1, 1⟩) ∧
    (s 1).trace = newer' ++ .acceptPassed 1 1 firstValue :: older' ∧
    s.Quorum {1, 2, 3} 1 older' (.accepted 1 ⟨1, 1⟩ firstValue) := by
  have hend : (runChecked System.step CountsCurrent (System.init (.uniform trioMember))
      firstChosen).map (fun s => (decide (Event.preparePassed 1 1 ∈ (s 1).trace),
        decide (Event.acceptPassed 1 1 firstValue ∈ (s 1).trace))) = some (true, true) := by
    decide +kernel
  obtain ⟨s, hs, hmem⟩ := Option.map_eq_some_iff.mp hend
  obtain ⟨hprepare, haccept⟩ := Prod.mk.inj hmem
  have hrun : Reaches System.step (fun s a => CountsCurrent s a = true)
      (System.init (.uniform trioMember)) s :=
    Reaches.of_runChecked firstChosen (fun _ _ _ h => h) hs
  obtain ⟨newer, older, hsplit⟩ := List.append_of_mem (of_decide_eq_true hprepare)
  obtain ⟨newer', older', hsplit'⟩ := List.append_of_mem (of_decide_eq_true haccept)
  exact ⟨s, newer, older, newer', older', hrun, hsplit,
    (quorum_of_current_round trio_members hrun 1 newer older).1 1 1 hsplit, hsplit',
    (quorum_of_current_round trio_members hrun 1 newer' older').2 1 1 firstValue hsplit'⟩

/-- Node 2 promises `(1, 1)`, but its promise is late. Node 3 prepares `(1, 3)` and so rejects node
1, whose retry timer starts a round with the proposal id 2. Then the promise of node 2 arrives. -/
def stalePromise : List (Env × Label) :=
  [({}, .node 1 (.propose 7 [1] none 256)),
   ({}, .node 2 (.paxosMessage
      { type := .prepare, nodeId := 1, instanceId := 1, proposalId := 1 })),
   ({}, .node 3 (.propose 7 [3] none 256)),
   ({}, .node 3 (.paxosMessage
      { type := .prepare, nodeId := 1, instanceId := 1, proposalId := 1 })),
   ({}, .node 1 (.paxosMessage { type := .prepareReply, nodeId := 3, instanceId := 1,
                                 proposalId := 1, rejectedId := 1 })),
   ({}, .node 1 (.timer 2)),
   ({}, .node 1 (.paxosMessage
     { type := .prepareReply, nodeId := 2, instanceId := 1, proposalId := 1 }))]

/-- The round of the ballot `(2, 1)` passes, and only node 1 has promised that ballot. -/
theorem stale_promise_counted : ∃ s newer older,
    run System.step (System.init (.uniform trioMember)) stalePromise = some s ∧
    (s 1).trace = newer ++ .preparePassed 1 2 :: older ∧
    ¬ s.Quorum {1, 2, 3} 1 older (.promised 1 ⟨2, 1⟩) := by
  have hend : (run System.step (System.init (.uniform trioMember)) stalePromise).map
      (fun s => (decide (Event.preparePassed 1 2 ∈ (s 1).trace),
        decide (Event.promised 1 ⟨2, 1⟩ ∈ (s 2).trace),
        decide (Event.promised 1 ⟨2, 1⟩ ∈ (s 3).trace))) = some (true, false, false) := by
    decide +kernel
  obtain ⟨s, hs, hmem⟩ := Option.map_eq_some_iff.mp hend
  obtain ⟨hpass, hrest⟩ := Prod.mk.inj hmem
  obtain ⟨h2, h3⟩ := Prod.mk.inj hrest
  obtain ⟨newer, older, hsplit⟩ := List.append_of_mem (of_decide_eq_true hpass)
  refine ⟨s, newer, older, hs, hsplit, ?_⟩
  rintro ⟨Q, hQ, hcard, hQmem⟩
  have honly : Q ⊆ {1} := by
    intro a ha
    have hmem := hQmem a ha
    rcases Finset.mem_insert.mp (hQ ha) with rfl | hrest
    · exact Finset.mem_singleton_self 1
    · rcases Finset.mem_insert.mp hrest with rfl | h
      · exact absurd hmem (of_decide_eq_false h2)
      · obtain rfl := Finset.mem_singleton.mp h
        exact absurd hmem (of_decide_eq_false h3)
  have hle := Finset.card_le_card honly
  have hthree : ({1, 2, 3} : Finset ℕ).card = 3 := rfl
  rw [hthree] at hcard
  rw [Finset.card_singleton] at hle
  omega

end Skywalker
