import Skywalker.Checkpoints
import Skywalker.Wire

/-!
# Quorums across a change of the members

Executing a value of the membership machine changes the members between two instances, while the
proposer takes its ballot and `skip_prepare_` on to the next one. An `ACCEPT` that follows a
`PREPARE` of its own instance rests on promises of the members in force there. One that skips
`PREPARE` rests on those of an earlier `ACCEPT` with the same ballot, so that a majority of the
members has promised only where the members are those of the earlier one.

`GroupHistory` gives the members in force at each instance: those that the group starts with,
changed by the chosen values of all instances below. Every node has them at its instance, whether it
executed the values, replayed them or restored a checkpoint (`InForce`).
-/

namespace Skywalker

open TransitionSystem

variable {n : ℕ} {s t : Sys} {R : Rules} {E : Env} {net : PaxosMessage → Prop} {x y : Node}
  {dirs : List (ℕ × Machines)} {a : Acceptor} {C : Setup} {P : Policy}

/-! ## The members in force -/

/-- What a group decides: the members that it starts with, and the chosen value of each instance. -/
structure GroupHistory where
  /-- How membership changes are read. -/
  codec : Codec
  /-- The members that `GroupOptions::membership` starts with. -/
  initial : List MemberMessage
  /-- The value that is chosen in each instance. -/
  value : ℕ → PaxosValue

namespace GroupHistory

variable (H : GroupHistory)

/-- The membership after the values of the instances `1 .. n`. -/
def membership : ℕ → Membership
  | 0 => .ofOptions H.initial
  | n + 1 =>
    if (H.value (n + 1)).machineId = membershipMachineId then
      ((membership n).execute H.codec (n + 1) (H.value (n + 1)).userData).2
    else membership n

/-- The members in force at an instance: the changes of all instances below it are applied. -/
def members (i : ℕ) : Finset ℕ := (H.membership (i - 1)).ids.toFinset

/-- `Execute` of the chosen value takes the machines from the membership before to that after it. -/
theorem membership_execute {ms : Machines} (h : ms.membership = H.membership n) (now : ℕ)
    (userResult : Bool) (context : Option ℕ) :
    (ms.execute H.codec now userResult context (n + 1) (H.value (n + 1))).2.membership =
      H.membership (n + 1) := by
  rw [membership]
  split_ifs with hid
  · rw [Machines.execute, if_pos hid, h]
  · rw [Machines.execute_membership ms hid, h]

end GroupHistory

/-- All nodes start with the members of a history and read its changes alike. -/
def Setup.Starts (C : Setup) (H : GroupHistory) : Prop :=
  ∀ n, (C.config n).membership = H.initial ∧ (C.config n).codec = H.codec

/-- What the nodes have executed or replayed are the chosen values of a history. -/
structure Sys.Executes (s : Sys) (H : GroupHistory) : Prop where
  executed : ∀ n i v context, .executed i v context true ∈ (s n).trace → v = H.value i
  replayed : ∀ n i v ok, .replayed i v ok ∈ (s n).trace → v = H.value i

theorem Sys.Executes.of_grows {H : GroupHistory} (h : t.Executes H) (hgrow : s.Grows t) :
    s.Executes H :=
  ⟨fun n i v context he => h.executed n i v context (hgrow n _ he),
    fun n i v ok he => h.replayed n i v ok (hgrow n _ he)⟩

/-- The machines and the instance stay, or the learned value is executed and both move on. -/
theorem Act.advance_cases (h : Act R E net x y) :
    (y.machines = x.machines ∧ y.instanceId = x.instanceId) ∨
      (y = Instance.nextInstance (Instance.afterExecute E x) ∧ .executed x.instanceId
        x.learner.learnedValue (Instance.executeContext x) true ∈ y.trace) := by
  have hnext : x.learner.hasLearned = true → (Instance.execution E x).1 = true →
      .executed x.instanceId x.learner.learnedValue (Instance.executeContext x) true ∈
        (Instance.nextInstance (Instance.afterExecute E x)).trace := by
    intro hl hok
    refine List.mem_append_left x.trace ?_
    unfold Instance.executionEvents
    rw [hok]
    exact List.mem_append_right _ (List.mem_singleton_self _)
  rcases h.machines_cases with hsame | ⟨hl, hok, rfl⟩
  · rcases h.instanceId_eq with ⟨hl, hy⟩ | hid
    · cases hok : (Instance.execution E x).1 with
      | true =>
        rw [Instance.checkLearn_of_true hl hok] at hy
        exact Or.inr ⟨hy, hy ▸ hnext hl hok⟩
      | false =>
        refine Or.inl ⟨hsame, ?_⟩
        rw [hy, Instance.checkLearn_of_false hl hok]
        rfl
    · exact Or.inl ⟨hsame, hid⟩
  · exact Or.inr ⟨rfl, hnext hl hok⟩

/-- Every node has the members in force at its instance, and a checkpoint those after its own. -/
structure Sys.InForce (H : GroupHistory) (s : Sys) : Prop where
  positive : ∀ n, 1 ≤ (s n).instanceId
  membership : ∀ n, (s n).machines.membership = H.membership ((s n).instanceId - 1)
  saved : ∀ n d, d ∈ (s n).checkpoints → d.2.membership = H.membership d.1

namespace Sys.InForce

variable {H : GroupHistory}

theorem members (h : s.InForce H) : s.HasMembers H.members := by
  intro n
  unfold Node.memberIds
  rw [h.membership n]
  rfl

theorem card_members (h : s.InForce H) (n : ℕ) :
    (s n).memberIds.length = (H.members (s n).instanceId).card := by
  rw [← h.members n, List.toFinset_card_of_nodup]
  exact (s n).machines.membership.nodup

/-- An action executes the next value of the history, or leaves the membership. -/
theorem micro (h : s.InForce H) (hw : s.WF C) (hC : C.Starts H) (hexec : t.Executes H)
    (hst : Micro P s t) : t.InForce H := by
  obtain ⟨n, E, -, hact, hother, -, -⟩ := hst.newEvents hw
  have hpos := h.positive n
  have hnode : 1 ≤ (t n).instanceId ∧
      (t n).machines.membership = H.membership ((t n).instanceId - 1) := by
    rcases hact.advance_cases with ⟨hmach, hid⟩ | ⟨hy, hentry⟩
    · rw [hmach, hid]
      exact ⟨hpos, h.membership n⟩
    · -- the value that is executed is the chosen one
      have hval := hexec.executed n _ _ _ hentry
      obtain ⟨k, hk⟩ := Nat.exists_eq_add_of_le' hpos
      have hmem := h.membership n
      rw [hk, Nat.add_sub_cancel] at hmem
      have hnew := H.membership_execute hmem E.nowMillis (E.executeOk (s n).trace.length)
        (Instance.executeContext (s n))
      rw [← hk, ← hval, ← (hC n).2, ← (hw n).2] at hnew
      rw [hy]
      exact ⟨Nat.le_add_left 1 _, hnew⟩
  refine ⟨?_, ?_, ?_⟩
  · exact Sys.forall_of_others (Q := fun _ x => 1 ≤ x.instanceId) hother
      (fun k _ => h.positive k) hnode.1
  · exact Sys.forall_of_others
      (Q := fun _ x => x.machines.membership = H.membership (x.instanceId - 1)) hother
      (fun k _ => h.membership k) hnode.2
  · refine Sys.forall_of_others
      (Q := fun _ x => ∀ d ∈ x.checkpoints, d.2.membership = H.membership d.1) hother
      (fun k _ => h.saved k) fun d hd => ?_
    rcases hact.checkpoints_cases hd with hold | ⟨rfl, -⟩
    · exact h.saved n d hold
    · exact h.membership n

/-- A recovery restores the members in force. -/
theorem recover (h : s.InForce H) (hw : s.WF C) (hC : C.Starts H)
    (hexec : Sys.Executes (Function.update s n y) H) (hwhy : P.Recovers s n dirs)
    (hrec : (s n).Restarts E dirs a y) : Sys.InForce H (Function.update s n y) := by
  have hdirs := hwhy.forall_dirs h.saved
  have hconf : (s n).config.membership = H.initial ∧ (s n).config.codec = H.codec := by
    rw [(hw n).2]
    exact hC n
  have hend : y.machines.membership = H.membership (y.instanceId - 1) := by
    refine hrec.machines (fun j ms => ms.membership = H.membership (j - 1)) ?_ ?_
    · rcases MachineManager.recover_cases E (s n).config dirs with hfresh | ⟨d, hd, hsaved⟩
      · rw [hfresh, hconf.1]
        rfl
      · rw [hsaved]
        exact hdirs d hd
    · intro j ms r ok hlow hhigh hms hget
      obtain ⟨ok', hentry⟩ := hrec.replays j r hget hlow hhigh
      have hval : r.acceptedValue = H.value j := by
        refine hexec.replayed n j _ ok' ?_
        rwa [Function.update_self]
      obtain ⟨k, rfl⟩ := Nat.exists_eq_add_of_le' (Nat.lt_of_le_of_lt (Nat.zero_le _) hlow)
      rw [hval, hconf.2]
      exact H.membership_execute hms _ _ _
  have hpos : 1 ≤ y.instanceId := by
    have := hrec.instanceId
    omega
  refine ⟨Sys.forall_update (Q := fun _ x => 1 ≤ x.instanceId) h.positive hpos,
    Sys.forall_update (Q := fun _ x => x.machines.membership = H.membership (x.instanceId - 1))
      h.membership hend,
    Sys.forall_update (Q := fun _ x => ∀ d ∈ x.checkpoints, d.2.membership = H.membership d.1)
      h.saved fun d hd => ?_⟩
  rw [hrec.checkpoints] at hd
  exact hdirs d (List.mem_filter.mp hd).1

theorem init (hC : C.Starts H) : (System.init C).InForce H where
  positive _ := Nat.le_refl 1
  membership n := congrArg Membership.ofOptions (hC n).1
  saved n d hd := by cases hd

end Sys.InForce

/-! ## Who is counted -/

/-- No `PREPARE` of a node for an instance to come has its present proposal id or a larger one. -/
def Node.NoneAhead (x : Node) : Prop :=
  ∀ m dests, .broadcast m dests ∈ x.trace → m.type = .prepare →
    m.proposalId < x.proposer.proposalId ∨ m.instanceId ≤ x.proposer.instanceId

namespace Node.NoneAhead

theorem act (h : x.NoneAhead) (hch : ProposerChange R E net x y) : y.NoneAhead := by
  obtain ⟨new, hsent, hnew, hle, hid⟩ := hch.advances
  intro m dests hd ht
  rcases hsent m dests hd with hold | ⟨hmem, -⟩ | hother
  · exact (h m dests hold ht).imp (lt_of_lt_of_le · hle) (le_trans · hid)
  · exact .inr (hnew m hmem).2.le
  · rw [ht] at hother
    cases hother

/-- So does a recovery, when every `PREPARE` of an instance above the newest record has an id that
the promise in the record is not below. -/
theorem recover (hrec : x.Restarts E dirs a y)
    (hbehind : ∀ m dests, .broadcast m dests ∈ x.trace → m.type = .prepare →
      m.proposalId ≤ a.promisedBallot.proposalId ∨ m.instanceId ≤ a.instanceId) : y.NoneAhead := by
  intro m dests hd ht
  have hold := hrec.mem_old hd rfl
  have hinst := hrec.instanceId
  rw [hrec.proposer]
  dsimp only
  rcases hbehind m dests hold ht with hle | hle
  · exact .inl (Nat.lt_succ_of_le hle)
  · exact .inr (by omega)

theorem not_used (h : (s n).NoneAhead) :
    ¬ s.used n .prepare ((s n).proposer.instanceId + 1) (s n).proposer.proposalId := by
  rintro ⟨m, ⟨dests, hd⟩, ht, hi, hp⟩
  rcases h m dests hd ht with hlt | hle <;> omega

end Node.NoneAhead

/-! ## What an `ACCEPT` rests on -/

/-- A majority of the nodes `M` has promised a ballot that is not below `b`. For the node `n` only
the part `older` of its trace counts. -/
def Sys.MajorityPromised (s : Sys) (M : Finset ℕ) (n : ℕ) (older : List Event) (b : BallotNumber) :
    Prop :=
  ∃ Q ⊆ M, M.card / 2 + 1 ≤ Q.card ∧
    ∀ a ∈ Q, ∃ i c, b ≤ c ∧ .promised i c ∈ if a = n then older else (s a).trace

/-- A majority stays one while traces grow. -/
theorem Sys.MajorityPromised.mono {M : Finset ℕ} {older older' : List Event} {b : BallotNumber}
    (h : s.MajorityPromised M n older b) (hgrow : s.Grows t) (hsub : older ⊆ older') :
    t.MajorityPromised M n older' b := by
  obtain ⟨Q, hQ, hcard, hmem⟩ := h
  refine ⟨Q, hQ, hcard, fun a ha => ?_⟩
  obtain ⟨i, c, hle, hc⟩ := hmem a ha
  refine ⟨i, c, hle, ?_⟩
  split_ifs at hc ⊢
  · exact hsub hc
  · exact hgrow a _ hc

/-- What an `ACCEPT` of the node `n` rests on. -/
def Sys.AcceptBacked (H : GroupHistory) (s : Sys) (n : ℕ) (older : List Event) : Event → Prop
  | .broadcast m _ =>
    m.type = .accept → s.MajorityPromised (H.members m.instanceId) n older m.ballot
  | _ => True

theorem Sys.AcceptBacked.mono {H : GroupHistory} {older : List Event} {e : Event}
    (hgrow : s.Grows t) (h : s.AcceptBacked H n older e) :
    t.AcceptBacked H n older e := by
  cases e with
  | broadcast m dests => exact fun ht => (h ht).mono hgrow (List.Subset.refl _)
  | _ => trivial

/-- Where `NewPropose` skips `Prepare`: the node has broadcast an `ACCEPT` with its proposal id to
the members that it has now. -/
def Proposer.SkipsWithMembers (x : Node) : Prop :=
  ∃ m dests, .broadcast m dests ∈ x.trace ∧ m.type = .accept ∧
    m.proposalId = x.proposer.proposalId ∧ dests.toFinset = (x.others x.memberIds).toFinset

/-- The invariants of a group whose members change. -/
structure Reconfigured (H : GroupHistory) (s : Sys) : Prop where
  inForce : s.InForce H
  asks : s.AsksMembers H.members
  counts : ∀ n, Promisors H.members s n
  backed : ∀ n, AtEach (s.AcceptBacked H n) (s n).trace

namespace Reconfigured

variable {H : GroupHistory}

/-- An `ACCEPT` after a `PREPARE` of its instance rests on the promises that were counted. -/
theorem majority_of_passed (h : Reconfigured H s) (hw : s.WF C) (l : List Event)
    (hprep : (s n).proposer.preparing = true)
    (hused : s.used n .prepare (s n).proposer.instanceId (s n).proposer.proposalId)
    (hpass : Proposer.isPassedOnThisRound (s n) = true) :
    s.MajorityPromised (H.members (s n).proposer.instanceId) n (l ++ (s n).trace)
      ⟨(s n).proposer.proposalId, (s n).nodeId⟩ := by
  have hcounted := h.counts n hprep hused
  have hcard : (s n).getMajoritySize ≤ (s n).proposer.counter.promisorsOrAcceptors.card :=
    of_decide_eq_true hpass
  rw [Node.getMajoritySize, h.inForce.card_members n, ← (hw n).1.proposerId] at hcard
  refine ⟨_, fun a ha => (hcounted a ha).1, hcard, fun a ha =>
    ⟨(s n).proposer.instanceId, _, le_refl _, ?_⟩⟩
  have hpromise := (hcounted a ha).2
  rw [hw.nodeId n]
  split_ifs with hself
  · subst hself
    exact List.mem_append_right l hpromise
  · exact hpromise

/-- An `ACCEPT` that skips `PREPARE` rests on what an earlier one did, when the members are the
same. -/
theorem majority_of_skipped (h : Reconfigured H s) (hw : s.WF C) (htr : Traced s) (l : List Event)
    (hvalid : (s n).isValidNodeId (s n).nodeId = true) (hskip : Proposer.SkipsWithMembers (s n)) :
    s.MajorityPromised (H.members (s n).proposer.instanceId) n (l ++ (s n).trace)
      ⟨(s n).proposer.proposalId, (s n).nodeId⟩ := by
  obtain ⟨m, dests, hd, htype, hpid, hdests⟩ := hskip
  obtain ⟨newer, older, hsplit⟩ := List.append_of_mem hd
  have hbacked : s.MajorityPromised (H.members m.instanceId) n older m.ballot :=
    (h.backed n).of_split hsplit htype
  -- both sets of members are the node and those that the earlier `ACCEPT` went to
  have hself : n ∈ H.members (s n).proposer.instanceId :=
    h.asks.mem_of_engaged h.inForce.members hw htr (.inr (.inl hvalid))
  obtain ⟨hself', hsent⟩ := h.asks.asked n m dests hd (by rw [htype]; rfl)
  have hsame : H.members m.instanceId = H.members (s n).proposer.instanceId := by
    rw [Node.others_toFinset, h.inForce.members n, hw.nodeId n, ← (hw n).1.proposerId,
      hsent] at hdests
    rw [← Finset.insert_erase hself, ← Finset.insert_erase hself', hdests]
  have hballot : m.ballot = ⟨(s n).proposer.proposalId, (s n).nodeId⟩ := by
    have hnode := ((htr.broadcast n m dests hd).2.2 (.inr (.inl htype))).1
    rw [PaxosMessage.ballot, hpid, hnode, hw.nodeId n]
  rw [hsame, hballot] at hbacked
  refine hbacked.mono (fun _ _ he => he) fun e he => List.mem_append_right l ?_
  rw [hsplit]
  exact List.mem_append_right newer (List.mem_cons_of_mem _ he)

/-- A new entry of the trace rests on what its action has counted. -/
theorem backed_new (h : Reconfigured H s) (hw : s.WF C) (htr : Traced s) {e : Event}
    (hcurrent : R.current .prepareReply) (hskip : ∀ x, R.skip x → Proposer.SkipsWithMembers x)
    (l : List Event) (hnew : NewEvent R E (s.Network n) (s n) y e) :
    s.AcceptBacked H n (l ++ (s n).trace) e := by
  cases hnew with
  | quiet he =>
    cases e with
    | broadcast m dests =>
      intro ht
      have hm : m.type = .askForLearn := by simpa [Event.isQuiet] using he
      rw [hm] at ht
      cases ht
    | _ => trivial
  | prepareReply _ _ he | acceptReply _ _ he => rcases he with ⟨rfl, -⟩ | ⟨rfl, -⟩ <;> trivial
  | prepare | newChosenValue | toFollowers =>
    intro ht
    cases ht
  | @accept m hm htype hprep hid hcur hpass =>
    intro _
    have hpid : m.proposalId = (s n).proposer.proposalId := hcur (htype ▸ hcurrent)
    have hreply := htr.replied_of_answered hm (.inl htype)
    have hasked := (htr.prepareReply _ _ _ hreply htype).1
    rw [hid, hpid] at hasked
    exact h.majority_of_passed hw l hprep hasked.used hpass
  | directAccept hsk hrej hrule hbusy hvalid hy =>
    intro _
    rw [hy]
    exact h.majority_of_skipped hw htr l hvalid (hskip _ hrule)
  | _ => trivial

theorem micro (h : Reconfigured H s) (hw : s.WF C) (hC : C.Starts H) (htr : Traced s)
    (hahead : ∀ n, (s n).NoneAhead) (hcurrent : P.rules.current .prepareReply)
    (hskip : ∀ x, P.rules.skip x → Proposer.SkipsWithMembers x) (hexec : t.Executes H)
    (hst : Micro P s t) : Reconfigured H t where
  inForce := h.inForce.micro hw hC hexec hst
  asks := h.asks.micro h.inForce.members hw htr hst
  counts n := (h.counts n).micro h.asks h.inForce.members hw htr (hahead n).not_used hcurrent hst
  backed := hst.atEach (Q := Sys.AcceptBacked H) hw Sys.AcceptBacked.mono h.backed
    fun _ _ _ l hnew => h.backed_new hw htr hcurrent hskip l hnew

/-- A recovery keeps the invariants of a group that changes its members. -/
theorem recover (h : Reconfigured H s) (hw : s.WF C) (hC : C.Starts H)
    (hexec : Sys.Executes (Function.update s n y) H) (hwhy : P.Recovers s n dirs)
    (hrec : (s n).Restarts E dirs a y) : Reconfigured H (Function.update s n y) where
  inForce := h.inForce.recover hw hC hexec hwhy hrec
  asks := h.asks.recover hrec
  counts k := (h.counts k).recover hrec
  backed := by
    refine hrec.atEach (Q := Sys.AcceptBacked H) Sys.AcceptBacked.mono h.backed ?_
    intro s n older e he
    cases e with
    | broadcast => cases he
    | _ => trivial

theorem init (hC : C.Starts H) : Reconfigured H (System.init C) where
  inForce := .init hC
  asks := .init C
  counts n := .init C n
  backed _ := ⟨trivial, trivial⟩

end Reconfigured

/-! ## The condition on runs -/

/-- Every `PREPARE` of a node for an instance above that of its newest record has a proposal id that
the record's promise is not below. -/
def Node.RestartsBehind (x : Node) : Prop :=
  ∀ a, Acceptor.readFromDB x.db = some a → ∀ m dests, .broadcast m dests ∈ x.trace →
    m.type = .prepare →
    m.proposalId ≤ a.promisedBallot.proposalId ∨ m.instanceId ≤ a.instanceId

/-- The Boolean check of `RestartsBehind`. -/
def Node.restartsBehind (x : Node) : Bool :=
  (Acceptor.readFromDB x.db).all fun a => x.trace.all fun
    | .broadcast m _ => m.type ≠ .prepare || m.proposalId ≤ a.promisedBallot.proposalId ||
        m.instanceId ≤ a.instanceId
    | _ => true

theorem Node.RestartsBehind.of_check (h : x.restartsBehind = true) :
    x.RestartsBehind := by
  intro a ha m dests hd htype
  unfold Node.restartsBehind at h
  rw [ha, Option.all_some, List.all_eq_true] at h
  have hm := h _ hd
  simpa [htype] using hm

/-- The Boolean check of `SkipsWithMembers`. -/
def Node.skipsWithMembers (x : Node) : Bool :=
  x.trace.any fun
    | .broadcast m dests => m.type = .accept && m.proposalId = x.proposer.proposalId &&
        dests.toFinset = (x.others x.memberIds).toFinset
    | _ => false

/-- The check spelled out, in any state that is the same for the round. -/
theorem SameRound.skipsWithMembers (h : SameRound x y) (hx : x.skipsWithMembers = true) :
    Proposer.SkipsWithMembers y := by
  unfold Node.skipsWithMembers at hx
  rw [List.any_eq_true] at hx
  obtain ⟨e, he, hcheck⟩ := hx
  cases e with
  | broadcast m dests =>
    simp only [Bool.and_eq_true, decide_eq_true_eq] at hcheck
    obtain ⟨⟨htype, hpid⟩, hdests⟩ := hcheck
    refine ⟨m, dests, (h.broadcast m dests).mpr he, htype, ?_, ?_⟩
    · rw [h.proposer]
      exact hpid
    · rw [hdests]
      unfold Node.others Node.memberIds Node.nodeId
      rw [h.config, h.machines]
  | _ => cases hcheck

/-- Whether a promise that an event counts answers the current round. -/
def Node.countsPromises (x : Node) : NodeEvent → Bool
  | .paxosMessage m => x.learner.isReceivingCheckpoint || decide
      (m.type = .prepareReply → x.proposer.preparing = true →
        m.instanceId = x.proposer.instanceId → m.proposalId = x.proposer.proposalId)
  | _ => true

/-- The condition on a step: `Prepare` is skipped only with the members of an earlier `ACCEPT` of
the ballot, promises are counted in the round that they answer, and a process that starts does not
use a proposal id that a later instance has seen. -/
def KeepsMajority (s : Sys) (a : Env × Label) : Bool :=
  match a.2 with
  | .node n ev => ((s n).roundKind a.1 ev ≠ .accept || (s n).skipsWithMembers) &&
      (s n).countsPromises ev
  | .restart n => (s n).restartsBehind
  | .install n _ _ => (s n).restartsBehind

/-- The policy of such runs. -/
def Policy.keepsMajority : Policy where
  rules :=
    { skip := Proposer.SkipsWithMembers
      current := fun type => type = .prepareReply }
  restart s n := (s n).RestartsBehind
  install s n _ _ := (s n).RestartsBehind

/-- The test on the events gives what the policy asks of the actions. -/
theorem Policy.keepsMajority_permits {a : Env × Label} (hw : s.WF C) (htr : Traced s)
    (h : KeepsMajority s a = true) : Policy.keepsMajority.Permits s a := by
  obtain ⟨E, l⟩ := a
  refine ⟨trivial, ?_⟩
  cases l with
  | restart n | install n source c => exact Node.RestartsBehind.of_check h
  | node n ev =>
    intro hallowed
    simp only [KeepsMajority, Bool.and_eq_true, Bool.or_eq_true, decide_eq_true_eq] at h
    obtain ⟨hskip, hcounts⟩ := h
    refine Rules.allows_of ?_ ?_ ?_ ?_ ?_ (fun _ => trivial) fun _ => trivial
    · exact fun _ _ _ _ _ => trivial
    · exact fun _ _ => trivial
    · exact fun _ y _ => ⟨trivial, fun hk => hk.elim⟩
    · exact fun hkind y hy =>
        ⟨hy.skipsWithMembers (hskip.resolve_left fun hne => hne hkind), fun hk => hk.elim⟩
    · rintro m rfl
      refine ⟨hallowed, fun hrecv => Rules.messageOk_of ?_ ?_ (fun hk => hk.elim)
        fun _ _ => trivial⟩
      · exact fun _ htype => htr.nodeId_ne_of_inFlight hw hallowed htype
      · intro htype hphase hid
        simp only [Node.countsPromises, hrecv, Bool.false_or, decide_eq_true_eq] at hcounts
        rcases hphase with ⟨-, hprep⟩ | ⟨haccept, -⟩
        · exact hcounts htype hprep hid
        · cases htype.symm.trans haccept

/-- **A majority of the members in force has promised.** In every run of a group whose nodes start
with the same members and execute the chosen values of a history, with any changes of the members
among them, and whose steps meet the condition: where a node has broadcast an `ACCEPT`, a majority
of the members in force at its instance had promised its ballot or a larger one. -/
theorem majority_in_force_promised {C : Setup} {H : GroupHistory} {s : Sys} (hC : C.Starts H)
    (hrun : Reaches System.step (fun s a => KeepsMajority s a = true) (System.init C) s)
    (hexec : s.Executes H) {n : ℕ} {newer older : List Event} {m : PaxosMessage} {dests : List ℕ}
    (hsplit : (s n).trace = newer ++ .broadcast m dests :: older) (htype : m.type = .accept) :
    s.MajorityPromised (H.members m.instanceId) n older m.ballot := by
  have hinv : Traced s ∧ (∀ n, (s n).NoneAhead) ∧ (s.Executes H → Reconfigured H s) := by
    refine (Policy.invariant (P := Policy.keepsMajority) (I := fun s =>
      Traced s ∧ (∀ n, (s n).NoneAhead) ∧ (s.Executes H → Reconfigured H s)) hrun ?_ ?_ ?_ ?_).2
    · refine ⟨.init C, fun n m dests hd => ?_, fun _ => .init hC⟩
      cases List.mem_singleton.mp hd
    · exact fun s a hw hs hok => Policy.keepsMajority_permits hw hs.1 hok
    · rintro s t hw ⟨htr, hahead, hinv⟩ hst
      obtain ⟨-, -, -, -, -, hgrow, -⟩ := hst.newEvents hw
      refine ⟨htr.micro hw hst, hst.forall_node (Q := fun _ x => x.NoneAhead) hahead
        fun n E y _ hact => (hahead n).act hact.proposerChange, fun hexec => ?_⟩
      exact (hinv (hexec.of_grows hgrow)).micro hw hC htr hahead rfl (fun _ hs => hs) hexec hst
    · rintro s k E dirs a y hw ⟨htr, hahead, hinv⟩ - hwhy hrec
      have hbehind : (s k).RestartsBehind := by
        rcases hwhy with ⟨h, -⟩ | ⟨source, c, saved, h, -⟩ <;> exact h
      refine ⟨htr.recover hrec.grows.1 hrec.grows.2, Sys.forall_update
        (Q := fun _ x => x.NoneAhead) hahead (.recover hrec (hbehind a hrec.read)), fun hexec => ?_⟩
      exact (hinv (hexec.of_grows hrec.grows.1)).recover hw hC hexec hwhy hrec
  exact ((hinv.2.2 hexec).backed n).of_split hsplit htype

/-! ## A group that grows -/

/-- The change that adds node 4, as a string. -/
def addFour : List UInt8 := [0x12, 0x02, 0x08, 0x04, 0x1a, 0x01, 0x00]

/-- The change that adds the nodes 2 and 3. -/
def addTwoThree : List UInt8 :=
  [0x12, 0x02, 0x08, 0x02, 0x12, 0x02, 0x08, 0x03, 0x1a, 0x02, 0x00, 0x00]

/-- A member of a group that starts with the nodes `ids`. -/
def growingMember (ids : List ℕ) : Config where
  nodeId := 1
  membership := ids.map fun i => { id := i }
  codec := protoCodec

/-- The history of such a group, in which the first instance makes the change `added`. -/
def growingHistory (ids : List ℕ) (added : List UInt8) : GroupHistory where
  codec := protoCodec
  initial := ids.map fun i => { id := i }
  value i :=
    if i = 1 then { valueId := 257, machineId := membershipMachineId, userData := added } else {}

theorem growing_starts (ids : List ℕ) (added : List UInt8) :
    (Setup.uniform (growingMember ids)).Starts (growingHistory ids added) := fun _ => ⟨rfl, rfl⟩

/-- Whether an entry executes or replays no other value than the chosen one. -/
def Event.executes (H : GroupHistory) : Event → Bool
  | .executed i v _ true => v = H.value i
  | .replayed i v _ => v = H.value i
  | _ => true

/-- In a run with steps of the nodes 1 to 4 only, it is enough to look at these. -/
theorem Sys.Executes.of_first_four {H : GroupHistory}
    (hrun : Reaches System.step (fun _ a => a.2.target ∈ [1, 2, 3, 4]) (System.init C) s)
    (h : ∀ n ∈ [1, 2, 3, 4], (s n).trace.all (Event.executes H) = true) : s.Executes H := by
  have hall : ∀ n e, e ∈ (s n).trace → e.executes H = true := by
    intro n e he
    by_cases hn : n ∈ [1, 2, 3, 4]
    · exact List.all_eq_true.mp (h n hn) e he
    · rw [System.eq_of_not_target hrun hn] at he
      obtain rfl := List.mem_singleton.mp he
      rfl
  exact ⟨fun n i v context he => of_decide_eq_true (hall n _ he),
    fun n i v ok he => of_decide_eq_true (hall n _ he)⟩

/-- Node 1 of a group of three adds node 4, and all three execute the change. Then node 2 prepares
the second instance, and nodes 1 and 3 promise. -/
def preparedWithFour : List (Env × Label) :=
  [({}, .node 1 (.propose membershipMachineId addFour none 256)),
   ({}, .node 2 (.paxosMessage
     { type := .prepare, nodeId := 1, instanceId := 1, proposalId := 1 })),
   ({}, .node 1 (.paxosMessage
     { type := .prepareReply, nodeId := 2, instanceId := 1, proposalId := 1 })),
   ({}, .node 2 (.paxosMessage { type := .accept, nodeId := 1, instanceId := 1, proposalId := 1,
                                 value := (growingHistory [1, 2, 3] addFour).value 1 })),
   ({}, .node 3 (.paxosMessage { type := .accept, nodeId := 1, instanceId := 1, proposalId := 1,
                                 value := (growingHistory [1, 2, 3] addFour).value 1 })),
   ({}, .node 1 (.paxosMessage
     { type := .acceptReply, nodeId := 2, instanceId := 1, proposalId := 1 })),
   ({}, .node 2 (.paxosMessage
     { type := .newChosenValue, nodeId := 1, instanceId := 1, proposalId := 1 })),
   ({}, .node 3 (.paxosMessage
     { type := .newChosenValue, nodeId := 1, instanceId := 1, proposalId := 1 })),
   ({}, .node 2 (.propose 7 [9] none 256)),
   ({}, .node 1 (.paxosMessage
     { type := .prepare, nodeId := 2, instanceId := 2, proposalId := 1 })),
   ({}, .node 3 (.paxosMessage
     { type := .prepare, nodeId := 2, instanceId := 2, proposalId := 1 })),
   ({}, .node 2 (.paxosMessage
     { type := .prepareReply, nodeId := 1, instanceId := 2, proposalId := 1 })),
   ({}, .node 2 (.paxosMessage
     { type := .prepareReply, nodeId := 3, instanceId := 2, proposalId := 1 }))]

/-- The `ACCEPT` of node 2 in the second instance rests on a majority of the four. -/
theorem majority_in_force_promised_four :
    ∃ (s : Sys) (newer older : List Event) (m : PaxosMessage) (dests : List ℕ),
    (s 2).trace = newer ++ .broadcast m dests :: older ∧ m.type = .accept ∧ m.instanceId = 2 ∧
    s.MajorityPromised {1, 2, 3, 4} 2 older m.ballot := by
  let m : PaxosMessage := { type := .accept, nodeId := 2, instanceId := 2, proposalId := 1,
                            value := { valueId := 257, machineId := 7, userData := [9] } }
  have hend : (runChecked System.step
      (fun s a => KeepsMajority s a && decide (a.2.target ∈ [1, 2, 3, 4]))
      (System.init (.uniform (growingMember [1, 2, 3]))) preparedWithFour).map (fun s =>
        (decide (Event.broadcast m [4, 3, 1] ∈ (s 2).trace), [1, 2, 3, 4].all fun n =>
          (s n).trace.all (Event.executes (growingHistory [1, 2, 3] addFour)))) =
        some (true, true) := by
    decide +kernel
  obtain ⟨s, hs, hval⟩ := Option.map_eq_some_iff.mp hend
  obtain ⟨hmem, hall⟩ := Prod.mk.inj hval
  obtain ⟨newer, older, hsplit⟩ := List.append_of_mem (of_decide_eq_true hmem)
  have hrun : Reaches System.step
      (fun s a => KeepsMajority s a = true ∧ a.2.target ∈ [1, 2, 3, 4])
      (System.init (.uniform (growingMember [1, 2, 3]))) s :=
    Reaches.of_runChecked preparedWithFour (fun _ _ _ hok => by simpa using hok) hs
  have hexec : s.Executes (growingHistory [1, 2, 3] addFour) :=
    .of_first_four (hrun.mono fun _ _ h => h.2) (List.all_eq_true.mp hall)
  have hmembers : (growingHistory [1, 2, 3] addFour).members 2 = {1, 2, 3, 4} := by decide +kernel
  have hmaj := majority_in_force_promised (growing_starts [1, 2, 3] addFour)
    (hrun.mono fun _ _ h => h.1) hexec hsplit rfl
  exact ⟨s, newer, older, m, [4, 3, 1], hsplit, rfl, rfl, hmembers ▸ hmaj⟩

/-- Node 1, alone in its group, adds the nodes 2 and 3 and proposes a value. -/
def grownAndSkipped : List (Env × Label) :=
  [({}, .node 1 (.propose membershipMachineId addTwoThree none 256)),
   ({}, .node 1 (.propose 7 [9] none 256))]

/-- `Prepare` is skipped, and the `ACCEPT` goes to members that have promised nothing: of the three
members in force, only node 1 has. -/
theorem skipped_across_change : ∃ s newer older m dests,
    run System.step (System.init (.uniform (growingMember [1]))) grownAndSkipped = some s ∧
    s.Executes (growingHistory [1] addTwoThree) ∧
    (s 1).trace = newer ++ .broadcast m dests :: older ∧ m.type = .accept ∧
    ¬ s.MajorityPromised ((growingHistory [1] addTwoThree).members m.instanceId) 1 older
      m.ballot := by
  let m : PaxosMessage := { type := .accept, nodeId := 1, instanceId := 2, proposalId := 1,
                            value := { valueId := 258, machineId := 7, userData := [9] } }
  have hend : (run System.step (System.init (.uniform (growingMember [1]))) grownAndSkipped).map
      (fun s => (decide (Event.broadcast m [3, 2] ∈ (s 1).trace), ([1, 2, 3, 4].all fun n =>
        (s n).trace.all (Event.executes (growingHistory [1] addTwoThree))), (s 2).trace,
        (s 3).trace)) =
        some (true, true, (Node.fresh (growingMember [1])).trace,
          (Node.fresh (growingMember [1])).trace) := by
    decide +kernel
  obtain ⟨s, hs, hval⟩ := Option.map_eq_some_iff.mp hend
  simp only [Prod.mk.injEq] at hval
  obtain ⟨hmem, hall, h2, h3⟩ := hval
  obtain ⟨newer, older, hsplit⟩ := List.append_of_mem (of_decide_eq_true hmem)
  have hrun : Reaches System.step (fun _ a => a.2.target ∈ [1, 2, 3, 4])
      (System.init (.uniform (growingMember [1]))) s :=
    Reaches.of_run grownAndSkipped (fun a ha _ =>
      (by decide : ∀ a ∈ grownAndSkipped, a.2.target ∈ [1, 2, 3, 4]) a ha) hs
  refine ⟨s, newer, older, m, [3, 2], hs, .of_first_four hrun (List.all_eq_true.mp hall), hsplit,
    rfl, ?_⟩
  have hmembers : (growingHistory [1] addTwoThree).members 2 = {1, 2, 3} := by decide +kernel
  rw [show m.instanceId = 2 from rfl, hmembers]
  rintro ⟨Q, hQ, hcard, hpromised⟩
  -- nodes 2 and 3 have done nothing
  have honly : Q ⊆ {1} := by
    intro a ha
    obtain ⟨i, c, -, hc⟩ := hpromised a ha
    have ha' := hQ ha
    simp only [Finset.mem_insert, Finset.mem_singleton] at ha' ⊢
    rcases ha' with rfl | rfl | rfl
    · rfl
    · rw [if_neg (by decide), h2] at hc
      cases List.mem_singleton.mp hc
    · rw [if_neg (by decide), h3] at hc
      cases List.mem_singleton.mp hc
  have hle := Finset.card_le_card honly
  have hthree : ({1, 2, 3} : Finset ℕ).card = 3 := rfl
  rw [hthree] at hcard
  rw [Finset.card_singleton] at hle
  omega

end Skywalker
