import Skywalker.Steps
import Skywalker.Execution

/-!
# Where messages come from

Every message in the network was sent by the node that it names, and what a trace records has its
cause in another: a promise answers a `PREPARE` that was broadcast, an accepted value was in an
`ACCEPT`, and a reply without a `rejected_id` stands for a promise or an accepted value of its
sender. This holds in every run, with restarts and with any policy, since nothing leaves a trace.
-/

namespace Skywalker

variable {s t : Sys} {a d i k n p : ℕ} {type : PaxosMessageType} {v : PaxosValue}
  {m r : PaxosMessage} {C : Setup} {P : Policy} {Q : Sys → ℕ → List Event → Event → Prop} {E : Env}
  {config : Config} {db : DB} {dirs : List (ℕ × Machines)} {trace : List Event} {x y : Node}
  {e : Event} {R : Rules} {net : PaxosMessage → Prop}

namespace Sys

/-- `m` was broadcast by the node `n`. -/
def sent (s : Sys) (n : ℕ) (m : PaxosMessage) : Prop := ∃ dests, .broadcast m dests ∈ (s n).trace

/-- The acceptor of `a` answered the node `d` with `r`. -/
def replied (s : Sys) (a d : ℕ) (r : PaxosMessage) : Prop :=
  .send d r ∈ (s a).trace ∨ (d = a ∧ .handed r ∈ (s a).trace)

/-- The node `n` broadcast `m`, and the node `a` can have heard it: it is among the nodes that the
broadcast goes to, or it is `n` itself. -/
def sentTo (s : Sys) (n a : ℕ) (m : PaxosMessage) : Prop :=
  ∃ dests, .broadcast m dests ∈ (s n).trace ∧ (a ∈ dests ∨ a = n)

/-- The node `n` broadcast a message of a type for an instance and a proposal id. -/
def used (s : Sys) (n : ℕ) (type : PaxosMessageType) (i p : ℕ) : Prop :=
  ∃ m, s.sent n m ∧ m.type = type ∧ m.instanceId = i ∧ m.proposalId = p

/-- The node `n` asked the node `a` with such a message. -/
def asked (s : Sys) (n a : ℕ) (type : PaxosMessageType) (i p : ℕ) : Prop :=
  ∃ m, s.sentTo n a m ∧ m.type = type ∧ m.instanceId = i ∧ m.proposalId = p

/-- The node `n` broadcast an `ACCEPT` of a value. -/
def proposes (s : Sys) (n i p : ℕ) (v : PaxosValue) : Prop :=
  ∃ m, s.sent n m ∧ m.type = .accept ∧ m.instanceId = i ∧ m.proposalId = p ∧ m.value = v

/-- The node `n` offered the node `a` a value with such an `ACCEPT`. -/
def offered (s : Sys) (n a i p : ℕ) (v : PaxosValue) : Prop :=
  ∃ m, s.sentTo n a m ∧ m.type = .accept ∧ m.instanceId = i ∧ m.proposalId = p ∧ m.value = v

theorem asked.used (h : s.asked n a type i p) : s.used n type i p := by
  obtain ⟨m, ⟨dests, hd, -⟩, hrest⟩ := h
  exact ⟨m, ⟨dests, hd⟩, hrest⟩

theorem offered.proposes (h : s.offered n a i p v) :
    s.proposes n i p v := by
  obtain ⟨m, ⟨dests, hd, -⟩, hrest⟩ := h
  exact ⟨m, ⟨dests, hd⟩, hrest⟩

theorem offered.asked (h : s.offered n a i p v) :
    s.asked n a .accept i p := by
  obtain ⟨m, hm, ht, hi, hp, -⟩ := h
  exact ⟨m, hm, ht, hi, hp⟩

theorem proposes.used (h : s.proposes n i p v) :
    s.used n .accept i p := by
  obtain ⟨m, hm, ht, hi, hp, -⟩ := h
  exact ⟨m, hm, ht, hi, hp⟩

end Sys

/-- Traces of the second system contain those of the first. -/
def Sys.Grows (s t : Sys) : Prop := ∀ k e, e ∈ (s k).trace → e ∈ (t k).trace

namespace Sys.Grows

variable (h : s.Grows t)
include h

theorem sent (hm : s.sent n m) : t.sent n m := by
  obtain ⟨dests, hd⟩ := hm
  exact ⟨dests, h n _ hd⟩

theorem sentTo (hm : s.sentTo n a m) : t.sentTo n a m := by
  obtain ⟨dests, hd, ha⟩ := hm
  exact ⟨dests, h n _ hd, ha⟩

theorem used (hm : s.used n type i p) :
    t.used n type i p := by
  obtain ⟨m, hm, hrest⟩ := hm
  exact ⟨m, h.sent hm, hrest⟩

theorem asked (hm : s.asked n a type i p) :
    t.asked n a type i p := by
  obtain ⟨m, hm, hrest⟩ := hm
  exact ⟨m, h.sentTo hm, hrest⟩

theorem offered (hm : s.offered n a i p v) :
    t.offered n a i p v := by
  obtain ⟨m, hm, hrest⟩ := hm
  exact ⟨m, h.sentTo hm, hrest⟩

theorem replied (hr : s.replied a d r) : t.replied a d r :=
  hr.imp (h a _) (And.imp_right (h a _))

end Sys.Grows

/-- An action of the system with what it appends: every entry was there before, or is one that the
node appends for a reason. -/
theorem Micro.newEvents (hw : s.WF C) (h : Micro P s t) :
    ∃ n E, P.env E ∧ Act P.rules E (s.Network n) (s n) (t n) ∧
      (∀ k, k ≠ n → t k = s k) ∧ s.Grows t ∧
      ∀ k e, e ∈ (t k).trace → e ∈ (s k).trace ∨
        (k = n ∧ NewEvent P.rules E (s.Network n) (s n) (t n) e) := by
  obtain ⟨n, E, y, henv, hact⟩ := h
  have hself : Function.update s n y n = y := Function.update_self ..
  refine ⟨n, E, henv, by rwa [hself], fun k hk => Function.update_of_ne hk .., ?_, ?_⟩
  · exact Sys.trace_update fun e he => hact.trace_mono (hw n).1 he
  · intro k e he
    by_cases hk : k = n
    · subst hk
      rw [hself] at he ⊢
      exact (hact.mem_trace (hw k).1 he).imp id fun hnew => ⟨rfl, hnew⟩
    · rw [Function.update_of_ne hk] at he
      exact Or.inl he

/-- What each entry of a trace owes to the entries before it stays so in an action, when it survives
the growth of the traces and holds of each new entry. -/
theorem Micro.atEach (h : Micro P s t) (hw : s.WF C)
    (hmono : ∀ {s t n older e}, s.Grows t → Q s n older e → Q t n older e)
    (hs : ∀ n, TransitionSystem.AtEach (Q s n) (s n).trace)
    (hnew : ∀ n E e l, NewEvent P.rules E (s.Network n) (s n) (t n) e →
      Q s n (l ++ (s n).trace) e) (k : ℕ) : TransitionSystem.AtEach (Q t k) (t k).trace := by
  obtain ⟨n, E, -, hact, hother, hgrow, -⟩ := h.newEvents hw
  have hold : TransitionSystem.AtEach (Q t k) (s k).trace := (hs k).mono fun _ _ => hmono hgrow
  by_cases hk : k = n
  · subst hk
    obtain ⟨l, hl, hwhy⟩ := hact.newEvents (hw k).1
    rw [hl]
    exact hold.append fun e he l' => hmono hgrow (hnew k E e l' (hwhy e he))
  · rw [hother k hk]
    exact hold

/-- A reply was there before, or its entry is new at the node that acts. -/
theorem Sys.replied_cases {new : Event → Prop} (hn : (s n).nodeId = n)
    (hmem : ∀ k e, e ∈ (t k).trace → e ∈ (s k).trace ∨ (k = n ∧ new e)) (a d : ℕ) (r : PaxosMessage)
    (hr : t.replied a d r) : s.replied a d r ∨
      (a = n ∧ ∃ e, (e = .send d r ∨ (d = (s n).nodeId ∧ e = .handed r)) ∧ new e) := by
  rcases hr with hr | ⟨hd, hr⟩
  · rcases hmem a _ hr with hold | ⟨ha, hnew⟩
    · exact Or.inl (Or.inl hold)
    · exact Or.inr ⟨ha, _, Or.inl rfl, hnew⟩
  · rcases hmem a _ hr with hold | ⟨ha, hnew⟩
    · exact Or.inl (Or.inr ⟨hd, hold⟩)
    · exact Or.inr ⟨ha, _, Or.inr ⟨by rw [hn, hd, ha], rfl⟩, hnew⟩

/-- Recovery appends only its own entries. -/
theorem Node.Recovered.mem_trace {a : Acceptor} (h : Node.Recovered E config db dirs trace a x)
    (he : e ∈ x.trace) :
    e ∈ trace ∨ (∃ i ms, e = .recovered i ms) ∨
      ∃ j r ok, e = .replayed j r.acceptedValue ok ∧ db.get j = some r ∧ j < a.instanceId := by
  obtain ⟨l, hl, hreplay⟩ := h.trace_eq
  rw [hl] at he
  rcases List.mem_cons.mp he with rfl | he
  · exact Or.inr (Or.inl ⟨_, _, rfl⟩)
  · rcases List.mem_append.mp he with he | he
    · exact Or.inr (Or.inr (hreplay e he))
    · exact Or.inl he

/-- Nothing leaves the trace in a recovery. -/
theorem Node.Recovered.trace_mono {a : Acceptor} (h : Node.Recovered E config db dirs trace a x)
    (he : e ∈ trace) :
    e ∈ x.trace := by
  obtain ⟨l, hl, -⟩ := h.trace_eq
  rw [hl]
  exact List.mem_cons_of_mem _ (List.mem_append_right l he)

/-- The entries that recovery appends. -/
def Event.ofRecovery : Event → Bool
  | .recovered _ _ => true
  | .replayed _ _ _ => true
  | _ => false

/-- Any other entry was there before. -/
theorem Node.Recovered.mem_old {a : Acceptor} (h : Node.Recovered E config db dirs trace a x)
    (he : e ∈ x.trace) (hkind : e.ofRecovery = false) : e ∈ trace := by
  rcases h.mem_trace he with he | ⟨i, ms, rfl⟩ | ⟨j, r, ok, rfl, -⟩
  · exact he
  · cases hkind
  · cases hkind

section Recovered

variable {a : Acceptor}

/-- A recovery in the system: traces grow, and what is new is an entry of recovery. -/
theorem Node.Recovered.grows (h : (s n).Restarts E dirs a y) :
    s.Grows (Function.update s n y) ∧ ∀ k e, e ∈ (Function.update s n y k).trace →
      e ∈ (s k).trace ∨ e.ofRecovery = true := by
  refine ⟨Sys.trace_update fun e he => h.trace_mono he, ?_⟩
  refine Sys.forall_update
    (Q := fun k x => ∀ e, e ∈ x.trace → e ∈ (s k).trace ∨ e.ofRecovery = true)
    (fun k e he => Or.inl he) fun e he => ?_
  cases hkind : e.ofRecovery with
  | true => exact Or.inr rfl
  | false => exact Or.inl (h.mem_old he hkind)

/-- Any other entry was there before, at each node. -/
theorem Node.Recovered.mem_old_at (h : (s n).Restarts E dirs a y)
    (he : e ∈ (Function.update s n y k).trace) (hkind : e.ofRecovery = false) : e ∈ (s k).trace :=
  (h.grows.2 k e he).resolve_right (by rw [hkind]; exact Bool.false_ne_true)

/-- A recovered node has no new reply in its trace. -/
theorem Node.Recovered.replied_old (h : (s n).Restarts E dirs a y)
    (hr : Sys.replied (Function.update s n y) k d r) : s.replied k d r :=
  hr.imp (fun he => h.mem_old_at he rfl) (And.imp_right fun he => h.mem_old_at he rfl)

/-- A recovery uses no proposal id. -/
theorem Node.Recovered.used_old (h : (s n).Restarts E dirs a y)
    (hused : Sys.used (Function.update s n y) k type i p) : s.used k type i p := by
  obtain ⟨m, ⟨dests, hd⟩, hrest⟩ := hused
  exact ⟨m, ⟨dests, h.mem_old_at hd rfl⟩, hrest⟩

/-- A recovery opens no round: a node with one is another, and stays as it was. -/
theorem Node.Recovered.eq_of_round (h : (s n).Restarts E dirs a y)
    (hround : (Function.update s n y k).proposer.preparing = true ∨
      (Function.update s n y k).proposer.accepting = true ∨
      (Function.update s n y k).proposer.skipPrepare = true) : Function.update s n y k = s k := by
  by_cases hk : k = n
  · subst hk
    rw [Function.update_self, h.proposer] at hround
    simp at hround
  · rw [Function.update_of_ne hk]

end Recovered

/-- The same in a recovery, when nothing is owed by its entries. -/
theorem Node.Recovered.atEach {a : Acceptor} (h : (s n).Restarts E dirs a y)
    (hmono : ∀ {s t n older e}, s.Grows t → Q s n older e → Q t n older e)
    (hs : ∀ n, TransitionSystem.AtEach (Q s n) (s n).trace)
    (hfree : ∀ s n older e, e.ofRecovery = true → Q s n older e) (k : ℕ) :
    TransitionSystem.AtEach (Q (Function.update s n y) k) (Function.update s n y k).trace := by
  have hold : TransitionSystem.AtEach (Q (Function.update s n y) k) (s k).trace :=
    (hs k).mono fun _ _ => hmono h.grows.1
  by_cases hk : k = n
  · subst hk
    obtain ⟨l, hl, hreplay⟩ := h.trace_eq
    rw [Function.update_self, hl]
    refine ⟨hfree _ _ _ _ rfl, hold.append fun e he l' => ?_⟩
    obtain ⟨j, r, ok, rfl, -⟩ := hreplay e he
    exact hfree _ _ _ _ rfl
  · rw [Function.update_of_ne hk]
    exact hold

/-- A policy without rules permits a step when the environment and the recovery are as it asks. -/
theorem Policy.permits_free {a : Env × Label} (hrules : P.rules = {}) (henv : P.env a.1)
    (hrestart : ∀ n, a.2 = .restart n → P.restart s n)
    (hinstall : ∀ n source c, a.2 = .install n source c → P.install s n source c) :
    P.Permits s a := by
  refine ⟨henv, ?_⟩
  split
  · rename_i n ev hlabel
    intro hallowed
    rw [hrules]
    refine Rules.allows_of_net a.1 (s n) ev ?_ (fun _ => trivial) fun _ => trivial
    rintro m rfl
    exact hallowed
  · rename_i n hlabel
    exact hrestart n hlabel
  · rename_i n source c hlabel
    exact hinstall n source c hlabel

/-- What traces say about messages. -/
structure Traced (s : Sys) : Prop where
  /-- A broadcast is no reply, and one of the proposer's names its sender, goes to others and has a
  proposal id. -/
  broadcast : ∀ n m dests, .broadcast m dests ∈ (s n).trace →
    m.type ≠ .prepareReply ∧ m.type ≠ .acceptReply ∧
    (m.type = .prepare ∨ m.type = .accept ∨ m.type = .newChosenValue →
      m.nodeId = n ∧ n ∉ dests ∧ 1 ≤ m.proposalId)
  /-- A message to one node is not the proposer's. -/
  send : ∀ n d m, .send d m ∈ (s n).trace →
    m.type ≠ .prepare ∧ m.type ≠ .accept ∧ m.type ≠ .newChosenValue
  /-- A reply handed over inside a node names that node. -/
  handed : ∀ n m, .handed m ∈ (s n).trace → m.type = .prepareReply ∨ m.type = .acceptReply →
    m.nodeId = n
  /-- A reply to a `PREPARE` answers one, and is a promise unless it names a rejected id. -/
  prepareReply : ∀ a d r, s.replied a d r → r.type = .prepareReply →
    s.asked d a .prepare r.instanceId r.proposalId ∧
    (r.rejectedId = 0 → .promised r.instanceId ⟨r.proposalId, d⟩ ∈ (s a).trace)
  /-- A reply to an `ACCEPT` answers one, and its value was accepted unless it names a rejected
  id. -/
  acceptReply : ∀ a d r, s.replied a d r → r.type = .acceptReply →
    ∃ v, s.offered d a r.instanceId r.proposalId v ∧
      (r.rejectedId = 0 → .accepted r.instanceId ⟨r.proposalId, d⟩ v ∈ (s a).trace)
  /-- A promise answers a `PREPARE`. -/
  promised : ∀ a i b, .promised i b ∈ (s a).trace → s.asked b.nodeId a .prepare i b.proposalId
  /-- An accepted value was in an `ACCEPT`. -/
  accepted : ∀ a i b v, .accepted i b v ∈ (s a).trace → s.offered b.nodeId a i b.proposalId v

/-! ## Messages in flight -/

namespace Traced

/-- A message in flight was sent by the node that it names. -/
theorem of_inFlight (h : s.inFlight n m = true) :
    .send n m ∈ (s m.nodeId).trace ∨
      ∃ dests, .broadcast m dests ∈ (s m.nodeId).trace ∧ n ∈ dests := by
  unfold Sys.inFlight at h
  rw [List.any_eq_true] at h
  obtain ⟨e, he, hd⟩ := h
  cases e with
  | send d m' =>
    simp only [Event.delivers, Bool.and_eq_true, decide_eq_true_eq] at hd
    obtain ⟨rfl, rfl⟩ := hd
    exact Or.inl he
  | broadcast m' dests =>
    simp only [Event.delivers, Bool.and_eq_true, decide_eq_true_eq] at hd
    obtain ⟨rfl, hn⟩ := hd
    exact Or.inr ⟨dests, he, hn⟩
  | _ => cases hd

/-- A `PREPARE`, `ACCEPT` or `NEW_CHOSEN_VALUE` in flight was broadcast, by another node. -/
theorem sent_of_inFlight (h : Traced s) (hm : s.inFlight n m = true)
    (htype : m.type = .prepare ∨ m.type = .accept ∨ m.type = .newChosenValue) :
    s.sentTo m.nodeId n m ∧ m.nodeId ≠ n ∧ 1 ≤ m.proposalId := by
  rcases of_inFlight hm with hsend | ⟨dests, hd, hn⟩
  · obtain ⟨h1, h2, h3⟩ := h.send _ _ _ hsend
    rcases htype with ht | ht | ht
    · exact absurd ht h1
    · exact absurd ht h2
    · exact absurd ht h3
  · obtain ⟨-, -, hrest⟩ := h.broadcast _ _ _ hd
    obtain ⟨-, hself, hpos⟩ := hrest htype
    refine ⟨⟨dests, hd, Or.inl hn⟩, ?_, hpos⟩
    intro heq
    rw [heq] at hself
    exact hself hn

/-- A `PREPARE` or an `ACCEPT` in flight comes from another node than the one that it goes to. -/
theorem nodeId_ne_of_inFlight (h : Traced s) (hw : s.WF C) (hm : s.inFlight n m = true)
    (htype : m.type = .prepare ∨ m.type = .accept) :
    m.nodeId ≠ (s n).nodeId := by
  rw [hw.nodeId n]
  exact (h.sent_of_inFlight hm (htype.imp id Or.inl)).2.1

theorem replied_of_inFlight (h : Traced s) (hm : s.inFlight n m = true)
    (htype : m.type = .prepareReply ∨ m.type = .acceptReply) : s.replied m.nodeId n m := by
  rcases of_inFlight hm with hsend | ⟨dests, hd, hn⟩
  · exact Or.inl hsend
  · obtain ⟨h1, h2, -⟩ := h.broadcast _ _ _ hd
    rcases htype with ht | ht
    · exact absurd ht h1
    · exact absurd ht h2

/-- A reply that reaches the proposer was sent by the acceptor that it names. -/
theorem replied_of_answered (h : Traced s) (hm : Answered (s.Network n) (s n) m)
    (htype : m.type = .prepareReply ∨ m.type = .acceptReply) : s.replied m.nodeId n m := by
  rcases hm with hm | hm
  · exact h.replied_of_inFlight hm htype
  · have hn := h.handed n m hm htype
    rw [hn]
    exact Or.inr ⟨rfl, hm⟩

theorem announced_pos (h : Traced s) (hm : Announced (s.Network n) (s n) m) : 1 ≤ m.proposalId := by
  rcases hm with ⟨hnet, ht⟩ | ⟨⟨dests, hd⟩, ht⟩ | ⟨m', hnet, ht, -, -, hballot⟩
  · exact (h.sent_of_inFlight hnet (Or.inr (Or.inr ht))).2.2
  · exact ((h.broadcast n m dests hd).2.2 (Or.inr (Or.inr ht))).2.2
  · have hpos := (h.sent_of_inFlight hnet (ht.imp id Or.inl)).2.2
    have heq : m.proposalId = m'.proposalId := congrArg BallotNumber.proposalId hballot
    omega

/-! ## New entries -/

/-- A broadcast that an action appends is no reply, and a request or a choice is from the node
itself. -/
theorem broadcast_new (hw : x.WF) {dests : List ℕ} (h : NewEvent R E net x y (.broadcast m dests)) :
    m.type ≠ .prepareReply ∧ m.type ≠ .acceptReply ∧
    (m.type = .prepare ∨ m.type = .accept ∨ m.type = .newChosenValue →
      m.nodeId = x.nodeId ∧ x.nodeId ∉ dests ∧ 1 ≤ m.proposalId) := by
  have hself : x.nodeId ∉ x.others x.memberIds := by simp [Node.others]
  cases h with
  | quiet he =>
    have htype : m.type = .askForLearn := by simpa [Event.isQuiet] using he
    rw [htype]
    simp
  | @prepare z v hstart hrule hy =>
    refine ⟨by simp [Proposer.prepareMessage], by simp [Proposer.prepareMessage], fun _ => ?_⟩
    obtain ⟨-, -, hp, hc, -⟩ := hstart.same
    refine ⟨?_, hself, ?_⟩
    · show z.config.nodeId = x.config.nodeId
      rw [hc]
    · refine hw.proposalId.trans ?_
      rw [← hp]
      exact Proposer.le_nextProposalId z.proposer
  | prepareReply _ _ he => rcases he with ⟨he, -⟩ | ⟨he, -⟩ <;> cases he
  | accept =>
    refine ⟨by simp [Proposer.acceptMessage], by simp [Proposer.acceptMessage], fun _ => ?_⟩
    exact ⟨rfl, hself, hw.proposalId⟩
  | directAccept _ _ _ _ _ hy =>
    refine ⟨by simp [Proposer.acceptMessage], by simp [Proposer.acceptMessage], fun _ => ?_⟩
    rw [hy]
    exact ⟨rfl, hself, hw.proposalId⟩
  | acceptReply _ _ he => rcases he with ⟨he, -⟩ | ⟨he, -⟩ <;> cases he
  | newChosenValue => exact ⟨by simp, by simp, fun _ => ⟨rfl, hself, hw.proposalId⟩⟩
  | toFollowers => exact ⟨by simp, by simp, by simp⟩

/-- A message to one node that an action appends. -/
theorem send_new (h : NewEvent R E net x y (.send d m)) :
    m.type ≠ .prepare ∧ m.type ≠ .accept ∧ m.type ≠ .newChosenValue := by
  cases h with
  | quiet he =>
    simp only [Event.isQuiet, Bool.or_eq_true, decide_eq_true_eq] at he
    rcases he with (he | he) | he <;> rw [he] <;> simp
  | @prepareReply m' _ _ _ hr he =>
    rcases he with ⟨he, -⟩ | ⟨he, -⟩
    · cases he
    · cases he
      rcases hr with ⟨-, rfl, -⟩ | ⟨-, rfl⟩
      · unfold Acceptor.promise
        split_ifs <;> simp [Acceptor.replyTo]
      · simp [Acceptor.rejection, Acceptor.replyTo]
  | acceptReply _ hr he =>
    rcases he with ⟨he, -⟩ | ⟨he, -⟩
    · cases he
    · cases he
      rcases hr with ⟨-, rfl, -⟩ | ⟨-, rfl⟩ <;> simp [Acceptor.rejection, Acceptor.replyTo]
  | serve => simp [Learner.learnedMessage]

/-- A promise has the instance and the proposal id of its `PREPARE`. -/
theorem promise_fields (m : PaxosMessage) (x : Node) :
    (Acceptor.promise m x).type = .prepareReply ∧ (Acceptor.promise m x).nodeId = x.nodeId ∧
    (Acceptor.promise m x).instanceId = m.instanceId ∧
    (Acceptor.promise m x).proposalId = m.proposalId ∧ (Acceptor.promise m x).rejectedId = 0 := by
  unfold Acceptor.promise
  split_ifs <;> exact ⟨rfl, rfl, rfl, rfl, rfl⟩

/-- A reply to a `PREPARE` that an action appends. -/
theorem prepareReply_new (h : NewEvent R E net x y e)
    (he : e = .send d r ∨ (d = x.nodeId ∧ e = .handed r)) (htype : r.type = .prepareReply) :
    ∃ m, Heard net x y .prepare m ∧ d = m.nodeId ∧
      ((x.acceptor.promisedBallot ≤ m.ballot ∧ r = Acceptor.promise m x ∧
          .promised m.instanceId m.ballot ∈ y.trace) ∨
        (¬ x.acceptor.promisedBallot ≤ m.ballot ∧ r = Acceptor.rejection .prepareReply m x)) := by
  cases h with
  | quiet hq =>
    rcases he with rfl | ⟨-, rfl⟩
    · simp [Event.isQuiet, htype] at hq
    · simp [Event.isQuiet, htype] at hq
  | @prepareReply m r' _ hm hr hre =>
    refine ⟨m, hm, ?_⟩
    rcases hre with ⟨rfl, hn⟩ | ⟨rfl, hn⟩ <;> rcases he with he | ⟨hd, he⟩ <;> cases he
    · exact ⟨hd.trans hn.symm, hr⟩
    · exact ⟨rfl, hr⟩
  | @acceptReply m r' _ hm hr hre =>
    exfalso
    have hrt : r'.type = .acceptReply := by
      rcases hr with ⟨-, rfl, -⟩ | ⟨-, rfl⟩ <;> rfl
    rcases hre with ⟨rfl, hn⟩ | ⟨rfl, hn⟩ <;> rcases he with he | ⟨hd, he⟩ <;> cases he <;>
      simp [htype] at hrt
  | serve =>
    rcases he with he | ⟨-, he⟩ <;> cases he
    cases htype
  | _ => rcases he with he | ⟨-, he⟩ <;> cases he

/-- A reply to an `ACCEPT` that an action appends. -/
theorem acceptReply_new (h : NewEvent R E net x y e)
    (he : e = .send d r ∨ (d = x.nodeId ∧ e = .handed r)) (htype : r.type = .acceptReply) :
    ∃ m, Heard net x y .accept m ∧ d = m.nodeId ∧
      ((x.acceptor.promisedBallot ≤ m.ballot ∧ r = Acceptor.replyTo .acceptReply m x ∧
          .accepted m.instanceId m.ballot m.value ∈ y.trace) ∨
        (¬ x.acceptor.promisedBallot ≤ m.ballot ∧ r = Acceptor.rejection .acceptReply m x)) := by
  cases h with
  | quiet hq =>
    rcases he with rfl | ⟨-, rfl⟩
    · simp [Event.isQuiet, htype] at hq
    · simp [Event.isQuiet, htype] at hq
  | @acceptReply m r' _ hm hr hre =>
    refine ⟨m, hm, ?_⟩
    rcases hre with ⟨rfl, hn⟩ | ⟨rfl, hn⟩ <;> rcases he with he | ⟨hd, he⟩ <;> cases he
    · exact ⟨hd.trans hn.symm, hr⟩
    · exact ⟨rfl, hr⟩
  | @prepareReply m r' _ hm hr hre =>
    exfalso
    have hrt : r'.type = .prepareReply := by
      rcases hr with ⟨-, rfl, -⟩ | ⟨-, rfl⟩
      · exact (promise_fields m x).1
      · rfl
    rcases hre with ⟨rfl, hn⟩ | ⟨rfl, hn⟩ <;> rcases he with he | ⟨hd, he⟩ <;> cases he <;>
      simp [htype] at hrt
  | serve =>
    rcases he with he | ⟨-, he⟩ <;> cases he
    cases htype
  | _ => rcases he with he | ⟨-, he⟩ <;> cases he

/-- What reached an acceptor was broadcast by the node that it names, with a proposal id. -/
theorem sent_of_heard (h : Traced s) (hgrow : s.Grows t) (hn : (s n).nodeId = n)
    (hnew : ∀ m dests, .broadcast m dests ∈ (t n).trace →
      m.type = .prepare ∨ m.type = .accept ∨ m.type = .newChosenValue → 1 ≤ m.proposalId)
    (htype : type = .prepare ∨ type = .accept) (hm : Heard (s.Network n) (s n) (t n) type m) :
    t.sentTo m.nodeId n m ∧ 1 ≤ m.proposalId := by
  have hmt : m.type = .prepare ∨ m.type = .accept ∨ m.type = .newChosenValue := by
    rw [hm.type_eq]
    rcases htype with ht | ht <;> simp [ht]
  rcases hm.heard with hnet | ⟨hself, dests, hd⟩
  · obtain ⟨hsent, -, hpos⟩ := h.sent_of_inFlight hnet hmt
    exact ⟨hgrow.sentTo hsent, hpos⟩
  · rw [hn] at hself
    refine ⟨?_, hnew m dests hd hmt⟩
    rw [hself]
    exact ⟨dests, hd, Or.inr rfl⟩

/-- A rejection names a proposal id. -/
theorem rejectedId_ne_zero (hpos : 1 ≤ m.proposalId) (hle : ¬ x.acceptor.promisedBallot ≤ m.ballot)
    :
    (Acceptor.rejection type m x).rejectedId ≠ 0 := by
  have hlt := BallotNumber.proposalId_le (le_of_lt (not_le.mp hle))
  have hball : m.ballot.proposalId = m.proposalId := rfl
  have hrej : (Acceptor.rejection type m x).rejectedId = x.acceptor.promisedBallot.proposalId := rfl
  omega

/-- What reached an acceptor has a proposal id. -/
theorem heard_pos (h : Traced s) (h' : Traced t) (hgrow : s.Grows t) (hn : (s n).nodeId = n)
    (type : PaxosMessageType) (m : PaxosMessage) (htype : type = .prepare ∨ type = .accept)
    (hm : Heard (s.Network n) (s n) (t n) type m) : 1 ≤ m.proposalId :=
  (h.sent_of_heard hgrow hn (fun m dests hd ht => ((h'.broadcast n m dests hd).2.2 ht).2.2)
    htype hm).2

/-- Every action keeps what traces say about messages. -/
theorem micro (h : Traced s) (hw : s.WF C) (hst : Micro P s t) :
    Traced t := by
  obtain ⟨n, E, -, hact, -, hgrow, hmem⟩ := hst.newEvents hw
  have hn := hw.nodeId n
  have hbroadcast : ∀ k m dests, .broadcast m dests ∈ (t k).trace →
      m.type ≠ .prepareReply ∧ m.type ≠ .acceptReply ∧
      (m.type = .prepare ∨ m.type = .accept ∨ m.type = .newChosenValue →
        m.nodeId = k ∧ k ∉ dests ∧ 1 ≤ m.proposalId) := by
    intro k m dests hd
    rcases hmem k _ hd with hold | ⟨rfl, hnew⟩
    · exact h.broadcast k m dests hold
    · have := broadcast_new (hw k).1 hnew
      rwa [hn] at this
  have hpos : ∀ m dests, .broadcast m dests ∈ (t n).trace →
      m.type = .prepare ∨ m.type = .accept ∨ m.type = .newChosenValue → 1 ≤ m.proposalId :=
    fun m dests hd ht => ((hbroadcast n m dests hd).2.2 ht).2.2
  have hheard : ∀ {type m}, type = .prepare ∨ type = .accept →
      Heard (s.Network n) (s n) (t n) type m →
      t.sentTo m.nodeId n m ∧ 1 ≤ m.proposalId :=
    fun ht hm => h.sent_of_heard hgrow hn hpos ht hm
  have hreplied := Sys.replied_cases hn hmem
  -- Each part is an old entry of a trace, or a new one of the node that acts.
  refine ⟨hbroadcast, ?_, ?_, ?_, ?_, ?_, ?_⟩
  · intro k d m hd
    rcases hmem k _ hd with hold | ⟨rfl, hnew⟩
    · exact h.send k d m hold
    · exact send_new hnew
  · intro k m hd htype
    rcases hmem k _ hd with hold | ⟨rfl, hnew⟩
    · exact h.handed k m hold htype
    · rcases htype with ht | ht
      · obtain ⟨m', -, -, hr⟩ := prepareReply_new hnew (Or.inr ⟨rfl, rfl⟩) ht
        rcases hr with ⟨-, rfl, -⟩ | ⟨-, rfl⟩
        · rw [(promise_fields m' (s k)).2.1, hn]
        · exact hn
      · obtain ⟨m', -, -, hr⟩ := acceptReply_new hnew (Or.inr ⟨rfl, rfl⟩) ht
        rcases hr with ⟨-, rfl, -⟩ | ⟨-, rfl⟩ <;> exact hn
  · intro a d r hr htype
    rcases hreplied a d r hr with hold | ⟨rfl, e, he, hnew⟩
    · obtain ⟨h1, h2⟩ := h.prepareReply a d r hold htype
      exact ⟨hgrow.asked h1, fun h0 => hgrow _ _ (h2 h0)⟩
    · obtain ⟨m, hm, rfl, hcase⟩ := prepareReply_new hnew he htype
      obtain ⟨hsent, hp⟩ := hheard (Or.inl rfl) hm
      rcases hcase with ⟨-, rfl, htaken⟩ | ⟨hle, rfl⟩
      · obtain ⟨-, -, hi, hpid, -⟩ := promise_fields m (s a)
        rw [hi, hpid]
        exact ⟨⟨m, hsent, hm.type_eq, rfl, rfl⟩, fun _ => htaken⟩
      · refine ⟨⟨m, hsent, hm.type_eq, rfl, rfl⟩, fun h0 => ?_⟩
        exact absurd h0 (rejectedId_ne_zero hp hle)
  · intro a d r hr htype
    rcases hreplied a d r hr with hold | ⟨rfl, e, he, hnew⟩
    · obtain ⟨v, h1, h2⟩ := h.acceptReply a d r hold htype
      exact ⟨v, hgrow.offered h1, fun h0 => hgrow _ _ (h2 h0)⟩
    · obtain ⟨m, hm, rfl, hcase⟩ := acceptReply_new hnew he htype
      obtain ⟨hsent, hp⟩ := hheard (Or.inr rfl) hm
      rcases hcase with ⟨-, rfl, htaken⟩ | ⟨hle, rfl⟩
      · exact ⟨m.value, ⟨m, hsent, hm.type_eq, rfl, rfl, rfl⟩, fun _ => htaken⟩
      · refine ⟨m.value, ⟨m, hsent, hm.type_eq, rfl, rfl, rfl⟩, fun h0 => ?_⟩
        exact absurd h0 (rejectedId_ne_zero hp hle)
  · intro a i b hb
    rcases hmem a _ hb with hold | ⟨rfl, hnew⟩
    · exact hgrow.asked (h.promised a i b hold)
    · cases hnew with
      | quiet he => cases he
      | @promised m hm => exact ⟨m, (hheard (Or.inl rfl) hm).1, hm.type_eq, rfl, rfl⟩
      | prepareReply _ _ he | acceptReply _ _ he => rcases he with ⟨he, -⟩ | ⟨he, -⟩ <;> cases he
  · intro a i b v hb
    rcases hmem a _ hb with hold | ⟨rfl, hnew⟩
    · exact hgrow.offered (h.accepted a i b v hold)
    · cases hnew with
      | quiet he => cases he
      | @accepted m hm => exact ⟨m, (hheard (Or.inr rfl) hm).1, hm.type_eq, rfl, rfl, rfl⟩
      | prepareReply _ _ he | acceptReply _ _ he => rcases he with ⟨he, -⟩ | ⟨he, -⟩ <;> cases he

/-- A recovery sends nothing. -/
theorem recover (h : Traced s) (hgrow : s.Grows t)
    (hmem : ∀ k e, e ∈ (t k).trace → e ∈ (s k).trace ∨ e.ofRecovery = true) : Traced t := by
  have hold : ∀ {k e}, e ∈ (t k).trace → e.ofRecovery = false → e ∈ (s k).trace := by
    intro k e he hf
    rcases hmem k e he with he | ht
    · exact he
    · rw [hf] at ht
      cases ht
  have hreplied : ∀ {a d r}, t.replied a d r → s.replied a d r := by
    rintro a d r (hr | ⟨hd, hr⟩)
    · exact Or.inl (hold hr rfl)
    · exact Or.inr ⟨hd, hold hr rfl⟩
  refine ⟨?_, ?_, ?_, ?_, ?_, ?_, ?_⟩
  · exact fun k m dests hd => h.broadcast k m dests (hold hd rfl)
  · exact fun k d m hd => h.send k d m (hold hd rfl)
  · exact fun k m hd => h.handed k m (hold hd rfl)
  · intro a d r hr htype
    obtain ⟨h1, h2⟩ := h.prepareReply a d r (hreplied hr) htype
    exact ⟨hgrow.asked h1, fun h0 => hgrow _ _ (h2 h0)⟩
  · intro a d r hr htype
    obtain ⟨v, h1, h2⟩ := h.acceptReply a d r (hreplied hr) htype
    exact ⟨v, hgrow.offered h1, fun h0 => hgrow _ _ (h2 h0)⟩
  · exact fun a i b hb => hgrow.asked (h.promised a i b (hold hb rfl))
  · exact fun a i b v hb => hgrow.offered (h.accepted a i b v (hold hb rfl))

theorem step {a : Env × Label} (h : Traced s) (hw : s.WF C) (hst : System.step s a = some t) :
    t.WF C ∧ Traced t := by
  have hperm : ({} : Policy).Permits s a :=
    Policy.permits_free rfl trivial (fun _ _ => trivial) fun _ _ _ _ => trivial
  rcases System.step_cases hw hperm hst with hchain | ⟨n, dirs, acc, y, hrec, rfl, -⟩
  · refine TransitionSystem.invariant_of_actions (P := fun s => s.WF C ∧ Traced s) ?_ hchain ⟨hw, h⟩
    exact fun u v hu huv => ⟨hu.1.micro huv, hu.2.micro hu.1 huv⟩
  · exact ⟨hw.update hrec.wf hrec.config_eq, h.recover hrec.grows.1 hrec.grows.2⟩

theorem init (C : Setup) : Traced (System.init C) := by
  have htr : ∀ {n e}, e ∈ (System.init C n).trace → e.ofRecovery = true := by
    intro n e he
    rw [List.mem_singleton.mp he]
    rfl
  refine ⟨?_, ?_, ?_, ?_, ?_, ?_, ?_⟩
  · exact fun k m dests hd => absurd (htr hd) Bool.false_ne_true
  · exact fun k d m hd => absurd (htr hd) Bool.false_ne_true
  · exact fun k m hd => absurd (htr hd) Bool.false_ne_true
  · rintro a d r (hr | ⟨-, hr⟩) <;> exact absurd (htr hr) Bool.false_ne_true
  · rintro a d r (hr | ⟨-, hr⟩) <;> exact absurd (htr hr) Bool.false_ne_true
  · exact fun a i b hb => absurd (htr hb) Bool.false_ne_true
  · exact fun a i b v hb => absurd (htr hb) Bool.false_ne_true

end Traced

end Skywalker
