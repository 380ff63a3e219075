import Skywalker.Origins
import Skywalker.Validity

/-!
# A value stays in its instance

`Proposer::NextInstance` only counts up. The value of the instance before stays in the proposer, and
so do its phase, its counter and a pending retry timer. None of this brings the value into the next
instance, as long as the process lives. A retry timer acts, and a reply is counted, only in the
instance that it belongs to. The reply answers a broadcast that the node made there. And before it
makes the first one in an instance, `NewPropose` sets the value.

`Node.Confined P` says that `P` relates the instance and the value wherever the two meet at a node.
A node whose proposer can still act in the present instance is `Node.Live`: only for such a node,
`P` is asked of the proposer's value. In the system, `P` is that the value was proposed for the
instance, or is the empty value of an unset field.
-/

namespace Skywalker

open TransitionSystem

variable {m : PaxosMessage}

/-! ## Where a value can be seen -/

/-- The instance and the value of a message of a type that carries one. -/
def PaxosMessage.places (m : PaxosMessage) : Option (ℕ × PaxosValue) :=
  if m.type = .accept ∨ m.type = .sendLearnedValue ∨ m.type = .prepareReply then
    some (m.instanceId, m.value)
  else none

/-- The instance and the value of an entry of the trace: a message with a value, a vote of the
acceptor or an execution. A node hands an `ACCEPT` over to itself after it has broadcast it. -/
def Event.places : Event → Option (ℕ × PaxosValue)
  | .send _ m => m.places
  | .broadcast m _ => m.places
  | .handed m => if m.type = .prepareReply then some (m.instanceId, m.value) else none
  | .accepted i _ v => some (i, v)
  | .executed i v _ _ => some (i, v)
  | _ => none

/-- A relation holds of the instance and the value of an entry. -/
def Event.Within (P : ℕ → PaxosValue → Prop) (e : Event) : Prop :=
  ∀ i v, e.places = some (i, v) → P i v

/-- A message is within a relation when the value that it carries is. -/
def PaxosMessage.Within (P : ℕ → PaxosValue → Prop) (m : PaxosMessage) : Prop :=
  ∀ i v, m.places = some (i, v) → P i v

section

variable {P P' : ℕ → PaxosValue → Prop}

theorem PaxosMessage.Within.value (h : m.Within P)
    (htype : m.type = .accept ∨ m.type = .sendLearnedValue ∨ m.type = .prepareReply) :
    P m.instanceId m.value :=
  h m.instanceId m.value (if_pos htype)

theorem PaxosMessage.Within.of_type
    (h : m.type = .accept ∨ m.type = .sendLearnedValue ∨ m.type = .prepareReply →
      P m.instanceId m.value) : m.Within P := by
  intro i v hplaces
  unfold PaxosMessage.places at hplaces
  split_ifs at hplaces with htype
  cases hplaces
  exact h htype

theorem Event.within_handed :
    (Event.handed m).Within P ↔ (m.type = .prepareReply → P m.instanceId m.value) := by
  constructor
  · exact fun h htype => h m.instanceId m.value (if_pos htype)
  · intro h i v hplaces
    simp only [Event.places, Option.ite_none_right_eq_some, Option.some.injEq,
      Prod.mk.injEq] at hplaces
    obtain ⟨htype, rfl, rfl⟩ := hplaces
    exact h htype

/-! ## One node -/

/-- The proposer of a node can act in the present instance: it has made a broadcast there, to which
replies may come, or has a retry timer. -/
def Node.Live (x : Node) : Prop :=
  (∃ m dests, .broadcast m dests ∈ x.trace ∧ m.type.isProposers = true ∧
      m.instanceId = x.instanceId) ∨
    ∃ id, (id, TimerCallback.retry x.instanceId) ∈ x.timers

/-- Instances and values at a node are related by `P`. -/
structure Node.Confined (P : ℕ → PaxosValue → Prop) (x : Node) : Prop where
  acceptor : P x.instanceId x.acceptor.acceptedValue
  records : ∀ i r, x.db.get i = some r → r.instanceId = i ∧ P i r.acceptedValue
  learner : x.learner.hasLearned = true → P x.instanceId x.learner.learnedValue
  proposal : x.isProposing = true → P x.instanceId x.proposeValue
  round : x.Live → P x.instanceId x.proposer.value
  /-- The proposer has no broadcast and no timer of an instance to come. -/
  broadcasts : ∀ m dests, .broadcast m dests ∈ x.trace → m.type.isProposers = true →
    m.instanceId ≤ x.instanceId
  timers : ∀ id i, (id, TimerCallback.retry i) ∈ x.timers → i ≤ x.instanceId
  trace : ∀ e ∈ x.trace, e.Within P

namespace Node.Confined

variable {R : Rules} {E : Env} {net : PaxosMessage → Prop} {x y : Node}

theorem mono (h : x.Confined P) (himp : ∀ i v, P i v → P' i v) : x.Confined P' where
  acceptor := himp _ _ h.acceptor
  records i r hr := ⟨(h.records i r hr).1, himp _ _ (h.records i r hr).2⟩
  learner hl := himp _ _ (h.learner hl)
  proposal hp := himp _ _ (h.proposal hp)
  round hlive := himp _ _ (h.round hlive)
  broadcasts := h.broadcasts
  timers := h.timers
  trace e he i v hplaces := himp _ _ (h.trace e he i v hplaces)

/-- A reply of the present instance that reaches the proposer shows that it can act. -/
def Answering (net : PaxosMessage → Prop) (x : Node) : Prop :=
  ∀ m, Answered net x m → m.type = .prepareReply ∨ m.type = .acceptReply →
    m.instanceId = x.proposer.instanceId → x.Live

/-- What a promise or a rejection reports is within the relation. -/
theorem report (h : x.Confined P) (h₀ : ∀ i, P i {}) {r : PaxosMessage} {z : Node}
    (hz : z.acceptor = x.acceptor)
    (hr : r = Acceptor.promise m z ∨ r = Acceptor.rejection .prepareReply m z) :
    P x.instanceId r.value := by
  rcases hr with rfl | rfl
  · unfold Acceptor.promise
    split_ifs
    · show P x.instanceId z.acceptor.acceptedValue
      rw [hz]
      exact h.acceptor
    · exact h₀ _
  · exact h₀ _

theorem answered (h : x.Confined P) (hnet : ∀ m, net m → m.Within P) (hm : Answered net x m)
    (htype : m.type = .prepareReply) : P m.instanceId m.value := by
  rcases hm with hm | hm
  · exact (hnet m hm).value (Or.inr (Or.inr htype))
  · exact Event.within_handed.mp (h.trace _ hm) htype

theorem roundStart (h : x.Confined P) (hw : x.WF) {v : PaxosValue} {z : Node}
    (hstart : RoundStart x v z) : P x.instanceId v := by
  rcases hstart with ⟨-, rfl, hbusy, -⟩ | ⟨id, hid, -, rfl⟩
  · exact h.proposal hbusy
  · rw [hw.proposerId] at hid
    exact h.round (Or.inr ⟨id, hid⟩)

/-! ## One action -/

/-- The values of the broadcasts that an action appends. -/
theorem broadcast_new (h : x.Confined P) (hw : x.WF) (hans : Answering net x) {dests : List ℕ}
    (hnew : NewEvent R E net x y (.broadcast m dests)) : m.Within P := by
  refine .of_type fun htype => ?_
  cases hnew with
  | quiet he =>
    have hask : m.type = .askForLearn := by simpa [Event.isQuiet] using he
    rw [hask] at htype
    simp at htype
  | prepare => simp [Proposer.prepareMessage] at htype
  | prepareReply _ _ he | acceptReply _ _ he => exact absurd rfl (he.ne_broadcast m dests)
  | accept hm ht _ hid =>
    -- The reply that passes the round is one of the present instance.
    show P x.proposer.instanceId x.proposer.value
    rw [hw.proposerId]
    exact h.round (hans _ hm (Or.inl ht) hid)
  | directAccept _ _ _ hbusy _ hy =>
    rw [hy]
    show P x.proposer.instanceId x.proposeValue
    rw [hw.proposerId]
    exact h.proposal hbusy
  | newChosenValue => simp at htype
  | toFollowers hl =>
    show P x.learner.instanceId x.learner.learnedValue
    rw [hw.learnerId]
    exact h.learner hl

/-- The value of an `ACCEPT` that reached the acceptor. -/
theorem heard_accept (h : x.Confined P) (hw : x.WF) (hans : Answering net x)
    (hnet : ∀ m, net m → m.Within P) (hact : Act R E net x y) (hm : Heard net x y .accept m) :
    P x.instanceId m.value := by
  have hwithin : m.Within P := by
    rcases hm.heard with hin | ⟨-, dests, hd⟩
    · exact hnet m hin
    · rcases hact.mem_trace hw hd with hold | hnew
      · exact h.trace _ hold
      · exact h.broadcast_new hw hans hnew
  have hid : m.instanceId = x.instanceId := hm.id.trans hw.acceptorId
  rw [← hid]
  exact hwithin.value (Or.inl hm.type_eq)

/-- The entries that an action appends are within the relation. -/
theorem within_new (h : x.Confined P) (h₀ : ∀ i, P i {}) (hw : x.WF) (hans : Answering net x)
    (hnet : ∀ m, net m → m.Within P) (hact : Act R E net x y) {e : Event}
    (hnew : NewEvent R E net x y e) : e.Within P := by
  have hbroadcast : ∀ m dests, e = .broadcast m dests → e.Within P := by
    rintro m dests rfl
    exact h.broadcast_new hw hans hnew
  -- An answer of the acceptor leaves as a call or as a message.
  have hanswer : ∀ {d : ℕ} {r : PaxosMessage}, ReplyEvent x d r e →
      (r.type = .accept ∨ r.type = .sendLearnedValue ∨ r.type = .prepareReply →
        P r.instanceId r.value) → e.Within P := by
    rintro d r (⟨rfl, -⟩ | ⟨rfl, -⟩) hr
    · exact Event.within_handed.mpr fun htype => hr (Or.inr (Or.inr htype))
    · exact PaxosMessage.Within.of_type hr
  cases hnew with
  | quiet he =>
    cases e with
    | send d m =>
      simp only [Event.isQuiet, Bool.or_eq_true, decide_eq_true_eq] at he
      refine PaxosMessage.Within.of_type fun htype => ?_
      rcases he with (he | he) | he <;> rw [he] at htype <;> simp at htype
    | broadcast m dests => exact hbroadcast m dests rfl
    | handed m =>
      refine Event.within_handed.mpr fun htype => ?_
      simp [Event.isQuiet, htype] at he
    | accepted | executed => cases he
    | _ => exact fun i v hplaces => by cases hplaces
  | prepare => exact hbroadcast _ _ rfl
  | @prepareReply m r e hm hr he =>
    refine hanswer he fun _ => ?_
    have hid : r.instanceId = x.instanceId := by
      rw [← hw.acceptorId, ← hm.id]
      rcases hr with ⟨-, rfl, -⟩ | ⟨-, rfl⟩
      · exact (Traced.promise_fields m x).2.2.1
      · rfl
    rw [hid]
    exact h.report h₀ rfl (hr.imp (fun hr => hr.2.1) And.right)
  | accept | directAccept => exact hbroadcast _ _ rfl
  | acceptReply hm hr he =>
    refine hanswer he fun htype => ?_
    rcases hr with ⟨-, rfl, -⟩ | ⟨-, rfl⟩ <;>
      simp [Acceptor.rejection, Acceptor.replyTo] at htype
  | newChosenValue | toFollowers => exact hbroadcast _ _ rfl
  | @serve d i r hget hid =>
    obtain ⟨hkey, hr⟩ := h.records i r hget
    refine PaxosMessage.Within.of_type fun _ => ?_
    show P r.instanceId r.acceptedValue
    rw [hkey]
    exact hr
  | accepted hm =>
    intro i v hplaces
    cases hplaces
    rw [hm.id, hw.acceptorId]
    exact h.heard_accept hw hans hnet hact hm
  | executed hl =>
    intro i v hplaces
    cases hplaces
    exact h.learner hl
  | _ => exact fun i v hplaces => by cases hplaces

/-- What the acceptor, the log and the learner hold after an action. -/
theorem store_act (h : x.Confined P) (h₀ : ∀ i, P i {}) (hw : x.WF) (hans : Answering net x)
    (hnet : ∀ m, net m → m.Within P) (hact : Act R E net x y) :
    P y.instanceId y.acceptor.acceptedValue ∧
      (∀ i r, y.db.get i = some r → r.instanceId = i ∧ P i r.acceptedValue) ∧
      (y.learner.hasLearned = true → P y.instanceId y.learner.learnedValue) := by
  have hw' := hact.wf hw
  -- The acceptor writes what it holds, under the key of its instance.
  have hwrite : ∀ {ok : Bool}, P y.instanceId y.acceptor.acceptedValue →
      y.db = x.db.write ok y.acceptor.record →
      ∀ i r, y.db.get i = some r → r.instanceId = i ∧ P i r.acceptedValue := by
    intro ok hacc hdb i r hr
    rw [hdb] at hr
    rcases DB.get_write_cases hr with ⟨rfl, rfl⟩ | hold
    · refine ⟨rfl, ?_⟩
      have hkey : y.acceptor.record.instanceId = y.instanceId := hw'.acceptorId
      rw [hkey]
      exact hacc
    · exact h.records i r hold
  have hlearner : y.learner.hasLearned = x.learner.hasLearned →
      y.learner.learnedValue = x.learner.learnedValue → y.instanceId = x.instanceId →
      y.learner.hasLearned = true → P y.instanceId y.learner.learnedValue := by
    intro hl hv hid hyl
    rw [hv, hid]
    exact h.learner (hl ▸ hyl)
  cases hact.storeChange hw with
  | same hacc hdb hid hl hv =>
    refine ⟨?_, by rw [hdb]; exact h.records, hlearner hl hv hid⟩
    rw [hacc, hid]
    exact h.acceptor
  | promised m k hm hle hkeep hacc hdb hid hl hv =>
    have hheld : P y.instanceId y.acceptor.acceptedValue := by
      rw [hacc, hid]
      exact h.acceptor
    exact ⟨hheld, hwrite hheld hdb, hlearner hl hv hid⟩
  | accepted m k hm hle hkeep hacc hdb hid hl hv =>
    have hheld : P y.instanceId y.acceptor.acceptedValue := by
      rw [hacc, hid]
      exact h.heard_accept hw hans hnet hact hm
    exact ⟨hheld, hwrite hheld hdb, hlearner hl hv hid⟩
  | learned m hm hmid hballot hacc hdb hid hl hv =>
    refine ⟨?_, by rw [hdb]; exact h.records, fun _ => ?_⟩
    · rw [hacc, hid]
      exact h.acceptor
    · rw [hv, hid]
      exact h.acceptor
  | learnedValue m hm htype hmid hrule hacc hdb hid hl hv =>
    have hval : P m.instanceId m.value := (hnet m hm).value (Or.inr (Or.inl htype))
    refine ⟨?_, fun i r hr => ?_, fun _ => ?_⟩
    · rw [hacc, hid]
      exact h.acceptor
    · rw [hdb] at hr
      rcases DB.get_put_cases hr with ⟨rfl, rfl⟩ | hold
      · exact ⟨rfl, hval⟩
      · exact h.records i r hold
    · rw [hv, hid, ← hmid]
      exact hval
  | executed hl hok hy hacc hdb hid hl' hv =>
    refine ⟨?_, by rw [hdb]; exact h.records, fun hyl => by rw [hl'] at hyl; cases hyl⟩
    rw [hacc, Acceptor.nextInstance_eq]
    exact h₀ _
  | cleaned hrule hy hdb hkept hacc hid hl hv =>
    refine ⟨?_, fun i r hr => h.records i r (hdb i r hr), hlearner hl hv hid⟩
    rw [hacc, hid]
    exact h.acceptor

/-- The value of a proposer that can act after an action. -/
theorem round_act (h : x.Confined P) (h₀ : ∀ i, P i {}) (hw : x.WF) (hw' : y.WF)
    (hans : Answering net x) (hnet : ∀ m, net m → m.Within P) (hch : ProposerChange R E net x y)
    (hlive : y.Live) : P y.instanceId y.proposer.value := by
  have hinst : y.proposer.instanceId = x.proposer.instanceId → y.instanceId = x.instanceId := by
    rw [hw.proposerId, hw'.proposerId]
    exact id
  -- A reply of the instance is counted.
  have hold : ∀ {m : PaxosMessage}, Answered net x m →
      m.type = .prepareReply ∨ m.type = .acceptReply → m.instanceId = x.proposer.instanceId →
      P x.instanceId x.proposer.value := fun hm ht hid => h.round (hans _ hm ht hid)
  have hcount : ∀ {p : Proposer} {m : PaxosMessage} {i : ℕ}, P i p.value → P i m.value →
      P i (p.countPrepareReply m).value := by
    intro p m i hp hm
    unfold Proposer.countPrepareReply
    dsimp only
    split_ifs
    · exact hm
    · exact hp
  cases hch with
  | same hid hpid hmax hval hcnt hprep hacc hskip hmach hsent htimers =>
    rw [hval, hinst hid]
    refine h.round ?_
    unfold Node.Live at hlive
    rw [hinst hid] at hlive
    rcases hlive with ⟨m, dests, hd, ht, hm⟩ | ⟨id, htimer⟩
    · rcases hsent m dests hd with hd | ⟨hnone, -⟩ | hother
      · exact Or.inl ⟨m, dests, hd, ht, hm⟩
      · cases hnone
      · rw [ht] at hother
        cases hother
    · exact Or.inr ⟨id, (htimers id _ htimer).resolve_right (by simp)⟩
  | opened z v hstart hrule hrecv hy =>
    rw [hinst (by rw [hy, ← hstart.same.2.2.1]; rfl), hy]
    exact h.roundStart hw hstart
  | began z v hstart hrule hrecv hy =>
    rw [hinst (by rw [hy, Proposer.beginRound_instanceId, ← hstart.same.2.2.1]), hy,
      Proposer.beginRound_proposer]
    refine hcount (h.roundStart hw hstart) ?_
    have hacc : (Proposer.openRound v z).acceptor = x.acceptor := hstart.same.2.1
    refine h.report h₀ hacc (m := Proposer.prepareMessage (Proposer.openRound v z)) ?_
    by_cases hle : z.acceptor.promisedBallot ≤ Proposer.nextBallot z
    · exact Or.inl (Proposer.ownReply_of_le E v hle)
    · exact Or.inr (Proposer.ownReply_of_not_le E v hle)
  | counted m hm htype hprep hid hcur hy =>
    rw [hinst (by rw [hy, Proposer.countPrepareReply_instanceId]), hy]
    refine hcount (hold hm (Or.inl htype) hid) ?_
    rw [← hw.proposerId, ← hid]
    exact h.answered hnet hm htype
  | passed m hm htype hprep hid hcur hpass hy =>
    rw [hinst (by rw [hy]; rfl), hy]
    exact hold hm (Or.inl htype) hid
  | direct hskip hrej hrule hbusy hvalid hy =>
    rw [hinst (by rw [hy]; rfl), hy]
    exact h.proposal hbusy
  | countedAccept m hm htype hacc hid hcur hy =>
    rw [hinst (by rw [hy]), hy]
    exact hold hm (Or.inr htype) hid
  | passedAccept m hm htype hacc hid hcur hpass hy =>
    rw [hinst (by rw [hy]; rfl), hy]
    exact hold hm (Or.inr htype) hid
  | gaveUp m hm hphase hid hcur hy =>
    rw [hinst (by rw [hy]; rfl), hy]
    exact hold hm (hphase.imp And.left And.left) hid
  | next hl hok hy hsent htimers =>
    -- Nothing that the proposer left is of the next instance.
    have hnext : y.instanceId = x.instanceId + 1 := by rw [hy]; rfl
    unfold Node.Live at hlive
    rw [hnext] at hlive
    rcases hlive with ⟨m, dests, hd, ht, hm⟩ | ⟨id, htimer⟩
    · rcases hsent m dests hd with hd | ⟨hnone, -⟩ | hother
      · have hle := h.broadcasts m dests hd ht
        omega
      · cases hnone
      · rw [ht] at hother
        cases hother
    · have hle := h.timers id _ ((htimers id _ htimer).resolve_right (by simp))
      omega

/-- **Every action keeps instances and values related**, when messages of the network relate them
and a proposal does. -/
theorem act (h : x.Confined P) (h₀ : ∀ i, P i {}) (hw : x.WF) (hans : Answering net x)
    (hnet : ∀ m, net m → m.Within P)
    (hpropose : ∀ machineId value context draw,
      y = Instance.startPropose E machineId value context draw x → P x.instanceId y.proposeValue)
    (hact : Act R E net x y) : y.Confined P := by
  have hw' := hact.wf hw
  have hch := hact.proposerChange
  obtain ⟨hacceptor, hrecords, hlearner⟩ := h.store_act h₀ hw hans hnet hact
  have hle : x.instanceId ≤ y.instanceId := (hact.storeChange hw).mono.2
  refine ⟨hacceptor, hrecords, hlearner, fun hbusy => ?_, h.round_act h₀ hw hw' hans hnet hch,
    fun m dests hd ht => ?_, fun id i hid => ?_, fun e he => ?_⟩
  · -- A proposal ends with its instance, so that the value is still one of it.
    cases hact.proposalChange with
    | same hvalue hold =>
      rw [hvalue, hact.instanceId_of_proposing hbusy]
      exact h.proposal (hold hbusy).1
    | started machineId value context draw hidle hdraw hvalid hrule hy =>
      rw [hact.instanceId_of_proposing hbusy]
      exact hpropose machineId value context draw hy
  · obtain ⟨new, hsent, hnew, -, -⟩ := hch.advances
    rcases hsent m dests hd with hold | ⟨hmem, -⟩ | hother
    · exact (h.broadcasts m dests hold ht).trans hle
    · rw [(hnew m hmem).2, hw'.proposerId]
    · rw [ht] at hother
      cases hother
  · obtain ⟨sets, hretries⟩ := hch.retries
    rcases hretries id i hid with hold | ⟨-, rfl⟩
    · exact (h.timers id i hold).trans hle
    · rw [hw.proposerId]
      exact hle
  · rcases hact.mem_trace hw he with hold | hnew
    · exact h.trace e hold
    · exact h.within_new h₀ hw hans hnet hact hnew

theorem fresh (h₀ : ∀ i, P i {}) (config : Config) : (Node.fresh config).Confined P := by
  refine ⟨h₀ _, ?_, ?_, ?_, ?_, ?_, ?_, ?_⟩
  · intro i r hr
    cases hr
  · intro hl
    cases hl
  · intro hp
    cases hp
  · rintro (⟨m, dests, hd, -⟩ | ⟨id, hid⟩)
    · cases List.mem_singleton.mp hd
    · cases hid
  · intro m dests hd
    cases List.mem_singleton.mp hd
  · intro id i hid
    cases hid
  · intro e he i v hplaces
    rw [List.mem_singleton.mp he] at hplaces
    cases hplaces

end Node.Confined

end

/-! ## The system -/

/-- Whether a step is an event of a node, so that no process ends and none starts. -/
def Label.isEvent : Label → Bool
  | .node _ _ => true
  | .restart _ => false
  | .install .. => false

/-- The policy of the runs without restarts. -/
def Policy.eventsOnly : Policy where
  restart _ _ := False
  install _ _ _ _ := False

/-- A value belongs to an instance: it was proposed for it, or is the empty one of an unset
field. -/
def Sys.Belongs (s : Sys) (i : ℕ) (v : PaxosValue) : Prop := v = {} ∨ s.ProposedFor i v

/-- The values of a system belong to the instances that they are in. -/
structure Confinement (s : Sys) : Prop where
  traced : Traced s
  nodes : ∀ n, (s n).Confined s.Belongs
  /-- A value that was proposed is not the empty one. -/
  ids : ∀ n i time v, .proposed i time v ∈ (s n).trace → 0 < v.valueId

namespace Confinement

variable {C : Setup} {P : Policy} {s t : Sys}

theorem within_of_inFlight (h : Confinement s) {n : ℕ} (hm : s.inFlight n m = true) :
    m.Within s.Belongs := by
  rcases Traced.of_inFlight hm with hsend | ⟨dests, hsend, -⟩
  · exact (h.nodes m.nodeId).trace _ hsend
  · exact (h.nodes m.nodeId).trace _ hsend

/-- No action takes a value to another instance. -/
theorem micro (h : Confinement s) (hw : s.WF C) (hst : Micro P s t) : Confinement t := by
  obtain ⟨n, E, -, hact, hother, hgrow, hmem⟩ := hst.newEvents hw
  have hweak : ∀ i v, s.Belongs i v → t.Belongs i v :=
    fun i v hv => hv.imp_right fun hp => hp.grow hgrow
  have hans : Node.Confined.Answering (s.Network n) (s n) := by
    intro r hr htype hid
    obtain ⟨m, dests, hd, hm, hi⟩ := h.traced.broadcast_of_answered hr htype
    exact Or.inl ⟨m, dests, hd, hm, by rw [hi, hid, (hw n).1.proposerId]⟩
  refine ⟨h.traced.micro hw hst, ?_, fun k i time v he => ?_⟩
  · refine Sys.forall_of_others (Q := fun _ x => x.Confined t.Belongs) hother
      (fun k _ => (h.nodes k).mono hweak) ?_
    refine ((h.nodes n).mono hweak).act (fun _ => Or.inl rfl) (hw n).1 hans ?_ ?_ hact
    · exact fun m hm i v hplaces => hweak i v (h.within_of_inFlight hm i v hplaces)
    · intro machineId value context draw hy
      refine Or.inr ⟨E.nowMillis, n, ?_⟩
      rw [hy]
      exact List.mem_cons_self
  · rcases hmem k _ he with hold | ⟨-, hnew⟩
    · exact h.ids k i time v hold
    · cases hnew with
      | quiet hq => cases hq
      | proposed hidle hdraw hvalid hrule hy =>
        rw [hy]
        exact Instance.startPropose_valueId_pos hdraw
      | prepareReply _ _ he | acceptReply _ _ he => rcases he with ⟨he, -⟩ | ⟨he, -⟩ <;> cases he

theorem init (C : Setup) : Confinement (System.init C) where
  traced := .init C
  nodes _ := .fresh (fun _ => Or.inl rfl) _
  ids n i time v he := by cases List.mem_singleton.mp he

/-- In every run without restarts the values stay confined. -/
theorem of_run (hrun : Reaches System.step (fun _ a => a.2.isEvent = true) (System.init C) s) :
    s.WF C ∧ Confinement s := by
  refine Policy.invariant (P := .eventsOnly) hrun (.init C) ?_ ?_ ?_
  · intro s a _ _ hevent
    refine Policy.permits_free rfl trivial (fun n hlabel => ?_) fun n source c hlabel => ?_
    · rw [hlabel] at hevent
      cases hevent
    · rw [hlabel] at hevent
      cases hevent
  · exact fun s t hw h hst => h.micro hw hst
  · rintro s n E dirs a y _ _ _ (⟨hfalse, -⟩ | ⟨_, _, _, hfalse, -⟩) _
    · exact hfalse.elim
    · exact hfalse.elim

end Confinement

/-- A value appears in an instance: in a message with a value, a vote or an execution, in the state
of an acceptor or in a log record. -/
def Sys.Appears (s : Sys) (i : ℕ) (v : PaxosValue) : Prop :=
  ∃ n, (∃ e ∈ (s n).trace, e.places = some (i, v)) ∨
    ((s n).acceptor.instanceId = i ∧ (s n).acceptor.acceptedValue = v) ∨
    ∃ r, (s n).db.get i = some r ∧ r.acceptedValue = v

/-- **A value never leaves its instance.** In every run without restarts, with any results of `Put`
and `Execute`: a value that appears in an instance is the empty one of an unset field, or was
proposed while the proposer was in that instance. So a value that was proposed in one instance only
appears there only, and is executed in no other. -/
theorem value_stays_in_instance {C : Setup} {s : Sys}
    (hrun : Reaches System.step (fun _ a => a.2.isEvent = true) (System.init C) s) :
    (∀ i v, s.Appears i v → v = {} ∨ s.ProposedFor i v) ∧
    ∀ i v, s.ProposedFor i v → (∀ j, s.ProposedFor j v → j = i) →
      (∀ j, s.Appears j v → j = i) ∧
      ∀ n n' j k c c' ok ok', .executed j v c ok ∈ (s n).trace →
        .executed k v c' ok' ∈ (s n').trace → j = k := by
  obtain ⟨hw, hinv⟩ := Confinement.of_run hrun
  have hbelongs : ∀ i v, s.Appears i v → v = {} ∨ s.ProposedFor i v := by
    rintro i v ⟨n, ⟨e, he, hplaces⟩ | ⟨rfl, rfl⟩ | ⟨r, hr, rfl⟩⟩
    · exact (hinv.nodes n).trace e he i v hplaces
    · rw [(hw n).1.acceptorId]
      exact (hinv.nodes n).acceptor
    · exact ((hinv.nodes n).records i r hr).2
  refine ⟨hbelongs, fun i v hprop honly => ?_⟩
  have hplace : ∀ j, s.Appears j v → j = i := by
    intro j hj
    rcases hbelongs j v hj with rfl | hj
    · obtain ⟨time, n, he⟩ := hprop
      exact absurd (hinv.ids n i time _ he) (Nat.lt_irrefl 0)
    · exact honly j hj
  refine ⟨hplace, fun n n' j k c c' ok ok' hj hk => ?_⟩
  rw [hplace j ⟨n, Or.inl ⟨_, hj, rfl⟩⟩, hplace k ⟨n', Or.inl ⟨_, hk, rfl⟩⟩]

/-- The `ACCEPT` of the second instance reaches node 2 twice: node 2 first learns from it that the
first value was chosen, then accepts the second value. -/
def secondVote : List (Env × Label) := nextAccept ++
  ([({}, .node 2 (.paxosMessage secondAccept)),
    ({}, .node 2 (.paxosMessage secondAccept))] : List (Env × Label))

/-- Whether a trace proposes a value in one instance only. -/
def proposesOnlyIn (i : ℕ) (v : PaxosValue) (trace : List Event) : Bool :=
  trace.all fun
    | .proposed j _ w => w ≠ v || j = i
    | _ => true

/-- Node 2 has executed the first value and accepted the second, and the first is in the first
instance only. -/
theorem value_stays_in_instance_trio : ∃ s,
    Reaches System.step (fun _ a => a.2.isEvent = true) (System.init (.uniform trioMember)) s ∧
    .executed 1 firstValue none true ∈ (s 2).trace ∧ s.Appears 2 secondValue ∧
    ∀ j, s.Appears j firstValue → j = 1 := by
  have hend : (run System.step (System.init (.uniform trioMember)) secondVote).map (fun s =>
      (decide (Event.executed 1 firstValue none true ∈ (s 2).trace),
        decide (Event.accepted 2 ⟨1, 1⟩ secondValue ∈ (s 2).trace),
        [1, 2].all fun n => proposesOnlyIn 1 firstValue (s n).trace)) =
      some (true, true, true) := by
    decide +kernel
  obtain ⟨s, hs, hfields⟩ := Option.map_eq_some_iff.mp hend
  simp only [Prod.mk.injEq, decide_eq_true_eq, List.all_eq_true] at hfields
  obtain ⟨hexec, hvote, honly⟩ := hfields
  have hrun : Reaches System.step (fun _ a => a.2.isEvent = true)
      (System.init (.uniform trioMember)) s :=
    Reaches.of_run secondVote (fun a ha _ => (by decide : ∀ a ∈ secondVote, a.2.isEvent) a ha) hs
  have htargets : Reaches System.step (fun _ a => a.2.target ∈ [1, 2])
      (System.init (.uniform trioMember)) s :=
    Reaches.of_run secondVote
      (fun a ha _ => (by decide : ∀ a ∈ secondVote, a.2.target ∈ [1, 2]) a ha) hs
  have hunique : ∀ j, s.ProposedFor j firstValue → j = 1 := by
    rintro j ⟨time, n, he⟩
    by_cases hn : n ∈ [1, 2]
    · have hcheck := List.all_eq_true.mp (honly n hn) _ he
      simpa using hcheck
    · -- The other nodes have done nothing.
      rw [System.eq_of_not_target htargets hn] at he
      cases List.mem_singleton.mp he
  obtain ⟨hbelongs, hstays⟩ := value_stays_in_instance hrun
  have hprop : s.ProposedFor 1 firstValue :=
    (hbelongs 1 firstValue ⟨2, Or.inl ⟨_, hexec, rfl⟩⟩).resolve_left (by decide)
  exact ⟨s, hrun, hexec, ⟨2, Or.inl ⟨_, hvote, rfl⟩⟩, (hstays 1 firstValue hprop hunique).1⟩

end Skywalker
