import Skywalker.Store
import Skywalker.Execution

/-!
# Promises and the log

A node that crashes comes back with the promise of the record with the largest instance id. The
acceptor writes its promise into that record whenever it raises it, so this is the promise that it
had, unless `Learner::WriteToDB` came last: it writes the ballot of the `SEND_LEARNED_VALUE` in the
promise's place. A promise survives every crash as long as no such message carries a ballot below
it, and is lost at the first that does.
-/

namespace Skywalker

open TransitionSystem

variable {db : DB} {i : ℕ} {a : Acceptor} {r : PaxosInstance} {x y : Node} {E : Env}

/-! ## The newest record -/

/-- A `Put` under an id that no record exceeds is the newest record. -/
theorem DB.getMaxInstanceId_put (r : PaxosInstance) (h : ∀ j q, db.get j = some q → j ≤ i) :
    (db.put i r).getMaxInstanceId = some i := by
  unfold DB.getMaxInstanceId
  rw [List.max?_eq_some_iff]
  refine ⟨List.mem_cons_self, ?_⟩
  intro j hj
  rcases List.mem_cons.mp hj with rfl | hj
  · exact le_refl _
  · obtain ⟨q, hq⟩ := Option.isSome_iff_exists.mp ((DB.get_isSome_iff db j).mpr hj)
    exact h j q hq

/-- Recovery reads a record that was put under the largest id. -/
theorem Acceptor.readFromDB_put (r : PaxosInstance) (h : ∀ j q, db.get j = some q → j ≤ i) :
    Acceptor.readFromDB (db.put i r) = some
      { instanceId := i, promisedBallot := r.promised, acceptedBallot := r.accepted,
        acceptedValue := r.acceptedValue } := by
  unfold Acceptor.readFromDB
  rw [DB.getMaxInstanceId_put r h]
  simp

/-- Recovery reads either an empty log or its newest record. -/
theorem Acceptor.readFromDB_spec (h : readFromDB db = some a) :
    (a = {} ∧ ∀ i, db.get i = none) ∨
    ∃ r, db.get a.instanceId = some r ∧ (∀ i q, db.get i = some q → i ≤ a.instanceId) ∧
      a.promisedBallot = r.promised ∧ a.acceptedBallot = r.accepted ∧
      a.acceptedValue = r.acceptedValue := by
  unfold readFromDB at h
  cases hmax : db.getMaxInstanceId with
  | none =>
    simp only [hmax, Option.some.injEq] at h
    exact Or.inl ⟨h.symm, DB.getMaxInstanceId_eq_none hmax⟩
  | some m =>
    obtain ⟨⟨r, hr⟩, hle⟩ := DB.getMaxInstanceId_eq_some hmax
    simp only [hmax, hr, Option.some.injEq] at h
    subst h
    exact Or.inr ⟨r, hr, hle, rfl, rfl, rfl⟩

theorem Acceptor.le_of_readFromDB (h : readFromDB db = some a) (hr : db.get i = some r) :
    i ≤ a.instanceId := by
  rcases readFromDB_spec h with ⟨-, hnone⟩ | ⟨-, -, hle, -⟩
  · rw [hnone i] at hr
    cases hr
  · exact hle i r hr

theorem Acceptor.setInstanceId_promisedBallot (a : Acceptor) (i : ℕ) :
    (a.setInstanceId i).promisedBallot = a.promisedBallot := by
  unfold setInstanceId
  split_ifs <;> rfl

/-! ## The acceptor of a new process -/

section

variable {config : Config} {dirs : List (ℕ × Machines)} {trace : List Event}

/-- A record at the instance of a recovered node is the one that its acceptor read. -/
theorem Node.Recovered.acceptor_of_get (h : Node.Recovered E config db dirs trace a y)
    (hr : db.get y.instanceId = some r) :
    y.acceptor = a ∧ a.acceptedBallot = r.accepted ∧ a.promisedBallot = r.promised ∧
      a.acceptedValue = r.acceptedValue := by
  have hle := Acceptor.le_of_readFromDB h.read hr
  have heq : a.instanceId = y.instanceId := by
    have hinst := h.instanceId
    omega
  have hacc : y.acceptor = a := by
    rw [h.acceptor]
    unfold Acceptor.setInstanceId
    rw [if_neg (not_not.mpr heq)]
  rcases Acceptor.readFromDB_spec h.read with ⟨-, hnone⟩ | ⟨q, hq, -, hprom, hball, hval⟩
  · rw [hnone] at hr
    cases hr
  · rw [heq] at hq
    obtain rfl : q = r := Option.some.inj (hq.symm.trans hr)
    exact ⟨hacc, hball, hprom, hval⟩

/-- A recovered acceptor has what the record of its instance has, or has accepted nothing. -/
theorem Node.Recovered.acceptor_cases (h : Node.Recovered E config db dirs trace a y) :
    (∃ r, db.get y.instanceId = some r ∧ y.acceptor.promisedBallot = r.promised ∧
        y.acceptor.acceptedBallot = r.accepted ∧ y.acceptor.acceptedValue = r.acceptedValue) ∨
      (db.get y.instanceId = none ∧ y.acceptor.acceptedBallot = {} ∧
        y.acceptor.acceptedValue = {}) := by
  cases hget : db.get y.instanceId with
  | some r =>
    obtain ⟨hacc, hball, hprom, hval⟩ := h.acceptor_of_get hget
    rw [hacc]
    exact Or.inl ⟨r, rfl, hprom, hball, hval⟩
  | none =>
    -- The acceptor read nothing, or a record of an earlier instance.
    have hne : a.instanceId = y.instanceId → a = {} := by
      intro heq
      rcases Acceptor.readFromDB_spec h.read with ⟨hempty, -⟩ | ⟨r, hr, -⟩
      · exact hempty
      · rw [heq, hget] at hr
        cases hr
    have hacc := h.acceptor
    unfold Acceptor.setInstanceId at hacc
    split_ifs at hacc with hid
    · rw [hacc]
      exact Or.inr ⟨rfl, rfl, rfl⟩
    · rw [hacc, hne (not_not.mp hid)]
      exact Or.inr ⟨rfl, rfl, rfl⟩

end

/-! ## One action -/

/-- The promise that recovery would load from the node's disk is at least the one it has. -/
def PromiseSurvives (x : Node) : Prop :=
  ∃ a, Acceptor.readFromDB x.db = some a ∧ x.acceptor.promisedBallot ≤ a.promisedBallot

/-- The invariant of a node's life: it is well formed, no record is above its instance, and its
promise is on disk. -/
structure Durable (x : Node) : Prop where
  wf : x.WF
  bound : ∀ i r, x.db.get i = some r → i ≤ x.instanceId
  survives : PromiseSurvives x

/-- The rules under which promises survive: a learned value never carries a ballot below the
promise, and the log is not cleaned. -/
def Rules.durable : Rules where
  learn x m := x.acceptor.promisedBallot ≤ m.ballot
  clean := False

/-- A record put at the node's instance bounds the log and carries the promise. -/
theorem Durable.put (h : Durable x) (hw : y.WF) (hdb : y.db = x.db.put x.instanceId r)
    (hid : y.instanceId = x.instanceId) (hle : y.acceptor.promisedBallot ≤ r.promised) :
    Durable y where
  wf := hw
  bound i q hq := by
    rw [hdb] at hq
    rw [hid]
    by_cases hi : i = x.instanceId
    · exact le_of_eq hi
    · rw [DB.get_put_of_ne _ _ hi] at hq
      exact h.bound i q hq
  survives := by
    have hread := Acceptor.readFromDB_put r h.bound
    rw [← hdb] at hread
    exact ⟨_, hread, hle⟩

/-- A node with the same log and promise at the same or a later instance is as durable. -/
theorem Durable.of_eq (h : Durable x) (hw : y.WF) (hdb : y.db = x.db)
    (hid : x.instanceId ≤ y.instanceId)
    (hacc : y.acceptor.promisedBallot = x.acceptor.promisedBallot) : Durable y where
  wf := hw
  bound i r hr := by
    rw [hdb] at hr
    exact (h.bound i r hr).trans hid
  survives := by
    obtain ⟨a, ha, hle⟩ := h.survives
    exact ⟨a, by rw [hdb]; exact ha, by rw [hacc]; exact hle⟩

/-- Every action under the rules keeps a node durable, when writes succeed. -/
theorem Durable.act {net : PaxosMessage → Prop} (h : Durable x) (hput : ∀ k, E.putOk k = true)
    (hact : Act .durable E net x y) : Durable y := by
  have hw := hact.wf h.wf
  cases hact.storeChange h.wf with
  | same hacc hdb hid => exact h.of_eq hw hdb hid.ge (by rw [hacc])
  | promised m k hm hle hkeep hacc hdb hid | accepted m k hm hle hkeep hacc hdb hid =>
    refine h.put (r := y.acceptor.record) hw ?_ hid (le_refl _)
    rw [hdb, DB.write, hput k, if_pos rfl]
    congr 1
    rw [hacc]
    exact h.wf.acceptorId
  | learned m hm hmid hballot hacc hdb hid => exact h.of_eq hw hdb hid.ge (by rw [hacc])
  | learnedValue m hm htype hmid hrule hacc hdb hid =>
    refine h.put (r := Learner.record m) hw ?_ hid ?_
    · rw [hdb, hmid]
    · rw [hacc]
      exact hrule
  | executed hl hok hy hacc hdb hid =>
    refine h.of_eq hw hdb (by omega) ?_
    rw [hacc]
    exact Acceptor.setInstanceId_promisedBallot x.acceptor _
  | cleaned hrule => exact hrule.elim

/-! ## The life of a node -/

/-- What can happen to a node in its life. -/
inductive LifeEvent where
  /-- It handles an event of its loops. -/
  | event (ev : NodeEvent)
  /-- It crashes, and a new process recovers. -/
  | restart
deriving DecidableEq, Repr

/-- One step in the life of a node. -/
def Node.lifeStep (x : Node) (a : Env × LifeEvent) : Option Node :=
  match a.2 with
  | .event ev => x.step a.1 ev
  | .restart => Node.recover a.1 x.config x.db x.checkpoints x.trace

/-- Whether the node stores the value of a message as learned. -/
def Learner.stores (x : Node) (m : PaxosMessage) : Prop :=
  m.type = .sendLearnedValue ∧ m.instanceId = x.learner.instanceId ∧
    x.learner.isReceivingCheckpoint = false

instance (x : Node) (m : PaxosMessage) : Decidable (Learner.stores x m) :=
  inferInstanceAs (Decidable (_ ∧ _ ∧ _))

/-- Whether a step keeps the promise on disk: the log is not cleaned, and a `SEND_LEARNED_VALUE`
that the node stores carries a ballot that is not below its promise. -/
def LifeEvent.keepsPromise (x : Node) : LifeEvent → Bool
  | .event (.paxosMessage m) => Learner.stores x m → x.acceptor.promisedBallot ≤ m.ballot
  | .event .gcLoop => false
  | _ => true

/-- The condition on a step under which promises survive. Writes succeed. -/
def LearnsAbovePromise (x : Node) (a : Env × LifeEvent) : Prop :=
  (∀ k, a.1.putOk k = true) ∧ a.2.keepsPromise x = true

theorem Rules.durable_allows {ev : NodeEvent} (h : LearnsAbovePromise x (E, .event ev)) :
    Rules.durable.Allows E (fun _ => True) x ev := by
  have hfree := Rules.allows_default E x ev
  cases ev with
  | paxosMessage m =>
    refine ⟨trivial, fun hrecv => ?_⟩
    have hmsg := hfree.2 hrecv
    unfold Rules.MessageOk at hmsg ⊢
    cases htype : m.type with
    | sendLearnedValue => exact fun hid => of_decide_eq_true h.2 ⟨htype, hid, hrecv⟩
    | _ => rw [htype] at hmsg; exact hmsg
  | gcLoop => exact absurd h.2 Bool.false_ne_true
  | _ => exact hfree

theorem Durable.recover (h : x.Restarts E x.checkpoints a y) : Durable y where
  wf := h.wf
  bound i r hr := by
    rw [h.db_eq] at hr
    rw [h.instanceId]
    exact (Acceptor.le_of_readFromDB h.read hr).trans (le_max_right _ _)
  survives := by
    refine ⟨a, by rw [h.db_eq]; exact h.read, ?_⟩
    rw [h.acceptor, Acceptor.setInstanceId_promisedBallot]

/-- Every step that meets the condition keeps a node durable. -/
theorem Durable.lifeStep {a : Env × LifeEvent} (h : Durable x) (hok : LearnsAbovePromise x a)
    (hstep : x.lifeStep a = some y) : Durable y := by
  obtain ⟨E, ev⟩ := a
  cases ev with
  | restart =>
    obtain ⟨a, ha⟩ := Node.recover_spec hstep
    exact Durable.recover ha
  | event ev =>
    have hchain := Node.step_chain h.wf (Rules.durable_allows hok) hstep
    exact invariant_of_actions (fun _ _ hs hact => hs.act hok.1 hact) hchain h

theorem Durable.fresh (config : Config) : Durable (Node.fresh config) where
  wf := Node.wf_fresh config
  bound i r hr := by cases hr
  survives := ⟨{}, rfl, le_refl _⟩

/-- `CheckLearn` keeps the log and the promise. -/
theorem Instance.checkLearn_promise (E : Env) (x : Node) : (checkLearn E x).db = x.db ∧
    (checkLearn E x).acceptor.promisedBallot = x.acceptor.promisedBallot := by
  by_cases hl : x.learner.hasLearned = true
  · cases hok : (execution E x).1 with
    | false => rw [checkLearn_of_false hl hok]; exact ⟨rfl, rfl⟩
    | true =>
      rw [checkLearn_of_true hl hok]
      exact ⟨rfl, Acceptor.setInstanceId_promisedBallot x.acceptor _⟩
  · have hskip : checkLearn E x = x := by simp [checkLearn, hl]
    rw [hskip]
    exact ⟨rfl, rfl⟩

/-- What a stored `SEND_LEARNED_VALUE` leaves on disk. -/
theorem Learner.stores_db {m : PaxosMessage} (hs : Learner.stores x m)
    (hput : ∀ k, E.putOk k = true) (hstep : x.step E (.paxosMessage m) = some y) :
    y.db = x.db.put m.instanceId (Learner.record m) ∧
      y.acceptor.promisedBallot = x.acceptor.promisedBallot := by
  obtain ⟨htype, hid, hrecv⟩ := hs
  obtain rfl := Option.some.inj hstep
  unfold Instance.onPaxosMessage Instance.frame Instance.handle
  rw [if_neg (Bool.eq_false_iff.mp hrecv), htype]
  dsimp only
  obtain ⟨hdb, hprom⟩ := Instance.checkLearn_promise E (Learner.onSendLearnedValue E m x)
  rw [hdb, hprom]
  have hres : (Learner.writeToDB E m x).1 = true := hput _
  unfold Learner.onSendLearnedValue
  rw [if_pos hid]
  dsimp only
  rw [if_pos hres]
  have hwrite : (Learner.writeToDB E m x).2.db = x.db.put m.instanceId (Learner.record m) := by
    simp [Learner.writeToDB, Node.put, hput, Learner.record]
  unfold Learner.broadcastMessageToFollower
  split_ifs <;> exact ⟨hwrite, rfl⟩

/-- **Promises survive a restart as long as no learned value is stored below them.** In the life of
a node whose steps all meet the condition, the promise that `Acceptor::Recover` would load is at
least the one that the acceptor has, in every state. The condition cannot be relaxed: a stored
`SEND_LEARNED_VALUE` keeps the promise on disk exactly when its ballot is not below the promise. -/
theorem promise_survives_restart {config : Config} {x : Node}
    (hrun : Reaches Node.lifeStep LearnsAbovePromise (Node.fresh config) x) :
    (∃ a, Acceptor.readFromDB x.db = some a ∧ x.acceptor.promisedBallot ≤ a.promisedBallot) ∧
    ∀ E m y, (∀ k, E.putOk k = true) → Learner.stores x m →
      x.step E (.paxosMessage m) = some y →
      ((∃ a, Acceptor.readFromDB y.db = some a ∧ y.acceptor.promisedBallot ≤ a.promisedBallot) ↔
        x.acceptor.promisedBallot ≤ m.ballot) := by
  have hinv : Durable x :=
    hrun.invariant (Durable.fresh config) fun s t a hs hok hstep => hs.lifeStep hok hstep
  refine ⟨hinv.survives, ?_⟩
  intro E m y hput hs hstep
  obtain ⟨hdb, hprom⟩ := Learner.stores_db hs hput hstep
  have hbound : ∀ j q, x.db.get j = some q → j ≤ m.instanceId := by
    intro j q hq
    rw [hs.2.1, hinv.wf.learnerId]
    exact hinv.bound j q hq
  have hread := Acceptor.readFromDB_put (Learner.record m) hbound
  rw [hdb, hprom, hread]
  constructor
  · rintro ⟨a, ha, hle⟩
    rw [← Option.some.inj ha] at hle
    exact hle
  · intro hle
    exact ⟨_, rfl, hle⟩

/-- A member of a group of three, with the id 1. -/
def trioMember : Config :=
  { nodeId := 1, membership := [{ id := 1 }, { id := 2 }, { id := 3 }], codec := .empty }

/-- Node 3 prepares with the proposal id 2, a value that node 2 serves is stored above that promise,
and the node restarts and hears of a higher ballot. -/
def promiseKept : List (Env × LifeEvent) :=
  [({}, .event (.paxosMessage { type := .prepare, nodeId := 3, instanceId := 1, proposalId := 2 })),
   ({}, .event (.paxosMessage { type := .sendLearnedValue, nodeId := 2, instanceId := 1,
                                proposalId := 4, value := { valueId := 256, machineId := 7 } })),
   ({}, .restart),
   ({}, .event (.paxosMessage { type := .prepare, nodeId := 3, instanceId := 1, proposalId := 6 }))]

/-- The promise of the last `PREPARE` is on disk. -/
theorem promise_survives_restart_trio :
    ∃ x, Reaches Node.lifeStep LearnsAbovePromise (Node.fresh trioMember) x ∧
      x.acceptor.promisedBallot = ⟨6, 3⟩ ∧
      ∃ a, Acceptor.readFromDB x.db = some a ∧ ⟨6, 3⟩ ≤ a.promisedBallot := by
  have hend : (runChecked Node.lifeStep (fun x a => a.2.keepsPromise x) (Node.fresh trioMember)
      promiseKept).map (fun x => x.acceptor.promisedBallot) = some ⟨6, 3⟩ := by decide
  obtain ⟨x, hx, hprom⟩ := Option.map_eq_some_iff.mp hend
  have hrun : Reaches Node.lifeStep LearnsAbovePromise (Node.fresh trioMember) x := by
    refine Reaches.of_runChecked promiseKept ?_ hx
    intro a ha s hs
    refine ⟨fun k => ?_, hs⟩
    simp only [promiseKept, List.mem_cons, List.not_mem_nil, or_false] at ha
    rcases ha with rfl | rfl | rfl | rfl <;> rfl
  have hsurv := (promise_survives_restart hrun).1
  rw [hprom] at hsurv
  exact ⟨x, hrun, hprom, hsurv⟩

/-- Node 3 prepares with the proposal id 9, and then a value is stored that was chosen under the
proposal id 1. -/
def promiseLost : List (Env × LifeEvent) :=
  [({}, .event (.paxosMessage { type := .prepare, nodeId := 3, instanceId := 1, proposalId := 9 })),
   ({}, .event (.paxosMessage { type := .sendLearnedValue, nodeId := 2, instanceId := 1,
                                proposalId := 1, value := { valueId := 256, machineId := 7 } }))]

/-- The acceptor has promised `(9, 3)`, and recovery would load the promise `(1, 2)`. -/
theorem promise_lost_by_learned_value :
    ∃ x a, run Node.lifeStep (Node.fresh trioMember) promiseLost = some x ∧
      Acceptor.readFromDB x.db = some a ∧ ¬ x.acceptor.promisedBallot ≤ a.promisedBallot := by
  have hend : (run Node.lifeStep (Node.fresh trioMember) promiseLost).map
      (fun x => (x.acceptor.promisedBallot, (Acceptor.readFromDB x.db).map (·.promisedBallot))) =
        some (⟨9, 3⟩, some ⟨1, 2⟩) := by decide
  obtain ⟨x, hx, hres⟩ := Option.map_eq_some_iff.mp hend
  obtain ⟨hprom, hread⟩ := Prod.mk.inj hres
  obtain ⟨a, ha, hload⟩ := Option.map_eq_some_iff.mp hread
  refine ⟨x, a, hx, ha, ?_⟩
  rw [hprom, hload]
  decide

end Skywalker
