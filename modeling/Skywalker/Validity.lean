import Skywalker.Checkpoints
import Skywalker.Agreement

/-!
# Validity

A value is built in `OnPropose` and nowhere else. In a run in which writes and `Execute` succeed and
no checkpoint of another node is installed, every value that is accepted, learned, served, executed
or replayed was built there: the empty values of unset fields stay where nothing was accepted.

What could bring one out is a record in which nothing was accepted, at an instance that the node has
left. `Node.Learned` excludes it, as long as nothing is written over a learned value; and there is
nothing to write over between two events, since `CheckLearn` executes a value in the call that
learned it.
-/

namespace Skywalker

open TransitionSystem

variable {s t : Sys} {E : Env} {x : Node} {n : ℕ} {dirs : List (ℕ × Machines)} {C : Setup}

/-! ## A learned value is executed at once -/

/-- The learner has no value left, unless an `Execute` failed. -/
def Node.Settled (x : Node) : Prop :=
  x.learner.hasLearned = true → ∃ i v c, .executed i v c false ∈ x.trace

namespace Node.Settled

variable {y : Node}

theorem congr (h : x.Settled) (hl : y.learner.hasLearned = x.learner.hasLearned)
    (ht : ∀ e ∈ x.trace, e ∈ y.trace) : y.Settled := by
  intro hy
  rw [hl] at hy
  obtain ⟨i, v, c, he⟩ := h hy
  exact ⟨i, v, c, ht _ he⟩

theorem checkLearn (E : Env) (x : Node) : (Instance.checkLearn E x).Settled := by
  by_cases hl : x.learner.hasLearned = true
  · cases hok : (Instance.execution E x).1 with
    | true =>
      rw [Instance.checkLearn_of_true hl hok]
      intro hy
      cases hy
    | false =>
      rw [Instance.checkLearn_of_false hl hok]
      intro _
      refine ⟨x.instanceId, x.learner.learnedValue, Instance.executeContext x, ?_⟩
      refine List.mem_append_left _ (List.mem_append_right _ ?_)
      rw [hok]
      exact List.mem_singleton_self _
  · have hsame : Instance.checkLearn E x = x := if_neg hl
    rw [hsame]
    exact fun hy => absurd hy hl

/-- `OnPaxosMessage` ends with `CheckLearn`, or does nothing. -/
theorem frame (h : x.Settled) (handler : Node → Node) :
    (Instance.frame E handler x).Settled := by
  unfold Instance.frame
  split_ifs
  · exact h
  · exact checkLearn E _

theorem hand (h : x.Settled) (msg : PaxosMessage) (handler : Node → Node) :
    (Instance.hand E msg handler x).Settled :=
  (h.congr (y := x.emit (.handed msg)) rfl fun _ he => List.mem_cons_of_mem _ he).frame handler

theorem prepare (h : x.Settled) (b : Bool) : (Proposer.prepare E b x).Settled := by
  have hstart : (Proposer.startPrepare b x).Settled :=
    h.congr rfl fun _ he => List.mem_cons_of_mem _ he
  exact hstart.hand _ _

theorem accept (h : x.Settled) : (Proposer.accept E x).Settled := by
  have hstart : (Proposer.startAccept x).Settled :=
    h.congr rfl fun _ he => List.mem_cons_of_mem _ he
  exact hstart.hand _ _

theorem onPropose (h : x.Settled) (machineId : ℕ) (value : List UInt8) (context : Option Context)
    (draw : ℕ) : (Instance.onPropose E machineId value context draw x).Settled := by
  unfold Instance.onPropose
  split_ifs
  · have hstart : (Instance.startPropose E machineId value context draw x).Settled :=
      h.congr rfl fun _ he => List.mem_cons_of_mem _ he
    generalize Instance.startPropose E machineId value context draw x = z at hstart
    have hvalue : Node.Settled { z with proposer := { z.proposer with value := z.proposeValue } } :=
      hstart.congr rfl fun _ he => he
    unfold Proposer.newPropose
    dsimp only
    split_ifs
    · exact hvalue.accept
    · exact hvalue.prepare _
  · exact h.congr rfl fun _ he => List.mem_cons_of_mem _ he

theorem askForLearn (h : x.Settled) (addTimer : Bool) :
    (Learner.askForLearn E addTimer x).Settled := by
  unfold Learner.askForLearn
  dsimp only
  split_ifs <;> exact h.congr rfl fun _ he => List.mem_cons_of_mem _ he

/-- **After every event of a node, a learned value is executed.** -/
theorem step {ev : NodeEvent} (h : x.Settled) (hy : x.step E ev = some y) : y.Settled := by
  cases ev with
  | propose machineId value context draw =>
    simp only [Node.step, Option.ite_none_right_eq_some, Option.some.injEq] at hy
    rw [← hy.2]
    exact h.onPropose machineId value context draw
  | tryBeMaster draw =>
    simp only [Node.step, Option.ite_none_right_eq_some, Option.some.injEq] at hy
    rw [← hy.2]
    unfold Group.tryBeMasterInLoop
    dsimp only
    split_ifs
    · have hnow : Node.Settled { x with groupNow := E.nowMillis } := h.congr rfl fun _ he => he
      exact hnow.onPropose _ _ _ _
    · exact h.congr rfl fun _ he => List.mem_cons_of_mem _ he
  | timer id =>
    have hrest : (x.removeTimer id).Settled := h.congr rfl fun _ he => he
    simp only [Node.step] at hy
    split at hy
    · cases hy
    · rename_i cb _
      obtain rfl := Option.some.inj hy
      cases cb with
      | retry i =>
        unfold Node.runTimer Proposer.onRetryTimer
        dsimp only
        split_ifs
        · exact hrest.prepare _
        · exact hrest
      | propose => exact hrest.congr rfl fun _ he => List.mem_cons_of_mem _ he
      | learn => exact hrest.askForLearn true
  | paxosMessage msg =>
    -- Whatever the handler does, `CheckLearn` comes after it.
    obtain rfl := Option.some.inj hy
    exact h.frame _
  | checkpointMessage =>
    obtain rfl := Option.some.inj hy
    exact h.congr rfl fun _ he => he
  | syncData addTimer =>
    obtain rfl := Option.some.inj hy
    exact h.askForLearn addTimer
  | learnLoop =>
    simp only [Node.step, Option.ite_none_left_eq_some, Option.some.injEq] at hy
    rw [← hy.2]
    unfold Learner.runLearnLoop
    split
    · exact h
    · exact h.congr rfl fun _ he => List.mem_cons_of_mem _ he
    · exact h.congr rfl fun _ he => he
    · split_ifs
      · split
        · exact h.congr rfl fun _ he => List.mem_cons_of_mem _ he
        · exact h.congr rfl fun _ he => he
      · exact h.congr rfl fun _ he => he
  | finishCheckpoint =>
    simp only [Node.step, Option.ite_none_right_eq_some, Option.some.injEq] at hy
    rw [← hy.2]
    exact h.congr rfl fun _ he => he
  | gcLoop =>
    obtain rfl := Option.some.inj hy
    obtain ⟨db, m, g, hframe⟩ := LogCleaner.gcLoop_frame E x
    rw [hframe]
    exact h.congr rfl fun _ he => he

end Node.Settled

/-- No node has a learned value left after a step, unless an `Execute` failed. -/
theorem System.settled_step {a : Env × Label} (h : ∀ n, (s n).Settled)
    (hst : System.step s a = some t) (n : ℕ) : (t n).Settled := by
  -- A new process has learned nothing.
  have hrecover : ∀ {config db dirs trace y}, Node.recover a.1 config db dirs trace = some y →
      y.Settled := by
    intro config db dirs trace y hy hl
    obtain ⟨_, hrec⟩ := Node.recover_spec hy
    rw [hrec.learner] at hl
    cases hl
  obtain ⟨y, rfl, ⟨ev, -, hy⟩ | ⟨dirs, hy⟩⟩ := System.step_target hst
  · exact Sys.forall_update (Q := fun _ x => x.Settled) h ((h _).step hy) n
  · exact Sys.forall_update (Q := fun _ x => x.Settled) h (hrecover hy) n

/-! ## Built values -/

/-- Some node's `OnPropose` built the value. -/
def Sys.Built (s : Sys) (v : PaxosValue) : Prop := ∃ n i now, .proposed i now v ∈ (s n).trace

/-- A value that was built, with an id: the id of an empty value is zero. -/
def Sys.Valid (s : Sys) (v : PaxosValue) : Prop := s.Built v ∧ 0 < v.valueId

theorem Sys.Valid.grow {v : PaxosValue} (h : s.Valid v) (hgrow : s.Grows t) :
    t.Valid v := by
  obtain ⟨⟨n, i, now, he⟩, hpos⟩ := h
  exact ⟨⟨n, i, now, hgrow n _ he⟩, hpos⟩

/-- The bits of an id: the clock from the 22nd bit on, the number that is drawn and the counter, one
over the other. -/
def idBits (now draw seqNum : ℕ) : ℕ := (now <<< 22) % 2 ^ 64 ||| draw ||| (seqNum + 1) % 256

theorem idBits_pos {now draw seqNum : ℕ} (hdraw : drawOk draw = true) :
    0 < idBits now draw seqNum := by
  have hlow : 2 ^ 8 ≤ draw := by
    simp only [drawOk, Bool.and_eq_true, decide_eq_true_eq] at hdraw
    exact hdraw.1
  have hid : draw ≤ idBits now draw seqNum := le_trans Nat.right_le_or Nat.left_le_or
  omega

/-- The number that is drawn sees to the id. -/
theorem Instance.startPropose_valueId_pos {machineId : ℕ} {value : List UInt8}
    {context : Option Context} {draw : ℕ} (hdraw : drawOk draw = true) :
    0 < (Instance.startPropose E machineId value context draw x).proposeValue.valueId :=
  idBits_pos hdraw

/-- The runs in which writes succeed, nothing is written over a learned value and no checkpoint of
another node is installed. -/
def Policy.validity : Policy where
  rules := { keepsLearned := True }
  env E := ∀ k, E.putOk k = true
  install _ _ _ _ := False

theorem Policy.validity_recovers (h : Policy.validity.Recovers s n dirs) :
    dirs = (s n).checkpoints := by
  rcases h with ⟨-, hdirs⟩ | ⟨source, c, saved, hfalse, -⟩
  · exact hdirs
  · exact hfalse.elim

/-- What keeps empty values out. -/
structure Validity (s : Sys) : Prop where
  traced : Traced s
  values : s.Values s.Valid fun _ => True
  stores : ∀ n, (s n).Stores
  learned : ∀ n, (s n).Learned fun _ => s.Valid
  kept : ∀ n, (s n).Kept

namespace Validity

/-- Every action keeps empty values out. -/
theorem micro (h : Validity s) (hw : s.WF C) (hst : Micro .validity s t) : Validity t := by
  obtain ⟨_, _, _, _, _, hgrow, _⟩ := hst.newEvents hw
  have hweak : ∀ v, s.Valid v → t.Valid v := fun v hv => hv.grow hgrow
  have hlearned : ∀ n, (t n).Learned fun _ => s.Valid := by
    refine hst.forall_node (Q := fun _ x => x.Learned fun _ => s.Valid) h.learned ?_
    intro n E y henv hact
    refine (h.learned n).act (hw n).1 (h.stores n) henv trivial ?_ ?_ hact
    · exact fun m hm htype => (h.values.delivers hm h.traced).learned htype
    · intro m hm _ hballot
      have hpos : 0 < (s n).acceptor.acceptedBallot.proposalId := by
        rw [← hballot]
        exact h.traced.announced_pos hm
      exact ⟨hpos, (h.values n).acceptor.ok hpos⟩
  refine ⟨h.traced.micro hw hst, ?_, ?_, fun n => (hlearned n).mono fun _ => hweak, ?_⟩
  · have hold : s.Values t.Valid fun _ => True := fun n => (h.values n).mono hweak fun _ => id
    refine hold.micro (fun _ _ => trivial) trivial hw h.traced hst ?_ ?_
    · exact fun n i r hr hi _ => hweak _ ((h.learned n).records i r hi hr)
    · intro n E machineId value context draw _ _ hdraw hy
      rw [hy]
      refine ⟨⟨n, (s n).instanceId, E.nowMillis, ?_⟩, Instance.startPropose_valueId_pos hdraw⟩
      rw [hy]
      exact List.mem_cons_self
  · exact hst.forall_node (Q := fun _ x => x.Stores) h.stores fun n E y henv hact =>
      (h.stores n).act (hw n).1 henv hact
  · exact hst.forall_node (Q := fun _ x => x.Kept) h.kept fun n E y _ hact =>
      (h.kept n).act (hw n).1 hact

/-- A restart keeps the validity of all values. -/
theorem recover {a : Acceptor} {y : Node} (h : Validity s)
    (hwhy : Policy.validity.Recovers s n dirs) (hrec : (s n).Restarts E dirs a y) :
    Validity (Function.update s n y) := by
  obtain rfl := Policy.validity_recovers hwhy
  have hgrow := hrec.grows.1
  have hweak : ∀ v, s.Valid v → Sys.Valid (Function.update s n y) v := fun v hv => hv.grow hgrow
  have hle := (h.kept n).instanceId_le (h.stores n) hrec
  refine ⟨h.traced.recover hgrow hrec.grows.2, ?_, ?_, ?_, ?_⟩
  · have hvalues := h.values.recover trivial hrec fun i r hr hi _ =>
      (h.learned n).records i r (by have := hrec.instanceId; omega) hr
    exact fun k => (hvalues k).mono hweak fun _ => id
  · exact Sys.forall_update (Q := fun _ x => x.Stores) h.stores ((h.stores n).recover hrec)
  · refine Sys.forall_update (Q := fun _ x => x.Learned fun _ => Sys.Valid _) ?_ ?_
    · exact fun k => (h.learned k).mono fun _ => hweak
    · refine ((h.learned n).recover (h.stores n) hrec ?_).mono fun _ => hweak
      intro hjump
      omega
  · exact Sys.forall_update (Q := fun _ x => x.Kept) h.kept ((h.kept n).recover hrec)

theorem init (C : Setup) : Validity (System.init C) where
  traced := .init C
  values := .init trivial C
  stores _ := .fresh _
  learned _ := .fresh _
  kept _ := .fresh _

end Validity

/-! ## The values of a run -/

/-- Whether every `Execute` outside of recovery succeeded so far. -/
def Node.allExecuted (x : Node) : Bool :=
  x.trace.all fun
    | .executed _ _ _ ok => ok
    | _ => true

/-- The condition on a step: no `Execute` of the node failed before, and no checkpoint of another
node is installed. -/
def ValidAt (s : Sys) (a : Env × Label) : Bool :=
  match a.2 with
  | .node n _ => (s n).allExecuted
  | .restart _ => true
  | .install .. => false

/-- The value that an entry of the trace accepts, executes, replays or sends as learned. -/
def Event.conveys : Event → Option PaxosValue
  | .accepted _ _ v => some v
  | .executed _ v _ _ => some v
  | .replayed _ v _ => some v
  | .send _ m => if m.type = .sendLearnedValue then some m.value else none
  | .broadcast m _ => if m.type = .sendLearnedValue then some m.value else none
  | _ => none

/-- What an entry conveys satisfies the predicate of the values. -/
theorem Event.Carries.of_conveys {Ok Ok₀ : PaxosValue → Prop} {e : Event} (h : e.Carries Ok Ok₀)
    {v : PaxosValue} (hv : e.conveys = some v) : Ok v := by
  cases e with
  | accepted | executed | replayed =>
    obtain rfl := Option.some.inj hv
    exact h
  | send d m =>
    simp only [Event.conveys, Option.ite_none_right_eq_some, Option.some.injEq] at hv
    rw [← hv.2]
    exact h.1 hv.1
  | broadcast m dests =>
    simp only [Event.conveys, Option.ite_none_right_eq_some, Option.some.injEq] at hv
    rw [← hv.2]
    exact h (Or.inr hv.1)
  | _ => cases hv

/-- A node that settled its learned values has none left where no `Execute` failed. -/
theorem Node.Settled.hasLearned (h : x.Settled) (hall : x.allExecuted = true) :
    x.learner.hasLearned ≠ true := by
  intro hl
  obtain ⟨i, v, c, he⟩ := h hl
  exact Bool.false_ne_true (List.all_eq_true.mp hall _ he)

/-- The policy permits the events of such a node. -/
theorem Policy.validity_permits {ev : NodeEvent} (hw : s.WF C) (htr : Traced s)
    (hput : ∀ k, E.putOk k = true) (hnone : (s n).learner.hasLearned ≠ true) :
    Policy.validity.Permits s (E, .node n ev) := by
  refine ⟨hput, fun hallowed => Rules.allows_of ?_ ?_ ?_ ?_ ?_ ?_ ?_⟩
  · exact fun _ _ _ _ _ => trivial
  · exact fun _ _ => trivial
  · intro _ y hy
    refine ⟨trivial, fun _ hl => ?_⟩
    rw [hy.learner] at hl
    exact absurd hl hnone
  · intro _ y hy
    refine ⟨trivial, fun _ hl => ?_⟩
    rw [hy.learner] at hl
    exact absurd hl hnone
  · rintro m rfl
    refine ⟨hallowed, fun _ => Rules.messageOk_of ?_ (fun h => h.elim) ?_ fun _ _ => trivial⟩
    · exact fun _ htype => htr.nodeId_ne_of_inFlight hw hallowed htype
    · exact fun _ hl => absurd hl hnone
  · exact fun _ => trivial
  · exact fun _ => trivial

/-- The runs in which writes and `Execute` succeed and no checkpoint of another node is
installed. -/
theorem Policy.validity_invariant {Q : Sys → Prop}
    (hrun : Reaches System.step (fun s a => (∀ k, a.1.putOk k = true) ∧ ValidAt s a = true)
      (System.init C) s) (hinit : Q (System.init C))
    (hmicro : ∀ s t, s.WF C → Validity s → Q s → Micro .validity s t → Q t)
    (hrecover : ∀ s n E a y, s.WF C → Validity s → Q s →
      (s n).Restarts E (s n).checkpoints a y →
      Q (Function.update s n y)) : s.WF C ∧ Validity s ∧ Q s := by
  have hsettled := hrun.strengthen (P := fun s => ∀ n, (s n).Settled)
    (fun n hl => by cases hl) fun s t a h _ hst => System.settled_step h hst
  refine Policy.invariant (P := .validity) (I := fun s => Validity s ∧ Q s) hsettled
    ⟨.init C, hinit⟩ ?_ ?_ ?_
  · rintro s ⟨E, l⟩ hw h ⟨hs, hput, hvalid⟩
    cases l with
    | node n ev => exact Policy.validity_permits hw h.1.traced hput ((hs n).hasLearned hvalid)
    | restart n => exact ⟨hput, trivial⟩
    | install n source c => cases hvalid
  · exact fun s t hw h hst => ⟨h.1.micro hw hst, hmicro s t hw h.1 h.2 hst⟩
  · intro s n E dirs a y hw h _ hwhy hrec
    refine ⟨h.1.recover hwhy hrec, ?_⟩
    obtain rfl := Policy.validity_recovers hwhy
    exact hrecover s n E a y hw h.1 h.2 hrec

/-- **Validity.** In every run in which writes and `Execute` succeed and no checkpoint of another
node is installed, what a node accepts, executes, replays or sends as learned, and what its learner
holds, was built in some node's `OnPropose`, and is not empty. -/
theorem built_by_onPropose {C : Setup} {s : Sys}
    (hrun : Reaches System.step (fun s a => (∀ k, a.1.putOk k = true) ∧ ValidAt s a = true)
      (System.init C) s) (n : ℕ) :
    (∀ e ∈ (s n).trace, ∀ v, e.conveys = some v → s.Built v ∧ 0 < v.valueId) ∧
      ((s n).learner.hasLearned = true →
        s.Built (s n).learner.learnedValue ∧ 0 < (s n).learner.learnedValue.valueId) := by
  obtain ⟨-, hinv, -⟩ := Policy.validity_invariant (Q := fun _ => True) hrun trivial
    (fun _ _ _ _ _ _ => trivial) fun _ _ _ _ _ _ _ _ _ => trivial
  have hvalues := hinv.values n
  exact ⟨fun e he v hv => (hvalues.trace e he).of_conveys hv, hvalues.learner⟩

/-- The `ACCEPT` of the second instance reaches node 2 twice: node 2 first learns from it that the
first value was chosen, then accepts the second value. It restarts and replays the first
instance. -/
def firstReplayed : List (Env × Label) := nextAccept ++
  ([({}, .node 2 (.paxosMessage secondAccept)),
    ({}, .node 2 (.paxosMessage secondAccept)),
    ({}, .restart 2)] : List (Env × Label))

/-- The first value, which node 2 executed and replayed, and the second, which it accepted, were
built. -/
theorem built_by_onPropose_trio : ∃ s,
    Reaches System.step (fun s a => (∀ k, a.1.putOk k = true) ∧ ValidAt s a = true)
      (System.init (.uniform trioMember)) s ∧
    .executed 1 firstValue none true ∈ (s 2).trace ∧
    .replayed 1 firstValue true ∈ (s 2).trace ∧ s.Built firstValue ∧
    .accepted 2 ⟨1, 1⟩ secondValue ∈ (s 2).trace ∧ s.Built secondValue := by
  have hend : (runChecked System.step ValidAt (System.init (.uniform trioMember))
      firstReplayed).map (fun s =>
        (decide (Event.executed 1 firstValue none true ∈ (s 2).trace),
          decide (Event.replayed 1 firstValue true ∈ (s 2).trace),
          decide (Event.accepted 2 ⟨1, 1⟩ secondValue ∈ (s 2).trace))) =
        some (true, true, true) := by
    decide +kernel
  obtain ⟨s, hs, hfields⟩ := Option.map_eq_some_iff.mp hend
  simp only [Prod.mk.injEq, decide_eq_true_eq] at hfields
  obtain ⟨hexec, hreplay, hacc⟩ := hfields
  have hrun := reaches_of_default (n := 9) rfl hs
  have hbuilt := (built_by_onPropose hrun 2).1
  exact ⟨s, hrun, hexec, hreplay, (hbuilt _ hreplay _ rfl).1, hacc, (hbuilt _ hacc _ rfl).1⟩

end Skywalker
