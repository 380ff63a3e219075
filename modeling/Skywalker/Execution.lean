import Skywalker.Events
import Skywalker.MemberChanges
import Skywalker.Recovery

/-!
# Execution in order

A node executes the instances one after the other from the one that recovery left it at. The only
action that calls `Execute` is `CheckLearn`, which tries the current instance and moves all four
instance ids on when the machine succeeds; every other action leaves them. So whatever messages,
timers and proposals come, and however the handlers nest, the ids for which `Execute` returned true
are consecutive, and each attempt is at the next of them.

The replay of `LogManager::Recover` calls `Execute` in the same order, but goes on when it returns
false. What the calls of a replay return can be read off the log, the versions of the machines in
the checkpoint and the results of the users' machines (`LogManager.replayEntries_eq`), so that
`recover_executes_each` says exactly when none of them fails.
-/

namespace Skywalker

open TransitionSystem

variable {s : ℕ} {x y : Node} {net : PaxosMessage → Prop}

/-- The instance of a call of `Execute`. -/
def Event.attempt : Event → Option ℕ
  | .executed i _ _ _ => some i
  | _ => none

/-- The instance of a call of `Execute` that returned true. -/
def Event.success : Event → Option ℕ
  | .executed i _ _ true => some i
  | _ => none

/-- The instances for which `Execute` returned true, oldest first. -/
def executedIds (trace : List Event) : List ℕ := (trace.filterMap Event.success).reverse

/-- Every attempt in a trace is at the instance after those executed before it, counted from `s`. -/
def InOrder (s : ℕ) : List Event → Prop
  | [] => True
  | e :: l => (∀ i, e.attempt = some i → i = s + (executedIds l).length) ∧ InOrder s l

theorem Event.attempt_of_success {e : Event} {i : ℕ} (h : e.success = some i) :
    e.attempt = some i := by
  cases e with
  | executed j v c ok => cases ok <;> simp_all [Event.success, Event.attempt]
  | _ => cases h

theorem executedIds_cons (e : Event) (l : List Event) :
    executedIds (e :: l) = executedIds l ++ e.success.toList := by
  unfold executedIds
  cases h : e.success <;> simp [h]

/-- Attempts in order succeed at consecutive instances. -/
theorem InOrder.executedIds_eq {l : List Event} (h : InOrder s l) :
    executedIds l = List.range' s (executedIds l).length := by
  induction l with
  | nil => rfl
  | cons e l ih =>
    obtain ⟨he, hl⟩ := h
    rw [executedIds_cons]
    cases hs : e.success with
    | none => simpa using ih hl
    | some i =>
      have hi : i = s + (executedIds l).length := he i (Event.attempt_of_success hs)
      simp only [Option.toList_some, List.length_append, List.length_singleton]
      rw [List.range'_concat, ← ih hl, hi, Nat.one_mul]

/-- Entries without an attempt keep the order. -/
theorem InOrder.append {l l' : List Event} (h : InOrder s l) (hq : ∀ e ∈ l', e.attempt = none) :
    InOrder s (l' ++ l) ∧ executedIds (l' ++ l) = executedIds l := by
  induction l' with
  | nil => exact ⟨h, rfl⟩
  | cons e l' ih =>
    obtain ⟨ho, hids⟩ := ih fun e' he' => hq e' (List.mem_cons_of_mem e he')
    have hnone : e.attempt = none := hq e List.mem_cons_self
    have hsucc : e.success = none := by
      cases hs : e.success with
      | none => rfl
      | some i => rw [Event.attempt_of_success hs] at hnone; cases hnone
    refine ⟨⟨fun i hi => ?_, ho⟩, ?_⟩
    · rw [hnone] at hi
      cases hi
    · rw [List.cons_append, executedIds_cons, hsucc, hids]
      simp

theorem InOrder.of_append {l₁ l₂ : List Event} (h : InOrder s (l₁ ++ l₂)) :
    InOrder s l₂ := by
  induction l₁ with
  | nil => exact h
  | cons e l₁ ih => exact ih h.2

/-! ## One action -/

section

variable {R : Rules} {E : Env}

theorem NewEvent.attempt_eq_none {e : Event} (h : NewEvent R E net x y e)
    (hne : ¬ (x.learner.hasLearned = true ∧ y = Instance.checkLearn E x)) : e.attempt = none := by
  cases h with
  | quiet he => cases e <;> first | rfl | cases he
  | prepareReply _ _ he | acceptReply _ _ he => rcases he with ⟨rfl, -⟩ | ⟨rfl, -⟩ <;> rfl
  | executed hl hy => exact absurd ⟨hl, hy⟩ hne
  | _ => rfl

theorem Act.instanceId_eq (h : Act R E net x y) :
    (x.learner.hasLearned = true ∧ y = Instance.checkLearn E x) ∨ y.instanceId = x.instanceId := by
  cases h.outerChange with
  | same h => exact Or.inr h.instanceId
  | executed hl hok => exact Or.inl ⟨hl, (Instance.checkLearn_of_true hl hok).symm⟩
  | failed hl hok => exact Or.inl ⟨hl, (Instance.checkLearn_of_false hl hok).symm⟩
  | gcLoop db m g hrule hframe => exact Or.inr (by rw [hframe])
  | _ => exact Or.inr rfl

/-- The invariant of a run from the instance `s`: what was executed since then is in order, and the
node is at the next instance. -/
def ExecutedFrom (s : ℕ) (trace : List Event) (x : Node) : Prop :=
  ∃ l, x.trace = l ++ trace ∧ InOrder s l ∧ x.instanceId = s + (executedIds l).length

/-- `CheckLearn` tries the next instance. -/
theorem ExecutedFrom.checkLearn {trace : List Event} (h : ExecutedFrom s trace x)
    (hl : x.learner.hasLearned = true) :
    ExecutedFrom s trace (Instance.checkLearn E x) := by
  obtain ⟨l, htr, hord, hid⟩ := h
  generalize he : Event.executed x.instanceId x.learner.learnedValue (Instance.executeContext x)
    (Instance.execution E x).1 = e
  have hord' : InOrder s (e :: l) := by
    refine ⟨fun i hi => ?_, hord⟩
    rw [← he] at hi
    obtain rfl : x.instanceId = i := Option.some.inj hi
    exact hid
  -- The completion of a proposal comes after the attempt and is no attempt itself.
  obtain ⟨l', hev, hquiet⟩ : ∃ l', Instance.executionEvents E x = l' ++ [e] ∧
      ∀ f ∈ l', f.attempt = none := by
    unfold Instance.executionEvents
    refine ⟨_, by rw [he], ?_⟩
    intro f hf
    split_ifs at hf
    · rw [List.mem_singleton.mp hf]
      rfl
    · cases hf
  obtain ⟨hord'', hids⟩ := hord'.append hquiet
  refine ⟨l' ++ e :: l, ?_, hord'', ?_⟩
  · rw [Instance.checkLearn_trace hl, hev, htr]
    simp
  · rw [hids, executedIds_cons]
    cases hok : (Instance.execution E x).1 with
    | false =>
      rw [Instance.checkLearn_of_false hl hok, ← he, hok]
      simpa [Event.success, Instance.afterExecute] using hid
    | true =>
      rw [Instance.checkLearn_of_true hl hok, ← he, hok]
      simp [Event.success, Instance.afterExecute, Instance.nextInstance, hid]
      omega

theorem ExecutedFrom.act {trace : List Event} (h : ExecutedFrom s trace x) (hw : x.WF)
    (hact : Act R E net x y) : ExecutedFrom s trace y := by
  by_cases hc : x.learner.hasLearned = true ∧ y = Instance.checkLearn E x
  · rw [hc.2]
    exact h.checkLearn hc.1
  · obtain ⟨l, htr, hord, hid⟩ := h
    obtain ⟨l', htr', hnew⟩ := hact.newEvents hw
    obtain ⟨hord', hids⟩ := hord.append fun e he => (hnew e he).attempt_eq_none hc
    refine ⟨l' ++ l, ?_, hord', ?_⟩
    · rw [htr', htr, List.append_assoc]
    · rw [hids, ← hid]
      exact hact.instanceId_eq.resolve_left hc

end

/-! ## Runs of one node -/

/-- One event of a node with its environment. -/
def Node.stepIn (x : Node) (a : Env × NodeEvent) : Option Node := x.step a.1 a.2

/-- Rules that ask for nothing else than that the log is not cleaned, or no checkpoint made, allow
every other event whose message is in the network. -/
theorem Rules.allows_of_net {p q : Prop} (E : Env) (x : Node) (ev : NodeEvent)
    (hnet : ∀ m, ev = .paxosMessage m → net m) (hclean : ev = .gcLoop → p)
    (hcheckpoint : ev = .finishCheckpoint → q) :
    ({ clean := p, checkpoint := q } : Rules).Allows E net x ev := by
  have hprep : ∀ y, ({ clean := p, checkpoint := q } : Rules).PrepareOk y :=
    fun y => ⟨trivial, fun h => h.elim⟩
  have hstart : ∀ y, ({ clean := p, checkpoint := q } : Rules).StartOk y := by
    intro y
    unfold Rules.StartOk
    split_ifs
    · exact ⟨trivial, fun h => h.elim⟩
    · exact hprep y
  have hmsg : ∀ m, ({ clean := p, checkpoint := q } : Rules).MessageOk x m :=
    fun m => Rules.messageOk_of_free (fun _ => id) id trivial
  cases ev with
  | propose => exact ⟨trivial, fun _ => hstart _⟩
  | tryBeMaster => exact fun _ => ⟨trivial, fun _ => hstart _⟩
  | timer => exact fun _ => hprep _
  | paxosMessage m => exact ⟨hnet m rfl, fun _ => hmsg m⟩
  | finishCheckpoint => exact hcheckpoint rfl
  | gcLoop => exact hclean rfl
  | _ => trivial

theorem Rules.allows_default (E : Env) (x : Node) (ev : NodeEvent) :
    ({} : Rules).Allows E (fun _ => True) x ev :=
  Rules.allows_of_net E x ev (fun _ _ => trivial) (fun _ => trivial) fun _ => trivial

/-- **In-order, exactly-once execution.** In every run of a node after `Recover`, with any messages,
timers and proposals and with any results of `Execute` and `Put`, the instances for which `Execute`
returned true are `s, s + 1, s + 2, …` from the recovered instance `s` on, every attempt is at the
next of them, and between two events the four instance ids are that next one. -/
theorem executes_in_order {E₀ : Env} {config : Config} {db : DB} {dirs : List (ℕ × Machines)}
    {trace : List Event} {x y : Node} (hrec : Node.recover E₀ config db dirs trace = some x)
    (hrun : Reaches Node.stepIn (fun _ _ => True) x y) :
    ∃ l, y.trace = l ++ x.trace ∧
      executedIds l = List.range' x.instanceId (executedIds l).length ∧
      (∀ l₁ l₂ i v context ok, l = l₁ ++ .executed i v context ok :: l₂ →
        i = x.instanceId + (executedIds l₂).length) ∧
      y.instanceId = x.instanceId + (executedIds l).length ∧
      y.acceptor.instanceId = y.instanceId ∧ y.learner.instanceId = y.instanceId ∧
      y.proposer.instanceId = y.instanceId := by
  obtain ⟨a, hrecovered⟩ := Node.recover_spec hrec
  have hinv : y.WF ∧ ExecutedFrom x.instanceId x.trace y := by
    refine hrun.invariant (P := fun z => z.WF ∧ ExecutedFrom x.instanceId x.trace z) ?_ ?_
    · exact ⟨hrecovered.wf, [], rfl, trivial, rfl⟩
    · intro s t ⟨E, ev⟩ hs _ hstep
      have hchain := Node.step_chain hs.1 (Rules.allows_default E s ev) hstep
      refine invariant_of_actions (P := fun z => z.WF ∧ ExecutedFrom x.instanceId x.trace z)
        ?_ hchain hs
      intro u v hu hact
      exact ⟨hact.wf hu.1, hu.2.act hu.1 hact⟩
  obtain ⟨hw, l, htr, hord, hid⟩ := hinv
  refine ⟨l, htr, hord.executedIds_eq, ?_, hid, hw.acceptorId, hw.learnerId, hw.proposerId⟩
  intro l₁ l₂ i v context ok hl
  rw [hl] at hord
  exact hord.of_append.1 i rfl

/-- A group of one node. -/
def solo : Config := { nodeId := 1, membership := [{ id := 1 }], codec := .empty }

/-- Two proposals in a group of one. The user's machine fails the first of them twice before it
executes it. -/
def soloEvents : List (Env × NodeEvent) :=
  [({ executeOk := fun k => decide (18 < k) }, .propose 7 [1] none 256), ({}, .syncData false),
   ({}, .propose 7 [2] none 256)]

/-- The two proposals are executed at the instances 1 and 2. -/
theorem executes_in_order_solo : ∃ y l, run Node.stepIn (Node.fresh solo) soloEvents = some y ∧
    y.trace = l ++ (Node.fresh solo).trace ∧ executedIds l = [1, 2] ∧
    y.proposer.instanceId = 3 := by
  have hend : (run Node.stepIn (Node.fresh solo) soloEvents).map Node.instanceId = some 3 := by
    decide
  obtain ⟨y, hy, hid⟩ := Option.map_eq_some_iff.mp hend
  obtain ⟨l, htr, hids, -, hnext, -, -, hprop⟩ := executes_in_order
    (Node.recover_empty {} solo) (Reaches.of_run soloEvents (fun _ _ _ => trivial) hy)
  refine ⟨y, l, hy, htr, ?_, hprop.trans hid⟩
  have hlen : (executedIds l).length = 2 := by
    have hfirst : (Node.fresh solo).instanceId = 1 := rfl
    omega
  rw [hids, hlen]
  rfl

/-! ## The replay before a run -/

/-- Whether the machine of the group that a value is for can read it. -/
def Codec.executable (codec : Codec) (v : PaxosValue) : Bool :=
  if v.machineId = membershipMachineId then
    (codec.parseMemberChange v.userData).any fun c => c.type.length ≤ c.member.length
  else if v.machineId = masterMachineId then (codec.parseMasterState v.userData).isSome
  else true

/-- Whether the machine that a value is for takes it at an instance: a machine of the group if it
can read the value and its version is below the instance, and a user's machine as it returns. -/
def Machines.takes (codec : Codec) (userResult : Bool) (i : ℕ) (v : PaxosValue) (ms : Machines) :
    Bool :=
  if v.machineId = membershipMachineId then ms.membership.version < i && codec.executable v
  else if v.machineId = masterMachineId then ms.master.version < i && codec.executable v
  else userResult

/-- `MembershipMachine::Execute` succeeds on a later instance and a change that it can read, and
sets the version then. -/
theorem Membership.execute_eq (codec : Codec) (i : ℕ) (value : List UInt8) (ms : Membership) :
    (ms.execute codec i value).1 = (ms.version < i &&
        (codec.parseMemberChange value).any fun c => c.type.length ≤ c.member.length) ∧
      (ms.execute codec i value).2.version =
        if (ms.execute codec i value).1 then i else ms.version := by
  by_cases hold : i ≤ ms.version
  · simp [Membership.execute, hold, Nat.not_lt.mpr hold]
  · have hnew : ms.version < i := Nat.lt_of_not_le hold
    cases hparse : codec.parseMemberChange value with
    | none => simp [Membership.execute, hold, hparse]
    | some c =>
      have hlength := applyChanges_eq_none_iff c.type c.member ms
      cases happly : applyChanges c.type c.member ms with
      | none => simp [Membership.execute, hold, hparse, happly, hlength.mp happly]
      | some ms' =>
        have hle : c.type.length ≤ c.member.length :=
          Nat.le_of_not_lt fun hlt => by simp [happly] at hlength; omega
        simp [Membership.execute, hold, hparse, happly, hnew, hle]

/-- `MasterMachine::Execute` succeeds on a later instance and a state that it can parse, and sets
the version then. -/
theorem MasterState.execute_eq (codec : Codec) (now : ℕ) (context : Option ℕ) (i : ℕ)
    (value : List UInt8) (st : MasterState) :
    (st.execute codec now context i value).1 = (st.version < i &&
        (codec.parseMasterState value).isSome) ∧
      (st.execute codec now context i value).2.version =
        if (st.execute codec now context i value).1 then i else st.version := by
  by_cases hold : i ≤ st.version
  · simp [MasterState.execute, hold, Nat.not_lt.mpr hold]
  · have hnew : st.version < i := Nat.lt_of_not_le hold
    cases hparse : codec.parseMasterState value with
    | none => simp [MasterState.execute, hold, hparse]
    | some new => simp [MasterState.execute, hold, hparse, hnew]

/-- `Execute` returns true just if the machine takes the value. -/
theorem Machines.execute_fst (codec : Codec) (now : ℕ) (userResult : Bool) (context : Option ℕ)
    (i : ℕ) (v : PaxosValue) (ms : Machines) :
    (ms.execute codec now userResult context i v).1 = ms.takes codec userResult i v := by
  unfold Machines.execute Machines.takes Codec.executable
  split_ifs
  · exact (Membership.execute_eq ..).1
  · exact (MasterState.execute_eq ..).1
  · rfl

/-- A machine that has executed an instance, or has failed it, takes a later value as before. -/
theorem Machines.takes_execute {codec : Codec} {now i j : ℕ} {userResult userResult' : Bool}
    {context : Option ℕ} {v w : PaxosValue} {ms : Machines} (hij : i < j) :
    (ms.execute codec now userResult context i v).2.takes codec userResult' j w =
      ms.takes codec userResult' j w := by
  have hmembership : (ms.membership.execute codec i v.userData).2.version < j ↔
      ms.membership.version < j := by
    obtain ⟨hok, hversion⟩ := Membership.execute_eq codec i v.userData ms.membership
    rw [hversion]
    split_ifs with h
    · have hnew : ms.membership.version < i := by simp_all
      omega
    · rfl
  have hmaster : (ms.master.execute codec now context i v.userData).2.version < j ↔
      ms.master.version < j := by
    obtain ⟨hok, hversion⟩ := MasterState.execute_eq codec now context i v.userData ms.master
    rw [hversion]
    split_ifs with h
    · have hnew : ms.master.version < i := by simp_all
      omega
    · rfl
  unfold Machines.execute Machines.takes
  split_ifs <;> simp [hmembership, hmaster]

/-- **The calls of a replay.** What each returns depends on the logged value, on the machines that
the replay starts with and on the result of the user's machine, and not on the calls before it. -/
theorem LogManager.replayEntries_eq (E : Env) (codec : Codec) (db : DB) (n i k : ℕ)
    (ms : Machines) :
    replayEntries E codec db n i k ms = (List.range' i n).map fun j =>
      .replayed j (loggedValue db j)
        (ms.takes codec (E.executeOk (k + (j - i))) j (loggedValue db j)) := by
  induction n generalizing i k ms with
  | zero => rfl
  | succ n ih =>
    rw [List.range'_succ, List.map_cons, Nat.sub_self, Nat.add_zero]
    simp only [replayEntries]
    rw [Machines.execute_fst, ih]
    congr 1
    refine List.map_congr_left fun j hj => ?_
    have hij : i < j := (List.mem_range'_1.mp hj).1
    have hcalls : k + 1 + (j - (i + 1)) = k + (j - i) := by omega
    rw [Machines.takes_execute hij, hcalls]

/-- **Exactly when no `Execute` of a replay fails.** A `Recover` that succeeds has called `Execute`
for every instance after the latest checkpoint and before the newest one of the log, once for each
and in order, on the value of its record; all of the calls returned true just if the machines of the
checkpoint take the logged values. -/
theorem recover_executes_each {E : Env} {config : Config} {db : DB} {dirs : List (ℕ × Machines)}
    {trace : List Event} {x : Node} {first last : ℕ}
    (hrec : Node.recover E config db dirs trace = some x)
    (hfirst : first = (MachineManager.recover E config dirs).1 + 1)
    (hlast : last = db.getMaxInstanceId.getD 0) :
    ((∀ i, first ≤ i → i < last → (MachineManager.recover E config dirs).2.takes config.codec
        (E.executeOk (trace.length + (i - first))) i (LogManager.loggedValue db i) = true) ↔
      x.trace = .recovered x.instanceId x.machines.membership ::
        (((List.range' first (last - first)).map fun i =>
          Event.replayed i (LogManager.loggedValue db i) true).reverse ++ trace)) ∧
    ∀ i, first ≤ i → i < last → (db.get i).isSome := by
  unfold Node.recover at hrec
  simp only [Option.bind_eq_some_iff, Option.map_eq_some_iff] at hrec
  obtain ⟨a, hread, t, hreplay, rfl⟩ := hrec
  obtain rfl : last = a.instanceId := hlast.trans (Acceptor.getMaxInstanceId_of_readFromDB hread)
  rw [← hfirst] at hreplay
  obtain ⟨hlogged, htrace⟩ := LogManager.replayLog_trace hreplay
  obtain ⟨machines, l, rfl, -⟩ := LogManager.replayLog_spec hreplay
  refine ⟨?_, fun i h1 h2 => hlogged i h1 (by omega)⟩
  dsimp only at htrace ⊢
  rw [htrace, LogManager.replayEntries_eq, ← hfirst, List.cons_inj_right,
    List.append_cancel_right_eq, List.reverse_inj, List.map_inj_left]
  simp only [List.mem_range'_1, Event.replayed.injEq, true_and, and_imp]
  refine forall_congr' fun i => forall_congr' fun h1 => ?_
  have hbound : i < a.instanceId ↔ i < first + (a.instanceId - first) := by omega
  rw [hbound]

/-- A log with the values of two instances, both for a user's machine. -/
def twoRecords : DB :=
  { records := [(2, { instanceId := 2, acceptedValue := { valueId := 2, machineId := 7 } }),
      (1, { instanceId := 1, acceptedValue := { valueId := 1, machineId := 7 } })] }

/-- The replay executes the first instance, and not the newest record. -/
theorem recover_executes_each_two : ∃ x, Node.recover {} solo twoRecords [] [] = some x ∧
    x.trace = [.recovered x.instanceId x.machines.membership,
      .replayed 1 { valueId := 1, machineId := 7 } true] := by
  have hsome : (Node.recover {} solo twoRecords [] []).isSome = true := by decide
  obtain ⟨x, hx⟩ := Option.isSome_iff_exists.mp hsome
  have hfirst : 1 = (MachineManager.recover {} solo []).1 + 1 := by decide
  have hlast : 2 = twoRecords.getMaxInstanceId.getD 0 := by decide
  refine ⟨x, hx, (recover_executes_each hx hfirst hlast).1.mp ?_⟩
  decide

/-- **`ReplayLog` does not look at what `Execute` returns.** The machine fails the first instance,
and the node starts at the second. -/
theorem recover_skips_failed_execute : ∃ x,
    Node.recover { executeOk := fun _ => false } solo twoRecords [] [] = some x ∧
      x.instanceId = 2 ∧ .replayed 1 { valueId := 1, machineId := 7 } false ∈ x.trace ∧
      ∀ v, .replayed 1 v true ∉ x.trace := by
  have hrec : (Node.recover { executeOk := fun _ => false } solo twoRecords [] []).map
      (fun x => (x.instanceId, x.trace)) = some (2, [.recovered 2 (.ofOptions solo.membership),
        .replayed 1 { valueId := 1, machineId := 7 } false]) := by
    decide
  obtain ⟨x, hx, hend⟩ := Option.map_eq_some_iff.mp hrec
  obtain ⟨hid, htrace⟩ := Prod.mk.injEq .. ▸ hend
  refine ⟨x, hx, hid, ?_, ?_⟩
  · rw [htrace]
    exact List.mem_cons_of_mem _ List.mem_cons_self
  · intro v hmem
    rw [htrace] at hmem
    simp at hmem

end Skywalker
