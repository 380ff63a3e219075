import Skywalker.Actions

/-!
# What recovery leaves

`Node.recover_spec` reads off the state of a recovered node: its components start fresh at one
instance, the acceptor has what the newest record holds, and the trace has grown by the entries of
the replay and of the recovery itself. A recovered node is well formed.
-/

namespace Skywalker

variable {E : Env} {db : DB} {dirs : List (ℕ × Machines)}

/-- Replaying changes the machines and appends one entry for each record that it reads. A property
of the machines that each `Execute` of the replay carries to the next instance holds at its end. -/
theorem LogManager.replayLog_spec {n i : ℕ} {s t : Node} (h : replayLog E n i s = some t) :
    ∃ machines l, t = { s with machines := machines, trace := l ++ s.trace } ∧
      (∀ e ∈ l, ∃ j r ok, e = .replayed j r.acceptedValue ok ∧ s.db.get j = some r ∧
        i ≤ j ∧ j < i + n) ∧
      (∀ j r, s.db.get j = some r → i ≤ j → j < i + n →
        ∃ ok, .replayed j r.acceptedValue ok ∈ l) ∧
      ∀ P : ℕ → Machines → Prop, P i s.machines →
        (∀ j ms r ok, i ≤ j → j < i + n → P j ms → s.db.get j = some r →
          P (j + 1) (ms.execute s.config.codec E.nowMillis ok none j r.acceptedValue).2) →
        P (i + n) machines := by
  induction n generalizing i s with
  | zero =>
    obtain rfl : s = t := by simpa [replayLog] using h
    refine ⟨s.machines, [], rfl, by simp, fun j r _ h1 h2 => ?_, fun P h0 _ => h0⟩
    omega
  | succ n ih =>
    unfold replayLog at h
    cases hget : s.db.get i with
    | none => simp [hget] at h
    | some r =>
      simp only [hget] at h
      generalize hq : s.machines.execute s.config.codec E.nowMillis (E.executeOk s.trace.length)
        none i r.acceptedValue = q at h
      obtain ⟨machines, l, ht, hl, hall, hind⟩ := ih h
      refine ⟨machines, l ++ [.replayed i r.acceptedValue q.1], ?_, ?_, ?_, ?_⟩
      · rw [ht]
        simp
      · intro e he
        rcases List.mem_append.mp he with he | he
        · obtain ⟨j, r', ok, rfl, hj, h1, h2⟩ := hl e he
          exact ⟨j, r', ok, rfl, hj, by omega, by omega⟩
        · rw [List.mem_singleton.mp he]
          exact ⟨i, r, _, rfl, hget, le_refl i, by omega⟩
      · intro j r' hr' h1 h2
        by_cases hj : j = i
        · subst hj
          obtain rfl : r = r' := Option.some.inj (hget.symm.trans hr')
          exact ⟨_, List.mem_append_right _ (List.mem_singleton_self _)⟩
        · obtain ⟨ok, hmem⟩ := hall j r' hr' (by omega) (by omega)
          exact ⟨ok, List.mem_append_left _ hmem⟩
      -- The first record carries the property on, and the rest is the induction's.
      · intro P h0 hstep
        have hfirst : P (i + 1) q.2 := by
          rw [← hq]
          exact hstep i s.machines r _ (le_refl i) (by omega) h0 hget
        have hrest := hind P hfirst fun j ms r' ok h1 h2 => hstep j ms r' ok (by omega) (by omega)
        rwa [Nat.add_right_comm] at hrest

/-- The value that the log holds for an instance. -/
def LogManager.loggedValue (db : DB) (i : ℕ) : PaxosValue := ((db.get i).getD {}).acceptedValue

/-- The calls of `Execute` along a replay of `n` instances from `i` on, oldest first, when the trace
has `k` entries before it. -/
def LogManager.replayEntries (E : Env) (codec : Codec) (db : DB) :
    ℕ → ℕ → ℕ → Machines → List Event
  | 0, _, _, _ => []
  | n + 1, i, k, ms =>
    let r := ms.execute codec E.nowMillis (E.executeOk k) none i (loggedValue db i)
    .replayed i (loggedValue db i) r.1 :: replayEntries E codec db n (i + 1) (k + 1) r.2

/-- Replaying finds all of the records and goes through these calls, whatever they return. -/
theorem LogManager.replayLog_trace {n i : ℕ} {s t : Node} (h : replayLog E n i s = some t) :
    (∀ j, i ≤ j → j < i + n → (s.db.get j).isSome) ∧
      t.trace = (replayEntries E s.config.codec s.db n i s.trace.length s.machines).reverse ++
        s.trace := by
  induction n generalizing i s with
  | zero =>
    obtain rfl : s = t := by simpa [replayLog] using h
    exact ⟨fun j h1 h2 => by omega, rfl⟩
  | succ n ih =>
    unfold replayLog at h
    cases hget : s.db.get i with
    | none => simp [hget] at h
    | some r =>
      simp only [hget] at h
      obtain ⟨hlogged, htrace⟩ := ih h
      have hvalue : loggedValue s.db i = r.acceptedValue := by simp [loggedValue, hget]
      refine ⟨fun j h1 h2 => ?_, ?_⟩
      · rcases Nat.eq_or_lt_of_le h1 with rfl | h1
        · rw [hget]
          rfl
        · exact hlogged j h1 (by omega)
      · rw [htrace]
        simp only [replayEntries, List.reverse_cons, List.append_assoc, List.singleton_append,
          hvalue, List.length_cons]

/-- The acceptor starts at the newest instance of the log. -/
theorem Acceptor.getMaxInstanceId_of_readFromDB {a : Acceptor} (h : readFromDB db = some a) :
    db.getMaxInstanceId.getD 0 = a.instanceId := by
  unfold readFromDB at h
  cases hmax : db.getMaxInstanceId with
  | none =>
    rw [hmax] at h
    cases h
    rfl
  | some m =>
    cases hget : db.get m with
    | none => simp [hmax, hget] at h
    | some r =>
      simp only [hmax, hget, Option.some.injEq] at h
      rw [← h]
      rfl

/-- The state of a node right after recovery from a disk. -/
structure Node.Recovered (E : Env) (config : Config) (db : DB) (dirs : List (ℕ × Machines))
    (trace : List Event) (a : Acceptor) (x : Node) : Prop where
  config_eq : x.config = config
  db_eq : x.db = db
  checkpoints : x.checkpoints = dirs.filter fun d => d.1 ∉
    (cleanCheckpoint config.keepCheckpointCount (dirs.map Prod.fst)).deleted
  /-- The acceptor read what the newest record holds. -/
  read : Acceptor.readFromDB db = some a
  instanceId : x.instanceId = max ((MachineManager.recover E config dirs).1 + 1) a.instanceId
  acceptor : x.acceptor = a.setInstanceId x.instanceId
  learner : x.learner = { instanceId := x.instanceId }
  proposer : x.proposer =
    { instanceId := x.instanceId, proposalId := a.promisedBallot.proposalId + 1 }
  isProposing : x.isProposing = false
  context : x.context = none
  groupNow : x.groupNow = 0
  nextTimer : x.nextTimer = 1
  timers : x.timers = []
  learnTasks : x.learnTasks = []
  minChosenId : x.minChosenId = db.minChosen.getD 0
  cleanedTo : x.cleanedTo = none
  maxChosenId : x.maxChosenId = x.instanceId
  oldestCheckpointId : x.oldestCheckpointId =
    (cleanCheckpoint config.keepCheckpointCount (dirs.map Prod.fst)).oldest
  /-- The machines are those of the checkpoint after the replay. -/
  machines : ∀ P : ℕ → Machines → Prop,
    P ((MachineManager.recover E config dirs).1 + 1) (MachineManager.recover E config dirs).2 →
    (∀ j ms r ok, (MachineManager.recover E config dirs).1 < j → j < a.instanceId → P j ms →
      db.get j = some r →
      P (j + 1) (ms.execute config.codec E.nowMillis ok none j r.acceptedValue).2) →
    P x.instanceId x.machines
  /-- The replay reads the records between the checkpoint and the newest one. -/
  trace_eq : ∃ l, x.trace = .recovered x.instanceId x.machines.membership :: (l ++ trace) ∧
    ∀ e ∈ l, ∃ j r ok, e = .replayed j r.acceptedValue ok ∧ db.get j = some r ∧
      j < a.instanceId
  /-- Each of them has its entry. -/
  replays : ∀ j r, db.get j = some r → (MachineManager.recover E config dirs).1 < j →
    j < a.instanceId → ∃ ok, .replayed j r.acceptedValue ok ∈ x.trace

/-- A new process on the disk of `x`, with the checkpoints `dirs`, is `y`. -/
abbrev Node.Restarts (x : Node) (E : Env) (dirs : List (ℕ × Machines)) (a : Acceptor) (y : Node) :
    Prop :=
  Node.Recovered E x.config x.db dirs x.trace a y

/-- A recovery that succeeds leaves a node as `Node.Recovered` describes it. -/
theorem Node.recover_spec {config : Config} {trace : List Event} {x : Node}
    (h : Node.recover E config db dirs trace = some x) :
    ∃ a, Node.Recovered E config db dirs trace a x := by
  unfold Node.recover at h
  simp only [Option.bind_eq_some_iff, Option.map_eq_some_iff] at h
  obtain ⟨a, ha, t, ht, rfl⟩ := h
  obtain ⟨machines, l, rfl, hl, hall, hind⟩ := LogManager.replayLog_spec ht
  refine ⟨a, ⟨rfl, rfl, rfl, ha, rfl, rfl, rfl, rfl, rfl, rfl, rfl, rfl, rfl, rfl, rfl, rfl, rfl,
    rfl, ?_, ?_, ?_⟩⟩
  · intro P h0 hstep
    have hend := hind P h0 fun j ms r ok h1 h2 => hstep j ms r ok (by omega) (by omega)
    -- The replay ends at the instance of the newest record, or does not start.
    have hlast : (MachineManager.recover E config dirs).1 + 1 +
        (a.instanceId - ((MachineManager.recover E config dirs).1 + 1)) =
          max ((MachineManager.recover E config dirs).1 + 1) a.instanceId := by
      omega
    rwa [hlast] at hend
  · refine ⟨l, rfl, ?_⟩
    intro e he
    obtain ⟨j, r, ok, rfl, hj, h1, h2⟩ := hl e he
    exact ⟨j, r, ok, rfl, hj, by omega⟩
  · intro j r hr h1 h2
    obtain ⟨ok, hmem⟩ := hall j r hr h1 (by omega)
    exact ⟨ok, List.mem_cons_of_mem _ (List.mem_append_left _ hmem)⟩

/-- A recovered node is well formed. -/
theorem Node.Recovered.wf {config : Config} {trace : List Event} {a : Acceptor} {x : Node}
    (h : Node.Recovered E config db dirs trace a x) : x.WF where
  acceptorId := by
    rw [h.acceptor]
    unfold Acceptor.setInstanceId
    split_ifs with hne
    · rfl
    · simpa using hne
  learnerId := by rw [h.learner]
  proposerId := by rw [h.proposer]
  phase hp := by rw [h.proposer]
  proposalId := by rw [h.proposer]; exact Nat.le_add_left 1 _
  learnTasks t ht := by rw [h.learnTasks] at ht; cases ht

theorem Node.wf_fresh (config : Config) : (Node.fresh config).WF where
  acceptorId := rfl
  learnerId := rfl
  proposerId := rfl
  phase _ := rfl
  proposalId := le_refl 1
  learnTasks t ht := by cases ht

end Skywalker
