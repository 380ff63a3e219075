import Skywalker.Agreement

/-!
# What a node serves

A node serves the records below its instance to nodes that are behind. A checkpoint of another node
moves a node over instances that it never finished, and a failed `Execute` leaves a learned value in
a record that the acceptor may still write to. The conditions exclude the steps in which one of the
two leaves a value in the log that is not the chosen one.
-/

namespace Skywalker

open Voting TransitionSystem

/-- The instance at which a new process of a node starts, from what its acceptor reads and the
checkpoints on disk. -/
def Node.startId (x : Node) (a : Acceptor) (dirs : List (ℕ × Machines)) : ℕ :=
  max ((cleanCheckpoint x.config.keepCheckpointCount
    (dirs.map Prod.fst)).checkpoints.getLastD 0 + 1)
    a.instanceId

/-- A recovered process is at that instance. -/
theorem Node.Recovered.instanceId_eq {E : Env} {x y : Node} {dirs : List (ℕ × Machines)}
    {a : Acceptor} (h : x.Restarts E dirs a y) : y.instanceId = x.startId a dirs := by
  have hlatest : (MachineManager.recover E x.config dirs).1 =
      (cleanCheckpoint x.config.keepCheckpointCount
        (dirs.map Prod.fst)).checkpoints.getLastD 0 := by
    unfold MachineManager.recover
    dsimp only
    split_ifs
    · rfl
    · split <;> rfl
  rw [h.instanceId, hlatest]
  rfl

/-- The condition on a recovery: proposal ids are new, the promise is on disk, the node goes back by
one instance at most, to one that it has a record of, and the record of an instance that it jumps
over has a value that some node executed there. -/
structure Sys.LoadsSoundly (s : Sys) (n : ℕ) (dirs : List (ℕ × Machines)) : Prop where
  fresh : (s n).startsFresh = true
  promise : (s n).promiseStored = true
  back : ∀ a, Acceptor.readFromDB (s n).db = some a →
    (s n).instanceId ≤ (s n).startId a dirs ∨
      ((s n).instanceId = (s n).startId a dirs + 1 ∧
        ∃ r, (s n).db.get ((s n).startId a dirs) = some r)
  jump : ∀ a r, Acceptor.readFromDB (s n).db = some a → (s n).instanceId < (s n).startId a dirs →
    (s n).db.get (s n).instanceId = some r →
    ∃ k, (s k).executes (s n).instanceId r.acceptedValue = true

/-- A recovery that meets the condition is sound. -/
theorem Sys.LoadsSoundly.recoversSoundly {M : Finset ℕ} {s : Sys} {n : ℕ}
    {dirs : List (ℕ × Machines)} (h : s.LoadsSoundly n dirs) (hcons : Consensus M s) :
    s.RecoversSoundly M n dirs where
  fresh := .of_check h.fresh
  promise a ha := by
    have hprom := h.promise
    unfold Node.promiseStored at hprom
    rw [ha, Option.all_some, decide_eq_true_eq] at hprom
    exact hprom
  back E a y hrec := by
    rw [hrec.instanceId_eq]
    exact h.back a hrec.read
  jump E a y hrec hlt r hr := by
    rw [hrec.instanceId_eq] at hlt
    obtain ⟨k, hk⟩ := h.jump a r hrec.read hlt hr
    exact (hcons.learned k).of_executes hk

/-- The condition on a step. -/
def ServesAt (s : Sys) (a : Env × Label) : Prop :=
  match a.2 with
  | .node n ev => (s n).agrees a.1 ev = true
  | .restart n => s.LoadsSoundly n (s n).checkpoints
  | .install n source c => ∀ saved, (s source).checkpoints.lookup c = some saved →
      s.LoadsSoundly n ((c, saved) :: (s n).checkpoints)

/-- **A node only serves chosen values.** In every run of a group with the members `M` whose steps
meet the conditions, with failing executions, checkpoints of other nodes and restarts: the record of
an instance below that of the node has a value that a majority of the members accepted under one
ballot, no node executed another value there, and so it is with every value that a node sends as
learned. -/
theorem serves_decided {C : Setup} {M : Finset ℕ} {s : Sys}
    (hC : ∀ n, (Membership.ofOptions (C.config n).membership).ids.toFinset = M)
    (hrun : Reaches System.step (fun s a => (∀ k, a.1.putOk k = true) ∧ ServesAt s a)
      (System.init C) s) (n : ℕ) :
    (∀ i r, i < (s n).instanceId → (s n).db.get i = some r →
      s.Decided M i r.acceptedValue ∧
      ∀ k v, (s k).executes i v = true → v = r.acceptedValue) ∧
    ∀ d m, .send d m ∈ (s n).trace → m.type = .sendLearnedValue →
      s.Decided M m.instanceId m.value ∧
      ∀ k v, (s k).executes m.instanceId v = true → v = m.value := by
  have hP := Policy.agreement_keepsAgreement M True
  have hcons : Consensus M s := by
    refine (Policy.invariant (P := Policy.agreement M True) (I := Consensus M) hrun (.init hC)
      ?_ ?_ ?_).2
    · rintro s ⟨E, l⟩ hw hcons ⟨hput, hok⟩
      cases l with
      | node n ev => exact Policy.agreement_permits hw hcons.rounds.traced hput hok fun _ => trivial
      | restart n => exact ⟨hput, hok.recoversSoundly hcons⟩
      | install n source c =>
        exact ⟨hput, fun saved hsaved => (hok saved hsaved).recoversSoundly hcons⟩
    · exact fun s t hw hcons hst => hcons.micro hw hP hst
    · exact fun s n E dirs a y hw hcons _ hwhy hrec => hcons.recover hw hP hC hwhy hrec
  -- Whatever is decided is the only value that is executed.
  have honly : ∀ {i v}, s.Decided M i v →
      s.Decided M i v ∧ ∀ k w, (s k).executes i w = true → w = v :=
    fun hv => ⟨hv, fun k w hw => hcons.eq_of_decided ((hcons.learned k).of_executes hw) hv⟩
  constructor
  · exact fun i r hi hr => honly ((hcons.learned n).records i r hi hr)
  · exact fun d m hd htype => honly ((hcons.learned n).trace _ hd htype)

/-- The first value of node 1 is chosen, node 1 makes a checkpoint, and it serves the value to node
2. -/
def firstServed : List (Env × Label) := firstChosen ++
  ([({}, .node 1 .finishCheckpoint),
    ({}, .node 2 (.syncData false)),
    ({}, .node 1 (.paxosMessage { type := .askForLearn, nodeId := 2, instanceId := 1 }))] :
    List (Env × Label))

/-- The message with the served value. -/
def servedMessage : PaxosMessage :=
  { type := .sendLearnedValue, nodeId := 1, instanceId := 1, proposalId := 1, proposalNodeId := 1,
    value := firstValue }

/-- Node 3, which has heard nothing, installs the checkpoint of node 1. The record that node 1 has
of the first instance, and what it sent to node 2, is decided. -/
theorem serves_decided_trio : ∃ s r,
    Reaches System.step (fun s a => (∀ k, a.1.putOk k = true) ∧ ServesAt s a)
      (System.init (.uniform trioMember)) s ∧
    (s 3).instanceId = 2 ∧ 1 < (s 1).instanceId ∧ (s 1).db.get 1 = some r ∧
    .send 2 servedMessage ∈ (s 1).trace ∧ s.Decided {1, 2, 3} 1 r.acceptedValue ∧
    s.Decided {1, 2, 3} servedMessage.instanceId servedMessage.value := by
  have hend : ((runChecked System.step CrashFreeAt (System.init (.uniform trioMember))
      firstServed).bind fun s => (System.step s ({}, .install 3 1 1)).map fun t =>
        ([(s 3).startsFresh, (s 3).promiseStored, ((t 1).db.get 1).isSome,
          decide (Event.send 2 servedMessage ∈ (t 1).trace)],
          [(s 3).instanceId, (t 3).instanceId, (t 1).instanceId], (s 3).db.get 1)) =
      some ([true, true, true, true], [1, 2, 2], none) := by
    decide +kernel
  obtain ⟨s, hs, hrest⟩ := Option.bind_eq_some_iff.mp hend
  obtain ⟨t, ht, hfields⟩ := Option.map_eq_some_iff.mp hrest
  simp only [Prod.mk.injEq, List.cons.injEq, and_true] at hfields
  obtain ⟨⟨hfresh, hprom, hsome, hsent⟩, ⟨hid, hthree, hone⟩, hnone⟩ := hfields
  have hfirst : Reaches System.step (fun s a => (∀ k, a.1.putOk k = true) ∧ ServesAt s a)
      (System.init (.uniform trioMember)) s := by
    refine Reaches.of_runChecked firstServed (fun a ha u h => ?_) hs
    refine ⟨putOk_of_default (n := 8) rfl a ha, ?_⟩
    obtain ⟨E, l⟩ := a
    cases l with
    | node n ev => exact h
    | restart n | install n source c => cases h
  -- Node 3 has no record that the checkpoint could jump over.
  have hload : ServesAt s ({}, .install 3 1 1) := by
    intro saved _
    refine ⟨hfresh, hprom, fun a _ => Or.inl ?_, fun a r _ _ hr => ?_⟩
    · rw [hid]
      exact le_trans (Nat.le_add_left 1 _) (le_max_left _ _)
    · rw [hid, hnone] at hr
      cases hr
  have hrun := hfirst.tail ({}, .install 3 1 1) ⟨fun k => rfl, hload⟩ ht
  obtain ⟨r, hr⟩ := Option.isSome_iff_exists.mp hsome
  obtain ⟨hrecords, hsends⟩ := serves_decided trio_members hrun 1
  exact ⟨t, r, hrun, hthree, by omega, hr, of_decide_eq_true hsent,
    (hrecords 1 r (by omega) hr).1, (hsends 2 servedMessage (of_decide_eq_true hsent) rfl).1⟩

/-- The environment in which `Execute` fails. -/
def executeFails : Env := { executeOk := fun _ => false }

/-- Node 3 learns the chosen value from node 1, and its `Execute` fails. Then the `PREPARE` of node
1, which was late, reaches node 3: the acceptor writes its own, empty, value over the record, and
the learned value is executed. Node 2 asks node 3 for the value. -/
def recordRewritten : List (Env × Label) := firstChosen ++
  ([({}, .node 3 (.syncData false)),
    ({}, .node 1 (.paxosMessage { type := .askForLearn, nodeId := 3, instanceId := 1 })),
    (executeFails, .node 3 (.paxosMessage servedMessage)),
    ({}, .node 3 (.paxosMessage
      { type := .prepare, nodeId := 1, instanceId := 1, proposalId := 1 })),
    ({}, .node 2 (.syncData false)),
    ({}, .node 3 (.paxosMessage { type := .askForLearn, nodeId := 2, instanceId := 1 }))] :
    List (Env × Label))

/-- Node 3 executed the first value, and both its record and what it serves to node 2 have
another. -/
theorem record_rewritten_served : ∃ s r m,
    run System.step (System.init (.uniform trioMember)) recordRewritten = some s ∧
    1 < (s 3).instanceId ∧ (s 3).db.get 1 = some r ∧ (s 3).executes 1 firstValue = true ∧
    r.acceptedValue ≠ firstValue ∧ .send 2 m ∈ (s 3).trace ∧ m.type = .sendLearnedValue ∧
    m.instanceId = 1 ∧ m.value ≠ firstValue := by
  have hend : (run System.step (System.init (.uniform trioMember)) recordRewritten).map
      (fun s => ((s 3).instanceId, (s 3).db.get 1, (s 3).executes 1 firstValue,
        decide (Event.send 2 { type := .sendLearnedValue, nodeId := 3, instanceId := 1 } ∈
          (s 3).trace))) =
        some (2, some { instanceId := 1, promised := ⟨1, 1⟩ }, true, true) := by
    decide +kernel
  obtain ⟨s, hs, hfields⟩ := Option.map_eq_some_iff.mp hend
  simp only [Prod.mk.injEq] at hfields
  obtain ⟨hid, hr, hexec, hsent⟩ := hfields
  exact ⟨s, _, _, hs, by omega, hr, hexec, by decide, of_decide_eq_true hsent, rfl, rfl, by decide⟩

end Skywalker
