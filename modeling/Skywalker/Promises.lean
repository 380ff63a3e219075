import Skywalker.Votes
import Mathlib.Data.List.Pairwise

/-!
# A promise binds all later instances

`Acceptor::SetInstanceId` resets what the acceptor accepted and keeps what it promised. A promise
that is given in one instance therefore binds the acceptor in every instance that it goes on to,
which is what a proposer that skips `Prepare` relies on.

`Binds` compares two entries of one process's trace, the newer with the older, and `Node.Bound`
keeps it along every run: a new entry has the instance and the promise that the acceptor has then,
and both only rise.
-/

namespace Skywalker

open TransitionSystem

/-! ## Accepted ballots are promised -/

/-- Accepted ballots are promised throughout the life of a node. -/
theorem Node.Ordered.lifeStep {x y : Node} {a : Env × LifeEvent} (h : x.WF ∧ x.Ordered)
    (hstep : x.lifeStep a = some y) : y.WF ∧ y.Ordered := by
  obtain ⟨E, ev⟩ := a
  cases ev with
  | restart =>
    obtain ⟨a, hrec⟩ := Node.recover_spec hstep
    exact ⟨hrec.wf, h.2.recover hrec⟩
  | event ev =>
    have hchain := Node.step_chain h.1 (Rules.allows_default E x ev) hstep
    refine invariant_of_actions (P := fun z => z.WF ∧ z.Ordered) ?_ hchain h
    exact fun u v hu hact => ⟨hact.wf hu.1, hu.2.act (hact.storeChange hu.1)⟩

/-! ## The entries of one process -/

/-- What a newer entry of the trace owes to an older one: an `ACCEPT` is not taken below a promise
of the same or an earlier instance, and a promise is not given behind an accepted instance. -/
def Binds : Event → Event → Prop
  | .accepted i c _, .promised j b => j ≤ i ∧ b ≤ c
  | .promised j _, .accepted i _ _ => i ≤ j
  | _, _ => True

/-- The entries `l` of a process are bound by their promises, and by the acceptor that it has
now. -/
structure Node.Bound (x : Node) (l : List Event) : Prop where
  binds : l.Pairwise Binds
  promised : ∀ j b, .promised j b ∈ l → j ≤ x.instanceId ∧ b ≤ x.acceptor.promisedBallot
  accepted : ∀ i c v, .accepted i c v ∈ l → i ≤ x.instanceId

namespace Node.Bound

variable {R : Rules} {E : Env} {net : PaxosMessage → Prop} {x y : Node}

/-- An entry that an action appends is bound by the entries before it. -/
theorem binds_old {l : List Event} (h : x.Bound l) (hw : x.WF) (hw' : y.WF) {e d : Event}
    (hnew : NewEvent R E net x y e) (hd : d ∈ l) : Binds e d := by
  cases e with
  | accepted i c v =>
    obtain ⟨rfl, -, -, -, hle⟩ := hnew.vote_cases hw hw'
    cases d with
    | promised j b =>
      obtain ⟨hj, hb⟩ := h.promised j b hd
      exact ⟨hj, hb.trans hle⟩
    | _ => trivial
  | promised j b =>
    obtain ⟨rfl, -⟩ := hnew.promise_cases hw
    cases d with
    | accepted i c v => exact h.accepted i c v hd
    | _ => trivial
  | _ => trivial

/-- Two entries of one action have the same instance and the same promise. -/
theorem binds_new (hw : x.WF) (hw' : y.WF) {e d : Event} (he : NewEvent R E net x y e)
    (hd : NewEvent R E net x y d) : Binds e d := by
  cases e with
  | accepted i c v =>
    obtain ⟨rfl, -, hc, -⟩ := he.vote_cases hw hw'
    cases d with
    | promised j b =>
      obtain ⟨rfl, hb, -⟩ := hd.promise_cases hw
      exact ⟨le_refl _, (hb.trans hc.symm).le⟩
    | _ => trivial
  | promised j b =>
    obtain ⟨rfl, -⟩ := he.promise_cases hw
    cases d with
    | accepted i c v => exact (hd.vote_cases hw hw').1.le
    | _ => trivial
  | _ => trivial

/-- **Every action keeps the entries bound.** -/
theorem act {l : List Event} {x₀ : Node} (h : x.Bound l) (hw : x.WF) (hact : Act R E net x y)
    (htrace : x.trace = l ++ x₀.trace) : ∃ l', y.trace = l' ++ x₀.trace ∧ y.Bound l' := by
  obtain ⟨new, hnew, hwhy⟩ := hact.newEvents hw
  have hw' := hact.wf hw
  obtain ⟨hprom, hid⟩ := (hact.storeChange hw).mono
  refine ⟨new ++ l, by rw [hnew, htrace, List.append_assoc], ?_, ?_, ?_⟩
  · refine List.pairwise_append.mpr ⟨?_, h.binds, ?_⟩
    · exact List.pairwise_of_forall_mem_list fun e he d hd =>
        binds_new hw hw' (hwhy e he) (hwhy d hd)
    · exact fun e he d hd => h.binds_old hw hw' (hwhy e he) hd
  · intro j b he
    rcases List.mem_append.mp he with he | he
    · obtain ⟨rfl, rfl, -⟩ := (hwhy _ he).promise_cases hw
      exact ⟨hid, le_refl _⟩
    · obtain ⟨hj, hb⟩ := h.promised j b he
      exact ⟨hj.trans hid, hb.trans hprom⟩
  · intro i c v he
    rcases List.mem_append.mp he with he | he
    · obtain ⟨rfl, -⟩ := (hwhy _ he).vote_cases hw hw'
      exact hid
    · exact (h.accepted i c v he).trans hid

end Node.Bound

/-- **A promise binds all later instances.** In every run of a process, with any messages, timers,
proposals and results of `Put` and `Execute`, the promise does not fall and nothing is accepted
above it. Where the acceptor promised `b` in instance `j`, it had accepted nothing in a later
instance, and accepts nothing below `b` in `j` or in a later instance from then on. The process may
have had others before it. -/
theorem promise_binds_later_instances {config : Config} {x y : Node}
    (hlife : Reaches Node.lifeStep (fun _ _ => True) (Node.fresh config) x)
    (hrun : Reaches Node.stepIn (fun _ _ => True) x y) :
    x.acceptor.promisedBallot ≤ y.acceptor.promisedBallot ∧
    y.acceptor.acceptedBallot ≤ y.acceptor.promisedBallot ∧
    ∃ l, y.trace = l ++ x.trace ∧ ∀ newer older j b, l = newer ++ .promised j b :: older →
      (∀ i c v, .accepted i c v ∈ older → i ≤ j) ∧
      (∀ i c v, .accepted i c v ∈ newer → j ≤ i ∧ b ≤ c) := by
  have hstart : x.WF ∧ x.Ordered := by
    refine hlife.invariant (P := fun z => z.WF ∧ z.Ordered) ?_ ?_
    · exact ⟨Node.wf_fresh config, le_refl _, fun i r hr => by cases hr⟩
    · exact fun s t a hs _ hstep => Node.Ordered.lifeStep hs hstep
  have hinv : y.WF ∧ y.Ordered ∧ x.acceptor.promisedBallot ≤ y.acceptor.promisedBallot ∧
      ∃ l, y.trace = l ++ x.trace ∧ y.Bound l := by
    refine hrun.invariant (P := fun z => z.WF ∧ z.Ordered ∧
      x.acceptor.promisedBallot ≤ z.acceptor.promisedBallot ∧
      ∃ l, z.trace = l ++ x.trace ∧ z.Bound l) ?_ ?_
    · refine ⟨hstart.1, hstart.2, le_refl _, [], rfl, List.Pairwise.nil, ?_, ?_⟩
      · exact fun j b he => by cases he
      · exact fun i c v he => by cases he
    · intro s t ⟨E, ev⟩ hs _ hstep
      have hchain := Node.step_chain hs.1 (Rules.allows_default E s ev) hstep
      refine invariant_of_actions (P := fun z => z.WF ∧ z.Ordered ∧
        x.acceptor.promisedBallot ≤ z.acceptor.promisedBallot ∧
        ∃ l, z.trace = l ++ x.trace ∧ z.Bound l) ?_ hchain hs
      rintro u v ⟨hw, hord, hprom, l, htrace, hbound⟩ hact
      have hchange := hact.storeChange hw
      exact ⟨hact.wf hw, hord.act hchange, hprom.trans hchange.mono.1,
        hbound.act hw hact htrace⟩
  obtain ⟨-, hord, hprom, l, htrace, hbound⟩ := hinv
  refine ⟨hprom, hord.acceptor, l, htrace, ?_⟩
  rintro newer older j b rfl
  obtain ⟨-, hrest, hcross⟩ := List.pairwise_append.mp hbound.binds
  refine ⟨fun i c v he => ?_, fun i c v he => ?_⟩
  · exact (List.pairwise_cons.mp hrest).1 _ he
  · exact hcross _ he _ List.mem_cons_self

/-- Node 1 promises `(2, 3)` in the first instance, learns its value from node 2, and takes an
`ACCEPT` of `(3, 2)` in the second. -/
def promiseCarried : List (Env × NodeEvent) :=
  [({}, .paxosMessage { type := .prepare, nodeId := 3, instanceId := 1, proposalId := 2 }),
   ({}, .paxosMessage { type := .sendLearnedValue, nodeId := 2, instanceId := 1, proposalId := 1,
                        value := { valueId := 256, machineId := 7 } }),
   ({}, .paxosMessage { type := .accept, nodeId := 3, instanceId := 2, proposalId := 1,
                        value := { valueId := 257, machineId := 7 } }),
   ({}, .paxosMessage { type := .accept, nodeId := 2, instanceId := 2, proposalId := 3,
                        value := { valueId := 258, machineId := 7 } })]

/-- The `ACCEPT` of `(1, 3)` in the second instance is below the promise and is not taken, that of
`(3, 2)` is. -/
theorem promise_binds_later_instances_trio : ∃ y newer older v,
    run Node.stepIn (Node.fresh trioMember) promiseCarried = some y ∧
    y.acceptor.acceptedBallot ≤ y.acceptor.promisedBallot ∧
    y.trace = newer ++ .promised 1 ⟨2, 3⟩ :: older ∧ .accepted 2 ⟨3, 2⟩ v ∈ y.trace ∧
    ∀ i c w, .accepted i c w ∈ newer → 1 ≤ i ∧ ⟨2, 3⟩ ≤ c := by
  have hend : (run Node.stepIn (Node.fresh trioMember) promiseCarried).map (fun y =>
      (decide (Event.promised 1 ⟨2, 3⟩ ∈ y.trace),
        decide (Event.accepted 2 ⟨3, 2⟩ { valueId := 258, machineId := 7 } ∈ y.trace))) =
        some (true, true) := by
    decide
  obtain ⟨y, hy, hfields⟩ := Option.map_eq_some_iff.mp hend
  simp only [Prod.mk.injEq, decide_eq_true_eq] at hfields
  obtain ⟨hprom, hacc⟩ := hfields
  have hrun : Reaches Node.stepIn (fun _ _ => True) (Node.fresh trioMember) y :=
    Reaches.of_run promiseCarried (fun _ _ _ => trivial) hy
  obtain ⟨-, hord, l, htrace, hbind⟩ := promise_binds_later_instances .refl hrun
  -- The entry of the first process's start is not a promise.
  have hnew : .promised 1 ⟨2, 3⟩ ∈ l := by
    rw [htrace] at hprom
    rcases List.mem_append.mp hprom with hin | hin
    · exact hin
    · cases List.mem_singleton.mp hin
  obtain ⟨newer, older, rfl⟩ := List.append_of_mem hnew
  refine ⟨y, newer, older ++ (Node.fresh trioMember).trace, _, hy, hord, ?_, hacc, ?_⟩
  · rw [htrace, List.append_assoc, List.cons_append]
  · exact (hbind newer older 1 ⟨2, 3⟩ rfl).2

end Skywalker
