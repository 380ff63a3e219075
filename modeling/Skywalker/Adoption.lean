import Skywalker.Durable
import Skywalker.Library.Highest
import Skywalker.Turns

/-!
# Adopting the highest accepted value

A promise reports the ballot and the value that its acceptor has accepted, and `OnPrepareReply`
keeps the value of the highest ballot that was reported since `Prepare`. The promises come in any
order and may come twice; the node's own one is handed over from inside `Prepare`. What the round
passes with is the highest entry among those of the replies that do not reject, after the value
that `Prepare` found.
-/

namespace Skywalker

open TransitionSystem Highest

/-! ## Rounds of a run -/

/-- The `PREPARE_REPLY`s that were handled since the last `PREPARE`, newest first. -/
def roundOf : List Turn → List PaxosMessage
  | [] => []
  | t :: h => promisesIn t ++ if (preparesIn t).isEmpty then roundOf h else []

/-- The value that the proposer held when it prepared last. -/
def startValueOf : List Turn → PaxosValue
  | [] => {}
  | t :: h => if (preparesIn t).isEmpty then startValueOf h else startValueIn t

/-- A run of a process whose last turn finds the round passed and broadcasts the `ACCEPT` `acc`. A
new process has no round open. -/
inductive Passes : List Turn → PaxosMessage → Prop where
  | mk {x₀ x y : Node} {a : Env × NodeEvent} {h : List Turn} {i q : ℕ} {acc : PaxosMessage}
      {dests : List ℕ} (hx₀ : x₀.proposer.preparing = false)
      (hrun : Reaches (record Node.stepIn) (fun _ _ => True) (x₀, []) (x, h))
      (hstep : x.stepIn a = some y) (hpass : .preparePassed i q ∈ x.added y)
      (hacc : .broadcast acc dests ∈ x.added y) (htype : acc.type = .accept) :
      Passes (⟨x, a, y⟩ :: h) acc

/-- Replies that report the same ballot report the same value. -/
def Agree (l : List PaxosMessage) : Prop :=
  ∀ m ∈ l, ∀ m' ∈ l, m.rejectedId = 0 → m'.rejectedId = 0 → m.preAccepted = m'.preAccepted →
    m.value = m'.value

/-! ## The value of a round -/

/-- What the replies report that do not reject. -/
def reports (l : List PaxosMessage) : List (BallotNumber × PaxosValue) :=
  (l.filter fun m => m.rejectedId = 0).map fun m => (m.preAccepted, m.value)

theorem mem_reports {l : List PaxosMessage} {e : BallotNumber × PaxosValue} :
    e ∈ reports l ↔ ∃ m ∈ l, m.rejectedId = 0 ∧ (m.preAccepted, m.value) = e := by
  simp [reports, and_assoc]

/-- Counting keeps the highest entry. -/
theorem Proposer.countAll_eq (p : Proposer) (l : List PaxosMessage) :
    ((p.countAll l).maxBallot, (p.countAll l).value) =
      highest (p.maxBallot, p.value) (reports l) := by
  induction l with
  | nil => rfl
  | cons m l ih =>
    have hcons : p.countAll (m :: l) = (p.countAll l).countPrepareReply m := rfl
    rw [hcons, Proposer.countPrepareReply]
    dsimp only
    by_cases hrej : m.rejectedId = 0
    · have hrep : reports (m :: l) = (m.preAccepted, m.value) :: reports l := by
        simp [reports, hrej]
      have hstep : highest (p.maxBallot, p.value) (reports (m :: l)) =
          raise ((p.countAll l).maxBallot, (p.countAll l).value) (m.preAccepted, m.value) := by
        rw [hrep, ih]
        rfl
      rw [hstep, raise]
      by_cases hlt : (p.countAll l).maxBallot < m.preAccepted
      · rw [if_pos ⟨hrej, hlt⟩, if_pos hlt]
      · rw [if_neg fun h => hlt h.2, if_neg hlt]
    · have hrep : reports (m :: l) = reports l := by simp [reports, hrej]
      rw [hrep, ← ih, if_neg fun h => hrej h.1]

/-- The entry of an open round. -/
def Proposer.Adopts (p : Proposer) (h : List Turn) : Prop :=
  p.preparing = true → (p.maxBallot, p.value) = highest ({}, startValueOf h) (reports (roundOf h))

/-- What the replies of a turn add to the entry of the round. -/
theorem highest_of_turn {t : Turn} {h : List Turn} (hold : t.before.proposer.Adopts h)
    {p : Proposer} (hp : p = t.before.proposer ∧ preparesIn t = [] ∨
      Opens t.before.proposer (startValueIn t) p ∧ preparesIn t ≠ []) (hprep : p.preparing = true) :
    ((p.countAll (promisesIn t)).maxBallot, (p.countAll (promisesIn t)).value) =
      highest ({}, startValueOf (t :: h)) (reports (roundOf (t :: h))) := by
  rw [Proposer.countAll_eq]
  obtain ⟨rfl, hnone⟩ | ⟨hopens, hsome⟩ := hp
  · have happend : reports (roundOf (t :: h)) = reports (promisesIn t) ++ reports (roundOf h) := by
      simp [roundOf, hnone, reports]
    have hstart : startValueOf (t :: h) = startValueOf h := by simp [startValueOf, hnone]
    rw [happend, hstart, highest_append, hold hprep]
  · have hround : roundOf (t :: h) = promisesIn t := by simp [roundOf, hsome]
    have hstart : startValueOf (t :: h) = startValueIn t := by simp [startValueOf, hsome]
    rw [hround, hstart, hopens.maxBallot, hopens.value]

/-- **One turn.** The entry of the round is kept, and an `ACCEPT` after a pass has its value. -/
theorem Proposer.Adopts.step {x y : Node} {a : Env × NodeEvent} {h : List Turn}
    (hold : x.proposer.Adopts h) (hstep : x.stepIn a = some y) :
    y.proposer.Adopts (⟨x, a, y⟩ :: h) ∧
      ∀ i q, .preparePassed i q ∈ x.added y → ∀ acc dests, .broadcast acc dests ∈ x.added y →
        acc.type = .accept → ∃ n i p, acc =
          { type := .accept, nodeId := n, instanceId := i, proposalId := p
            value := (highest ({}, startValueOf (⟨x, a, y⟩ :: h))
              (reports (roundOf (⟨x, a, y⟩ :: h)))).2 } := by
  obtain ⟨p, hp, htook⟩ : ∃ p, (p = x.proposer ∧ preparesIn ⟨x, a, y⟩ = [] ∨
      Opens x.proposer (startValueIn ⟨x, a, y⟩) p ∧ preparesIn ⟨x, a, y⟩ ≠ []) ∧
      Took p ⟨x, a, y⟩ := by
    cases turn_cases hstep with
    | kept htook hsent => exact ⟨x.proposer, .inl ⟨rfl, hsent⟩, htook⟩
    | opened p hopens htook hsent =>
      refine ⟨p, .inr ⟨hopens, ?_⟩, htook⟩
      rw [hsent]
      exact List.cons_ne_nil _ _
  constructor
  · intro hprep
    obtain ⟨hopen, hmax, hval⟩ := htook.preparing hprep
    rw [hmax, hval]
    exact highest_of_turn (t := ⟨x, a, y⟩) hold hp hopen
  · intro i q hpass acc dests hacc htype
    obtain ⟨hopen, hmsg⟩ := htook.passed i q hpass
    have hentry := highest_of_turn (t := ⟨x, a, y⟩) hold hp hopen
    rw [← hentry, hmsg acc dests hacc htype]
    exact ⟨_, _, _, rfl⟩

/-- The `ACCEPT` of a passed round has the value of the highest report. -/
theorem Passes.eq {h : List Turn} {acc : PaxosMessage} (hpass : Passes h acc) :
    ∃ n i p, acc = { type := .accept, nodeId := n, instanceId := i, proposalId := p
                     value := (highest ({}, startValueOf h) (reports (roundOf h))).2 } := by
  obtain ⟨hx₀, hrun, hstep, hpassed, hacc, htype⟩ := hpass
  have hold := hrun.invariant_record (P := fun x h => x.proposer.Adopts h)
    (fun hprep => absurd hprep (by simp [hx₀])) fun x y a h hold hstep => (hold.step hstep).1
  exact (hold.step hstep).2 _ _ hpassed _ _ hacc htype

/-- **The proposer adopts the highest accepted value.** When a round passes, its `ACCEPT` has the
value of the reply with the greatest reported ballot among those handled since `Prepare` that do
not reject, and the value that the proposer held then if none reports one. Two rounds with the same
replies in any orders, any number of times, send the same `ACCEPT` if they start with the same
value and are of the same node, instance and proposal id. -/
theorem adopts_highest {h : List Turn} {acc : PaxosMessage} (hpass : Passes h acc)
    (hagree : Agree (roundOf h)) :
    (∀ m ∈ roundOf h, m.rejectedId = 0 → {} < m.preAccepted →
      (∀ m' ∈ roundOf h, m'.rejectedId = 0 → m'.preAccepted ≤ m.preAccepted) →
      acc.value = m.value) ∧
    ((∀ m ∈ roundOf h, m.rejectedId = 0 → m.preAccepted = {}) → acc.value = startValueOf h) ∧
    ∀ h' acc', Passes h' acc' → (∀ m, m ∈ roundOf h' ↔ m ∈ roundOf h) →
      startValueOf h' = startValueOf h → acc'.nodeId = acc.nodeId →
      acc'.instanceId = acc.instanceId → acc'.proposalId = acc.proposalId → acc' = acc := by
  -- Entries with equal ballots are equal.
  have hequal : ∀ e ∈ reports (roundOf h), ∀ f ∈ reports (roundOf h), e.1 = f.1 → e = f := by
    intro e he f hf hkey
    obtain ⟨m, hm, hrej, rfl⟩ := mem_reports.mp he
    obtain ⟨m', hm', hrej', rfl⟩ := mem_reports.mp hf
    exact Prod.ext hkey (hagree m hm m' hm' hrej hrej' hkey)
  obtain ⟨n, i, p, hacc⟩ := hpass.eq
  have hvalue : acc.value = (highest ({}, startValueOf h) (reports (roundOf h))).2 := by rw [hacc]
  refine ⟨fun m hm hrej hlt hmax => ?_, fun hnone => ?_,
    fun h' acc' hpass' hmem hstart hn hi hp => ?_⟩
  · have hin : (m.preAccepted, m.value) ∈ reports (roundOf h) := mem_reports.mpr ⟨m, hm, hrej, rfl⟩
    rw [hvalue, highest_of_max hin hlt]
    · intro f hf
      obtain ⟨m', hm', hrej', rfl⟩ := mem_reports.mp hf
      exact hmax m' hm' hrej'
    · exact fun f hf hkey => hequal f hf _ hin hkey
  · rw [hvalue, highest_of_le]
    intro e he
    obtain ⟨m, hm, hrej, rfl⟩ := mem_reports.mp he
    exact (hnone m hm hrej).le
  · obtain ⟨n', i', p', hacc'⟩ := hpass'.eq
    have hset : ∀ e, e ∈ reports (roundOf h) ↔ e ∈ reports (roundOf h') := by
      intro e
      simp only [mem_reports, hmem]
    rw [hstart, ← highest_congr hset hequal] at hacc'
    subst hacc hacc'
    simp only at hn hi hp
    rw [hn, hi, hp]

/-- A promise of node 2, which has accepted a value. -/
def reportingPromise : PaxosMessage :=
  { type := .prepareReply, nodeId := 2, instanceId := 1, proposalId := 1, preAcceptedId := 1
    preAcceptedNodeId := 2, value := { valueId := 9 } }

/-- The promise of node 1 to itself. -/
def ownPromise : PaxosMessage :=
  { type := .prepareReply, nodeId := 1, instanceId := 1, proposalId := 1 }

/-- The `ACCEPT` with the reported value. -/
def adoptedAccept : PaxosMessage :=
  { type := .accept, nodeId := 1, instanceId := 1, proposalId := 1, value := { valueId := 9 } }

/-- Node 1 of a group of three proposes a value, and passes its round with the value of node 2. -/
theorem adopts_highest_trio : ∃ h, Passes h adoptedAccept ∧
    startValueOf h = { valueId := 257, machineId := 7, userData := [1] } ∧
    adoptedAccept.value = reportingPromise.value := by
  have hrun : ((run (record Node.stepIn) (Node.fresh trioMember, [])
      [({}, .propose 7 [1] none 256)]).bind fun s =>
        (s.1.stepIn ({}, .paxosMessage reportingPromise)).map fun y =>
          let h := ⟨s.1, ({}, .paxosMessage reportingPromise), y⟩ :: s.2
          (decide (.preparePassed 1 1 ∈ s.1.added y ∧
            .broadcast adoptedAccept [3, 2] ∈ s.1.added y), roundOf h, startValueOf h)) =
      some (true, [reportingPromise, ownPromise],
        { valueId := 257, machineId := 7, userData := [1] }) := by
    decide +kernel
  obtain ⟨⟨x, h⟩, hs, hrun⟩ := Option.bind_eq_some_iff.mp hrun
  obtain ⟨y, hy, hval⟩ := Option.map_eq_some_iff.mp hrun
  obtain ⟨hsent, hval⟩ := Prod.mk.inj hval
  obtain ⟨hround, hstart⟩ := Prod.mk.inj hval
  obtain ⟨hpassed, hacc⟩ := of_decide_eq_true hsent
  have hpass : Passes (⟨x, ({}, .paxosMessage reportingPromise), y⟩ :: h) adoptedAccept :=
    .mk rfl (Reaches.of_run _ (fun _ _ _ => trivial) hs) hy hpassed hacc rfl
  refine ⟨_, hpass, hstart, (adopts_highest hpass ?_).1 reportingPromise ?_ rfl (by decide) ?_⟩
  · unfold Agree
    rw [hround]
    decide
  · rw [hround]
    exact List.mem_cons_self
  · rw [hround]
    decide

end Skywalker
