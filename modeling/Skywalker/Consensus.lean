import Skywalker.Learning

/-!
# Consensus

The invariants of the modules before, taken together, hold in every run of a group with fixed
members whose steps meet the conditions of `Policy.KeepsAgreement`. Everything that a node executes
is then decided, and one value is decided for each instance.
-/

namespace Skywalker

open Voting TransitionSystem

/-- What a recovery has to find on disk. -/
structure Sys.RecoversSoundly (s : Sys) (M : Finset ℕ) (n : ℕ) (dirs : List (ℕ × Machines)) :
    Prop where
  /-- Its proposal ids are new. -/
  fresh : (s n).StartsFresh
  /-- The promise of the process before is not lost. -/
  promise : ∀ a, Acceptor.readFromDB (s n).db = some a →
    (s n).acceptor.promisedBallot ≤ a.promisedBallot
  /-- The node goes back by one instance at most, to one that it has a record of. -/
  back : ∀ E a y, Node.Recovered E (s n).config (s n).db dirs (s n).trace a y →
    (s n).instanceId ≤ y.instanceId ∨
      ((s n).instanceId = y.instanceId + 1 ∧ ∃ r, (s n).db.get y.instanceId = some r)
  /-- An instance that the node jumps over has no record but a decided one. -/
  jump : ∀ E a y, Node.Recovered E (s n).config (s n).db dirs (s n).trace a y →
    (s n).instanceId < y.instanceId → ∀ r, (s n).db.get (s n).instanceId = some r →
    s.Decided M (s n).instanceId r.acceptedValue

/-- What the steps of a run have to see to, so that nodes agree. -/
structure Policy.KeepsAgreement (P : Policy) (M : Finset ℕ) : Prop where
  rounds : P.KeepsRounds
  writes : ∀ E, P.env E → ∀ k, E.putOk k = true
  prepare : ∀ x, P.rules.prepare x → Proposer.CarriesSafely x
  skip : ∀ x, P.rules.skip x → Proposer.CarriesSafely x
  keepsLearned : P.rules.keepsLearned
  recovers : ∀ s n dirs, P.Recovers s n dirs → s.RecoversSoundly M n dirs

/-- The invariants of a group with the members `M`. -/
structure Consensus (M : Finset ℕ) (s : Sys) : Prop where
  rounds : Rounds M s
  memory : ∀ n, (s n).Remembers
  stored : Stored M s
  reported : Reported M s
  findings : ∀ n, Findings M s n
  proposals : Proposals M s
  carried : ∀ n, Carried M s n
  learned : ∀ n, (s n).Learned (s.Decided M)

namespace Consensus

variable {C : Setup} {P : Policy} {M : Finset ℕ} {s t : Sys}

/-- **One value is decided for each instance.** -/
theorem eq_of_decided (h : Consensus M s) {i : ℕ} {v w : PaxosValue} (hv : s.Decided M i v)
    (hw : s.Decided M i w) : v = w :=
  (h.proposals.sound h.rounds i).eq_of_chosen hv hw

theorem decided_of_inFlight (h : Consensus M s) {n : ℕ} {m : PaxosMessage}
    (hm : s.inFlight n m = true) (htype : m.type = .sendLearnedValue) :
    s.Decided M m.instanceId m.value := by
  rcases Traced.of_inFlight hm with hsend | ⟨dests, hd, -⟩
  · exact (h.learned m.nodeId).trace _ hsend htype
  · exact (h.learned m.nodeId).trace _ hd htype

/-- A ballot that is announced to an acceptor which accepted under it is that of a decision. -/
theorem decided_of_announced (h : Consensus M s) (hw : s.WF C) {n : ℕ} {m : PaxosMessage}
    (hm : Announced (s.Network n) (s n) m) (hid : m.instanceId = (s n).instanceId)
    (hballot : m.ballot = (s n).acceptor.acceptedBallot) :
    s.Decided M (s n).instanceId (s n).acceptor.acceptedValue :=
  Carried.decided_of_announced h.carried h.rounds h.stored h.proposals (hw n).1.acceptorId hm hid
    hballot

/-- What the nodes have learned after an action is decided. -/
theorem learned_micro (h : Consensus M s) (hw : s.WF C) (hP : P.KeepsAgreement M)
    (hst : Micro P s t) (n : ℕ) : (t n).Learned (t.Decided M) := by
  have hext := hst.board_extends hw
  obtain ⟨k, E, henv, hact, hother, -, -⟩ := hst.newEvents hw
  have hold : (t n).Learned (s.Decided M) := by
    refine Sys.forall_of_others (Q := fun _ x => x.Learned (s.Decided M)) hother
      (fun n _ => h.learned n) ?_ n
    refine (h.learned k).act (hw k).1 (h.memory k).store (hP.writes E henv) hP.keepsLearned
      ?_ ?_ hact
    · exact fun m hm htype => h.decided_of_inFlight hm htype
    · intro m hm hid hballot
      refine ⟨?_, h.decided_of_announced hw hm hid hballot⟩
      rw [← hballot]
      exact h.rounds.traced.announced_pos hm
  exact hold.mono fun i v hv => hv.extend (hext i)

/-- **Every action keeps the invariants.** -/
theorem micro (h : Consensus M s) (hw : s.WF C) (hP : P.KeepsAgreement M) (hst : Micro P s t) :
    Consensus M t := by
  have hrounds := h.rounds.micro hw hP.rounds hst
  have hmemory : ∀ n, (t n).Remembers :=
    hst.forall_node (Q := fun _ x => x.Remembers) h.memory fun n E _ henv hact =>
      (h.memory n).act (hw n).1 (hP.writes E henv) hact
  have hreported := h.reported.micro hw h.rounds.traced hrounds.traced h.memory hmemory h.stored hst
  exact
    { rounds := hrounds
      memory := hmemory
      stored := h.stored.micro hw hst fun n m hm => h.decided_of_inFlight hm
      reported := hreported
      findings := fun n => (h.findings n).micro hw h.rounds hrounds h.memory hreported
        hP.rounds.current hst
      proposals := h.proposals.micro hw h.rounds h.memory h.findings hP.rounds hst
      carried := fun n => (h.carried n).micro hw h.rounds hP.rounds.current hP.prepare hP.skip hst
      learned := h.learned_micro hw hP hst }

/-- **A recovery keeps the agreement.** -/
theorem recover {n : ℕ} {E : Env} {dirs : List (ℕ × Machines)} {a : Acceptor} {y : Node}
    (h : Consensus M s) (hw : s.WF C) (hP : P.KeepsAgreement M) (hC : C.HasMembers M)
    (hwhy : P.Recovers s n dirs) (hrec : (s n).Restarts E dirs a y) :
    Consensus M (Function.update s n y) := by
  have hsound := hP.recovers s n dirs hwhy
  have hprom := hsound.promise a hrec.read
  have hext := hrec.board_extends hprom
  refine
    { rounds := h.rounds.recover hw hP.rounds hC hwhy hrec
      memory := Sys.forall_update (Q := fun _ x => x.Remembers) h.memory ?_
      stored := h.stored.recover hrec hprom
      reported := h.reported.recover hrec h.rounds.traced h.memory hprom
      findings := fun k => (h.findings k).recover h.rounds h.memory hrec hprom
      proposals := h.proposals.recover hrec hprom
      carried := fun k => (h.carried k).recover hrec hprom
      learned := Sys.forall_update (Q := fun _ x => x.Learned (Sys.Decided _ M)) ?_ ?_ }
  · exact (h.memory n).recover hrec (fun i b v hv => h.rounds.traced.vote_pos hv) hprom
      (hsound.back E a y hrec)
  · exact fun k => (h.learned k).mono fun i v hv => hv.extend (hext i)
  · exact ((h.learned n).recover (h.memory n).store hrec (hsound.jump E a y hrec)).mono
      fun i v hv => hv.extend (hext i)

theorem init (hC : C.HasMembers M) : Consensus M (System.init C) where
  rounds := .init hC
  memory _ := .fresh _
  stored := .init C
  reported := .init C
  findings n := .init C n
  proposals := .init C
  carried n := .init C n
  learned _ := .fresh _

end Consensus

end Skywalker
