import Skywalker.Durable
import Skywalker.Turns

/-!
# A rejected proposer outbids

A reply whose rejected id is not below `proposal_id_` makes the proposer ask for a new proposal id,
and `max_proprosal_id_` has the largest rejected id of all replies, of any instance, phase and
round. `OnPrepareReply` and `OnAccpetReply` note both at their end, after the calls that a counted
reply leads to. None of these calls `Prepare`, which is the only one to forget the rejection.

The runs are those of one process, with any messages, failing writes and executions. Proposal ids
are natural numbers here.
-/

namespace Skywalker

open TransitionSystem

/-- A reply with a rejected id that is not below the proposal id was handled since the last
`PREPARE`. In a turn that broadcasts one, the replies come after it. -/
def rejectedSince : List Turn → Bool
  | [] => false
  | t :: h => (repliesIn t).any (fun m => t.after.proposer.proposalId ≤ m.rejectedId) ||
      ((preparesIn t).isEmpty && rejectedSince h)

/-- All replies that were handled. -/
def repliesOf (h : List Turn) : List PaxosMessage := h.flatMap repliesIn

/-- What the proposer has noted of the replies. -/
structure Proposer.Outbids (p : Proposer) (h : List Turn) : Prop where
  proposalId : ∀ t ∈ h, t.before.proposer.proposalId ≤ t.after.proposer.proposalId ∧
    t.after.proposer.proposalId ≤ p.proposalId
  maxProposalId : ∀ r ∈ repliesOf h, r.rejectedId ≤ p.maxProposalId
  wasRejected : rejectedSince h = true → p.wasRejectedBySomeone = true

/-- After a rejection the next proposal id is above all rejected ids. -/
theorem Proposer.lt_nextProposalId {p : Proposer} (h : p.wasRejectedBySomeone = true) :
    p.maxProposalId < p.nextProposalId := by
  unfold nextProposalId newRound
  dsimp only
  rw [if_pos h]
  split_ifs <;> omega

/-- A turn that starts from the proposer `p`. -/
theorem Proposer.Outbids.of_took {p : Proposer} {t : Turn} {h : List Turn}
    (hold : t.before.proposer.Outbids h) (htook : Took p t)
    (hpid : t.before.proposer.proposalId ≤ p.proposalId)
    (hmax : t.before.proposer.maxProposalId = p.maxProposalId)
    (hrej : preparesIn t = [] → t.before.proposer.wasRejectedBySomeone = true →
      p.wasRejectedBySomeone = true) : t.after.proposer.Outbids (t :: h) where
  proposalId := by
    have hle : t.before.proposer.proposalId ≤ t.after.proposer.proposalId :=
      hpid.trans htook.noted.proposalId.ge
    intro u hu
    obtain rfl | hu := List.mem_cons.mp hu
    · exact ⟨hle, le_refl _⟩
    · exact ⟨(hold.proposalId u hu).1, (hold.proposalId u hu).2.trans hle⟩
  maxProposalId := by
    intro r hr
    rw [repliesOf, List.flatMap_cons] at hr
    obtain hr | hr := List.mem_append.mp hr
    · exact (htook.heeds r hr).1
    · calc r.rejectedId ≤ t.before.proposer.maxProposalId := hold.maxProposalId r hr
        _ = p.maxProposalId := hmax
        _ ≤ t.after.proposer.maxProposalId := htook.noted.maxProposalId
  wasRejected := by
    intro hsince
    obtain hnow | hbefore := Bool.or_eq_true_iff.mp hsince
    · obtain ⟨m, hm, hle⟩ := List.any_eq_true.mp hnow
      exact (htook.heeds m hm).2 (of_decide_eq_true hle)
    · obtain ⟨hnone, hbefore⟩ := Bool.and_eq_true_iff.mp hbefore
      exact htook.noted.wasRejected
        (hrej (List.isEmpty_iff.mp hnone) (hold.wasRejected hbefore))

/-- **Every turn of a node keeps the proposal id above what it has noted.** -/
theorem Proposer.Outbids.step {x y : Node} {a : Env × NodeEvent} {h : List Turn}
    (hold : x.proposer.Outbids h) (hstep : x.stepIn a = some y) :
    y.proposer.Outbids (⟨x, a, y⟩ :: h) := by
  cases turn_cases hstep with
  | kept htook hsent => exact hold.of_took htook (le_refl _) rfl fun _ => id
  | opened p hp htook hsent =>
    refine hold.of_took htook ?_ hp.maxProposalId.symm fun hnone => ?_
    · rw [hp.proposalId]
      exact x.proposer.le_nextProposalId
    · rw [hsent] at hnone
      cases hnone

/-- A `PREPARE` has the next proposal id. -/
theorem proposalId_of_mem_preparesIn {x y : Node} {a : Env × NodeEvent}
    (hstep : x.stepIn a = some y) {m : PaxosMessage} (hm : m ∈ preparesIn ⟨x, a, y⟩) :
    m.proposalId = x.proposer.nextProposalId := by
  cases turn_cases hstep with
  | kept htook hsent =>
    rw [hsent] at hm
    cases hm
  | opened p hp htook hsent =>
    rw [hsent] at hm
    rw [List.mem_singleton.mp hm]
    exact hp.proposalId

/-- **A rejected proposer outbids.** In every run of a process, with any messages: the proposal id
never falls, and once a reply with a rejected id that is not below it has been handled since the
last `PREPARE`, the next `PREPARE` has a proposal id above all rejected ids that were ever handled,
and until then `NewPropose` calls `Prepare`, which asks for a new proposal id. -/
theorem rejected_outbids {x₀ x : Node} {h : List Turn}
    (hrun : Reaches (record Node.stepIn) (fun _ _ => True) (x₀, []) (x, h)) :
    (∀ t ∈ h, t.before.proposer.proposalId ≤ t.after.proposer.proposalId ∧
      t.after.proposer.proposalId ≤ x.proposer.proposalId) ∧
    (rejectedSince h = true →
      (∀ a y, x.stepIn a = some y → ∀ m ∈ preparesIn ⟨x, a, y⟩, ∀ r ∈ repliesOf h,
        r.rejectedId < m.proposalId) ∧
      ∀ E v z, z.proposer = x.proposer → Proposer.newPropose E v z =
        Proposer.prepare E true { z with proposer := { z.proposer with value := v } }) := by
  have hout : x.proposer.Outbids h := by
    refine hrun.invariant_record (P := fun x h => x.proposer.Outbids h) ?_
      fun x y a h hold hstep => hold.step hstep
    exact ⟨fun t ht => absurd ht List.not_mem_nil, fun r hr => absurd hr List.not_mem_nil,
      fun hsince => absurd hsince Bool.false_ne_true⟩
  refine ⟨hout.proposalId, fun hrej => ⟨fun a y hstep m hm r hr => ?_, fun E v z hz => ?_⟩⟩
  · calc r.rejectedId ≤ x.proposer.maxProposalId := hout.maxProposalId r hr
      _ < x.proposer.nextProposalId := Proposer.lt_nextProposalId (hout.wasRejected hrej)
      _ = m.proposalId := (proposalId_of_mem_preparesIn hstep hm).symm
  · have hwas : z.proposer.wasRejectedBySomeone = true := hz ▸ hout.wasRejected hrej
    unfold Proposer.newPropose
    simp [hwas]

/-- Node 1 of a group of three proposes, and both others reject its `PREPARE`. -/
def rejectedTwice : List (Env × NodeEvent) :=
  [({}, .propose 7 [1] none 256),
   ({}, .paxosMessage { type := .prepareReply, nodeId := 2, instanceId := 1, rejectedId := 5 }),
   ({}, .paxosMessage { type := .prepareReply, nodeId := 3, instanceId := 1, rejectedId := 7 })]

/-- The retry timer then prepares with the proposal id 8. -/
theorem rejected_outbids_trio : ∃ x h y, rejectedSince h = true ∧
    x.stepIn ({}, .timer 3) = some y ∧
    ∃ m ∈ preparesIn ⟨x, ({}, .timer 3), y⟩, m.proposalId = 8 ∧
      ∀ r ∈ repliesOf h, r.rejectedId < m.proposalId := by
  have hrun : ((run (record Node.stepIn) (Node.fresh trioMember, []) rejectedTwice).bind fun s =>
      (s.1.stepIn ({}, .timer 3)).map fun y => (rejectedSince s.2,
        (preparesIn ⟨s.1, ({}, .timer 3), y⟩).map PaxosMessage.proposalId)) = some (true, [8]) := by
    decide +kernel
  obtain ⟨⟨x, h⟩, hs, hrun⟩ := Option.bind_eq_some_iff.mp hrun
  obtain ⟨y, hy, hval⟩ := Option.map_eq_some_iff.mp hrun
  obtain ⟨hrej, hids⟩ := Prod.mk.inj hval
  obtain ⟨m, hm, hid⟩ : ∃ m ∈ preparesIn ⟨x, ({}, .timer 3), y⟩, m.proposalId = 8 := by
    refine List.mem_map.mp ?_
    rw [hids]
    exact List.mem_singleton_self 8
  have hreach := Reaches.of_run rejectedTwice (fun _ _ _ => trivial) hs
  exact ⟨x, h, y, hrej, hy, m, hm, hid, ((rejected_outbids hreach).2 hrej).1 _ y hy m hm⟩

end Skywalker
