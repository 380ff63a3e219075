import Mathlib.Data.List.Basic
import Mathlib.Tactic.NormNum
import Skywalker.Library.Run
import Skywalker.Node

/-!
# The loop of the master election

`Group::TryBeMaster` runs in the master loop, when the timer that it has set itself is due. It
proposes the node as the master when the lease is over or its own, and waits for the result in
`NewPropose`, on a condition variable that `ProposeComplete` notifies from the callback loop.
`RetireMaster` queues a function in the master loop that makes one pass leave the node's own lease
alone. Meanwhile the io loop executes the values of any node, so that the lease can change at any
time.

The steps are the parts of the code between which other threads can come. `NewPropose` has its mutex
from where it clears `propose_end_` to its wait, and `ProposeComplete` takes the same mutex, so that
the clearing, `Put` and the wait are one step.

The loop never waits in vain, it does not stop trying, and a node that retires lets its lease run
out (`master_loop`).
-/

namespace Skywalker

open TransitionSystem

/-- Where the thread of the master loop is in `TryBeMaster`. -/
inductive MasterPhase where
  /-- Between two passes: `timer_` is set for a time. -/
  | sleeping (next : ℕ)
  /-- `TryBeMaster` has read the state of the machine for the first time. -/
  | deciding (state : MasterState)
  /-- `TryBeMaster` is about to call `NewPropose`. -/
  | entering
  /-- In the wait of `NewPropose`. -/
  | waiting
  /-- After `NewPropose`, with its result. -/
  | returned (b : Bool)
deriving DecidableEq, Repr

/-- A group as far as it takes part in the election. -/
structure MasterLoop where
  /-- The time that `NowMillis` returns. -/
  now : ℕ
  /-- The state that `MasterMachine::GetMasterState` returns. -/
  state : MasterState := {}
  /-- `retrie_master_`: whether the node was told to retire. -/
  retrieMaster : Bool := false
  /-- `propose_end_`: whether the proposal that is waited for has ended. -/
  proposeEnd : Bool := false
  /-- `result_`: the status that the proposal has ended with. -/
  result : Status := {}
  /-- Where the thread of the loop is. -/
  phase : MasterPhase := .sleeping 0
  /-- A proposal of the loop is in the queue or under way. -/
  outstanding : Bool := false
  /-- The thread was notified since it waits. -/
  notified : Bool := false
  /-- The times at which `NewPropose` was called, newest first. -/
  attempts : List ℕ := []
deriving DecidableEq, Repr

/-- What the thread of the loop and the other threads do. -/
inductive ElectionEvent where
  /-- The clock goes on by some milliseconds. -/
  | tick (d : ℕ)
  /-- The master machine executes a value. -/
  | setMasterState (state : MasterState)
  /-- The function of `RetireMaster` runs. -/
  | retireMaster
  /-- The timer fires, and `TryBeMaster` reads the state of the machine. -/
  | getMasterState
  /-- `TryBeMaster` looks at the clock, and goes on to `NewPropose` or to its end. -/
  | tryBeMaster
  /-- `NewPropose` up to its wait, with the result of `Put`. -/
  | newPropose (res : Bool)
  /-- The callback `ProposeComplete` runs with the status of the proposal. -/
  | proposeComplete (result : Status)
  /-- The wait ends, by the notification or for no reason. -/
  | wake
  /-- `TryBeMaster` sets its timer and returns. -/
  | finish
deriving DecidableEq, Repr

namespace MasterLoop

/-- The lease is over, or the node's own and the node does not retire. -/
def wants (nodeId : ℕ) (state : MasterState) (s : MasterLoop) : Bool :=
  state.leaseTime ≤ s.now || state.nodeId = nodeId && !s.retrieMaster

/-- The time for the timer after `NewPropose` returned `b`. -/
def next (leaseTimeout : ℕ) (b : Bool) (s : MasterLoop) : ℕ :=
  let next :=
    if b then
      if s.result.code = .ok then (s.state.leaseTime + 2 ^ 64 - 100) % 2 ^ 64
      else if s.result.code = .conflict then s.state.leaseTime
      else 0
    else 0
  if next = 0 then s.now + leaseTimeout else next

/-- One step of the threads, on the node `nodeId` with leases of `leaseTimeout`. -/
def step (nodeId leaseTimeout : ℕ) (s : MasterLoop) : ElectionEvent → Option MasterLoop
  | .tick d => some { s with now := s.now + d }
  | .setMasterState state => some { s with state := state }
  | .retireMaster =>
    match s.phase with
    | .sleeping _ => some { s with retrieMaster := true }
    | _ => none
  | .getMasterState =>
    match s.phase with
    | .sleeping next => if next ≤ s.now then some { s with phase := .deciding s.state } else none
    | _ => none
  | .tryBeMaster =>
    match s.phase with
    | .deciding state =>
      if s.wants nodeId state then some { s with phase := .entering }
      else some { s with retrieMaster := false, phase := .sleeping state.leaseTime }
    | _ => none
  | .newPropose res =>
    match s.phase with
    | .entering =>
      let s := { s with proposeEnd := false, attempts := s.now :: s.attempts }
      if res then some { s with outstanding := true, notified := false, phase := .waiting }
      else some { s with phase := .returned false }
    | _ => none
  | .proposeComplete result =>
    if s.outstanding then
      some { s with outstanding := false, proposeEnd := true, result := result, notified := true }
    else none
  | .wake =>
    match s.phase with
    | .waiting =>
      if s.proposeEnd then some { s with phase := .returned true }
      else some { s with notified := false }
    | _ => none
  | .finish =>
    match s.phase with
    | .returned b =>
      some { s with retrieMaster := false, phase := .sleeping (s.next leaseTimeout b) }
    | _ => none

/-- What a run is taken from: the ends of leases are at most `M`, and of a time of day in
milliseconds, and a proposal is reported as a success after its value was executed. -/
def sound (M : ℕ) (s : MasterLoop) : ElectionEvent → Bool
  | .setMasterState state => 100 ≤ state.leaseTime && state.leaseTime ≤ M
  | .proposeComplete result => result.code ≠ .ok || 100 ≤ s.state.leaseTime
  | _ => true

/-- The node's master state is not changed. -/
def Undisturbed (_ : MasterLoop) : ElectionEvent → Prop
  | .setMasterState _ => False
  | _ => True

/-! ## What a step does -/

/-- The steps, with the condition and the result of each. -/
inductive Stepped (nodeId leaseTimeout : ℕ) (s : MasterLoop) :
    ElectionEvent → MasterLoop → Prop where
  /-- The clock goes on. -/
  | tick (d : ℕ) : Stepped nodeId leaseTimeout s (.tick d) { s with now := s.now + d }
  /-- The machine executes a value and has a new state. -/
  | set (state : MasterState) :
      Stepped nodeId leaseTimeout s (.setMasterState state) { s with state := state }
  /-- The node is to retire. -/
  | retired (next : ℕ) (hphase : s.phase = .sleeping next) :
      Stepped nodeId leaseTimeout s .retireMaster { s with retrieMaster := true }
  /-- The timer is due, and a pass begins. -/
  | fired (next : ℕ) (hphase : s.phase = .sleeping next) (hdue : next ≤ s.now) :
      Stepped nodeId leaseTimeout s .getMasterState { s with phase := .deciding s.state }
  /-- It goes on to `NewPropose`. -/
  | entered (state : MasterState) (hphase : s.phase = .deciding state)
      (hwants : s.wants nodeId state = true) :
      Stepped nodeId leaseTimeout s .tryBeMaster { s with phase := .entering }
  /-- It ends without a proposal. -/
  | passed (state : MasterState) (hphase : s.phase = .deciding state)
      (hwants : s.wants nodeId state = false) :
      Stepped nodeId leaseTimeout s .tryBeMaster
        { s with retrieMaster := false, phase := .sleeping state.leaseTime }
  /-- The proposal is put into the queue. -/
  | put (hphase : s.phase = .entering) :
      Stepped nodeId leaseTimeout s (.newPropose true)
        { s with
          proposeEnd := false, attempts := s.now :: s.attempts
          outstanding := true, notified := false, phase := .waiting }
  /-- The queue is full, and `NewPropose` returns false. -/
  | full (hphase : s.phase = .entering) :
      Stepped nodeId leaseTimeout s (.newPropose false)
        { s with
          proposeEnd := false, attempts := s.now :: s.attempts, phase := .returned false }
  /-- The proposal is completed, and the thread is notified. -/
  | completed (result : Status) (hout : s.outstanding = true) :
      Stepped nodeId leaseTimeout s (.proposeComplete result)
        { s with outstanding := false, proposeEnd := true, result := result, notified := true }
  /-- The thread wakes up and finds its proposal completed. -/
  | woken (hphase : s.phase = .waiting) (hend : s.proposeEnd = true) :
      Stepped nodeId leaseTimeout s .wake { s with phase := .returned true }
  /-- The thread wakes up for no reason and waits again. -/
  | again (hphase : s.phase = .waiting) (hend : s.proposeEnd = false) :
      Stepped nodeId leaseTimeout s .wake { s with notified := false }
  /-- The pass ends, and the timer is set for the next one. -/
  | finished (b : Bool) (hphase : s.phase = .returned b) :
      Stepped nodeId leaseTimeout s .finish
        { s with retrieMaster := false, phase := .sleeping (s.next leaseTimeout b) }

section

variable {nodeId leaseTimeout M : ℕ} {s t : MasterLoop} {e : ElectionEvent}

/-- Every step is one of these. -/
theorem step_cases (h : s.step nodeId leaseTimeout e = some t) :
    Stepped nodeId leaseTimeout s e t := by
  unfold step at h
  cases e with
  | tick d => exact Option.some.inj h ▸ .tick d
  | setMasterState state => exact Option.some.inj h ▸ .set state
  | retireMaster =>
    dsimp only at h
    split at h
    case h_1 next hphase => exact Option.some.inj h ▸ .retired next hphase
    case h_2 => cases h
  | getMasterState =>
    dsimp only at h
    split at h
    case h_1 next hphase =>
      split_ifs at h with hdue
      exact Option.some.inj h ▸ .fired next hphase hdue
    case h_2 => cases h
  | tryBeMaster =>
    dsimp only at h
    split at h
    case h_1 state hphase =>
      split_ifs at h with hwants
      · exact Option.some.inj h ▸ .entered state hphase hwants
      · exact Option.some.inj h ▸ .passed state hphase (Bool.eq_false_iff.mpr hwants)
    case h_2 => cases h
  | newPropose res =>
    dsimp only at h
    split at h
    case h_1 hphase =>
      cases res with
      | true => exact Option.some.inj h ▸ .put hphase
      | false => exact Option.some.inj h ▸ .full hphase
    case h_2 => cases h
  | proposeComplete result =>
    dsimp only at h
    split_ifs at h with hout
    exact Option.some.inj h ▸ .completed result hout
  | wake =>
    dsimp only at h
    split at h
    case h_1 hphase =>
      split_ifs at h with hend
      · exact Option.some.inj h ▸ .woken hphase hend
      · exact Option.some.inj h ▸ .again hphase (Bool.eq_false_iff.mpr hend)
    case h_2 => cases h
  | finish =>
    dsimp only at h
    split at h
    case h_1 b hphase => exact Option.some.inj h ▸ .finished b hphase
    case h_2 => cases h

/-! ## The wait -/

/-- A thread that waits has a proposal under way that is not completed, or has been notified of its
completion. One that does not wait has none. -/
structure Handshake (s : MasterLoop) : Prop where
  pending : s.outstanding = true → s.phase = .waiting ∧ s.proposeEnd = false
  notified : s.phase = .waiting → s.outstanding = false → s.proposeEnd = true ∧ s.notified = true

theorem Handshake.idle (h : s.Handshake) (hphase : s.phase ≠ .waiting) : s.outstanding = false := by
  cases hout : s.outstanding with
  | true => exact absurd (h.pending hout).1 hphase
  | false => rfl

theorem Handshake.of_idle (hphase : t.phase ≠ .waiting) (hout : t.outstanding = false) :
    t.Handshake :=
  ⟨fun h => absurd (hout.symm.trans h) Bool.false_ne_true, fun h => absurd h hphase⟩

/-- Every step keeps the proposal and the thread that waits for it in step. -/
theorem Handshake.step (h : s.Handshake) (hstep : s.step nodeId leaseTimeout e = some t) :
    t.Handshake := by
  cases step_cases hstep with
  | tick d | set state | retired next hphase => exact ⟨h.pending, h.notified⟩
  | fired next hphase | entered state hphase | passed state hphase =>
    exact .of_idle nofun (h.idle (by rw [hphase]; nofun))
  | put => exact ⟨fun _ => ⟨rfl, rfl⟩, nofun⟩
  | full hphase => exact .of_idle nofun (h.idle (by rw [hphase]; nofun))
  | completed result hout => exact ⟨nofun, fun _ _ => ⟨rfl, rfl⟩⟩
  | woken hphase hend =>
    refine .of_idle nofun ?_
    cases hout : s.outstanding with
    | true => exact absurd (hend.symm.trans (h.pending hout).2) Bool.false_ne_true.symm
    | false => rfl
  | again hphase hend =>
    exact ⟨h.pending, fun _ hout =>
      absurd ((h.notified hphase hout).1.symm.trans hend) Bool.false_ne_true.symm⟩
  | finished b hphase => exact .of_idle nofun (h.idle (by rw [hphase]; nofun))

/-! ## The timer -/

/-- The timer is set for a time at most the end of a lease, or a lease from now. -/
structure Bounded (leaseTimeout M : ℕ) (s : MasterLoop) : Prop extends s.Handshake where
  lease : s.state.leaseTime ≤ M
  seen : ∀ state, s.phase = .deciding state → state.leaseTime ≤ M
  timer : ∀ next, s.phase = .sleeping next → next ≤ max M (s.now + leaseTimeout)
  /-- A success that has been reported is that of a value that was executed. -/
  success : s.outstanding = false → s.phase = .waiting ∨ s.phase = .returned true →
    s.result.code = .ok → 100 ≤ s.state.leaseTime

/-- The time that a pass sets the timer for. -/
theorem Bounded.next_le {b : Bool} (h : s.Bounded leaseTimeout M) (hM : M < 2 ^ 64)
    (hphase : s.phase = .returned b) :
    s.next leaseTimeout b ≤ max M (s.now + leaseTimeout) := by
  have hlease := h.lease
  have hsuccess := h.success (h.idle (by rw [hphase]; nofun))
  cases b with
  | false => exact le_max_right _ _
  | true =>
    have hok := hsuccess (Or.inr hphase)
    unfold MasterLoop.next
    dsimp only
    rw [if_pos rfl]
    by_cases hcode : s.result.code = .ok
    · have hlow := hok hcode
      have hsub : (s.state.leaseTime + 2 ^ 64 - 100) % 2 ^ 64 = s.state.leaseTime - 100 := by omega
      rw [if_pos hcode, hsub]
      split_ifs <;> omega
    · rw [if_neg hcode]
      split_ifs <;> omega

/-- Every step keeps the bounds, where the leases that are executed end by `M`. -/
theorem Bounded.step (h : s.Bounded leaseTimeout M) (hM : M < 2 ^ 64) (hok : s.sound M e = true)
    (hstep : s.step nodeId leaseTimeout e = some t) : t.Bounded leaseTimeout M := by
  have hshake := h.toHandshake.step hstep
  cases step_cases hstep with
  | tick d =>
    exact ⟨hshake, h.lease, h.seen, fun next hphase =>
      (h.timer next hphase).trans (max_le_max_left M (by dsimp only; omega)), h.success⟩
  | set state =>
    obtain ⟨hlow, hle⟩ := Bool.and_eq_true_iff.mp hok
    exact ⟨hshake, of_decide_eq_true hle, h.seen, h.timer, fun _ _ _ => of_decide_eq_true hlow⟩
  | retired next hphase => exact ⟨hshake, h.lease, h.seen, h.timer, h.success⟩
  | fired =>
    refine ⟨hshake, h.lease, fun state hstate => ?_, nofun, nofun⟩
    obtain rfl := MasterPhase.deciding.inj hstate
    exact h.lease
  | entered => exact ⟨hshake, h.lease, nofun, nofun, nofun⟩
  | passed state hphase =>
    refine ⟨hshake, h.lease, nofun, fun next hnext => ?_, nofun⟩
    obtain rfl := MasterPhase.sleeping.inj hnext
    exact (h.seen state hphase).trans (le_max_left _ _)
  | put | full => exact ⟨hshake, h.lease, nofun, nofun, nofun⟩
  | completed result =>
    have hexecuted : ¬ result.code = .ok ∨ 100 ≤ s.state.leaseTime := by simpa [sound] using hok
    exact ⟨hshake, h.lease, h.seen, h.timer,
      fun _ _ hcode => hexecuted.resolve_left (not_not_intro hcode)⟩
  | woken hphase =>
    exact ⟨hshake, h.lease, nofun, nofun, fun hout _ => h.success hout (Or.inl hphase)⟩
  | again hphase => exact ⟨hshake, h.lease, h.seen, h.timer, h.success⟩
  | finished b hphase =>
    refine ⟨hshake, h.lease, nofun, fun next hnext => ?_, nofun⟩
    obtain rfl := MasterPhase.sleeping.inj hnext
    exact h.next_le hM hphase

/-! ## What follows while nobody else becomes the master -/

/-- Before an attempt the loop sleeps until `B` at the latest, has read a lease that ends until
then, or is about to try. -/
inductive Before (B : ℕ) : MasterPhase → Prop where
  | sleeping {next : ℕ} (h : next ≤ B) : Before B (.sleeping next)
  | deciding {state : MasterState} (h : state.leaseTime ≤ B) : Before B (.deciding state)
  | entering : Before B .entering

/-- Since `s` the loop has tried, or is before that. -/
structure Tries (B : ℕ) (s u : MasterLoop) : Prop where
  state : u.state = s.state
  attempts : ∃ l, u.attempts = l ++ s.attempts ∧ (l = [] → Before B u.phase)

/-- While no lease is granted, a step keeps that the loop has tried or is before that. -/
theorem Tries.step {B : ℕ} {u : MasterLoop} (h : Tries B s u) (hB : s.state.leaseTime ≤ B)
    (hok : u.Undisturbed e) (hstep : u.step nodeId leaseTimeout e = some t) : Tries B s t := by
  obtain ⟨l, hl, hnone⟩ := h.attempts
  cases step_cases hstep with
  | tick d => exact ⟨h.state, l, hl, hnone⟩
  | set state => cases hok
  | retired next hphase => exact ⟨h.state, l, hl, hnone⟩
  | fired => exact ⟨h.state, l, hl, fun _ => .deciding (h.state ▸ hB)⟩
  | entered => exact ⟨h.state, l, hl, fun _ => .entering⟩
  | passed state hphase =>
    refine ⟨h.state, l, hl, fun hnil => .sleeping ?_⟩
    have hbefore := hnone hnil
    rw [hphase] at hbefore
    cases hbefore with
    | deciding hle => exact hle
  | put | full => exact ⟨h.state, u.now :: l, by rw [hl]; rfl, nofun⟩
  | completed result => exact ⟨h.state, l, hl, hnone⟩
  | woken hphase =>
    refine ⟨h.state, l, hl, fun hnil => ?_⟩
    have hbefore := hnone hnil
    rw [hphase] at hbefore
    cases hbefore
  | again hphase => exact ⟨h.state, l, hl, hnone⟩
  | finished b hphase =>
    refine ⟨h.state, l, hl, fun hnil => ?_⟩
    have hbefore := hnone hnil
    rw [hphase] at hbefore
    cases hbefore

/-- How the loop keeps from trying before `L`: the time has come, it sleeps until then, or it is
told to retire and has read a lease that ends then. -/
inductive Late (L : ℕ) (u : MasterLoop) : Prop where
  | now (h : L ≤ u.now)
  | sleeping {next : ℕ} (hphase : u.phase = .sleeping next)
      (h : u.retrieMaster = true ∨ L ≤ next)
  | deciding {state : MasterState} (hphase : u.phase = .deciding state)
      (hlease : state.leaseTime = L) (h : u.retrieMaster = true)

/-- Since `s` the loop has not tried before `L`, and will not. -/
structure Waits (L : ℕ) (s u : MasterLoop) : Prop where
  state : u.state = s.state
  attempts : ∃ l, u.attempts = l ++ s.attempts ∧ ∀ time ∈ l, L ≤ time
  late : u.Late L

/-- While no lease is granted, a step keeps that the loop does not try before the lease is over. -/
theorem Waits.step {u : MasterLoop} (h : Waits s.state.leaseTime s u) (hok : u.Undisturbed e)
    (hstep : u.step nodeId leaseTimeout e = some t) : Waits s.state.leaseTime s t := by
  obtain ⟨l, hl, hlate⟩ := h.attempts
  have hstate := h.state
  -- After its decision to try the time has come.
  have hover : (∀ next, u.phase ≠ .sleeping next) → (∀ state, u.phase ≠ .deciding state) →
      s.state.leaseTime ≤ u.now := by
    intro hsleeping hdeciding
    cases h.late with
    | now hle => exact hle
    | sleeping hphase => exact absurd hphase (hsleeping _)
    | deciding hphase => exact absurd hphase (hdeciding _)
  cases step_cases hstep with
  | tick d =>
    refine ⟨hstate, ⟨l, hl, hlate⟩, ?_⟩
    cases h.late with
    | now hle => exact .now (hle.trans (Nat.le_add_right _ _))
    | sleeping hphase hnext => exact .sleeping hphase hnext
    | deciding hphase hlease hretire => exact .deciding hphase hlease hretire
  | set state => cases hok
  | retired next hphase => exact ⟨hstate, ⟨l, hl, hlate⟩, .sleeping hphase (Or.inl rfl)⟩
  | fired next hphase hdue =>
    refine ⟨hstate, ⟨l, hl, hlate⟩, ?_⟩
    cases h.late with
    | now hle => exact .now hle
    | sleeping hphase' hnext =>
      rw [hphase] at hphase'
      obtain rfl := MasterPhase.sleeping.inj hphase'
      rcases hnext with hretire | hle
      · exact .deciding rfl (by rw [hstate]) hretire
      · exact .now (hle.trans hdue)
    | deciding hphase' =>
      rw [hphase] at hphase'
      cases hphase'
  | entered state hphase hwants =>
    refine ⟨hstate, ⟨l, hl, hlate⟩, .now ?_⟩
    cases h.late with
    | now hle => exact hle
    | sleeping hphase' =>
      rw [hphase] at hphase'
      cases hphase'
    | deciding hphase' hlease hretire =>
      rw [hphase] at hphase'
      obtain rfl := MasterPhase.deciding.inj hphase'
      rw [wants, hretire, hlease] at hwants
      simpa using hwants
  | passed state hphase =>
    refine ⟨hstate, ⟨l, hl, hlate⟩, ?_⟩
    cases h.late with
    | now hle => exact .now hle
    | sleeping hphase' =>
      rw [hphase] at hphase'
      cases hphase'
    | deciding hphase' hlease =>
      rw [hphase] at hphase'
      obtain rfl := MasterPhase.deciding.inj hphase'
      exact .sleeping rfl (Or.inr hlease.ge)
  | put hphase | full hphase =>
    have hle := hover (by rw [hphase]; nofun) (by rw [hphase]; nofun)
    exact ⟨hstate, ⟨u.now :: l, by rw [hl]; rfl, List.forall_mem_cons.mpr ⟨hle, hlate⟩⟩, .now hle⟩
  | completed result =>
    refine ⟨hstate, ⟨l, hl, hlate⟩, ?_⟩
    cases h.late with
    | now hle => exact .now hle
    | sleeping hphase hnext => exact .sleeping hphase hnext
    | deciding hphase hlease hretire => exact .deciding hphase hlease hretire
  | woken hphase | again hphase | finished b hphase =>
    exact ⟨hstate, ⟨l, hl, hlate⟩, .now (hover (by rw [hphase]; nofun) (by rw [hphase]; nofun))⟩

end

end MasterLoop

end Skywalker
