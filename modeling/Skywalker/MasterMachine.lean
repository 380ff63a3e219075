import Skywalker.Wire
import Skywalker.Library.Run
import Mathlib.Logic.Function.Basic

/-!
# How long a lease is

`MasterMachine` on every node of a group, with one clock. A proposed value has the duration of a
lease, and the state of a machine has its end. `Execute` makes the one into the other, and
`MakeCheckpoint` writes the state with the end. `Recover` adds the time to what it reads unless the
node is the master itself, as if the checkpoint had the duration.

A lease is thus no longer than it was granted for as long as no checkpoint with a lease is recovered
on another node (`lease_bounded`), and `recover_lease_le_iff` says that this is what it takes. The
sums are of `uint64_t` and may wrap, which only makes a lease shorter.

`IsMaster` compares the end of the lease with milliseconds and `GetMaster` with microseconds
(`isMaster_iff_getMaster`).
-/

namespace Skywalker

open TransitionSystem

/-- `MasterMachine::Recover` on the node `nodeId` at the time `now`, from a checkpoint with the
state `saved`. -/
def MasterState.recover (nodeId now : ℕ) (saved : MasterState) : MasterState :=
  (Machines.recover nodeId now ⟨.ofOptions [], saved⟩).master

/-- The machines of the nodes, and their checkpoints. -/
structure MasterMachines where
  /-- The clock that all nodes read. -/
  now : ℕ := 0
  /-- `state_` of the machine of a node. -/
  state : ℕ → MasterState := fun _ => {}
  /-- `now_` of the group of a node, which the context of its own proposal points to. -/
  groupNow : ℕ → ℕ := fun _ => 0
  /-- What was written to checkpoints. They may be copied to other nodes. -/
  checkpoints : List MasterState := []

/-- What can happen to the machines. -/
inductive MasterEvent where
  /-- The clock goes on to a later time. -/
  | tick (now : ℕ)
  /-- `TryBeMasterInLoop` of a node reads the clock. -/
  | tryBeMaster (n : ℕ)
  /-- A value is executed, with the context of the node's own proposal or without. -/
  | execute (n instanceId : ℕ) (value : List UInt8) (own : Bool)
  /-- A node writes the state of its machine to a checkpoint. -/
  | makeCheckpoint (n : ℕ)
  /-- A new process of a node starts with a new machine. -/
  | restart (n : ℕ)
  /-- A machine recovers from a checkpoint. -/
  | recover (n : ℕ) (saved : MasterState)

namespace MasterMachines

/-- A step of the machines. -/
def step (codec : Codec) (s : MasterMachines) : MasterEvent → Option MasterMachines
  | .tick now => if s.now ≤ now then some { s with now := now } else none
  | .tryBeMaster n => some { s with groupNow := Function.update s.groupNow n s.now }
  | .execute n instanceId value own =>
    let context := if own then some (s.groupNow n) else none
    let r := (s.state n).execute codec s.now context instanceId value
    some { s with state := Function.update s.state n r.2 }
  | .makeCheckpoint n => some { s with checkpoints := s.state n :: s.checkpoints }
  | .restart n => some { s with state := Function.update s.state n {} }
  | .recover n saved =>
    if saved ∈ s.checkpoints then
      some { s with state := Function.update s.state n (saved.recover n s.now) }
    else none

end MasterMachines

/-- The values of the run grant leases of at most `L`. -/
def MasterEvent.GrantsAtMost (codec : Codec) (L : ℕ) : MasterEvent → Prop
  | .execute _ _ value _ => ∀ new, codec.parseMasterState value = some new → new.leaseTime ≤ L
  | _ => True

/-- A checkpoint is recovered on the node that it has as the master, or has a lease that ends at
most `L` after the epoch, as one from before the first master does. -/
def MasterEvent.RecoversOwn (L : ℕ) : MasterEvent → Prop
  | .recover n saved => saved.nodeId = n ∨ saved.leaseTime ≤ L
  | _ => True

/-! ## The bound -/

variable {codec : Codec} {L now n instanceId : ℕ} {st saved : MasterState}

/-- `Execute` counts the lease from the time in the context, or from now. -/
theorem MasterState.execute_lease_le {context : Option ℕ} {value : List UInt8}
    (hst : st.leaseTime ≤ now + L) (hcontext : ∀ time ∈ context, time ≤ now)
    (hvalue : ∀ new, codec.parseMasterState value = some new → new.leaseTime ≤ L) :
    (st.execute codec now context instanceId value).2.leaseTime ≤ now + L := by
  unfold MasterState.execute
  split_ifs with hold
  · exact hst
  · cases hparse : codec.parseMasterState value with
    | none => exact hst
    | some new =>
      have hstart : context.getD now ≤ now := by
        cases context with
        | none => exact le_rfl
        | some time => exact hcontext time rfl
      calc (context.getD now + new.leaseTime) % 2 ^ 64
        _ ≤ context.getD now + new.leaseTime := Nat.mod_le _ _
        _ ≤ now + L := Nat.add_le_add hstart (hvalue new hparse)

/-- The lease after `Recover`: the own one is over, and another's is counted from now again. -/
theorem MasterState.recover_leaseTime (saved : MasterState) (n now : ℕ) :
    (saved.recover n now).leaseTime =
      if saved.nodeId = n then now else (now + saved.leaseTime) % 2 ^ 64 := by
  unfold MasterState.recover Machines.recover
  by_cases hn : saved.nodeId = n <;> simp [hn]

/-- A recovered lease is within the bound if it is the node's own, or the end of the lease was
itself no larger than a duration may be. -/
theorem MasterState.recover_lease_le (h : saved.nodeId = n ∨ saved.leaseTime ≤ L) :
    (saved.recover n now).leaseTime ≤ now + L := by
  rw [recover_leaseTime]
  split_ifs with hn
  · exact Nat.le_add_right _ _
  · exact (Nat.mod_le _ _).trans (Nat.add_le_add_left (h.resolve_left hn) _)

/-- Where the sum does not wrap, it is within the bound in no other case. -/
theorem MasterState.recover_lease_le_iff (hwrap : now + saved.leaseTime < 2 ^ 64) :
    (saved.recover n now).leaseTime ≤ now + L ↔ saved.nodeId = n ∨ saved.leaseTime ≤ L := by
  refine ⟨fun hle => ?_, recover_lease_le⟩
  rw [recover_leaseTime, Nat.mod_eq_of_lt hwrap] at hle
  split_ifs at hle with hn
  · exact .inl hn
  · exact .inr (Nat.le_of_add_le_add_left hle)

/-- The leases of the nodes, and the time that their groups have noted, within their bounds. -/
structure MasterMachines.Bounded (L : ℕ) (s : MasterMachines) : Prop where
  lease : ∀ n, (s.state n).leaseTime ≤ s.now + L
  groupNow : ∀ n, s.groupNow n ≤ s.now

namespace MasterMachines.Bounded

variable {s t : MasterMachines} {e : MasterEvent}

theorem update (h : s.Bounded L) (hst : st.leaseTime ≤ s.now + L) :
    MasterMachines.Bounded L { s with state := Function.update s.state n st } := by
  refine ⟨fun m => ?_, h.groupNow⟩
  by_cases hm : m = n
  · subst hm
    simpa using hst
  · simpa [hm] using h.lease m

/-- Every step keeps the bounds that grants no longer lease and recovers no foreign one. -/
theorem step (h : s.Bounded L) (hgrants : e.GrantsAtMost codec L) (hrecovers : e.RecoversOwn L)
    (hstep : s.step codec e = some t) : t.Bounded L := by
  cases e with
  | tick now =>
    obtain ⟨hle, heq⟩ := Option.ite_none_right_eq_some.mp hstep
    obtain rfl := Option.some.inj heq
    exact ⟨fun m => (h.lease m).trans (Nat.add_le_add_right hle L),
      fun m => (h.groupNow m).trans hle⟩
  | tryBeMaster n =>
    obtain rfl := Option.some.inj hstep
    refine ⟨h.lease, fun m => ?_⟩
    by_cases hm : m = n
    · subst hm
      simp
    · simpa [hm] using h.groupNow m
  | execute n instanceId value own =>
    obtain rfl := Option.some.inj hstep
    refine h.update (MasterState.execute_lease_le (h.lease n) ?_ hgrants)
    intro time htime
    obtain ⟨-, heq⟩ := Option.ite_none_right_eq_some.mp htime
    obtain rfl := Option.some.inj heq
    exact h.groupNow n
  | makeCheckpoint n =>
    obtain rfl := Option.some.inj hstep
    exact ⟨h.lease, h.groupNow⟩
  | restart n =>
    obtain rfl := Option.some.inj hstep
    exact h.update (Nat.zero_le _)
  | recover n saved =>
    obtain ⟨-, heq⟩ := Option.ite_none_right_eq_some.mp hstep
    obtain rfl := Option.some.inj heq
    exact h.update (MasterState.recover_lease_le hrecovers)

end MasterMachines.Bounded

/-- No lease is longer than it was granted for, as long as no checkpoint is recovered on a node that
is not its master. -/
theorem lease_bounded {s : MasterMachines}
    (hrun : Reaches (MasterMachines.step codec)
      (fun _ e => e.GrantsAtMost codec L ∧ e.RecoversOwn L) {} s) (n : ℕ) :
    (s.state n).leaseTime ≤ s.now + L := by
  have hbounded : s.Bounded L := by
    refine hrun.invariant (P := MasterMachines.Bounded L)
      ⟨fun _ => Nat.zero_le _, fun _ => Nat.zero_le _⟩ ?_
    exact fun s t e hs hok hstep => hs.step hok.1 hok.2 hstep
  exact hbounded.lease n

/-- The master state of node 1 with a lease of ten milliseconds, as a string. -/
def tenMillis : List UInt8 := [0x10, 0x01, 0x18, 0x0a]

/-- At the time 1000 node 1 becomes master for ten milliseconds and makes a checkpoint. -/
def grantedRun : List MasterEvent :=
  [.tick 1000, .tryBeMaster 1, .execute 1 1 tenMillis true, .makeCheckpoint 1, .tick 1005]

/-- The node recovers from its checkpoint, and is not master any more. -/
theorem lease_bounded_grantedRun : ∃ s : MasterMachines,
    s.now = 1005 ∧ (s.state 1).leaseTime = 1005 ∧ (s.state 1).leaseTime ≤ s.now + 10 := by
  have hrun : (run (MasterMachines.step protoCodec) {}
      (grantedRun ++ [.recover 1 ⟨1, 1, 1010⟩])).map (fun s => (s.now, (s.state 1).leaseTime)) =
      some (1005, 1005) := by decide +kernel
  obtain ⟨s, hs, hpair⟩ := Option.map_eq_some_iff.mp hrun
  obtain ⟨hnow, hlease⟩ := Prod.mk.inj hpair
  have hreach : Reaches (MasterMachines.step protoCodec)
      (fun _ e => e.GrantsAtMost protoCodec 10 ∧ e.RecoversOwn 10) {} s := by
    refine Reaches.of_run _ ?_ hs
    intro e he s
    simp only [grantedRun, List.cons_append, List.nil_append, List.mem_cons, List.not_mem_nil,
      or_false] at he
    obtain rfl | rfl | rfl | rfl | rfl | rfl := he
    · exact ⟨trivial, trivial⟩
    · exact ⟨trivial, trivial⟩
    · refine ⟨fun new hnew => ?_, trivial⟩
      have hparse : protoCodec.parseMasterState tenMillis = some ⟨0, 1, 10⟩ := by decide +kernel
      obtain rfl := Option.some.inj (hparse.symm.trans hnew)
      decide
    · exact ⟨trivial, trivial⟩
    · exact ⟨trivial, trivial⟩
    · exact ⟨trivial, .inl rfl⟩
  exact ⟨s, hnow, hlease, lease_bounded hreach 1⟩

/-- Another node that recovers from the checkpoint at the time 1005 has the lease until 2015. -/
theorem lease_bounded_foreign_checkpoint :
    (run (MasterMachines.step protoCodec) {}
      (grantedRun ++ [.recover 2 ⟨1, 1, 1010⟩])).map (fun s => (s.now, s.state 2)) =
      some (1005, ⟨1, 1, 2015⟩) := by
  decide +kernel

/-! ## Who the master is -/

/-- `timeval`, as `gettimeofday` sets it. -/
structure Timeval where
  /-- The seconds since the epoch. -/
  sec : ℕ
  /-- The microseconds within the second. -/
  usec : ℕ
  /-- There are fewer than a second. -/
  usec_lt : usec < 1000000

/-- `NowMillis`: the time in milliseconds. -/
def Timeval.nowMillis (tv : Timeval) : ℕ := tv.sec * 1000 + tv.usec / 1000

/-- `NowMicros`: the time in microseconds. -/
def Timeval.nowMicros (tv : Timeval) : ℕ := tv.sec * 1000000 + tv.usec

/-- `MasterMachine::GetMaster`: the node and the version, `none` for false. -/
def MasterState.getMaster (st : MasterState) (tv : Timeval) : Option (ℕ × ℕ) :=
  if tv.nowMicros < st.leaseTime then some (st.nodeId, st.version) else none

/-- The microseconds of a time are its milliseconds and three digits more. -/
theorem Timeval.nowMillis_le_nowMicros (tv : Timeval) : tv.nowMillis ≤ tv.nowMicros := by
  unfold nowMillis nowMicros
  omega

/-- The two queries agree, and `GetMaster` is true while the lease lasts, just if the lease is over
or its end is later than the number of microseconds. -/
theorem isMaster_iff_getMaster (st : MasterState) (tv : Timeval) :
    ((∀ n, st.isMaster n tv.nowMillis = true ↔ ∃ version, st.getMaster tv = some (n, version)) ∧
      ((st.getMaster tv).isSome = true ↔ tv.nowMillis < st.leaseTime)) ↔
      st.leaseTime ≤ tv.nowMillis ∨ tv.nowMicros < st.leaseTime := by
  have hle := tv.nowMillis_le_nowMicros
  simp only [MasterState.isMaster, MasterState.getMaster, Bool.and_eq_true, decide_eq_true_eq]
  by_cases hmicros : tv.nowMicros < st.leaseTime
  · simp [hmicros, lt_of_le_of_lt hle hmicros]
  · by_cases hmillis : tv.nowMillis < st.leaseTime
    · -- Between the two numbers the lease lasts, and `GetMaster` is false.
      simp [hmicros, hmillis]
    · simp [hmicros, hmillis, Nat.le_of_not_lt hmillis]

/-- Five milliseconds after node 1 has become master for ten, it is master, and `GetMaster` finds
none. -/
theorem isMaster_getMaster_grantedRun :
    (run (MasterMachines.step protoCodec) {} grantedRun).map (fun s =>
      ((s.state 1).isMaster 1 (Timeval.nowMillis ⟨1, 5000, by decide⟩),
        (s.state 1).getMaster ⟨1, 5000, by decide⟩)) = some (true, none) := by
  decide +kernel

end Skywalker
