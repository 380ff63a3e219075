import Skywalker.Contents
import Skywalker.Library.Simulation
import Skywalker.System
import Mathlib.Data.Nat.Count
import Mathlib.Data.Int.CardIntervalMod

/-!
# The groups of a process

`NodeImpl` runs the groups of a node in one process. `OnContent` hands a content to the group that
it names, and the contents that a group sends name the group. The groups share the process: it
starts when all of them recover, and it ends for all of them when it crashes, or when one of them
has received a checkpoint and calls `_exit`.

Nodes may have different numbers of groups. A run of the processes is a run of each group by itself
(`group_runs_alone`): what the other groups do is nothing to it, except that they restart it.

The groups also share the threads of the process. `StartWorking` corrects the numbers of threads in
the options and hands the loops out in turn, so that no thread is without a group and the groups of
two threads of one kind differ by at most one in number (`loops_shared_evenly`).
-/

namespace Skywalker

open TransitionSystem

variable {n : ℕ} {x : Node} {E : ℕ → Env} {dirs : ℕ → Node → List (ℕ × Machines)}

/-! ## Processes -/

/-- `Options::groups` of all nodes; the index of the options is the group id. -/
structure Deployment where
  /-- The options of the groups of a node. -/
  groups : ℕ → List Config
  /-- Each node has its own id. -/
  nodeId_eq : ∀ n, ∀ c ∈ groups n, c.nodeId = n

/-- The nodes of one group. One that does not have the group is a node that does nothing. -/
def Deployment.setup (O : Deployment) (g : ℕ) : Setup where
  config n := (O.groups n)[g]?.getD { nodeId := n, membership := [], codec := .empty }
  nodeId_eq n := by
    cases h : (O.groups n)[g]? with
    | none => rfl
    | some c => exact O.nodeId_eq n c (List.mem_of_getElem? h)

/-- The groups of each node, in the order of `groups_`. -/
abbrev Processes := ℕ → List Node

/-- What can happen to the processes. -/
inductive ProcessLabel where
  /-- A content reaches `NodeImpl::OnContent` of a node. -/
  | content (n : ℕ) (c : Content)
  /-- A loop of a group runs something else. -/
  | event (n g : ℕ) (ev : NodeEvent)
  /-- A process crashes, and a new one starts. -/
  | restart (n : ℕ)
  /-- A group has received a checkpoint of its group at `source`, the process exits, and a new one
  starts. -/
  | install (n g source checkpointId : ℕ)

/-- `NodeImpl::StartWorking` up to the threads: the groups recover one after the other, from the
directories `dirs` of checkpoints, and the first failure is that of the process. -/
def NodeImpl.startWorking (E : ℕ → Env) (dirs : ℕ → Node → List (ℕ × Machines)) :
    ℕ → List Node → Option (List Node)
  | _, [] => some []
  | i, x :: l =>
    match Node.recover (E i) x.config x.db (dirs i x) x.trace with
    | some y => (startWorking E dirs (i + 1) l).map (y :: ·)
    | none => none

/-- The group and the event of `Instance::OnContent`. A content without a known type is an error
entry in the log. -/
def Content.event : Content → Option (ℕ × NodeEvent)
  | .paxosMessage g msg => some (g, .paxosMessage msg)
  | .checkpointMessage g _ => some (g, .checkpointMessage)
  | .other _ => none

/-- Whether an event is a message of another node, which only comes as a content. -/
def NodeEvent.isMessage : NodeEvent → Bool
  | .paxosMessage _ => true
  | _ => false

namespace Processes

/-- All processes at their first start. -/
def init (O : Deployment) : Processes := fun n => (O.groups n).map Node.fresh

/-- Whether a content to a node is or was in the network. A group sends its messages with its id. -/
def inFlight (s : Processes) (n : ℕ) : Content → Bool
  | .paxosMessage g msg => (s msg.nodeId)[g]?.any fun x => x.trace.any (Event.delivers n msg)
  | .checkpointMessage _ _ => true
  | .other _ => false

/-- An event of a group of a node. -/
def runEvent (s : Processes) (E : Env) (n g : ℕ) (x : Node) (ev : NodeEvent) : Option Processes :=
  (x.step E ev).map fun y => Function.update s n ((s n).set g y)

/-- A new process of a node. -/
def start (s : Processes) (E : ℕ → Env) (dirs : ℕ → Node → List (ℕ × Machines)) (n : ℕ) :
    Option Processes :=
  (NodeImpl.startWorking E dirs 0 (s n)).map (Function.update s n)

/-- One step, in the environments of the groups. -/
def step (s : Processes) (a : (ℕ → Env) × ProcessLabel) : Option Processes :=
  match a.2 with
  | .content n c =>
    if inFlight s n c then
      match c.event with
      | none => some s
      | some (g, ev) =>
        -- A content for a group that the node does not have is dropped.
        match (s n)[g]? with
        | none => some s
        | some x => runEvent s (a.1 g) n g x ev
    else none
  | .event n g ev =>
    if ev.isMessage then none else (s n)[g]?.bind fun x => runEvent s (a.1 g) n g x ev
  | .restart n => start s a.1 (fun _ x => x.checkpoints) n
  | .install n g source checkpointId =>
    match (s n)[g]?, (s source)[g]? with
    | some x, some y =>
      if checkpointId ∈ x.checkpoints.map Prod.fst then none
      else
        (y.checkpoints.lookup checkpointId).bind fun saved =>
          start s a.1 (fun k z =>
            if k = g then (checkpointId, saved) :: z.checkpoints else z.checkpoints) n
    | _, _ => none

end Processes

/-! ## One group of the processes -/

/-- The nodes of a group. -/
def Processes.group (O : Deployment) (g : ℕ) (s : Processes) : Sys :=
  fun n => (s n)[g]?.getD (Node.fresh ((O.setup g).config n))

/-- What a step of the processes is for a group: a step of its own, or nothing. -/
def ProcessLabel.ofGroup (s : Processes) (g : ℕ) : ProcessLabel → Option Label
  | .content n c =>
    match c.event with
    | none => none
    | some (k, ev) => if k = g ∧ g < (s n).length then some (.node n ev) else none
  | .event n k ev => if k = g then some (.node n ev) else none
  | .restart n => if g < (s n).length then some (.restart n) else none
  | .install n k source checkpointId =>
    if k = g then some (.install n source checkpointId)
    else if g < (s n).length then some (.restart n) else none

section

variable {O : Deployment} {s t : Processes} {g : ℕ}

theorem Processes.group_init (O : Deployment) (g : ℕ) :
    (init O).group O g = System.init (O.setup g) := by
  funext n
  have hconfig : (O.setup g).config n =
      (O.groups n)[g]?.getD { nodeId := n, membership := [], codec := .empty } := rfl
  unfold group init System.init
  rw [List.getElem?_map, hconfig]
  cases (O.groups n)[g]? <;> rfl

theorem Processes.group_of_some (h : (s n)[g]? = some x) :
    s.group O g n = x := by
  rw [group, h, Option.getD_some]

theorem Processes.group_update (n : ℕ) (l : List Node) :
    group O g (Function.update s n l) =
      Function.update (s.group O g) n (l[g]?.getD (Node.fresh ((O.setup g).config n))) := by
  funext k
  by_cases hk : k = n
  · subst hk
    simp only [group, Function.update_self]
  · simp only [group, Function.update_of_ne hk]

theorem Processes.group_update_of_eq {l : List Node} (h : l[g]? = (s n)[g]?) :
    group O g (Function.update s n l) = s.group O g := by
  rw [group_update, h]
  exact Function.update_eq_self n (s.group O g)

theorem Processes.group_runEvent_of_ne {E : Env} {k : ℕ} {ev : NodeEvent} (hne : k ≠ g)
    (h : runEvent s E n k x ev = some t) : t.group O g = s.group O g := by
  obtain ⟨y, -, rfl⟩ := Option.map_eq_some_iff.mp h
  exact group_update_of_eq (List.getElem?_set_ne hne)

/-- An event of the group is a step of its system. -/
theorem Processes.group_runEvent {E : Env} {ev : NodeEvent} (hx : (s n)[g]? = some x)
    (hallowed : System.allowed (s.group O g) n ev = true) (h : runEvent s E n g x ev = some t) :
    System.step (s.group O g) (E, .node n ev) = some (t.group O g) := by
  obtain ⟨y, hy, rfl⟩ := Option.map_eq_some_iff.mp h
  have hlt : g < (s n).length := (List.getElem?_eq_some_iff.mp hx).1
  simp only [System.step, hallowed, if_true, group_of_some hx, hy, Option.map_some, group_update,
    List.getElem?_set_self hlt, Option.getD_some]

theorem Processes.inFlight_group {msg : PaxosMessage}
    (h : s.inFlight n (.paxosMessage g msg) = true) :
    (s.group O g).inFlight n msg = true := by
  simp only [inFlight] at h
  cases hx : (s msg.nodeId)[g]? with
  | none => simp [hx] at h
  | some x =>
    rw [hx, Option.any_some] at h
    rw [Sys.inFlight, group_of_some hx]
    exact h

/-- A process that starts has recovered each of its groups. -/
theorem NodeImpl.startWorking_getElem? {i : ℕ} {l l' : List Node}
    (h : startWorking E dirs i l = some l') (k : ℕ) :
    (l[k]? = none ∧ l'[k]? = none) ∨ ∃ x y, l[k]? = some x ∧ l'[k]? = some y ∧
      Node.recover (E (i + k)) x.config x.db (dirs (i + k) x) x.trace = some y := by
  induction l generalizing i l' k with
  | nil =>
    obtain rfl := Option.some.inj h
    exact .inl ⟨rfl, rfl⟩
  | cons x l ih =>
    unfold startWorking at h
    split at h
    case h_1 y hy =>
      obtain ⟨l₂, hl₂, rfl⟩ := Option.map_eq_some_iff.mp h
      cases k with
      | zero => exact .inr ⟨x, y, rfl, rfl, hy⟩
      | succ k =>
        have hindex : i + (k + 1) = i + 1 + k := by omega
        rw [hindex]
        exact ih hl₂ k
    case h_2 => cases h

theorem Processes.group_start_of_none (hnone : (s n)[g]? = none) (h : start s E dirs n = some t) :
    t.group O g = s.group O g := by
  obtain ⟨l, hl, rfl⟩ := Option.map_eq_some_iff.mp h
  rcases NodeImpl.startWorking_getElem? hl g with ⟨hs, ht⟩ | ⟨x, y, hs, -⟩
  · exact group_update_of_eq (ht.trans hs.symm)
  · rw [hnone] at hs
    cases hs

/-- A new process, for a group that the node has: it recovers. -/
theorem Processes.group_start (hx : (s n)[g]? = some x) (h : start s E dirs n = some t) :
    (Node.recover (E g) x.config x.db (dirs g x) x.trace).map
      (Function.update (s.group O g) n) = some (t.group O g) := by
  obtain ⟨l, hl, rfl⟩ := Option.map_eq_some_iff.mp h
  rcases NodeImpl.startWorking_getElem? hl g with ⟨hs, -⟩ | ⟨x', y, hs, ht, hrec⟩
  · rw [hx] at hs
    cases hs
  · obtain rfl := Option.some.inj (hx.symm.trans hs)
    rw [Nat.zero_add] at hrec
    rw [hrec, Option.map_some, group_update, ht, Option.getD_some]

/-- **A step of the processes is a step of the group, or nothing.** -/
theorem Processes.step_group {a : (ℕ → Env) × ProcessLabel} (h : step s a = some t) :
    (a.2.ofGroup s g = none ∧ t.group O g = s.group O g) ∨
      ∃ l, a.2.ofGroup s g = some l ∧
        System.step (s.group O g) (a.1 g, l) = some (t.group O g) := by
  obtain ⟨E, l⟩ := a
  cases l with
  | content n c =>
    -- `OnMessage` parses the content, looks its group up and drops what has none.
    obtain ⟨hflight, hrest⟩ := Option.ite_none_right_eq_some.mp h
    cases hev : c.event with
    | none =>
      simp only [hev] at hrest
      obtain rfl := Option.some.inj hrest
      exact .inl ⟨by simp [ProcessLabel.ofGroup, hev], rfl⟩
    | some p =>
      obtain ⟨k, ev⟩ := p
      simp only [hev] at hrest
      cases hx : (s n)[k]? with
      -- A group id beyond those of the process: the content is dropped.
      | none =>
        simp only [hx] at hrest
        obtain rfl := Option.some.inj hrest
        refine .inl ⟨?_, rfl⟩
        have hlen := List.getElem?_eq_none_iff.mp hx
        simp only [ProcessLabel.ofGroup, hev]
        exact if_neg fun hk => by omega
      | some x =>
        simp only [hx] at hrest
        have hlt : k < (s n).length := (List.getElem?_eq_some_iff.mp hx).1
        by_cases hk : k = g
        · subst hk
          refine .inr ⟨.node n ev, by simp [ProcessLabel.ofGroup, hev, hlt], ?_⟩
          refine group_runEvent hx ?_ hrest
          cases c with
          | paxosMessage g msg =>
            obtain ⟨rfl, rfl⟩ := Prod.mk.inj (Option.some.inj hev)
            exact inFlight_group hflight
          | checkpointMessage g msg =>
            obtain ⟨rfl, rfl⟩ := Prod.mk.inj (Option.some.inj hev)
            rfl
          | other raw => cases hev
        · exact .inl ⟨by simp [ProcessLabel.ofGroup, hev, hk], group_runEvent_of_ne hk hrest⟩
  | event n k ev =>
    obtain ⟨hmsg, hrest⟩ := Option.ite_none_left_eq_some.mp h
    obtain ⟨x, hx, hrun⟩ := Option.bind_eq_some_iff.mp hrest
    by_cases hk : k = g
    · subst hk
      refine .inr ⟨.node n ev, if_pos rfl, group_runEvent hx ?_ hrun⟩
      cases ev with
      | paxosMessage msg => exact absurd rfl hmsg
      | _ => rfl
    · exact .inl ⟨if_neg hk, group_runEvent_of_ne hk hrun⟩
  | restart n =>
    -- A restart of the process is one of every group that it has.
    have hstart : start s E (fun _ x => x.checkpoints) n = some t := h
    cases hx : (s n)[g]? with
    | none =>
      have hlen := List.getElem?_eq_none_iff.mp hx
      exact .inl ⟨if_neg (Nat.not_lt.mpr hlen), group_start_of_none hx hstart⟩
    | some x =>
      refine .inr ⟨.restart n, if_pos (List.getElem?_eq_some_iff.mp hx).1, ?_⟩
      have hgroup := group_start (O := O) hx hstart
      simp only [System.step, group_of_some hx]
      exact hgroup
  | install n k source checkpointId =>
    simp only [step] at h
    split at h
    case h_2 => cases h
    case h_1 x y hx hy =>
      obtain ⟨hnew, hrest⟩ := Option.ite_none_left_eq_some.mp h
      obtain ⟨saved, hsaved, hstart⟩ := Option.bind_eq_some_iff.mp hrest
      by_cases hk : k = g
      · subst hk
        refine .inr ⟨.install n source checkpointId, if_pos rfl, ?_⟩
        have hgroup := group_start (O := O) hx hstart
        rw [if_pos rfl] at hgroup
        simp only [System.step, group_of_some hx, group_of_some hy, if_neg hnew, hsaved,
          Option.bind_some]
        exact hgroup
      · -- Another group ends the process.
        cases hz : (s n)[g]? with
        | none =>
          have hlen := List.getElem?_eq_none_iff.mp hz
          refine .inl ⟨?_, group_start_of_none hz hstart⟩
          simp only [ProcessLabel.ofGroup, if_neg hk, if_neg (Nat.not_lt.mpr hlen)]
        | some z =>
          have hlt := (List.getElem?_eq_some_iff.mp hz).1
          refine .inr ⟨.restart n, by simp only [ProcessLabel.ofGroup, if_neg hk, if_pos hlt], ?_⟩
          have hgroup := group_start (O := O) hz hstart
          rw [if_neg fun heq => hk heq.symm] at hgroup
          simp only [System.step, group_of_some hz]
          exact hgroup

/-- **Each group runs by itself.** Whatever the processes do, the nodes of each group are in a state
that the group reaches without the others; a condition on the steps of the groups is one on the
steps of that run. -/
theorem group_runs_alone {ok : ℕ → Sys → Env × Label → Prop}
    (hrun : Reaches Processes.step
      (fun s a => ∀ g l, a.2.ofGroup s g = some l → ok g (s.group O g) (a.1 g, l))
      (Processes.init O) s) (g : ℕ) :
    Reaches System.step (ok g) (System.init (O.setup g)) (s.group O g) := by
  have hsim : ∃ u, Reaches System.step (ok g) (System.init (O.setup g)) u ∧ s.group O g = u := by
    refine hrun.simulates (R := fun s u => s.group O g = u) (Processes.group_init O g) ?_
    rintro s t - a rfl hok hstep
    rcases Processes.step_group (O := O) (g := g) hstep with ⟨-, hsame⟩ | ⟨l, hl, hgroup⟩
    · exact ⟨_, .refl, hsame⟩
    · exact ⟨_, .tail (a.1 g, l) .refl (hok g l hl) hgroup, rfl⟩
  obtain ⟨u, hreach, rfl⟩ := hsim
  exact hreach

end

/-- Two nodes with two groups each. -/
def twoGroups : Deployment where
  groups n :=
    let config : Config :=
      { nodeId := n, membership := [{ id := 1 }, { id := 2 }], codec := .empty }
    [config, config]
  nodeId_eq n c hc := by
    simp only [List.mem_cons, List.not_mem_nil, or_false, or_self] at hc
    rw [hc]

/-- Node 1 proposes in the second group, node 2 promises, and crashes. -/
def secondGroupPrepares : List ((ℕ → Env) × ProcessLabel) :=
  [(fun _ => {}, .event 1 1 (.propose 7 [1] none 256)),
   (fun _ => {}, .content 2 (.paxosMessage 1
      { type := .prepare, nodeId := 1, instanceId := 1, proposalId := 1 })),
   (fun _ => {}, .restart 2)]

/-- In its own run the second group has the promise on the disk of node 2. -/
theorem group_runs_alone_second : ∃ t, Reaches System.step (fun _ _ => True)
    (System.init (twoGroups.setup 1)) t ∧ (t 2).acceptor.promisedBallot = ⟨1, 1⟩ := by
  have hend : (run Processes.step (Processes.init twoGroups) secondGroupPrepares).map
      (fun s => (s.group twoGroups 1 2).acceptor.promisedBallot) = some ⟨1, 1⟩ := by
    decide +kernel
  obtain ⟨s, hs, hpromise⟩ := Option.map_eq_some_iff.mp hend
  exact ⟨_, @group_runs_alone twoGroups s (fun _ _ _ => True)
    (.of_run secondGroupPrepares (fun _ _ _ _ _ _ => trivial) hs) 1, hpromise⟩

/-! ## The threads of the groups -/

/-- The numbers of threads in `Options`. -/
structure ThreadSizes where
  /-- The option `io_thread_size`; zero asks for the default. -/
  io : ℕ := 0
  /-- The option `callback_thread_size`. -/
  callback : ℕ := 1
  /-- The option `learn_thread_size`. -/
  learn : ℕ := 1
  /-- The option `clean_thread_size`. -/
  clean : ℕ := 1
  /-- The option `master_thread_size`. -/
  master : ℕ := 1
deriving DecidableEq, Repr

/-- A number of threads as `StartWorking` corrects it: zero stands for a default, and there are no
more threads than groups. -/
def correctSize (default groups size : ℕ) : ℕ :=
  if size = 0 then default else if groups < size then groups else size

/-- The numbers of threads that `StartWorking` starts. There may be no thread for masters. -/
def ThreadSizes.corrected (groups : ℕ) (o : ThreadSizes) : ThreadSizes where
  io := correctSize ((groups + 1) / 2) groups o.io
  callback := correctSize 1 groups o.callback
  learn := correctSize 1 groups o.learn
  clean := correctSize 1 groups o.clean
  master := if groups < o.master then groups else o.master

/-- The loops of one kind, and the index of the next. -/
structure LoopRing where
  size : ℕ
  /-- The index of the loop that is given out next. -/
  next : ℕ := 0
deriving DecidableEq, Repr

/-- The `GetNext…Loop` of the kinds that have a loop: the index that it reads, and the ring. -/
def LoopRing.getNext (r : LoopRing) : ℕ × LoopRing :=
  let next := if r.next = r.size then 0 else r.next
  (next, { r with next := next + 1 })

/-- `GetNextMasterLoop`, which is null without a loop. -/
def LoopRing.getNextMaster (r : LoopRing) : Option ℕ × LoopRing :=
  if r.size = 0 then (none, r) else (some r.getNext.1, r.getNext.2)

/-- The loops of `ThreadPool`, one ring for each kind. -/
structure ThreadPool where
  io : LoopRing
  callback : LoopRing
  learn : LoopRing
  clean : LoopRing
  master : LoopRing

/-- `ThreadPool::Start` makes the rings of the sizes that the options ask for. -/
def ThreadPool.start (o : ThreadSizes) : ThreadPool :=
  ⟨{ size := o.io }, { size := o.callback }, { size := o.learn }, { size := o.clean },
    { size := o.master }⟩

/-- The loops that `Group::Start` gets. -/
structure GroupLoops where
  io : ℕ
  callback : ℕ
  learn : ℕ
  clean : ℕ
  master : Option ℕ
deriving DecidableEq, Repr

/-- The loop of `StartWorking` that starts the groups. -/
def ThreadPool.startGroups : ℕ → ThreadPool → List GroupLoops
  | 0, _ => []
  | n + 1, p =>
    let io := p.io.getNext
    let callback := p.callback.getNext
    let learn := p.learn.getNext
    let clean := p.clean.getNext
    let master := p.master.getNextMaster
    ⟨io.1, callback.1, learn.1, clean.1, master.1⟩ ::
      startGroups n ⟨io.2, callback.2, learn.2, clean.2, master.2⟩

/-- The loops of the groups of a process. -/
def NodeImpl.groupLoops (groups : ℕ) (o : ThreadSizes) : List GroupLoops :=
  (ThreadPool.start (o.corrected groups)).startGroups groups

/-- A ring of `size` loops that has been asked `i` times. -/
structure LoopRing.Asked (size i : ℕ) (r : LoopRing) : Prop where
  size_eq : r.size = size
  next_le : r.next ≤ size
  next_mod : 0 < size → r.next % size = i % size

namespace LoopRing

variable {size i : ℕ} {r : LoopRing}

theorem Asked.start (size : ℕ) : Asked size 0 { size := size } := ⟨rfl, Nat.zero_le _, fun _ => rfl⟩

theorem Asked.getNext_fst (h : r.Asked size i) (hsize : 0 < size) : r.getNext.1 = i % size := by
  have hle := h.next_le
  rw [← h.next_mod hsize]
  simp only [getNext, h.size_eq]
  split_ifs with hnext
  · rw [hnext, Nat.mod_self]
  · exact (Nat.mod_eq_of_lt (by omega)).symm

theorem Asked.getNext_snd (h : r.Asked size i) (hsize : 0 < size) :
    r.getNext.2.Asked size (i + 1) := by
  have hnext : r.getNext.2.next = i % size + 1 := by
    rw [← h.getNext_fst hsize]
    rfl
  have hlt := Nat.mod_lt i hsize
  refine ⟨h.size_eq, by omega, fun _ => ?_⟩
  rw [hnext, Nat.mod_add_mod]

theorem Asked.getNextMaster (h : r.Asked size i) :
    r.getNextMaster.1 = (if size = 0 then none else some (i % size)) ∧
      r.getNextMaster.2.Asked size (i + 1) := by
  unfold LoopRing.getNextMaster
  rw [h.size_eq]
  split_ifs with hsize
  · exact ⟨rfl, h.size_eq, h.next_le, fun hpos => absurd hsize hpos.ne'⟩
  · have hpos := Nat.pos_of_ne_zero hsize
    exact ⟨congrArg some (h.getNext_fst hpos), h.getNext_snd hpos⟩

end LoopRing

/-- The kinds of loops that a group is given. -/
inductive LoopKind where
  | io
  | callback
  | learn
  | clean
  | master
deriving DecidableEq, Repr

/-- The number of threads of a kind. -/
def ThreadSizes.size (o : ThreadSizes) : LoopKind → ℕ
  | .io => o.io
  | .callback => o.callback
  | .learn => o.learn
  | .clean => o.clean
  | .master => o.master

/-- The loop of a kind that a group has. -/
def GroupLoops.loop (l : GroupLoops) : LoopKind → Option ℕ
  | .io => some l.io
  | .callback => some l.callback
  | .learn => some l.learn
  | .clean => some l.clean
  | .master => l.master

/-- The kinds without which no group can run. -/
structure ThreadSizes.Positive (o : ThreadSizes) : Prop where
  io : 0 < o.io
  callback : 0 < o.callback
  learn : 0 < o.learn
  clean : 0 < o.clean

/-- The loops of the group with the id `i`. -/
def ThreadSizes.loops (o : ThreadSizes) (i : ℕ) : GroupLoops :=
  ⟨i % o.io, i % o.callback, i % o.learn, i % o.clean,
    if o.master = 0 then none else some (i % o.master)⟩

/-- The groups get the loops in turn. -/
theorem ThreadPool.startGroups_eq {o : ThreadSizes} (ho : o.Positive) (n i : ℕ) {p : ThreadPool}
    (hio : p.io.Asked o.io i) (hcallback : p.callback.Asked o.callback i)
    (hlearn : p.learn.Asked o.learn i) (hclean : p.clean.Asked o.clean i)
    (hmaster : p.master.Asked o.master i) :
    p.startGroups n = (List.range' i n).map o.loops := by
  induction n generalizing i p with
  | zero => rfl
  | succ n ih =>
    obtain ⟨hfirst, hrest⟩ := hmaster.getNextMaster
    rw [startGroups, List.range'_succ, List.map_cons]
    rw [hio.getNext_fst ho.io, hcallback.getNext_fst ho.callback, hlearn.getNext_fst ho.learn,
      hclean.getNext_fst ho.clean, hfirst]
    refine congrArg₂ List.cons rfl (ih (i + 1) ?_ ?_ ?_ ?_ hrest)
    · exact hio.getNext_snd ho.io
    · exact hcallback.getNext_snd ho.callback
    · exact hlearn.getNext_snd ho.learn
    · exact hclean.getNext_snd ho.clean

/-- A corrected number is one of a thread at least, and of a group at most. -/
theorem correctSize_bounds {default groups size : ℕ} (hdefault : 0 < default)
    (hle : default ≤ groups) :
    0 < correctSize default groups size ∧ correctSize default groups size ≤ groups := by
  unfold correctSize
  split_ifs <;> omega

/-- The corrected numbers are positive, but for that of the masters, and at most the number of
groups. -/
theorem ThreadSizes.corrected_bounds {groups : ℕ} (hgroups : 0 < groups) (o : ThreadSizes) :
    (o.corrected groups).Positive ∧ ∀ kind, (o.corrected groups).size kind ≤ groups := by
  have hio : 0 < (groups + 1) / 2 ∧ (groups + 1) / 2 ≤ groups := by omega
  refine ⟨⟨(correctSize_bounds hio.1 hio.2).1, (correctSize_bounds Nat.one_pos hgroups).1,
    (correctSize_bounds Nat.one_pos hgroups).1, (correctSize_bounds Nat.one_pos hgroups).1⟩, ?_⟩
  intro kind
  cases kind with
  | io => exact (correctSize_bounds hio.1 hio.2).2
  | master =>
    change (if groups < o.master then groups else o.master) ≤ groups
    split_ifs <;> omega
  | _ => exact (correctSize_bounds Nat.one_pos hgroups).2

theorem countP_range_mod {k : ℕ} (hn : 0 < n) (hk : k < n) (b : ℕ) :
    (List.range b).countP (fun i => i % n = k) = b / n + if k < b % n then 1 else 0 := by
  have hcount : (List.range b).countP (fun i => i % n = k) =
      Nat.count (fun i => i ≡ k [MOD n]) b := by
    rw [Nat.count]
    refine List.countP_congr fun i _ => ?_
    simp [Nat.ModEq, Nat.mod_eq_of_lt hk]
  rw [hcount, Nat.count_modEq_card b hn, Nat.mod_eq_of_lt hk]

/-- **The groups share the threads evenly.** Whatever numbers of threads the options have, a process
with a group starts at most as many threads of each kind as groups, and at least one, except for
masters when the options say zero. Each group then has a loop of each kind, and each loop has a
group; the numbers of groups of two loops of one kind differ by at most one. -/
theorem loops_shared_evenly {groups : ℕ} (hgroups : 0 < groups) (o : ThreadSizes)
    (kind : LoopKind) (hmaster : kind = .master → 0 < o.master) :
    0 < (o.corrected groups).size kind ∧ (o.corrected groups).size kind ≤ groups ∧
    (∀ l ∈ NodeImpl.groupLoops groups o,
      ∃ k < (o.corrected groups).size kind, l.loop kind = some k) ∧
    ∀ k < (o.corrected groups).size kind,
      1 ≤ (NodeImpl.groupLoops groups o).countP (fun l => l.loop kind = some k) ∧
      groups / (o.corrected groups).size kind ≤
        (NodeImpl.groupLoops groups o).countP (fun l => l.loop kind = some k) ∧
      (NodeImpl.groupLoops groups o).countP (fun l => l.loop kind = some k) ≤
        groups / (o.corrected groups).size kind + 1 := by
  obtain ⟨hpos, hle⟩ := o.corrected_bounds hgroups
  -- The groups get the loops of each kind in turn: group `i` gets loop `i % n`.
  have hloops : NodeImpl.groupLoops groups o =
      (List.range groups).map (o.corrected groups).loops := by
    rw [List.range_eq_range']
    exact ThreadPool.startGroups_eq hpos groups 0 (.start _) (.start _) (.start _) (.start _)
      (.start _)
  have hsize : 0 < (o.corrected groups).size kind := by
    cases kind with
    | io => exact hpos.io
    | callback => exact hpos.callback
    | learn => exact hpos.learn
    | clean => exact hpos.clean
    | master =>
      have := hmaster rfl
      change 0 < if groups < o.master then groups else o.master
      split_ifs <;> omega
  generalize hn : (o.corrected groups).size kind = n at hsize ⊢
  have hloop : ∀ i, ((o.corrected groups).loops i).loop kind = some (i % n) := by
    intro i
    subst hn
    cases kind with
    | master => exact if_neg hsize.ne'
    | _ => rfl
  refine ⟨hsize, hn ▸ hle kind, fun l hl => ?_, fun k hk => ?_⟩
  · rw [hloops] at hl
    obtain ⟨i, -, rfl⟩ := List.mem_map.mp hl
    exact ⟨i % n, Nat.mod_lt i hsize, hloop i⟩
  · have hcount : (NodeImpl.groupLoops groups o).countP (fun l => l.loop kind = some k) =
        groups / n + if k < groups % n then 1 else 0 := by
      rw [hloops, List.countP_map, ← countP_range_mod hsize hk]
      refine List.countP_congr fun i _ => ?_
      simp [hloop]
    have hdiv : 1 ≤ groups / n := (Nat.one_le_div_iff hsize).mpr (hn ▸ hle kind)
    rw [hcount]
    split_ifs <;> omega

/-- Five groups without a number of threads: three loops, with one or two groups each. -/
theorem loops_shared_evenly_five :
    1 ≤ (NodeImpl.groupLoops 5 {}).countP (fun l => l.loop .io = some 2) ∧
      (NodeImpl.groupLoops 5 {}).countP (fun l => l.loop .io = some 2) ≤ 2 := by
  have heven := loops_shared_evenly (Nat.succ_pos 4) {} .io LoopKind.noConfusion
  obtain ⟨h1, -, h2⟩ := heven.2.2.2 2 (by decide)
  exact ⟨h1, h2⟩

end Skywalker
