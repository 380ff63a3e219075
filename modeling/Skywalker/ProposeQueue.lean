import Skywalker.Proposing
import Skywalker.Durable

/-!
# The queue of proposals

`ProposeQueue` lets one proposal at a time into the I/O loop of a group and hands the completions of
the node to the callback loop. The clients' threads call `Put` at any time, under the queue's mutex,
and the I/O loop runs one function after the other, so that a `Put` in the middle of a function
comes before or after the one `ProposeComplete` that the function calls: the functions of the loop
are single steps here.

Handlers and callbacks carry the number of their `Put` among those that returned true. The queue
itself does not compare them. `Orderly` says why it need not: with at most one proposal past the
queue, both run in the order of the numbers.
-/

namespace Skywalker

open TransitionSystem

/-- `ProposeHandler`: what `Group` puts into the queue. -/
inductive ProposeHandler where
  /-- A call of `Instance::OnPropose` with its arguments. -/
  | onPropose (machineId : ℕ) (value : List UInt8) (context : Option Context)
  /-- A call of `Group::TryBeMasterInLoop`. -/
  | tryBeMasterInLoop
deriving DecidableEq, Repr

/-- A call that `ProposeComplete` queues in the callback loop. -/
structure Completion where
  /-- The number of the `Put` that brought the callback. -/
  callback : ℕ
  /-- The number of the `Put` that brought the handler run last. -/
  handler : ℕ
  instanceId : ℕ
  status : Status
deriving DecidableEq, Repr

/-- A group as far as proposals are concerned: its node, its `ProposeQueue`, and what the queue has
given to the two loops. -/
structure GroupState where
  /-- The node below the queue. -/
  node : Node
  /-- `capacity_`; zero stands for no limit. -/
  capacity : ℕ
  /-- `last_finished_`: whether no proposal is under way. -/
  lastFinished : Bool := true
  /-- `propose_queue_`: the proposals that wait, with their numbers. -/
  proposeQueue : List (ℕ × ProposeHandler) := []
  /-- `cb_queue_`: the callers that wait for a result. -/
  cbQueue : List ℕ := []
  /-- The handlers in the I/O loop. -/
  ioLoop : List (ℕ × ProposeHandler) := []
  /-- What was queued in the callback loop, oldest first. -/
  callbackLoop : List Completion := []
  /-- How many calls of `Put` returned true. -/
  accepted : ℕ := 0
  /-- The number of the handler run last. -/
  running : ℕ := 0
  /-- Whether every assertion held so far. -/
  asserted : Bool := true

/-! ## The functions -/

/-- `ProposeQueue::CheckCapacity`: whether another proposal is taken. -/
def ProposeQueue.checkCapacity (g : GroupState) : Bool :=
  !(g.capacity ≠ 0 && g.capacity < g.proposeQueue.length)

/-- `ProposeQueue::Put`, with whether the proposal was taken. -/
def ProposeQueue.put (f : ProposeHandler) (g : GroupState) : Bool × GroupState :=
  let accept (g : GroupState) : GroupState :=
    { g with cbQueue := g.cbQueue ++ [g.accepted], accepted := g.accepted + 1 }
  if g.lastFinished then
    (true, accept { g with lastFinished := false, ioLoop := g.ioLoop ++ [(g.accepted, f)] })
  else if checkCapacity g then
    (true, accept { g with proposeQueue := g.proposeQueue ++ [(g.accepted, f)] })
  else (false, g)

/-- `ProposeQueue::ProposeComplete` answers the first caller and starts the next proposal. -/
def ProposeQueue.proposeComplete (g : GroupState) (c : ℕ × Status) : GroupState :=
  let g := { g with asserted := g.asserted && !g.lastFinished && !g.cbQueue.isEmpty }
  match g.cbQueue with
  | [] => g
  | cb :: cbs =>
    let call : Completion :=
      { callback := cb, handler := g.running, instanceId := c.1, status := c.2 }
    let g := { g with cbQueue := cbs, callbackLoop := g.callbackLoop ++ [call] }
    match g.proposeQueue with
    | [] => { g with lastFinished := true }
    | f :: fs => { g with ioLoop := g.ioLoop ++ [f], proposeQueue := fs }

/-- The node has run a function of its loop, which called `propose_cb_` as its trace says. -/
def GroupState.afterLoop (g : GroupState) (y : Node) : GroupState :=
  (completions (y.trace.take (y.trace.length - g.node.trace.length))).foldl
    ProposeQueue.proposeComplete { g with node := y }

/-- The assertions at the beginning of `Instance::OnPropose`. -/
def Instance.onProposeAsserts (s : Node) : Bool :=
  !s.isValidNodeId s.nodeId || (!s.isProposing && s.context.isNone)

/-- The assertions that a handler meets. -/
def ProposeHandler.asserts (E : Env) (s : Node) : ProposeHandler → Bool
  | .onPropose _ _ _ => Instance.onProposeAsserts s
  | .tryBeMasterInLoop =>
    !(s.machines.master.leaseTime ≤ E.nowMillis || s.machines.master.nodeId = s.nodeId) ||
      Instance.onProposeAsserts s

/-- A handler, with the number that the random engine draws. -/
def ProposeHandler.run (E : Env) (draw : ℕ) (s : Node) : ProposeHandler → Node
  | .onPropose machineId value context => Instance.onPropose E machineId value context draw s
  | .tryBeMasterInLoop => Group.tryBeMasterInLoop E draw s

/-- What can happen to a group. -/
inductive GroupLabel where
  /-- A client's thread calls `Put`. -/
  | put (f : ProposeHandler)
  /-- The I/O loop runs the next handler. -/
  | handler (E : Env) (draw : ℕ)
  /-- The I/O loop runs anything else. -/
  | other (E : Env) (ev : NodeEvent)

/-- One step of a group. -/
def GroupState.step (g : GroupState) : GroupLabel → Option GroupState
  | .put f => some (ProposeQueue.put f g).2
  | .handler E draw =>
    match g.ioLoop with
    | [] => none
    | (i, f) :: fs =>
      if drawOk draw then
        let g := { g with ioLoop := fs, running := i, asserted := g.asserted && f.asserts E g.node }
        some (g.afterLoop (f.run E draw g.node))
      else none
  | .other E ev => if ev.isHandler then none else (g.node.step E ev).map g.afterLoop

/-- A group whose node has just recovered. -/
def GroupState.start (capacity : ℕ) (x : Node) : GroupState := { node := x, capacity := capacity }

/-! ## The order of the numbers -/

/-- What the queue keeps, where `busy` says whether a handler has run and not completed yet. -/
structure GroupState.Orderly (busy : Bool) (g : GroupState) : Prop where
  /-- No assertion of the source has failed. -/
  asserted : g.asserted = true
  /-- One proposal is past the queue, or the last one is finished. -/
  outstanding : g.ioLoop.length + busy.toNat = (!g.lastFinished).toNat
  /-- Proposals wait only behind another. -/
  idle : g.lastFinished = true → g.proposeQueue = []
  /-- The callbacks that wait are the next ones, up to the last `Put`. -/
  cbQueue : g.cbQueue = List.range' g.callbackLoop.length g.cbQueue.length
  accepted : g.accepted = g.callbackLoop.length + g.cbQueue.length
  /-- The handlers that wait are the next ones after the one that is running. -/
  handlers : (g.ioLoop ++ g.proposeQueue).map Prod.fst =
    List.range' (g.callbackLoop.length + busy.toNat) (g.ioLoop ++ g.proposeQueue).length
  /-- Each callback that waits has its handler. -/
  paired : g.cbQueue.length = busy.toNat + (g.ioLoop ++ g.proposeQueue).length
  running : busy = true → g.running = g.callbackLoop.length
  /-- What was queued in the callback loop is in order. -/
  callbacks : g.callbackLoop.map Completion.callback = List.range g.callbackLoop.length
  owners : g.callbackLoop.map Completion.handler = List.range g.callbackLoop.length

namespace GroupState.Orderly

variable {b : Bool} {g : GroupState}

theorem start (capacity : ℕ) (x : Node) : (GroupState.start capacity x).Orderly false :=
  ⟨rfl, rfl, fun _ => rfl, rfl, rfl, rfl, rfl, nofun, rfl, rfl⟩

/-- The queue does not read the node. -/
theorem withNode (h : g.Orderly b) (y : Node) : { g with node := y }.Orderly b :=
  ⟨h.asserted, h.outstanding, h.idle, h.cbQueue, h.accepted, h.handlers, h.paired, h.running,
    h.callbacks, h.owners⟩

/-- `Put` appends the next number. -/
theorem put (h : g.Orderly b) (f : ProposeHandler) : (ProposeQueue.put f g).2.Orderly b := by
  -- Handlers and callbacks are numbered as they come, and both queues hold consecutive numbers.
  have hcb : g.cbQueue ++ [g.accepted] =
      List.range' g.callbackLoop.length (g.cbQueue ++ [g.accepted]).length := by
    rw [List.length_append, List.length_singleton, List.range'_concat, ← h.cbQueue, h.accepted,
      Nat.one_mul]
  have hnext : g.accepted =
      g.callbackLoop.length + b.toNat + (g.ioLoop ++ g.proposeQueue).length := by
    have h1 := h.accepted
    have h2 := h.paired
    omega
  have hlen : g.accepted + 1 = g.callbackLoop.length + (g.cbQueue ++ [g.accepted]).length := by
    rw [List.length_append, List.length_singleton, h.accepted, Nat.add_assoc]
  have hwait : ((g.ioLoop ++ g.proposeQueue) ++ [(g.accepted, f)]).map Prod.fst =
      List.range' (g.callbackLoop.length + b.toNat)
        ((g.ioLoop ++ g.proposeQueue) ++ [(g.accepted, f)]).length := by
    have hone : ((g.ioLoop ++ g.proposeQueue) ++ [(g.accepted, f)]).length =
        (g.ioLoop ++ g.proposeQueue).length + 1 := List.length_append
    rw [hone, List.map_append, h.handlers, List.range'_concat, Nat.one_mul, ← hnext,
      List.map_singleton]
  unfold ProposeQueue.put
  dsimp only
  split_ifs with hfin hcap
  · -- Nothing is past the queue, so nothing waits either.
    have hq := h.idle hfin
    have hout := h.outstanding
    rw [hfin] at hout
    obtain ⟨hio, hb⟩ : g.ioLoop = [] ∧ b = false := by
      cases b <;> simp_all
    subst hb
    simp only [hq, hio, List.append_nil, List.length_nil, Bool.toNat_false, Nat.add_zero] at hnext
    refine ⟨h.asserted, by simp [hio], nofun, hcb, hlen, ?_, ?_, nofun, h.callbacks, h.owners⟩
    · simp [hq, hio, hnext]
    · have hp := h.paired
      simp [hq, hio] at hp
      simp [hq, hio, hp]
  · refine ⟨h.asserted, h.outstanding, fun hl => absurd hl hfin, hcb, hlen, ?_, ?_, h.running,
      h.callbacks, h.owners⟩
    · rw [← List.append_assoc]
      exact hwait
    · have hp := h.paired
      simp only [List.length_append, List.length_singleton] at hp ⊢
      omega
  · exact h

/-- The I/O loop takes the next handler. -/
theorem take (h : g.Orderly b) {i : ℕ} {f : ProposeHandler} {fs : List (ℕ × ProposeHandler)}
    (hio : g.ioLoop = (i, f) :: fs) {ok : Bool} (hok : ok = true) :
    b = false ∧
      { g with ioLoop := fs, running := i, asserted := g.asserted && ok }.Orderly true := by
  have hout := h.outstanding
  rw [hio, List.length_cons] at hout
  -- One handler at most is past the queue: it is the one that is taken.
  obtain ⟨rfl, hfs, hfin⟩ : b = false ∧ fs = [] ∧ g.lastFinished = false := by
    cases b <;> cases hl : g.lastFinished <;> cases fs <;> simp_all
  have hhd := h.handlers
  rw [hio, List.cons_append, List.map_cons, List.length_cons, List.range'_succ] at hhd
  obtain ⟨hi, hrest⟩ := List.cons_eq_cons.mp hhd
  refine ⟨rfl, ?_, ?_, h.idle, h.cbQueue, h.accepted, hrest, ?_, fun _ => hi, h.callbacks,
    h.owners⟩
  · simp [h.asserted, hok]
  · simp [hfs, hfin]
  · have hp := h.paired
    simp only [hio, List.cons_append, List.length_cons, Bool.toNat_false] at hp
    simp only [Bool.toNat_true]
    omega

/-- `ProposeComplete` calls the callback of the running handler. -/
theorem proposeComplete (h : g.Orderly true) (c : ℕ × Status) :
    (ProposeQueue.proposeComplete g c).Orderly false := by
  have hout := h.outstanding
  obtain ⟨hio, hfin⟩ : g.ioLoop = [] ∧ g.lastFinished = false := by
    cases hl : g.lastFinished <;> simp_all
  have hrun : g.running = g.callbackLoop.length := h.running rfl
  unfold ProposeQueue.proposeComplete
  dsimp only
  cases hcb : g.cbQueue with
  | nil =>
    have hp := h.paired
    simp [hcb] at hp
    omega
  | cons cb cbs =>
    have hq := h.cbQueue
    rw [hcb, List.length_cons, List.range'_succ] at hq
    obtain ⟨hcbeq, hcbs⟩ := List.cons_eq_cons.mp hq
    have hacc := h.accepted
    have hp := h.paired
    rw [hcb, List.length_cons] at hacc hp
    have hmap : ∀ (p : Completion → ℕ) (d : Completion), p d = g.callbackLoop.length →
        g.callbackLoop.map p = List.range g.callbackLoop.length →
        (g.callbackLoop ++ [d]).map p = List.range (g.callbackLoop ++ [d]).length := by
      intro p d hd hl
      rw [List.map_append, hl, List.length_append, List.length_singleton, List.range_succ,
        List.map_singleton, hd]
    have hhd := h.handlers
    have hcallbacks := hmap Completion.callback
      { callback := cb, handler := g.running, instanceId := c.1, status := c.2 } hcbeq h.callbacks
    have howners := hmap Completion.handler
      { callback := cb, handler := g.running, instanceId := c.1, status := c.2 } hrun h.owners
    have hlen : ∀ d : Completion, (g.callbackLoop ++ [d]).length = g.callbackLoop.length + 1 :=
      fun d => by simp
    -- The next handler goes to the loop, if there is one; otherwise the queue is idle.
    cases hpq : g.proposeQueue with
    | nil =>
      rw [hio, hpq] at hp
      dsimp only
      refine ⟨by simp [h.asserted, hfin], by simp [hio], fun _ => rfl, ?_, ?_, ?_, ?_, nofun,
        hcallbacks, howners⟩
      · rw [hlen]
        exact hcbs
      · rw [hlen]
        dsimp only
        omega
      · simp [hio]
      · simpa [hio, hpq] using hp
    | cons w ws =>
      rw [hio, hpq] at hp hhd
      dsimp only
      refine ⟨by simp [h.asserted, hfin], by simp [hio, hfin], fun hl => by simp [hfin] at hl,
        ?_, ?_, ?_, ?_, nofun, hcallbacks, howners⟩
      · rw [hlen]
        exact hcbs
      · rw [hlen]
        dsimp only
        omega
      · rw [hlen, hio]
        exact hhd
      · rw [hio]
        simp only [List.nil_append, List.length_cons, Bool.toNat_true] at hp
        simp only [List.nil_append, List.singleton_append, List.length_cons, Bool.toNat_false]
        omega

/-- The calls of `propose_cb_` that a function of the loop makes. -/
theorem afterLoop (h : g.Orderly b) {y : Node} {n : ℕ} (hn : b.toNat = g.node.isProposing.toNat + n)
    (hy : Settles n g.node y) : (g.afterLoop y).Orderly y.isProposing := by
  obtain ⟨l, hl, hcount⟩ := hy
  have htake : y.trace.take (y.trace.length - g.node.trace.length) = l := by
    rw [hl]
    simp
  rw [← hn] at hcount
  unfold GroupState.afterLoop
  rw [htake]
  generalize completions l = cs at hcount
  -- The function completes the running proposal or none.
  match cs, hcount with
  | [], hcount =>
    have hp : y.isProposing = b := by
      cases hy : y.isProposing <;> cases b <;> simp [hy] at hcount ⊢
    rw [hp]
    exact h.withNode y
  | [c], hcount =>
    obtain ⟨rfl, hp⟩ : b = true ∧ y.isProposing = false := by
      cases hy : y.isProposing <;> cases b <;> simp [hy] at hcount ⊢
    rw [hp]
    exact (h.withNode y).proposeComplete c
  | _ :: _ :: _, hcount =>
    have hb := Bool.toNat_le b
    simp only [List.length_cons] at hcount
    omega

end GroupState.Orderly

/-! ## Runs -/

/-- What holds of a group between two functions of its I/O loop. -/
structure GroupState.Settled (g : GroupState) : Prop where
  client : g.node.Client
  orderly : g.Orderly g.node.isProposing

/-- A handler is an event of the node when no proposal is outstanding. -/
theorem ProposeHandler.exists_step {E : Env} {draw : ℕ} {x : Node} (f : ProposeHandler)
    (hidle : x.isProposing = false) (hdraw : drawOk draw = true) :
    ∃ ev, ev.isHandler = true ∧ x.step E ev = some (f.run E draw x) := by
  cases f with
  | onPropose m v c => exact ⟨.propose m v c draw, rfl, by simp [Node.step, hidle, hdraw, run]⟩
  | tryBeMasterInLoop => exact ⟨.tryBeMaster draw, rfl, by simp [Node.step, hidle, hdraw, run]⟩

theorem ProposeHandler.asserts_of_idle {E : Env} {x : Node} (f : ProposeHandler) (h : x.Client)
    (hidle : x.isProposing = false) : f.asserts E x = true := by
  have hon : Instance.onProposeAsserts x = true := by
    simp [Instance.onProposeAsserts, hidle, h.context hidle]
  cases f <;> simp [asserts, hon]

/-- The node after a function of the loop. -/
theorem GroupState.afterLoop_node (g : GroupState) (y : Node) : (g.afterLoop y).node = y := by
  have hfold : ∀ (cs : List (ℕ × Status)) (g : GroupState),
      (cs.foldl ProposeQueue.proposeComplete g).node = g.node := by
    intro cs
    induction cs with
    | nil => exact fun _ => rfl
    | cons c cs ih =>
      intro g
      rw [List.foldl_cons, ih]
      unfold ProposeQueue.proposeComplete
      dsimp only
      split
      · rfl
      · split <;> rfl
  exact hfold _ _

/-- A group that is settled before a step is settled after it. -/
theorem GroupState.Settled.step {g g' : GroupState} {a : GroupLabel} (h : g.Settled)
    (hstep : g.step a = some g') : g'.Settled := by
  cases a with
  | put f =>
    obtain rfl := Option.some.inj hstep
    have hnode : (ProposeQueue.put f g).2.node = g.node := by
      unfold ProposeQueue.put
      dsimp only
      split_ifs <;> rfl
    exact ⟨hnode ▸ h.client, hnode ▸ h.orderly.put f⟩
  | handler E draw =>
    unfold GroupState.step at hstep
    cases hio : g.ioLoop with
    | nil => simp [hio] at hstep
    | cons p fs =>
      obtain ⟨i, f⟩ := p
      simp only [hio, Option.ite_none_right_eq_some, Option.some.injEq] at hstep
      obtain ⟨hdraw, rfl⟩ := hstep
      have hidle := (h.orderly.take hio rfl).1
      have hasserts := f.asserts_of_idle (E := E) h.client hidle
      obtain ⟨ev, hev, hnode⟩ := f.exists_step (E := E) hidle hdraw
      have hsettles := Node.step_settles h.client hnode
      refine ⟨?_, ?_⟩ <;> rw [GroupState.afterLoop_node]
      · exact h.client.of_step hnode
      · refine (h.orderly.take hio hasserts).2.afterLoop ?_ hsettles
        rw [hev]
        exact congrArg (fun b : Bool => b.toNat + 1) hidle.symm
  | other E ev =>
    unfold GroupState.step at hstep
    simp only [Option.ite_none_left_eq_some, Option.map_eq_some_iff] at hstep
    obtain ⟨hev, y, hnode, rfl⟩ := hstep
    have hsettles := Node.step_settles h.client hnode
    rw [Bool.not_eq_true] at hev
    rw [hev] at hsettles
    refine ⟨?_, ?_⟩ <;> rw [GroupState.afterLoop_node]
    · exact h.client.of_step hnode
    · exact h.orderly.afterLoop rfl hsettles

/-- **Proposals complete once and in order.** From any recovery, with any calls of `Put`, any
handlers, messages, timers, learned values and results of `Execute`: at most one proposal is past
the queue; the `k`-th completion is that of the `k`-th accepted `Put`, for the callback and for the
handler; no accepted `Put` is lost; a `Put` that returns false changes nothing; the timer of an
outstanding proposal is pending; and no assertion has failed. -/
theorem proposals_complete_in_order {E₀ : Env} {config : Config} {db : DB}
    {dirs : List (ℕ × Machines)} {trace : List Event} {x : Node} {capacity : ℕ} {g : GroupState}
    (hrec : Node.recover E₀ config db dirs trace = some x)
    (hrun : Reaches GroupState.step (fun _ _ => True) (.start capacity x) g) :
    g.ioLoop.length + g.node.isProposing.toNat ≤ 1 ∧
    g.callbackLoop.map Completion.callback = List.range g.callbackLoop.length ∧
    g.callbackLoop.map Completion.handler = List.range g.callbackLoop.length ∧
    g.accepted = g.callbackLoop.length + g.node.isProposing.toNat + g.ioLoop.length +
      g.proposeQueue.length ∧
    (∀ f, (ProposeQueue.put f g).1 = false → (ProposeQueue.put f g).2 = g) ∧
    (g.node.isProposing = true → (g.node.proposeTimer, .propose) ∈ g.node.timers) ∧
    g.asserted = true := by
  have hinv : g.Settled := by
    refine hrun.invariant ⟨Node.Client.recover hrec, ?_⟩ fun _ _ _ hs _ hst => hs.step hst
    obtain ⟨a, hx⟩ := Node.recover_spec hrec
    exact hx.isProposing.symm ▸ GroupState.Orderly.start capacity x
  have ho := hinv.orderly
  refine ⟨?_, ho.callbacks, ho.owners, ?_, ?_, hinv.client.pending, ho.asserted⟩
  · rw [ho.outstanding]
    exact Bool.toNat_le _
  · have h1 := ho.accepted
    have h2 := ho.paired
    rw [List.length_append] at h2
    omega
  · intro f hf
    unfold ProposeQueue.put at hf ⊢
    dsimp only at hf ⊢
    split_ifs at hf ⊢
    rfl

/-- Two clients propose, the first proposal times out, and the second one is let in. -/
def secondAfterTimeout : List GroupLabel :=
  [.put (.onPropose 7 [1] none), .put (.onPropose 7 [2] none), .handler {} 256,
   .other {} (.timer 1), .handler { nowMillis := 1 } 256]

/-- The first completion is that of the first proposal, and the timer of the second is pending. -/
theorem proposals_complete_in_order_trio : ∃ g,
    run GroupState.step (.start 100 (Node.fresh trioMember)) secondAfterTimeout = some g ∧
    g.callbackLoop.map Completion.handler = [0] ∧
    (g.node.proposeTimer, .propose) ∈ g.node.timers ∧ g.asserted = true := by
  have hend : (run GroupState.step (.start 100 (Node.fresh trioMember)) secondAfterTimeout).map
      (fun g => (g.callbackLoop.length, g.node.isProposing)) = some (1, true) := by
    decide +kernel
  obtain ⟨g, hg, hres⟩ := Option.map_eq_some_iff.mp hend
  obtain ⟨hlen, hprop⟩ := Prod.mk.inj hres
  obtain ⟨-, -, howners, -, -, htimer, hasserted⟩ := proposals_complete_in_order
    (Node.recover_empty {} trioMember)
    (Reaches.of_run secondAfterTimeout (fun _ _ _ => trivial) hg)
  refine ⟨g, hg, ?_, htimer hprop, hasserted⟩
  rw [howners, hlen]
  rfl

end Skywalker
