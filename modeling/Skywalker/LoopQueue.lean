import Skywalker.Library.Run
import Mathlib.Data.List.Basic

/-!
# The functions of a loop

`QueueInLoop` of `util/runloop.cc` may be called by any thread. It appends to `funcs_` and notifies
the loop, under the mutex. The thread of the loop takes the mutex to look whether there are
functions, waits if there are none, and swaps the vector for an empty one; it runs the functions
without the mutex, while others are queued. The steps here are those between which other threads can
come: each part of the code under the mutex is one step, and a wait is left when the loop is
notified, when its time is over, or for no reason.

Functions run in the order in which they were queued, each once, none is lost, and a loop that waits
while there is one has been notified (`queued_functions_run`). `Exit` does not take the mutex, so
that its notification can be lost (`exit_unnoticed`).
-/

namespace Skywalker

open TransitionSystem

/-- Where the thread of a loop is. -/
inductive LoopPhase where
  /-- The thread has not called `Loop` yet. -/
  | starting
  /-- Before the condition of the `while`. -/
  | top
  /-- Before the mutex is taken. -/
  | locking
  /-- The thread is in `wait_for` and has released the mutex. -/
  | waiting
  /-- The thread is in `RunTimerProcs`. -/
  | timers
  /-- In the `for` over the functions. -/
  | running
  /-- The thread has left `Loop`. -/
  | stopped
deriving DecidableEq, Repr

/-- The part of `RunLoop` that is about functions, and what has happened to it. -/
structure FuncQueue (φ : Type*) where
  /-- Where the thread of the loop is. -/
  phase : LoopPhase := .starting
  /-- `exit_`: whether `Exit` was called. -/
  exit : Bool := false
  /-- `funcs_`: the functions that were queued and not yet taken. -/
  funcs : List φ := []
  /-- The functions of the local vector `funcs` that have not been run. -/
  batch : List φ := []
  /-- Whether the thread was notified since it waits. -/
  notified : Bool := false
  /-- All functions that were queued, oldest first. -/
  queued : List φ := []
  /-- All functions that were run, oldest first. -/
  ran : List φ := []
deriving DecidableEq, Repr

/-- The events of a loop and of the threads that use it. -/
inductive QueueEvent (φ : Type*) where
  /-- Some thread calls `QueueInLoop`. -/
  | queueInLoop (f : φ)
  /-- `Exit`, by the thread of the loop or by another one. -/
  | exit (inLoop : Bool)
  /-- The thread of the loop calls `Loop`. -/
  | loop
  /-- The condition of the `while`. -/
  | check
  /-- The block under the mutex, up to the wait. -/
  | lock
  /-- The wait ends because of a notification. -/
  | wake
  /-- The wait ends for another reason. -/
  | timeout
  /-- `RunTimerProcs` returns, and the functions are run next. -/
  | timersDone
  /-- The next function is run. -/
  | runFunc
  /-- There is no further one. -/
  | clear
deriving DecidableEq, Repr

/-- Whether an event is one of the thread of the loop that needs nothing of the others and no
time-out. -/
def QueueEvent.ofLoop {φ : Type*} : QueueEvent φ → Bool
  | .queueInLoop _ => false
  | .exit _ => false
  | .timeout => false
  | _ => true

namespace FuncQueue

variable {φ : Type*}

/-- `notify_one`, which only a thread that waits notices. -/
def notify (q : FuncQueue φ) : FuncQueue φ :=
  { q with notified := q.notified || q.phase = .waiting }

/-- The swap of the vectors, after which the mutex is released. -/
def swap (q : FuncQueue φ) : FuncQueue φ :=
  { q with funcs := q.batch, batch := q.funcs, phase := .timers, notified := false }

/-- One event, where it can happen. -/
def step (q : FuncQueue φ) : QueueEvent φ → Option (FuncQueue φ)
  | .queueInLoop f => some { q with funcs := q.funcs ++ [f], queued := q.queued ++ [f] }.notify
  | .exit inLoop =>
    if inLoop then
      -- The thread of the loop is in a callback or a function then.
      if q.phase = .timers ∨ q.phase = .running then some { q with exit := true } else none
    else some { q with exit := true }.notify
  | .loop => if q.phase = .starting then some { q with phase := .top, exit := false } else none
  | .check =>
    if q.phase = .top then
      if q.exit then some { q with phase := .stopped } else some { q with phase := .locking }
    else none
  | .lock =>
    if q.phase = .locking then
      if q.funcs.isEmpty then some { q with phase := .waiting, notified := false } else some q.swap
    else none
  | .wake => if q.phase = .waiting ∧ q.notified = true then some q.swap else none
  | .timeout => if q.phase = .waiting then some q.swap else none
  | .timersDone => if q.phase = .timers then some { q with phase := .running } else none
  | .runFunc =>
    if q.phase = .running then
      match q.batch with
      | [] => none
      | f :: l => some { q with batch := l, ran := q.ran ++ [f] }
    else none
  | .clear =>
    if q.phase = .running ∧ q.batch.isEmpty then some { q with phase := .top } else none

/-- What holds between any two events of a loop. -/
structure Orderly (q : FuncQueue φ) : Prop where
  history : q.queued = q.ran ++ (q.batch ++ q.funcs)
  /-- Only while functions are run, and shortly before, is there a batch. -/
  batch : q.phase ≠ .timers → q.phase ≠ .running → q.batch = []
  /-- A thread that waits while there is a function has been notified. -/
  notified : q.phase = .waiting → q.funcs ≠ [] → q.notified = true

variable {q r : FuncQueue φ}

theorem Orderly.swap (h : q.Orderly) (hbatch : q.batch = []) : q.swap.Orderly where
  history := by
    have hhistory := h.history
    rw [hbatch, List.nil_append] at hhistory
    simp only [FuncQueue.swap, hbatch, List.append_nil]
    exact hhistory
  batch hphase := absurd rfl hphase
  notified hphase := LoopPhase.noConfusion hphase

theorem Orderly.setPhase (h : q.Orderly) {phase : LoopPhase} {exit : Bool}
    (hbatch : phase = .timers ∨ phase = .running ∨ q.batch = []) (hwait : phase ≠ .waiting) :
    Orderly { q with phase := phase, exit := exit } where
  history := h.history
  batch h1 h2 := (hbatch.resolve_left h1).resolve_left h2
  notified hphase := absurd hphase hwait

/-- **One event** keeps the invariant. -/
theorem Orderly.step (h : q.Orderly) {e : QueueEvent φ} (hstep : q.step e = some r) :
    r.Orderly := by
  cases e with
  | queueInLoop f =>
    obtain rfl := Option.some.inj hstep
    refine ⟨?_, h.batch, fun hphase _ => ?_⟩
    · change q.queued ++ [f] = q.ran ++ (q.batch ++ (q.funcs ++ [f]))
      rw [h.history]
      simp only [List.append_assoc]
    -- `notify_one` is called under the lock: a waiting thread is woken.
    · change (q.notified || decide (q.phase = .waiting)) = true
      rw [decide_eq_true (show q.phase = .waiting from hphase), Bool.or_true]
  | exit inLoop =>
    cases inLoop with
    | true =>
      obtain ⟨-, hsome⟩ := Option.ite_none_right_eq_some.mp hstep
      obtain rfl := Option.some.inj hsome
      exact ⟨h.history, h.batch, h.notified⟩
    | false =>
      obtain rfl := Option.some.inj hstep
      refine ⟨h.history, h.batch, fun hphase hfuncs => ?_⟩
      change (q.notified || decide (q.phase = .waiting)) = true
      rw [h.notified hphase hfuncs, Bool.true_or]
  | loop =>
    obtain ⟨hphase, hsome⟩ := Option.ite_none_right_eq_some.mp hstep
    obtain rfl := Option.some.inj hsome
    refine h.setPhase (.inr (.inr (h.batch ?_ ?_))) LoopPhase.noConfusion <;> simp [hphase]
  | check =>
    obtain ⟨hphase, hsome⟩ := Option.ite_none_right_eq_some.mp hstep
    have hbatch : q.batch = [] := by refine h.batch ?_ ?_ <;> simp [hphase]
    split_ifs at hsome <;> obtain rfl := Option.some.inj hsome
    · exact h.setPhase (.inr (.inr hbatch)) LoopPhase.noConfusion
    · exact h.setPhase (.inr (.inr hbatch)) LoopPhase.noConfusion
  | lock =>
    obtain ⟨hphase, hsome⟩ := Option.ite_none_right_eq_some.mp hstep
    have hbatch : q.batch = [] := by refine h.batch ?_ ?_ <;> simp [hphase]
    split_ifs at hsome with hempty <;> obtain rfl := Option.some.inj hsome
    -- The thread waits only if it has seen the queue empty, with the lock held.
    · refine ⟨h.history, fun _ _ => hbatch, fun _ hfuncs => ?_⟩
      exact absurd (List.isEmpty_iff.mp hempty) hfuncs
    · exact h.swap hbatch
  | wake =>
    obtain ⟨hphase, hsome⟩ := Option.ite_none_right_eq_some.mp hstep
    obtain rfl := Option.some.inj hsome
    refine h.swap (h.batch ?_ ?_) <;> simp [hphase.1]
  | timeout =>
    obtain ⟨hphase, hsome⟩ := Option.ite_none_right_eq_some.mp hstep
    obtain rfl := Option.some.inj hsome
    refine h.swap (h.batch ?_ ?_) <;> simp [hphase]
  | timersDone =>
    obtain ⟨-, hsome⟩ := Option.ite_none_right_eq_some.mp hstep
    obtain rfl := Option.some.inj hsome
    exact h.setPhase (.inr (.inl rfl)) LoopPhase.noConfusion
  | runFunc =>
    obtain ⟨hphase, hsome⟩ := Option.ite_none_right_eq_some.mp hstep
    split at hsome
    case h_1 => cases hsome
    case h_2 f l hbatch =>
      obtain rfl := Option.some.inj hsome
      -- A function goes from the batch to those that have run: the history stays the same list.
      refine ⟨?_, fun _ hne => absurd hphase hne, fun hwait => ?_⟩
      · rw [h.history, hbatch]
        simp
      · rw [hphase] at hwait
        cases hwait
  | clear =>
    obtain ⟨hphase, hsome⟩ := Option.ite_none_right_eq_some.mp hstep
    obtain rfl := Option.some.inj hsome
    exact h.setPhase (.inr (.inr (List.isEmpty_iff.mp hphase.2))) LoopPhase.noConfusion

/-! ## Progress -/

/-- What the thread of the loop reaches by itself, without a time-out. -/
abbrev ReachesAlone (q r : FuncQueue φ) : Prop :=
  Reaches FuncQueue.step (fun _ e => e.ofLoop = true) q r

/-- The loop runs its batch. -/
theorem reaches_batch_end (hphase : q.phase = .running) :
    q.ReachesAlone { q with batch := [], ran := q.ran ++ q.batch } := by
  generalize hbatch : q.batch = l
  induction l generalizing q with
  | nil =>
    have hsame : q = { q with batch := [], ran := q.ran ++ [] } := by
      rw [List.append_nil, ← hbatch]
    exact hsame ▸ .refl
  | cons f l ih =>
    have hstep : q.step .runFunc = some { q with batch := l, ran := q.ran ++ [f] } := by
      simp only [FuncQueue.step, hphase, if_true, hbatch]
    have hfirst : q.ReachesAlone { q with batch := l, ran := q.ran ++ [f] } :=
      .tail .runFunc .refl rfl hstep
    have hrest := hfirst.trans (ih (q := { q with batch := l, ran := q.ran ++ [f] }) hphase rfl)
    rwa [List.append_assoc] at hrest

theorem ReachesAlone.of_step {e : QueueEvent φ} (hown : e.ofLoop = true)
    (hstep : q.step e = some r) : q.ReachesAlone r :=
  .tail e .refl hown hstep

theorem Orderly.swap_reaches (h : q.Orderly) (hbatch : q.batch = []) :
    ∃ r, q.swap.ReachesAlone r ∧ r.ran = q.queued := by
  have hstart : q.swap.ReachesAlone { q.swap with phase := .running } :=
    .of_step (e := .timersDone) rfl rfl
  refine ⟨_, hstart.trans (reaches_batch_end rfl), ?_⟩
  rw [h.history, hbatch]
  rfl

/-- The functions that are there when the mutex is taken get run. -/
theorem Orderly.locking_reaches (h : q.Orderly) (hphase : q.phase = .locking) :
    ∃ r, q.ReachesAlone r ∧ r.ran = q.queued := by
  have hbatch : q.batch = [] := by refine h.batch ?_ ?_ <;> simp [hphase]
  cases hfuncs : q.funcs with
  | nil =>
    refine ⟨q, .refl, ?_⟩
    rw [h.history, hbatch, hfuncs]
    simp
  | cons f l =>
    have hlock : q.step .lock = some q.swap := by simp [FuncQueue.step, hphase, hfuncs]
    obtain ⟨r, hr, hran⟩ := h.swap_reaches hbatch
    exact ⟨r, (ReachesAlone.of_step rfl hlock).trans hr, hran⟩

theorem Orderly.top_reaches (h : q.Orderly) (hphase : q.phase = .top) (hexit : q.exit = false) :
    ∃ r, q.ReachesAlone r ∧ r.ran = q.queued := by
  have hcheck : q.step .check = some { q with phase := .locking } := by
    simp [FuncQueue.step, hphase, hexit]
  obtain ⟨r, hr, hran⟩ := (h.step hcheck).locking_reaches rfl
  exact ⟨r, (ReachesAlone.of_step rfl hcheck).trans hr, hran⟩

/-- While it runs functions, the loop alone comes to run what is queued. -/
theorem Orderly.running_reaches (h : q.Orderly) (hphase : q.phase = .running)
    (hexit : q.exit = false) : ∃ r, q.ReachesAlone r ∧ r.ran = q.queued := by
  have hend := reaches_batch_end hphase
  have hclear : FuncQueue.step { q with batch := [], ran := q.ran ++ q.batch } .clear =
      some { q with batch := [], ran := q.ran ++ q.batch, phase := .top } := by
    simp [FuncQueue.step, hphase]
  have hafter := hend.trans (ReachesAlone.of_step rfl hclear)
  have horder : Orderly { q with batch := [], ran := q.ran ++ q.batch, phase := .top } :=
    hafter.invariant h fun _ _ _ hs _ hstep => hs.step hstep
  obtain ⟨r, hr, hran⟩ := horder.top_reaches rfl hexit
  exact ⟨r, hafter.trans hr, hran⟩

/-- Wherever the thread is in the loop, the loop alone comes to run what is queued. -/
theorem Orderly.reaches (h : q.Orderly) (hexit : q.exit = false) (hphase : q.phase ≠ .stopped) :
    ∃ r, q.ReachesAlone r ∧ r.ran = q.queued := by
  cases hq : q.phase with
  | starting =>
    have hloop : q.step .loop = some { q with phase := .top, exit := false } := by
      simp [FuncQueue.step, hq]
    obtain ⟨r, hr, hran⟩ := (h.step hloop).top_reaches rfl rfl
    exact ⟨r, (ReachesAlone.of_step rfl hloop).trans hr, hran⟩
  | top => exact h.top_reaches hq hexit
  | locking => exact h.locking_reaches hq
  | waiting =>
    have hbatch : q.batch = [] := by refine h.batch ?_ ?_ <;> simp [hq]
    by_cases hfuncs : q.funcs = []
    · refine ⟨q, .refl, ?_⟩
      rw [h.history, hbatch, hfuncs]
      simp
    · -- The notification ends the wait.
      have hwake : q.step .wake = some q.swap := by
        simp [FuncQueue.step, hq, h.notified hq hfuncs]
      obtain ⟨r, hr, hran⟩ := h.swap_reaches hbatch
      exact ⟨r, (ReachesAlone.of_step rfl hwake).trans hr, hran⟩
  | timers =>
    have hdone : q.step .timersDone = some { q with phase := .running } := by
      simp [FuncQueue.step, hq]
    obtain ⟨r, hr, hran⟩ := (h.step hdone).running_reaches rfl hexit
    exact ⟨r, (ReachesAlone.of_step rfl hdone).trans hr, hran⟩
  | running => exact h.running_reaches hq hexit
  | stopped => exact absurd hq hphase

/-- **Functions run in the order in which they were queued, each once.** In every run of a loop and
of the threads that queue functions, what was queued is what has been run, what the loop has taken
and what it has not, in this order; a loop that waits while there is a function has been notified;
and a loop that has not ended, and is not asked to, gets to run all of them by its own steps,
without waiting for a time-out. -/
theorem queued_functions_run (hrun : Reaches FuncQueue.step (fun _ _ => True) {} q) :
    q.queued = q.ran ++ (q.batch ++ q.funcs) ∧
    (q.phase = .waiting → q.funcs ≠ [] → q.notified = true) ∧
    (q.exit = false → q.phase ≠ .stopped → ∃ r, q.ReachesAlone r ∧ r.ran = q.queued) := by
  have horder : q.Orderly := hrun.invariant
    ⟨rfl, fun _ _ => rfl, fun hphase => LoopPhase.noConfusion hphase⟩
    fun _ _ _ hs _ hstep => hs.step hstep
  exact ⟨horder.history, horder.notified, horder.reaches⟩

/-- A function is queued while the loop waits, and another one while the first is run. -/
theorem queued_functions_run_two : ∃ q r : FuncQueue ℕ, q.queued = [1, 2] ∧ q.ran = [1] ∧
    q.ReachesAlone r ∧ r.ran = [1, 2] := by
  have hend : (run FuncQueue.step ({} : FuncQueue ℕ) [.loop, .check, .lock, .queueInLoop 1, .wake,
      .timersDone, .runFunc, .queueInLoop 2]).map (fun q => (q.queued, q.ran, q.exit, q.phase)) =
        some ([1, 2], [1], false, .running) := by decide
  obtain ⟨q, hq, hfields⟩ := Option.map_eq_some_iff.mp hend
  simp only [Prod.mk.injEq] at hfields
  obtain ⟨hqueued, hran, hexit, hphase⟩ := hfields
  have hrun : Reaches FuncQueue.step (fun _ _ => True) {} q :=
    .of_run _ (fun _ _ _ => trivial) hq
  obtain ⟨r, hr, hall⟩ := (queued_functions_run hrun).2.2 hexit (by rw [hphase]; decide)
  exact ⟨q, r, hqueued, hran, hr, hall.trans hqueued⟩

/-- **`Exit` can go unnoticed.** Another thread calls it after the loop has read `exit_` and before
it waits: the loop then waits without a notification. -/
theorem exit_unnoticed : ∃ q : FuncQueue ℕ, Reaches FuncQueue.step (fun _ _ => True) {} q ∧
    q.exit = true ∧ q.phase = .waiting ∧ q.notified = false := by
  have hend : (run FuncQueue.step ({} : FuncQueue ℕ) [.loop, .check, .exit false, .lock]).map
      (fun q => (q.exit, q.phase, q.notified)) = some (true, .waiting, false) := by decide
  obtain ⟨q, hq, hfields⟩ := Option.map_eq_some_iff.mp hend
  simp only [Prod.mk.injEq] at hfields
  exact ⟨q, .of_run _ (fun _ _ _ => trivial) hq, hfields⟩

end FuncQueue

end Skywalker
