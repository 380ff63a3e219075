import Skywalker.Timers
import Skywalker.Library.Run

/-!
# The loop that runs the timers

`RunLoop` of `util/runloop.cc` with its `TimerList`. A call of the list in the loop takes effect at
once, and one from another thread allocates its `Timer` at once and queues the rest. `RunTimerProcs`
is taken apart into its passes, so that the calls that a callback makes are steps like any other
between two of them, and nothing is assumed about how many passes there are.

`timers_agree` is the invariant of the two sets of the list. `remove_dead` and
`remove_dead_reused_address` are about ids whose timer is gone: `Remove` looks only at the address,
and a later timer may have it. `waitFor_spec` and `waitFor_no_timers` are about the wait of the
loop.
-/

namespace Skywalker

open TransitionSystem

/-- A function in the queue `funcs_`. -/
inductive LoopFunc where
  /-- The function that `InsertInLoop` queues. -/
  | insert (timer : TimerId)
  /-- The function that `Remove` queues. -/
  | remove (timer : TimerId)
  /-- Any other function. The calls that it makes are events of their own. -/
  | other

/-- The address of the timer that a function inserts. -/
def LoopFunc.inserted : LoopFunc → Option ℕ
  | .insert timer => some timer.second
  | .remove _ => none
  | .other => none

/-- A function of the queue that is run. -/
def LoopFunc.run {κ : Type*} (s : TimerList κ) : LoopFunc → TimerList κ
  | .insert timer => s.insertInLoop timer
  | .remove timer => s.remove timer
  | .other => s

/-- A `RunLoop` with its timers and its queue. -/
structure RunLoop (κ : Type*) where
  /-- The timers of the loop, `timers_`. -/
  timers : TimerList κ
  /-- The functions that other threads have queued and that have not been run. -/
  funcs : List LoopFunc := []
  /-- The reading of the clock while `RunTimerProcs` runs. -/
  pass : Option ℕ := none

/-- What can happen in a loop. -/
inductive LoopEvent (κ : Type*) where
  /-- A call of the timer list, by the loop's thread or by another one. -/
  | call (inLoop : Bool) (c : TimerCall κ)
  /-- Some thread queues another function. -/
  | queueInLoop
  /-- `RunTimerProcs` starts and reads the clock. -/
  | beginPass (msNow : ℕ)
  /-- A pass of its loop, up to the callback. -/
  | fire
  /-- `RunTimerProcs` returns when no timer is due. -/
  | endPass
  /-- The next function of the queue is run. -/
  | runFunc

/-- The address that a new timer gets. -/
def LoopEvent.address {κ : Type*} : LoopEvent κ → Option ℕ
  | .call _ (.start addr _) => some addr
  | _ => none

namespace RunLoop

variable {κ : Type*}

/-- The constructor, at the time `now`. -/
def new (now : ℕ) : RunLoop κ where
  timers := { lastTimeOut := now }

/-- `RunInLoop`, by the loop's thread or by another one. -/
def runInLoop (inLoop : Bool) (f : LoopFunc) (r : RunLoop κ) : RunLoop κ :=
  if inLoop then { r with timers := f.run r.timers } else { r with funcs := r.funcs ++ [f] }

/-- A call of the timer list. `new` returns an address where there is no timer. -/
def call (inLoop : Bool) (r : RunLoop κ) : TimerCall κ → Option (RunLoop κ)
  | .start addr t =>
    if (r.timers.heap addr).isNone then
      some (runInLoop inLoop (.insert ⟨t.msValue, addr⟩) { r with timers := r.timers.alloc addr t })
    else none
  | .remove timer => some (r.runInLoop inLoop (.remove timer))

/-- The first timer, if it is due in a pass at the reading `msNow`. -/
def dueTimer (msNow : ℕ) (s : TimerList κ) : Option TimerId :=
  s.timers.first?.filter fun it => it.first ≤ msNow

/-- A step of the loop. -/
def step (r : RunLoop κ) : LoopEvent κ → Option (RunLoop κ)
  | .call inLoop c => r.call inLoop c
  | .queueInLoop => some { r with funcs := r.funcs ++ [.other] }
  | .beginPass msNow =>
    if r.pass.isSome then none
    else if r.timers.timers.first?.isNone then some r
    else some { r with timers := r.timers.beginPass msNow, pass := some msNow }
  | .fire =>
    r.pass.bind fun msNow => (dueTimer msNow r.timers).map fun it =>
      { r with timers := r.timers.fire msNow it }
  | .endPass =>
    r.pass.bind fun msNow =>
      if (dueTimer msNow r.timers).isNone then some { r with pass := none } else none
  | .runFunc =>
    if r.pass.isSome then none
    else
      match r.funcs with
      | [] => none
      | f :: l => some { r with timers := f.run r.timers, funcs := l }

variable {r r' : RunLoop κ}

theorem dueTimer_eq_some {msNow : ℕ} {s : TimerList κ} {it : TimerId} :
    dueTimer msNow s = some it ↔ s.timers.first? = some it ∧ it.first ≤ msNow := by
  rw [dueTimer, Option.filter_eq_some_iff, decide_eq_true_iff]

/-- What a step can do to the timers and the queue. -/
inductive Stepped (r r' : RunLoop κ) (e : LoopEvent κ) : Prop where
  | start (addr : ℕ) (t : Timer κ) (haddr : e.address = some addr)
      (hfree : r.timers.heap addr = none) (htimers : r'.timers = r.timers.start addr t)
      (hfuncs : r'.funcs = r.funcs)
  | startQueued (addr : ℕ) (t : Timer κ) (haddr : e.address = some addr)
      (hfree : r.timers.heap addr = none) (htimers : r'.timers = r.timers.alloc addr t)
      (hfuncs : r'.funcs = r.funcs ++ [.insert ⟨t.msValue, addr⟩])
  | remove (id : TimerId) (htimers : r'.timers = r.timers.remove id) (hfuncs : r'.funcs = r.funcs)
  | queue (f : LoopFunc) (hf : f.inserted = none) (htimers : r'.timers = r.timers)
      (hfuncs : r'.funcs = r.funcs ++ [f])
  | beginPass (msNow : ℕ) (htimers : r'.timers = r.timers.beginPass msNow)
      (hfuncs : r'.funcs = r.funcs)
  | fire (msNow : ℕ) (it : TimerId) (hit : it ∈ r.timers.timers)
      (htimers : r'.timers = r.timers.fire msNow it) (hfuncs : r'.funcs = r.funcs)
  | runFunc (f : LoopFunc) (l : List LoopFunc) (hr : r.funcs = f :: l)
      (htimers : r'.timers = f.run r.timers) (hfuncs : r'.funcs = l)
  | keep (htimers : r'.timers = r.timers) (hfuncs : r'.funcs = r.funcs)

/-- Every step of the loop is one of these. -/
theorem stepped {e : LoopEvent κ} (hstep : r.step e = some r') : Stepped r r' e := by
  cases e with
  | call inLoop c =>
    cases c with
    | start addr t =>
      simp only [RunLoop.step, call, Option.isNone_iff_eq_none, Option.ite_none_right_eq_some,
        Option.some.injEq] at hstep
      obtain ⟨hfree, rfl⟩ := hstep
      cases inLoop with
      | true => exact .start addr t rfl hfree rfl rfl
      | false => exact .startQueued addr t rfl hfree rfl rfl
    | remove timer =>
      obtain rfl := Option.some.inj hstep
      cases inLoop with
      | true => exact .remove timer rfl rfl
      | false => exact .queue (.remove timer) rfl rfl rfl
  | queueInLoop =>
    obtain rfl := Option.some.inj hstep
    exact .queue .other rfl rfl rfl
  | beginPass msNow =>
    simp only [RunLoop.step] at hstep
    split_ifs at hstep with hpass hempty
    · obtain rfl := Option.some.inj hstep
      exact .keep rfl rfl
    · obtain rfl := Option.some.inj hstep
      exact .beginPass msNow rfl rfl
  | fire =>
    simp only [RunLoop.step, Option.bind_eq_some_iff, Option.map_eq_some_iff] at hstep
    obtain ⟨msNow, hpass, it, hit, rfl⟩ := hstep
    exact .fire msNow it (OrderedSet.mem_of_first? (dueTimer_eq_some.mp hit).1) rfl rfl
  | endPass =>
    simp only [RunLoop.step, Option.bind_eq_some_iff, Option.ite_none_right_eq_some,
      Option.some.injEq] at hstep
    obtain ⟨msNow, hpass, hdone, rfl⟩ := hstep
    exact .keep rfl rfl
  | runFunc =>
    simp only [RunLoop.step] at hstep
    split_ifs at hstep with hpass
    cases hfuncs : r.funcs with
    | nil =>
      rw [hfuncs] at hstep
      exact absurd hstep nofun
    | cons f l =>
      rw [hfuncs] at hstep
      obtain rfl := Option.some.inj hstep
      exact .runFunc f l hfuncs rfl rfl

end RunLoop

/-! ## What a step does to an address outside of the list -/

namespace TimerList

variable {κ : Type*} {s : TimerList κ} {t : Timer κ} {a addr : ℕ} {o : Option (Timer κ)}
  {id it : TimerId}

/-- The address `a` is not in `timer_ptrs_`, and what is there is `o`: nothing, or a timer that is
still to be inserted. -/
structure Unlisted (s : TimerList κ) (a : ℕ) (o : Option (Timer κ)) : Prop where
  notMem : a ∉ s.timerPtrs
  heap_eq : s.heap a = o

namespace Unlisted

theorem alloc (h : s.Unlisted a o) (hne : a ≠ addr) : (s.alloc addr t).Unlisted a o :=
  ⟨h.notMem, (Function.update_of_ne hne _ _).trans h.heap_eq⟩

theorem insertInLoop (h : s.Unlisted a o) (hne : a ≠ id.second) :
    (s.insertInLoop id).Unlisted a o := by
  refine ⟨fun hmem => ?_, h.heap_eq⟩
  obtain heq | hmem := OrderedSet.mem_insert.mp hmem
  · exact hne heq
  · exact h.notMem hmem

theorem erased (h : s.Unlisted a o) (hne : a ≠ addr) (timers : OrderedSet TimerId) :
    TimerList.Unlisted { s with
      timers := timers
      timerPtrs := s.timerPtrs.erase addr
      heap := Function.update s.heap addr none } a o :=
  ⟨fun hmem => h.notMem (OrderedSet.mem_erase.mp hmem).2,
    (Function.update_of_ne hne _ _).trans h.heap_eq⟩

theorem remove (h : s.Unlisted a o) (id : TimerId) : (s.remove id).Unlisted a o := by
  cases ht : s.pending id.second with
  | none => rwa [remove_of_not_pending ht]
  | some t =>
    rw [remove_of_pending ht]
    exact h.erased (fun heq => h.notMem (heq ▸ (pending_eq_some.mp ht).1)) _

theorem fire (h : s.Unlisted a o) (hs : s.Consistent) (hit : it ∈ s.timers) (msNow : ℕ) :
    (s.fire msNow it).Unlisted a o := by
  obtain ⟨t, ht, -⟩ := hs.exists_pending hit
  obtain ⟨hmem, hheap⟩ := pending_eq_some.mp ht
  have hne : a ≠ it.second := fun heq => h.notMem (heq ▸ hmem)
  rw [fire_eq hheap]
  split_ifs with hperiodic
  · exact ⟨h.notMem, (Function.update_of_ne hne _ _).trans h.heap_eq⟩
  · exact h.erased hne _

theorem beginPass (h : s.Unlisted a o) (hs : s.Consistent) (msNow : ℕ) :
    (s.beginPass msNow).Unlisted a o := by
  refine ⟨fun hmem => h.notMem (timerPtrs_beginPass s msNow ▸ hmem), ?_⟩
  unfold TimerList.beginPass
  split_ifs with hback
  · have hnotin : a ∉ s.timers.toList.map TimerId.second := by
      rw [List.mem_map]
      rintro ⟨id, hid, rfl⟩
      obtain ⟨t, ht, -⟩ := hs.exists_pending hid
      exact h.notMem (pending_eq_some.mp ht).1
    exact (heap_foldl_shiftOne_of_notMem _ _ hnotin).trans h.heap_eq
  · exact h.heap_eq

end Unlisted

theorem Consistent.unlisted_of_free (h : s.Consistent) (ha : s.heap a = none) :
    s.Unlisted a none := ⟨h.notMem_of_free ha, ha⟩

end TimerList

/-! ## The invariant of the loop -/

namespace RunLoop

variable {κ : Type*} {r r' : RunLoop κ}

/-- What every run of the loop keeps. -/
structure Sound (r : RunLoop κ) : Prop where
  /-- The timer list is consistent with its memory. -/
  consistent : r.timers.Consistent
  /-- A timer whose insertion is queued exists, under its due time, and is not in the list yet. -/
  queued : ∀ id, .insert id ∈ r.funcs →
    ∃ t, r.timers.Unlisted id.second (some t) ∧ t.msValue = id.first
  /-- No insertion is queued twice. -/
  distinct : (r.funcs.filterMap LoopFunc.inserted).Nodup

theorem sound_new (now : ℕ) : (new now : RunLoop κ).Sound where
  consistent := TimerList.consistent_new now
  queued _ h := absurd h List.not_mem_nil
  distinct := List.nodup_nil

namespace Sound

/-- The list may change, as long as it stays consistent and leaves the timers alone that are still
to be inserted. -/
theorem setTimers (h : r.Sound) {timers : TimerList κ} (hcons : timers.Consistent)
    (hunlisted : ∀ id t, .insert id ∈ r.funcs → r.timers.Unlisted id.second (some t) →
      timers.Unlisted id.second (some t)) :
    ({ r with timers := timers } : RunLoop κ).Sound where
  consistent := hcons
  queued id hid := by
    obtain ⟨t, ht, hv⟩ := h.queued id hid
    exact ⟨t, hunlisted id t hid ht, hv⟩
  distinct := h.distinct

theorem congr (h : r.Sound) (htimers : r'.timers = r.timers) (hfuncs : r'.funcs = r.funcs) :
    r'.Sound := by
  constructor
  · rw [htimers]
    exact h.consistent
  · rw [htimers, hfuncs]
    exact h.queued
  · rw [hfuncs]
    exact h.distinct

/-- A function that inserts nothing may be queued. -/
theorem queue (h : r.Sound) {f : LoopFunc} (hf : f.inserted = none) :
    ({ r with funcs := r.funcs ++ [f] } : RunLoop κ).Sound where
  consistent := h.consistent
  queued id hid := by
    obtain hid | hid := List.mem_append.mp hid
    · exact h.queued id hid
    · obtain rfl := List.mem_singleton.mp hid
      exact absurd hf nofun
  distinct := by
    rw [List.filterMap_append, List.filterMap_cons_none hf, List.filterMap_nil, List.append_nil]
    exact h.distinct

/-- A timer that is still to be inserted is not where `new` puts another one. -/
theorem ne_of_free (h : r.Sound) {id : TimerId} {addr : ℕ} (hid : .insert id ∈ r.funcs)
    (hfree : r.timers.heap addr = none) : id.second ≠ addr := by
  rintro rfl
  obtain ⟨t, ht, -⟩ := h.queued id hid
  rw [ht.heap_eq] at hfree
  exact Option.some_ne_none t hfree

theorem start (h : r.Sound) {addr : ℕ} (t : Timer κ) (hfree : r.timers.heap addr = none) :
    ({ r with timers := r.timers.start addr t } : RunLoop κ).Sound := by
  refine h.setTimers (h.consistent.start hfree) fun id t' hid ht' => ?_
  have hne := h.ne_of_free hid hfree
  exact (ht'.alloc hne).insertInLoop hne

/-- A new timer whose insertion is queued keeps the loop sound. -/
theorem startQueued (h : r.Sound) {addr : ℕ} (t : Timer κ) (hfree : r.timers.heap addr = none) :
    ({ r with
      timers := r.timers.alloc addr t
      funcs := r.funcs ++ [.insert ⟨t.msValue, addr⟩] } : RunLoop κ).Sound where
  consistent := h.consistent.alloc hfree
  queued id hid := by
    obtain hid | hid := List.mem_append.mp hid
    · obtain ⟨t', ht', hv⟩ := h.queued id hid
      exact ⟨t', ht'.alloc (h.ne_of_free hid hfree), hv⟩
    · obtain rfl : id = ⟨t.msValue, addr⟩ := LoopFunc.insert.inj (List.mem_singleton.mp hid)
      exact ⟨t, ⟨h.consistent.notMem_of_free hfree, Function.update_self ..⟩, rfl⟩
  distinct := by
    rw [List.filterMap_append]
    refine List.nodup_append.mpr ⟨h.distinct, List.nodup_singleton _, ?_⟩
    intro a ha b hb
    obtain rfl : b = addr := List.mem_singleton.mp hb
    obtain ⟨f, hf, hfa⟩ := List.mem_filterMap.mp ha
    cases f with
    | insert id =>
      obtain rfl := Option.some.inj hfa
      exact h.ne_of_free hf hfree
    | remove id | other => exact absurd hfa nofun

/-- Running the next function of the queue keeps the loop sound. -/
theorem runFunc (h : r.Sound) {f : LoopFunc} {l : List LoopFunc} (hr : r.funcs = f :: l) :
    ({ r with timers := f.run r.timers, funcs := l } : RunLoop κ).Sound := by
  have hdistinct := h.distinct
  rw [hr] at hdistinct
  have hrest : ({ r with funcs := l } : RunLoop κ).Sound :=
    { consistent := h.consistent
      queued := fun id hid => h.queued id (hr ▸ List.mem_cons_of_mem f hid)
      distinct := hdistinct.sublist ((List.sublist_cons_self f l).filterMap _) }
  cases f with
  | insert id =>
    obtain ⟨t, ht, hv⟩ := h.queued id (hr ▸ List.mem_cons_self)
    refine hrest.setTimers (h.consistent.insertInLoop ht.notMem ht.heap_eq hv) ?_
    intro id' t' hid' ht'
    refine ht'.insertInLoop fun heq => (List.nodup_cons.mp hdistinct).1 ?_
    exact List.mem_filterMap.mpr ⟨.insert id', hid', congrArg some heq⟩
  | remove id =>
    exact hrest.setTimers (h.consistent.remove id) fun _ _ _ ht' => ht'.remove id
  | other => exact hrest

end Sound

/-- Every step keeps the loop sound. -/
theorem Sound.step (h : r.Sound) {e : LoopEvent κ} (hstep : r.step e = some r') : r'.Sound := by
  cases stepped hstep with
  | start addr t _ hfree htimers hfuncs => exact (h.start t hfree).congr htimers hfuncs
  | startQueued addr t _ hfree htimers hfuncs => exact (h.startQueued t hfree).congr htimers hfuncs
  | remove id htimers hfuncs =>
    have hnext := h.setTimers (h.consistent.remove id) fun _ _ _ ht => ht.remove id
    exact hnext.congr htimers hfuncs
  | queue f hf htimers hfuncs => exact (h.queue hf).congr htimers hfuncs
  | beginPass msNow htimers hfuncs =>
    have hnext := h.setTimers (h.consistent.beginPass msNow)
      fun _ _ _ ht => ht.beginPass h.consistent msNow
    exact hnext.congr htimers hfuncs
  | fire msNow it hit htimers hfuncs =>
    have hnext := h.setTimers (h.consistent.fire hit)
      fun _ _ _ ht => ht.fire h.consistent hit msNow
    exact hnext.congr htimers hfuncs
  | runFunc f l hr htimers hfuncs => exact (h.runFunc hr).congr htimers hfuncs
  | keep htimers hfuncs => exact h.congr htimers hfuncs

theorem sound_of_reaches {now : ℕ} {ok : RunLoop κ → LoopEvent κ → Prop}
    (h : Reaches RunLoop.step ok (new now) r) : r.Sound :=
  h.invariant (sound_new now) fun _ _ _ hs _ hstep => hs.step hstep

/-- In every run, and between any two passes of `RunTimerProcs`, the two sets have the same timers,
each of them once and under its due time, and `Remove` takes a pending timer out of both. -/
theorem timers_agree {now : ℕ} (h : Reaches RunLoop.step (fun _ _ => True) (new now) r) :
    (∀ a, a ∈ r.timers.timerPtrs ↔ ∃ id ∈ r.timers.timers, id.second = a) ∧
    (∀ id ∈ r.timers.timers, ∀ it ∈ r.timers.timers, id.second = it.second → id = it) ∧
    (∀ id ∈ r.timers.timers, ∃ t, r.timers.heap id.second = some t ∧ t.msValue = id.first) ∧
    ∀ id : TimerId, id.second ∈ r.timers.timerPtrs →
      id.second ∉ (r.timers.remove id).timerPtrs ∧
        ∀ it ∈ (r.timers.remove id).timers, it.second ≠ id.second := by
  have hcons := (sound_of_reaches h).consistent
  refine ⟨fun a => ?_, fun id hid it hit => hcons.eq_of_second_eq hid hit, fun id hid => ?_, ?_⟩
  · constructor
    · intro ha
      obtain ⟨t, ht⟩ := hcons.mem_timerPtrs.mp ha
      exact ⟨_, hcons.mem_of_pending ht, rfl⟩
    · rintro ⟨id, hid, rfl⟩
      obtain ⟨t, ht, -⟩ := hcons.exists_pending hid
      exact (TimerList.pending_eq_some.mp ht).1
  · obtain ⟨t, ht, hv⟩ := hcons.exists_pending hid
    exact ⟨t, (TimerList.pending_eq_some.mp ht).2, hv⟩
  · intro id _
    -- Nothing is pending at the address afterwards, and the list is consistent again.
    have hgone : (r.timers.remove id).pending id.second = none := by
      rw [TimerList.pending_remove, Function.update_self]
    have hcons' := hcons.remove id
    constructor
    · intro hmem
      obtain ⟨t, ht⟩ := hcons'.mem_timerPtrs.mp hmem
      rw [hgone] at ht
      exact absurd ht nofun
    · intro it hit heq
      obtain ⟨t, ht, -⟩ := hcons'.exists_pending hit
      rw [heq, hgone] at ht
      exact absurd ht nofun

/-- A run with a periodic timer, a timer from another thread, and a clock that goes back. -/
def mixedRun : List (LoopEvent ℕ) :=
  [.call true (.runEvery 7 0 10 1), .call false (.runAt 8 25 2), .beginPass 20, .fire, .endPass,
    .runFunc, .beginPass 5]

/-- At the end of that run both timers are pending, earlier by what the clock went back. -/
theorem timers_agree_mixedRun : ∃ r : RunLoop ℕ,
    r.timers.timers.toList = [⟨10, 8⟩, ⟨15, 7⟩] ∧
      ∀ a, a ∈ r.timers.timerPtrs ↔ ∃ id ∈ r.timers.timers, id.second = a := by
  have hrun : (run RunLoop.step (new 0) mixedRun).map (fun r => r.timers.timers.toList) =
      some [⟨10, 8⟩, ⟨15, 7⟩] := by decide +kernel
  obtain ⟨r, hr, htimers⟩ := Option.map_eq_some_iff.mp hrun
  exact ⟨r, htimers, (timers_agree (Reaches.of_run mixedRun (fun _ _ _ => trivial) hr)).1⟩

/-! ## Ids whose timer is gone -/

/-- Where there is no timer, there is none after a step that does not put a new one there. -/
theorem Sound.unlisted_step (h : r.Sound) {a : ℕ} (ha : r.timers.Unlisted a none)
    {e : LoopEvent κ} (he : e.address ≠ some a) (hstep : r.step e = some r') :
    r'.timers.Unlisted a none := by
  have hne {addr : ℕ} (haddr : e.address = some addr) : a ≠ addr := by
    rintro rfl
    exact he haddr
  cases stepped hstep with
  | start addr t haddr hfree htimers hfuncs =>
    rw [htimers]
    exact (ha.alloc (hne haddr)).insertInLoop (hne haddr)
  | startQueued addr t haddr hfree htimers hfuncs =>
    rw [htimers]
    exact ha.alloc (hne haddr)
  | remove id htimers hfuncs =>
    rw [htimers]
    exact ha.remove id
  | queue f hf htimers hfuncs => rwa [htimers]
  | beginPass msNow htimers hfuncs =>
    rw [htimers]
    exact ha.beginPass h.consistent msNow
  | fire msNow it hit htimers hfuncs =>
    rw [htimers]
    exact ha.fire h.consistent hit msNow
  | runFunc f l hr htimers hfuncs =>
    rw [htimers]
    cases f with
    | insert id =>
      -- A timer that is still to be inserted is there, and `a` is free.
      obtain ⟨t, ht, -⟩ := h.queued id (hr ▸ List.mem_cons_self)
      refine ha.insertInLoop fun heq => ?_
      have hfree := ha.heap_eq
      rw [heq, ht.heap_eq] at hfree
      exact absurd hfree nofun
    | remove id => exact ha.remove id
    | other => exact ha
  | keep htimers hfuncs => rwa [htimers]

/-- `Remove` with the id of a timer that was deleted changes nothing, as long as no later timer has
got its address. -/
theorem remove_dead {now : ℕ} {id : TimerId}
    (hrun : Reaches RunLoop.step (fun _ _ => True) (new now) r)
    (hdead : r.timers.heap id.second = none)
    (hlater : Reaches RunLoop.step (fun _ e => e.address ≠ some id.second) r r') :
    r'.timers.remove id = r'.timers := by
  have hsound := sound_of_reaches hrun
  have hkept : r'.Sound ∧ r'.timers.Unlisted id.second none := by
    refine hlater.invariant (P := fun r => r.Sound ∧ r.timers.Unlisted id.second none)
      ⟨hsound, hsound.consistent.unlisted_of_free hdead⟩ ?_
    intro s s' e hs he hstep
    exact ⟨hs.1.step hstep, hs.1.unlisted_step hs.2 he hstep⟩
  exact TimerList.remove_of_not_pending (TimerList.pending_eq_none_of_free hkept.2.heap_eq)

/-- A timer that fires once, at the address 7. -/
def firedRun : List (LoopEvent ℕ) :=
  [.call true (.runAt 7 10 1), .beginPass 10, .fire, .endPass]

/-- Its id may be removed after another timer was started at another address. -/
theorem remove_dead_firedRun : ∃ r : RunLoop ℕ,
    r.timers.pending 8 = some ⟨20, 0, 2⟩ ∧ r.timers.remove ⟨10, 7⟩ = r.timers := by
  have hrun : ((run RunLoop.step (new 0) firedRun).bind fun r =>
      (run RunLoop.step r [.call true (.runAt 8 20 2)]).map fun r' =>
        (r.timers.heap 7, r'.timers.pending 8)) = some (none, some ⟨20, 0, 2⟩) := by
    decide +kernel
  obtain ⟨r, hr, hrest⟩ := Option.bind_eq_some_iff.mp hrun
  obtain ⟨r', hr', hpair⟩ := Option.map_eq_some_iff.mp hrest
  obtain ⟨hdead, hpending⟩ := Prod.mk.inj hpair
  refine ⟨r', hpending, ?_⟩
  refine remove_dead (r := r) (Reaches.of_run firedRun (fun _ _ _ => trivial) hr) hdead ?_
  refine Reaches.of_run [.call true (.runAt 8 20 2)] (fun e he s => ?_) hr'
  obtain rfl := List.mem_singleton.mp he
  decide

/-- When the next timer gets the address of the one that fired, removing the old id removes the new
timer. -/
theorem remove_dead_reused_address :
    (run RunLoop.step (new 0) (firedRun ++ [.call true (.runAt 7 20 2)])).map (fun r =>
      (r.timers.pending 7, (r.timers.remove ⟨10, 7⟩).pending 7)) =
      some (some ⟨20, 0, 2⟩, none) := by
  decide +kernel

/-! ## The wait of the loop -/

/-- The conversion of a `uint64_t` to `std::chrono::milliseconds`, whose numbers are `int64_t`. -/
def milliseconds (timeout : ℕ) : Int64 := (UInt64.ofNat timeout).toInt64

/-- The duration that `Loop` passes to `wait_for` at the time `now`. It waits only while nothing is
queued. -/
def waitFor (now : ℕ) (r : RunLoop κ) : Option Int64 :=
  if r.funcs.isEmpty then some (milliseconds (r.timers.timeoutMs now)) else none

/-- A duration below `2 ^ 63` is converted exactly. -/
theorem toInt_milliseconds {timeout : ℕ} (h : timeout < 2 ^ 63) :
    (milliseconds timeout).toInt = timeout := by
  rw [milliseconds, UInt64.toInt64_ofNat', Int64.toInt_ofNat_of_lt h]

/-- With no timer pending, the duration is minus one millisecond. -/
theorem toInt_milliseconds_no_timers {now : ℕ} (h : ∀ id, id ∉ r.timers.timers) :
    (milliseconds (r.timers.timeoutMs now)).toInt = -1 := by
  have hfirst : r.timers.timers.first? = none := OrderedSet.first?_eq_none.mpr h
  have hmax : r.timers.timeoutMs now = 2 ^ 64 - 1 := by simp only [TimerList.timeoutMs, hfirst]
  rw [hmax]
  decide

/-- **The loop does not spin and does not oversleep**, just if a timer is pending or a function is
queued, where no due time is above `2 ^ 63`. When it waits, the duration is not negative, it is zero
only if a timer is due or the clock has gone back, it is otherwise the time until the first timer is
due, and it is maximal if there is no timer. -/
theorem waitFor_spec {now : ℕ} (hvalues : ∀ id ∈ r.timers.timers, id.first < 2 ^ 63) :
    ((∃ id, id ∈ r.timers.timers) ∨ r.funcs.isEmpty = false) ↔
    ∀ d, r.waitFor now = some d →
      0 ≤ d.toInt ∧
      (d.toInt = 0 → now < r.timers.lastTimeOut ∨ ∃ id ∈ r.timers.timers, id.first ≤ now) ∧
      ((∃ id, id ∈ r.timers.timers) → r.timers.lastTimeOut ≤ now →
        (∀ id ∈ r.timers.timers, now < id.first) →
        ∃ id ∈ r.timers.timers, (∀ it ∈ r.timers.timers, id.first ≤ it.first) ∧
          d.toInt = id.first - now) ∧
      ((∀ id, id ∉ r.timers.timers) → d = Int64.maxValue) := by
  constructor
  · intro hbusy d hwait
    obtain ⟨hidle, hd⟩ := Option.ite_none_right_eq_some.mp hwait
    obtain rfl := Option.some.inj hd
    have hsome : ∃ id, id ∈ r.timers.timers := hbusy.resolve_right fun h => by
      rw [h] at hidle
      cases hidle
    cases hfirst : r.timers.timers.first? with
    | none =>
      obtain ⟨id, hid⟩ := hsome
      exact absurd hid (OrderedSet.first?_eq_none.mp hfirst id)
    | some it =>
      have hmem := OrderedSet.mem_of_first? hfirst
      have hlt := hvalues it hmem
      -- A due timer and a clock that went back give zero, and nothing wraps below the bound.
      have htimeout : r.timers.timeoutMs now =
          if now < r.timers.lastTimeOut then 0 else it.first - now := by
        simp only [TimerList.timeoutMs, hfirst]
        split_ifs with hback hdue
        · rfl
        · exact (Nat.sub_eq_zero_of_le hdue).symm
        · rfl
      have hbound : r.timers.timeoutMs now < 2 ^ 63 := by
        rw [htimeout]
        split_ifs <;> omega
      rw [toInt_milliseconds hbound, htimeout]
      refine ⟨Int.natCast_nonneg _, ?_, ?_, fun hnone => absurd hmem (hnone it)⟩
      · intro hzero
        by_cases hback : now < r.timers.lastTimeOut
        · exact .inl hback
        · rw [if_neg hback] at hzero
          exact .inr ⟨it, hmem, by omega⟩
      · intro _ hclock hlater
        refine ⟨it, hmem, fun id hid => ?_, ?_⟩
        · exact TimerId.first_le (OrderedSet.le_of_first? hfirst hid)
        · rw [if_neg (Nat.not_lt.mpr hclock)]
          exact Int.ofNat_sub (hlater it hmem).le
  · intro hspec
    by_contra hidle
    obtain ⟨hnone, hempty⟩ := not_or.mp hidle
    have hwait : r.waitFor now = some (milliseconds (r.timers.timeoutMs now)) :=
      if_pos (Bool.eq_true_of_not_eq_false hempty)
    -- Without a timer the maximum of `uint64_t` becomes a negative duration.
    have hneg := (hspec _ hwait).1
    rw [toInt_milliseconds_no_timers (not_exists.mp hnone)] at hneg
    omega

/-- A timer that is due in fifteen milliseconds. -/
theorem waitFor_spec_runAt : ∃ r : RunLoop ℕ, ∃ d,
    r.timers.timers.toList = [⟨20, 7⟩] ∧ r.waitFor 5 = some d ∧ 0 ≤ d.toInt := by
  have hrun : (run RunLoop.step (new 0) [.call true (.runAt 7 20 1)]).map (fun r =>
      (r.timers.timers.toList, r.waitFor 5)) = some ([⟨20, 7⟩], some 15) := by decide +kernel
  obtain ⟨r, hr, hpair⟩ := Option.map_eq_some_iff.mp hrun
  obtain ⟨htimers, hwait⟩ := Prod.mk.inj hpair
  refine ⟨r, 15, htimers, hwait, ((waitFor_spec ?_).mp (.inl ?_) 15 hwait).1⟩
  · intro id hid
    rw [← OrderedSet.mem_toList, htimers, List.mem_singleton] at hid
    rw [hid]
    decide
  · refine ⟨⟨20, 7⟩, ?_⟩
    rw [← OrderedSet.mem_toList, htimers]
    exact List.mem_singleton_self _

/-- A loop with no timer and no queued function waits for minus one millisecond, which is over at
once. -/
theorem waitFor_no_timers :
    (new 0 : RunLoop ℕ).timers.timers.toList = [] ∧ (new 0 : RunLoop ℕ).funcs.length = 0 ∧
      ((new 0 : RunLoop ℕ).waitFor 0).map Int64.toInt = some (-1) := by
  decide +kernel

end RunLoop

end Skywalker
