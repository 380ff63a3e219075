import Skywalker.RunLoop

/-!
# A call of `RunTimerProcs`

`runTimerProcs` is the whole function, with callbacks that call the timer list. What a callback
calls may depend on everything that happened in the pass and on the list that it finds.

`runTimerProcs_spec` says when the right timers are run and the list is right afterwards
(`RunsDueTimers`): just if no due periodic timer has a next due time that wraps around. The proof
follows the loop with `Progress`, which relates the list at any point to the one at the begin
of the loop and the log of the firings so far. A pass of the loop keeps it (`Progress.take`), and
what is due afterwards was due before, so that the loop ends by `OrderedSet.drain_spec`.

A periodic timer whose next due time wraps around is due again at once, and the loop does not end
(`runTimerProcs_wraps`).
-/

namespace Skywalker

open TransitionSystem

/-! ## The function -/

/-- A timer that was run, and what its callback called. -/
structure Firing (κ : Type*) where
  /-- The entry of `timers_` that was due. -/
  id : TimerId
  timer : Timer κ
  calls : List (TimerCall κ)

/-- The list and the firings so far, oldest first. -/
structure Pass (κ : Type*) where
  /-- The list as it is now. -/
  timers : TimerList κ
  /-- The firings of the pass so far. -/
  log : List (Firing κ) := []

/-- What a callback calls, when it is run after some firings on a list. -/
abbrev Callbacks (κ : Type*) := κ → List (Firing κ) → TimerList κ → List (TimerCall κ)

variable {κ : Type*}

/-- A sequence of calls in the loop. -/
def TimerList.calls (s : TimerList κ) (l : List (TimerCall κ)) : TimerList κ := l.foldl call s

/-- A pass of the loop, with the callback. -/
def Pass.take (callbacks : Callbacks κ) (msNow : ℕ) (p : Pass κ) (it : TimerId) : Pass κ :=
  let s := p.timers.fire msNow it
  match p.timers.heap it.second with
  | none => { p with timers := s }
  | some t =>
    let l := callbacks t.timerprocCb p.log s
    { timers := s.calls l, log := p.log ++ [⟨it, t, l⟩] }

/-- `TimerList::RunTimerProcs` at the reading `msNow`. `none` if its loop does not end in the given
number of passes. -/
def runTimerProcs (callbacks : Callbacks κ) (msNow passes : ℕ) (s : TimerList κ) :
    Option (Pass κ) :=
  if s.timers.first?.isNone then some { timers := s }
  else
    OrderedSet.drain (fun p : Pass κ => p.timers.timers) (fun it => it.first ≤ msNow)
      (Pass.take callbacks msNow) passes { timers := s.beginPass msNow }

/-! ## What it is for -/

/-- A call of the list removes the address `a`. -/
def Removes (l : List (TimerCall κ)) (a : ℕ) : Prop := ∃ id, .remove id ∈ l ∧ id.second = a

/-- The callbacks remove the address `a`. -/
def Removed (log : List (Firing κ)) (a : ℕ) : Prop := ∃ f ∈ log, Removes f.calls a

/-- The callbacks start the timer `t` at the address `a`. -/
def Started (log : List (Firing κ)) (a : ℕ) (t : Timer κ) : Prop :=
  ∃ f ∈ log, .start a t ∈ f.calls

/-- The timer at the address `a` was run. -/
def Fired (log : List (Firing κ)) (a : ℕ) : Prop := ∃ f ∈ log, f.id.second = a

/-- The calls get free addresses from `new`, and start timers that are due after `msNow` only. -/
def PermittedCalls (msNow : ℕ) : TimerList κ → List (TimerCall κ) → Prop
  | _, [] => True
  | s, .start addr t :: l =>
    s.heap addr = none ∧ msNow < t.msValue ∧ PermittedCalls msNow (s.start addr t) l
  | s, .remove timer :: l => PermittedCalls msNow (s.remove timer) l

/-- The due timers of `s` were run at the reading `msNow`, and `p` is what came of it. All due times
are earlier by what the clock went back. -/
structure RunsDueTimers (msNow : ℕ) (s : TimerList κ) (p : Pass κ) : Prop where
  /-- A timer that was run was pending and due. -/
  fired : ∀ f ∈ p.log, ∃ t, s.pending f.id.second = some t ∧
    f.timer = t.shifted (s.lastTimeOut - msNow) ∧ f.id.first = f.timer.msValue ∧
    f.id.first ≤ msNow
  /-- Timers are run in the order of their due times, each of them once. -/
  order : p.log.Pairwise fun f g => f.id.first ≤ g.id.first ∧ f.id.second ≠ g.id.second
  /-- A pending timer is run if it is due and no callback that was run before its turn removes
  it, and not otherwise. -/
  fired_iff : ∀ a t, s.pending a = some t →
    (Fired p.log a ↔ t.msValue - (s.lastTimeOut - msNow) ≤ msNow ∧
      ∀ f ∈ p.log, f.id < ⟨t.msValue - (s.lastTimeOut - msNow), a⟩ → ¬Removes f.calls a)
  /-- A timer without an interval is gone: what is at its address was started by a callback. -/
  gone : ∀ f ∈ p.log, f.timer.msInterval = 0 → ∀ t, p.timers.pending f.id.second = some t →
    Started p.log f.id.second t
  /-- A periodic timer is due again after its interval, unless a callback removed it. -/
  rescheduled : ∀ f ∈ p.log, 0 < f.timer.msInterval → ¬Removed p.log f.id.second →
    p.timers.pending f.id.second =
      some { f.timer with msValue := msNow + f.timer.msInterval }
  /-- All other timers are as before, unless a callback removed them. -/
  kept : ∀ a t, s.pending a = some t → msNow < t.msValue - (s.lastTimeOut - msNow) →
    ¬Removed p.log a → p.timers.pending a = some (t.shifted (s.lastTimeOut - msNow))
  /-- There is nothing else in the list than these and what the callbacks started. -/
  origin : ∀ a t, p.timers.pending a = some t → Started p.log a t ∨
    ¬Removed p.log a ∧ ∃ t', s.pending a = some t' ∧
      (¬Fired p.log a ∧ t = t'.shifted (s.lastTimeOut - msNow) ∨
        Fired p.log a ∧ 0 < t'.msInterval ∧ t = { t' with msValue := msNow + t'.msInterval })
  /-- Nothing in the list is due. -/
  later : ∀ a t, p.timers.pending a = some t → msNow < t.msValue

/-! ## The calls of a callback -/

variable {s : TimerList κ} {l : List (TimerCall κ)} {t : Timer κ} {a msNow : ℕ}

/-- What a callback leaves of the list: it is consistent, a timer is still there that the callback
did not remove, and anything else was started by it, to be due later. -/
theorem TimerList.Consistent.calls (hs : s.Consistent) (hl : PermittedCalls msNow s l) :
    (s.calls l).Consistent ∧
    (∀ a t, s.pending a = some t → ¬Removes l a → (s.calls l).pending a = some t) ∧
    ∀ a t, (s.calls l).pending a = some t →
      .start a t ∈ l ∧ msNow < t.msValue ∨ s.pending a = some t ∧ ¬Removes l a := by
  induction l generalizing s with
  | nil => exact ⟨hs, fun a t ht _ => ht, fun a t ht => .inr ⟨ht, fun ⟨id, hid, _⟩ => nomatch hid⟩⟩
  | cons c l ih =>
    cases c with
    | start addr t₀ =>
      obtain ⟨hfree, hlater, hl⟩ := hl
      obtain ⟨hcons, hkept, horigin⟩ := ih (hs.start hfree) hl
      have hremoves (a : ℕ) : Removes (.start addr t₀ :: l) a ↔ Removes l a := by simp [Removes]
      have hpending := TimerList.pending_start (t := t₀) hs hfree
      refine ⟨hcons, fun a t ht hnot => ?_, fun a t ht => ?_⟩
      · -- The address of a pending timer is not free.
        have hne : a ≠ addr := by
          rintro rfl
          rw [TimerList.pending_eq_none_of_free hfree] at ht
          exact absurd ht nofun
        refine hkept a t ?_ (fun h => hnot ((hremoves a).mpr h))
        rw [hpending, Function.update_of_ne hne, ht]
      · obtain ⟨hmem, hdue⟩ | ⟨hold, hnot⟩ := horigin a t ht
        · exact .inl ⟨List.mem_cons_of_mem _ hmem, hdue⟩
        · rw [hpending] at hold
          by_cases ha : a = addr
          · subst ha
            obtain rfl : t₀ = t := by simpa using hold
            exact .inl ⟨List.mem_cons_self, hlater⟩
          · rw [Function.update_of_ne ha] at hold
            exact .inr ⟨hold, fun h => hnot ((hremoves a).mp h)⟩
    | remove timer =>
      obtain ⟨hcons, hkept, horigin⟩ := ih (hs.remove timer) hl
      have hpending := TimerList.pending_remove s timer
      have hremoves (a : ℕ) :
          Removes (.remove timer :: l) a ↔ timer.second = a ∨ Removes l a := by
        simp [Removes, or_and_right, exists_or]
      refine ⟨hcons, fun a t ht hnot => ?_, fun a t ht => ?_⟩
      · rw [hremoves, not_or] at hnot
        refine hkept a t ?_ hnot.2
        rw [hpending, Function.update_of_ne (Ne.symm hnot.1), ht]
      · obtain ⟨hmem, hdue⟩ | ⟨hold, hnot⟩ := horigin a t ht
        · exact .inl ⟨List.mem_cons_of_mem _ hmem, hdue⟩
        · rw [hpending] at hold
          have hne : a ≠ timer.second := by
            rintro rfl
            rw [Function.update_self] at hold
            exact absurd hold nofun
          rw [Function.update_of_ne hne] at hold
          rw [hremoves]
          exact .inr ⟨hold, not_or.mpr ⟨Ne.symm hne, hnot⟩⟩

/-! ## A pass of the loop -/

section Log

variable {log : List (Firing κ)} {f : Firing κ}

theorem removed_append : Removed (log ++ [f]) a ↔ Removed log a ∨ Removes f.calls a := by
  simp [Removed, or_and_right, exists_or]

theorem fired_append : Fired (log ++ [f]) a ↔ Fired log a ∨ f.id.second = a := by
  simp [Fired, or_and_right, exists_or]

theorem Started.append (h : Started log a t) : Started (log ++ [f]) a t := by
  obtain ⟨g, hg, hcall⟩ := h
  exact ⟨g, List.mem_append_left _ hg, hcall⟩

end Log

/-- How the list of a pass relates to the list `s₀` at the begin of the loop. -/
structure Progress (msNow : ℕ) (s₀ : TimerList κ) (p : Pass κ) : Prop where
  consistent : p.timers.Consistent
  /-- What was run was due at the begin. -/
  fired : ∀ f ∈ p.log, s₀.pending f.id.second = some f.timer ∧ f.timer.msValue = f.id.first ∧
    f.id.first ≤ msNow
  order : p.log.Pairwise fun f g => f.id < g.id
  /-- What is still due comes after what was run. -/
  ahead : ∀ f ∈ p.log, ∀ id ∈ p.timers.timers, id.first ≤ msNow → f.id < id
  /-- A timer that was neither run nor removed is still there. -/
  waiting : ∀ a t, s₀.pending a = some t → ¬Fired p.log a → ¬Removed p.log a →
    p.timers.pending a = some t
  /-- A periodic timer that was run and not removed is there, with its next due time. -/
  again : ∀ f ∈ p.log, ∀ t, f.timer.rescheduled msNow = some t → ¬Removed p.log f.id.second →
    p.timers.pending f.id.second = some t
  /-- There are no other timers than these and those that callbacks started. -/
  origin : ∀ a t, p.timers.pending a = some t → Started p.log a t ∧ msNow < t.msValue ∨
    ¬Removed p.log a ∧ (s₀.pending a = some t ∧ ¬Fired p.log a ∨
      ∃ f ∈ p.log, f.id.second = a ∧ f.timer.rescheduled msNow = some t)
  /-- What was run had not been removed before. -/
  unremoved : ∀ f ∈ p.log, ∀ g ∈ p.log, g.id < f.id → ¬Removes g.calls f.id.second
  /-- What was removed and not run was removed before its turn. -/
  removedFirst : ∀ a t, s₀.pending a = some t → ¬Fired p.log a → Removed p.log a →
    ∃ f ∈ p.log, f.id < ⟨t.msValue, a⟩ ∧ Removes f.calls a

/-- No periodic timer that is due at the reading `msNow`, when all due times are earlier by what the
clock went back, has a next due time after the end of the clock. -/
def NoWrap (msNow : ℕ) (s : TimerList κ) : Prop :=
  ∀ a t, s.pending a = some t → 0 < t.msInterval →
    t.msValue - (s.lastTimeOut - msNow) ≤ msNow → msNow + t.msInterval < 2 ^ 64

/-- The same of the list at the begin of the loop, where the due times are those of the pass. -/
def NextInRange (msNow : ℕ) (s₀ : TimerList κ) : Prop :=
  ∀ a t, s₀.pending a = some t → 0 < t.msInterval → t.msValue ≤ msNow →
    msNow + t.msInterval < 2 ^ 64

/-- A periodic timer is rescheduled to a later time. -/
theorem Timer.rescheduled_eq_some (hwrap : 0 < t.msInterval → msNow + t.msInterval < 2 ^ 64)
    {t' : Timer κ} (h : t.rescheduled msNow = some t') :
    0 < t.msInterval ∧ t' = { t with msValue := msNow + t.msInterval } := by
  unfold Timer.rescheduled at h
  split_ifs at h with hperiodic
  refine ⟨hperiodic, ?_⟩
  rw [← Option.some.inj h, addMillis, Nat.mod_eq_of_lt (hwrap hperiodic)]

variable {s₀ : TimerList κ} {p : Pass κ} {it : TimerId} {callbacks : Callbacks κ}

namespace Progress

theorem init (hs : s₀.Consistent) : Progress msNow s₀ { timers := s₀ } where
  consistent := hs
  fired _ hf := absurd hf List.not_mem_nil
  order := .nil
  ahead _ hf := absurd hf List.not_mem_nil
  waiting _ _ ht _ _ := ht
  again _ hf := absurd hf List.not_mem_nil
  origin a t ht := by
    refine .inr ⟨?_, .inl ⟨ht, ?_⟩⟩
    · rintro ⟨f, hf, -⟩
      exact List.not_mem_nil hf
    · rintro ⟨f, hf, -⟩
      exact List.not_mem_nil hf
  unremoved _ hf := absurd hf List.not_mem_nil
  removedFirst a t _ _ := by
    rintro ⟨f, hf, -⟩
    exact absurd hf List.not_mem_nil

/-- A timer in the list that is due was there at the begin, and was neither run nor removed. -/
theorem pending_of_due (h : Progress msNow s₀ p) (hwrap : NextInRange msNow s₀)
    (ht : p.timers.pending a = some t) (hdue : t.msValue ≤ msNow) :
    s₀.pending a = some t ∧ ¬Fired p.log a ∧ ¬Removed p.log a := by
  obtain ⟨-, hlater⟩ | ⟨hnot, ⟨hold, hnotFired⟩ | ⟨f, hf, rfl, hresch⟩⟩ := h.origin a t ht
  · exact absurd hlater (Nat.not_lt.mpr hdue)
  · exact ⟨hold, hnotFired, hnot⟩
  · -- A timer that was rescheduled is due later.
    obtain ⟨hold, hv, hdue'⟩ := h.fired f hf
    obtain ⟨hperiodic, rfl⟩ := Timer.rescheduled_eq_some
      (fun hperiodic => hwrap _ _ hold hperiodic (hv ▸ hdue')) hresch
    change msNow + f.timer.msInterval ≤ msNow at hdue
    omega

end Progress

/-- What a pass of the loop does: the first timer `it` is `t`, which has been waiting since the
begin, and its callback makes the calls `l`. -/
structure Taken (msNow : ℕ) (s₀ : TimerList κ) (p p' : Pass κ) (it : TimerId) (t : Timer κ)
    (l : List (TimerCall κ)) : Prop where
  old : s₀.pending it.second = some t
  value : t.msValue = it.first
  notFired : ¬Fired p.log it.second
  notRemoved : ¬Removed p.log it.second
  log : p'.log = p.log ++ [⟨it, t, l⟩]
  consistent : p'.timers.Consistent
  /-- The other timers are there that the callback did not remove. -/
  kept : ∀ a t', a ≠ it.second → p.timers.pending a = some t' → ¬Removes l a →
    p'.timers.pending a = some t'
  /-- So is the timer itself, if it is periodic. -/
  again : ∀ t', t.rescheduled msNow = some t' → ¬Removes l it.second →
    p'.timers.pending it.second = some t'
  /-- Everything else was started by the callback. -/
  origin : ∀ a t', p'.timers.pending a = some t' → .start a t' ∈ l ∧ msNow < t'.msValue ∨
    ¬Removes l a ∧ (a ≠ it.second ∧ p.timers.pending a = some t' ∨
      a = it.second ∧ t.rescheduled msNow = some t')

namespace Progress

/-- The pass of the loop for a due timer. -/
theorem taken (h : Progress msNow s₀ p) (hwrap : NextInRange msNow s₀)
    (hcallbacks : ∀ cb log s, s.Consistent → PermittedCalls msNow s (callbacks cb log s))
    (hfirst : p.timers.timers.first? = some it) (hdue : it.first ≤ msNow) :
    ∃ t l, Taken msNow s₀ p (p.take callbacks msNow it) it t l := by
  have hmem := OrderedSet.mem_of_first? hfirst
  obtain ⟨t, ht, hv⟩ := h.consistent.exists_pending hmem
  obtain ⟨hold, hnotFired, hnot⟩ := h.pending_of_due hwrap ht (hv ▸ hdue)
  have hfire : (p.timers.fire msNow it).Consistent := h.consistent.fire hmem
  have hpending : (p.timers.fire msNow it).pending =
      Function.update p.timers.pending it.second (Timer.rescheduled msNow t) :=
    TimerList.pending_fire ht
  have htake : p.take callbacks msNow it =
      { timers := (p.timers.fire msNow it).calls
          (callbacks t.timerprocCb p.log (p.timers.fire msNow it))
        log := p.log ++
          [⟨it, t, callbacks t.timerprocCb p.log (p.timers.fire msNow it)⟩] } := by
    unfold Pass.take
    rw [(TimerList.pending_eq_some.mp ht).2]
  have hl := hcallbacks t.timerprocCb p.log _ hfire
  generalize callbacks t.timerprocCb p.log (p.timers.fire msNow it) = l at htake hl
  obtain ⟨hcons, hkept, horigin⟩ := hfire.calls hl
  refine ⟨t, l, ?_⟩
  rw [htake]
  refine ⟨hold, hv, hnotFired, hnot, rfl, hcons, ?_, ?_, ?_⟩
  · intro a t' hne ht' hremoves
    refine hkept a t' ?_ hremoves
    rw [hpending, Function.update_of_ne hne, ht']
  · intro t' ht' hremoves
    refine hkept it.second t' ?_ hremoves
    rw [hpending, Function.update_self, ht']
  · intro a t' ht'
    obtain hstarted | ⟨hbefore, hremoves⟩ := horigin a t' ht'
    · exact .inl hstarted
    · refine .inr ⟨hremoves, ?_⟩
      rw [hpending] at hbefore
      by_cases ha : a = it.second
      · subst ha
        rw [Function.update_self] at hbefore
        exact .inr ⟨rfl, hbefore⟩
      · rw [Function.update_of_ne ha] at hbefore
        exact .inl ⟨ha, hbefore⟩

end Progress

namespace Taken

variable {p' : Pass κ}

/-- What is due after a pass was due before it, and is not the timer that was run. -/
theorem mem_of_due (h : Taken msNow s₀ p p' it t l) (hp : Progress msNow s₀ p)
    (hwrap : NextInRange msNow s₀) (hit : it.first ≤ msNow) {id : TimerId}
    (hid : id ∈ p'.timers.timers) (hdue : id.first ≤ msNow) : id ∈ p.timers.timers ∧ id ≠ it := by
  obtain ⟨t', ht', hv⟩ := h.consistent.exists_pending hid
  obtain ⟨-, hlater⟩ | ⟨-, ⟨hne, hbefore⟩ | ⟨-, hresch⟩⟩ := h.origin _ t' ht'
  · omega
  · refine ⟨(hp.consistent.mem_timers id).mpr ⟨t', hbefore, hv⟩, ?_⟩
    rintro rfl
    exact hne rfl
  · obtain ⟨hperiodic, rfl⟩ := Timer.rescheduled_eq_some
      (fun hperiodic => hwrap _ _ h.old hperiodic (h.value ▸ hit)) hresch
    change msNow + t.msInterval = id.first at hv
    omega

theorem mem_log (h : Taken msNow s₀ p p' it t l) {f : Firing κ} :
    f ∈ p'.log ↔ f ∈ p.log ∨ f = ⟨it, t, l⟩ := by
  rw [h.log, List.mem_append, List.mem_singleton]

theorem removed_iff (h : Taken msNow s₀ p p' it t l) :
    Removed p'.log a ↔ Removed p.log a ∨ Removes l a := by
  rw [h.log, removed_append]

theorem fired_iff (h : Taken msNow s₀ p p' it t l) :
    Fired p'.log a ↔ Fired p.log a ∨ it.second = a := by
  rw [h.log, fired_append]

/-- A pass carries the account of what has been run and what still waits. -/
theorem progress (h : Taken msNow s₀ p p' it t l) (hp : Progress msNow s₀ p)
    (hwrap : NextInRange msNow s₀) (hfirst : p.timers.timers.first? = some it)
    (hdue : it.first ≤ msNow) : Progress msNow s₀ p' where
  consistent := h.consistent
  fired f hf := by
    obtain hf | rfl := h.mem_log.mp hf
    · exact hp.fired f hf
    · exact ⟨h.old, h.value, hdue⟩
  order := by
    rw [h.log, List.pairwise_append]
    refine ⟨hp.order, List.pairwise_singleton _ _, fun f hf g hg => ?_⟩
    obtain rfl := List.mem_singleton.mp hg
    exact hp.ahead f hf it (OrderedSet.mem_of_first? hfirst) hdue
  ahead f hf id hid hid' := by
    obtain ⟨hmem, hne⟩ := h.mem_of_due hp hwrap hdue hid hid'
    obtain hf | rfl := h.mem_log.mp hf
    · exact hp.ahead f hf id hmem hid'
    · exact lt_of_le_of_ne (OrderedSet.le_of_first? hfirst hmem) (Ne.symm hne)
  waiting a t' ht' hnotFired hnot := by
    rw [h.fired_iff, not_or] at hnotFired
    rw [h.removed_iff, not_or] at hnot
    exact h.kept a t' (Ne.symm hnotFired.2) (hp.waiting a t' ht' hnotFired.1 hnot.1) hnot.2
  again f hf t' ht' hnot := by
    rw [h.removed_iff, not_or] at hnot
    obtain hf | rfl := h.mem_log.mp hf
    · have hne : f.id.second ≠ it.second := fun heq => h.notFired ⟨f, hf, heq⟩
      exact h.kept _ t' hne (hp.again f hf t' ht' hnot.1) hnot.2
    · exact h.again t' ht' hnot.2
  origin a t' ht' := by
    obtain ⟨hstart, hlater⟩ | ⟨hremoves, ⟨hne, hbefore⟩ | ⟨rfl, hresch⟩⟩ := h.origin a t' ht'
    · exact .inl ⟨⟨_, h.mem_log.mpr (.inr rfl), hstart⟩, hlater⟩
    · rw [h.removed_iff, h.fired_iff]
      obtain ⟨hstart, hlater⟩ | ⟨hnot, ⟨hold, hnotFired⟩ | ⟨f, hf, heq, hresch⟩⟩ :=
        hp.origin a t' hbefore
      · exact .inl ⟨h.log ▸ hstart.append, hlater⟩
      · exact .inr ⟨not_or.mpr ⟨hnot, hremoves⟩,
          .inl ⟨hold, not_or.mpr ⟨hnotFired, Ne.symm hne⟩⟩⟩
      · exact .inr ⟨not_or.mpr ⟨hnot, hremoves⟩,
          .inr ⟨f, h.mem_log.mpr (.inl hf), heq, hresch⟩⟩
    · rw [h.removed_iff]
      exact .inr ⟨not_or.mpr ⟨h.notRemoved, hremoves⟩,
        .inr ⟨_, h.mem_log.mpr (.inr rfl), rfl, hresch⟩⟩
  unremoved f hf g hg hlt := by
    obtain hf | rfl := h.mem_log.mp hf
    · obtain hg | rfl := h.mem_log.mp hg
      · exact hp.unremoved f hf g hg hlt
      · -- The new firing is the last.
        have hlast := hp.ahead f hf it (OrderedSet.mem_of_first? hfirst) hdue
        exact absurd hlt (lt_asymm hlast)
    · obtain hg | rfl := h.mem_log.mp hg
      · exact fun hremoves => h.notRemoved ⟨g, hg, hremoves⟩
      · exact absurd hlt (lt_irrefl _)
  removedFirst a t' ht' hnotFired hremoved := by
    rw [h.fired_iff, not_or] at hnotFired
    by_cases hbefore : Removed p.log a
    · obtain ⟨f, hf, hlt, hremoves⟩ := hp.removedFirst a t' ht' hnotFired.1 hbefore
      exact ⟨f, h.mem_log.mpr (.inl hf), hlt, hremoves⟩
    · -- The timer was still waiting, so that its turn is after the one of `it`.
      have hremoves : Removes l a := (h.removed_iff.mp hremoved).resolve_left hbefore
      have hwaiting := hp.waiting a t' ht' hnotFired.1 hbefore
      have hle := OrderedSet.le_of_first? hfirst (hp.consistent.mem_of_pending hwaiting)
      refine ⟨_, h.mem_log.mpr (.inr rfl), lt_of_le_of_ne hle ?_, hremoves⟩
      exact fun heq => hnotFired.2 (congrArg TimerId.second heq)

end Taken

/-! ## The end of the loop -/

theorem Timer.rescheduled_of_pos (hperiodic : 0 < t.msInterval)
    (hwrap : msNow + t.msInterval < 2 ^ 64) :
    t.rescheduled msNow = some { t with msValue := msNow + t.msInterval } := by
  rw [Timer.rescheduled, if_pos hperiodic, addMillis, Nat.mod_eq_of_lt hwrap]

/-- The due times at the begin of the loop are earlier by what the clock went back. -/
theorem NoWrap.beginPass (hwrap : NoWrap msNow s) (hs : s.Consistent) :
    NextInRange msNow (s.beginPass msNow) := by
  intro a t ht
  rw [TimerList.pending_beginPass hs] at ht
  obtain ⟨t', ht', rfl⟩ := Option.map_eq_some_iff.mp ht
  exact hwrap a t' ht'

/-- When nothing is due any more, the timers that were due at the begin have been run. -/
theorem Progress.runsDueTimers (h : Progress msNow (s.beginPass msNow) p) (hs : s.Consistent)
    (hwrap : NoWrap msNow s) (hdone : ∀ id ∈ p.timers.timers, msNow < id.first) :
    RunsDueTimers msNow s p := by
  have hstart := TimerList.pending_beginPass hs msNow
  have hlater : ∀ a t, p.timers.pending a = some t → msNow < t.msValue := fun a t ht =>
    hdone _ (h.consistent.mem_of_pending ht)
  -- A timer that was run is the one that was pending at its address.
  have htimer : ∀ f ∈ p.log, ∀ t, s.pending f.id.second = some t →
      f.timer = t.shifted (s.lastTimeOut - msNow) := by
    intro f hf t ht
    have hf := (h.fired f hf).1
    rw [hstart, ht] at hf
    exact (Option.some.inj hf).symm
  refine
    { fired := ?_, order := ?_, fired_iff := ?_, gone := ?_, rescheduled := ?_, kept := ?_,
      origin := ?_, later := hlater }
  · intro f hf
    obtain ⟨hpending, hv, hdue⟩ := h.fired f hf
    rw [hstart] at hpending
    obtain ⟨t, ht, heq⟩ := Option.map_eq_some_iff.mp hpending
    exact ⟨t, ht, heq.symm, hv.symm, hdue⟩
  · refine h.order.imp_of_mem fun {f g} hf hg hlt => ⟨TimerId.first_le hlt.le, fun heq => ?_⟩
    -- Two entries of one address have one due time.
    obtain ⟨hf, hfv, -⟩ := h.fired f hf
    obtain ⟨hg, hgv, -⟩ := h.fired g hg
    rw [heq, hg] at hf
    obtain heq' := Option.some.inj hf
    refine absurd hlt (ne_of_lt · (TimerId.ext ?_ heq))
    rw [← hfv, ← hgv, heq']
  · intro a t ht
    have hpending : (s.beginPass msNow).pending a = some (t.shifted (s.lastTimeOut - msNow)) := by
      rw [hstart, ht]
      rfl
    constructor
    · rintro ⟨f, hf, rfl⟩
      obtain ⟨-, hv, hdue⟩ := h.fired f hf
      have hself : f.id = ⟨t.msValue - (s.lastTimeOut - msNow), f.id.second⟩ := by
        refine TimerId.ext ?_ rfl
        rw [← hv, htimer f hf t ht]
        rfl
      refine ⟨?_, fun g hg hlt => h.unremoved f hf g hg (hself ▸ hlt)⟩
      rw [hself] at hdue
      exact hdue
    · rintro ⟨hdue, hnot⟩
      by_contra hnotFired
      -- It is still waiting and due, or it was removed before its turn.
      by_cases hremoved : Removed p.log a
      · obtain ⟨f, hf, hlt, hremoves⟩ := h.removedFirst a _ hpending hnotFired hremoved
        exact hnot f hf hlt hremoves
      · have hwaiting := hlater a _ (h.waiting a _ hpending hnotFired hremoved)
        change msNow < t.msValue - (s.lastTimeOut - msNow) at hwaiting
        omega
  · intro f hf hzero t ht
    obtain ⟨hstarted, -⟩ | ⟨-, ⟨-, hnotFired⟩ | ⟨g, hg, heq, hresch⟩⟩ := h.origin _ t ht
    · exact hstarted
    · exact absurd ⟨f, hf, rfl⟩ hnotFired
    · have hsame : g.timer = f.timer := by
        have hf := (h.fired f hf).1
        rw [← heq, (h.fired g hg).1] at hf
        exact Option.some.inj hf
      rw [Timer.rescheduled, if_neg (by rw [hsame, hzero]; exact lt_irrefl 0)] at hresch
      exact absurd hresch.symm (Option.some_ne_none t)
  · intro f hf hperiodic hnot
    obtain ⟨hold, hv, hdue⟩ := h.fired f hf
    have hfwrap := (hwrap.beginPass hs) _ _ hold hperiodic (hv ▸ hdue)
    exact h.again f hf _ (Timer.rescheduled_of_pos hperiodic hfwrap) hnot
  · intro a t ht hnotDue hnot
    refine h.waiting a _ (by rw [hstart, ht]; rfl) ?_ hnot
    rintro ⟨f, hf, rfl⟩
    obtain ⟨-, hv, hdue⟩ := h.fired f hf
    rw [htimer f hf t ht] at hv
    change t.msValue - _ = f.id.first at hv
    omega
  · intro a t ht
    obtain ⟨hstarted, -⟩ | ⟨hnot, ⟨hold, hnotFired⟩ | ⟨f, hf, rfl, hresch⟩⟩ := h.origin a t ht
    · exact .inl hstarted
    · rw [hstart] at hold
      obtain ⟨t', ht', rfl⟩ := Option.map_eq_some_iff.mp hold
      exact .inr ⟨hnot, t', ht', .inl ⟨hnotFired, rfl⟩⟩
    · obtain ⟨hpending, hv, hdue⟩ := h.fired f hf
      obtain ⟨hperiodic, rfl⟩ := Timer.rescheduled_eq_some
        (fun hperiodic => (hwrap.beginPass hs) _ _ hpending hperiodic (hv ▸ hdue)) hresch
      rw [hstart] at hpending
      obtain ⟨t', ht', heq⟩ := Option.map_eq_some_iff.mp hpending
      refine .inr ⟨hnot, t', ht', .inr ⟨⟨f, hf, rfl⟩, ?_, ?_⟩⟩
      · rw [← heq] at hperiodic
        exact hperiodic
      · rw [← heq]
        rfl

theorem TimerList.Consistent.length_timers_le (hs : s.Consistent) :
    s.timers.toList.length ≤ s.timerPtrs.toList.length := by
  rw [← List.length_map (f := TimerId.second)]
  refine (List.subperm_of_subset hs.nodup_seconds fun a ha => ?_).length_le
  obtain ⟨id, hid, rfl⟩ := List.mem_map.mp ha
  obtain ⟨t, ht, -⟩ := hs.exists_pending hid
  exact (TimerList.pending_eq_some.mp ht).1

/-- The loop ends, with whatever its passes keep besides. -/
theorem drain_take (hs : s₀.Consistent) (hwrap : NextInRange msNow s₀)
    (hcallbacks : ∀ cb log s, s.Consistent → PermittedCalls msNow s (callbacks cb log s))
    {I : TimerList κ → Prop} (hI : I s₀)
    (hkeep : ∀ p it, Progress msNow s₀ p → I p.timers → p.timers.timers.first? = some it →
      it.first ≤ msNow → I (p.take callbacks msNow it).timers)
    {passes : ℕ} (hpasses : s₀.timerPtrs.toList.length < passes) :
    ∃ p, OrderedSet.drain (fun p : Pass κ => p.timers.timers) (fun it => it.first ≤ msNow)
        (Pass.take callbacks msNow) passes { timers := s₀ } = some p ∧
      Progress msNow s₀ p ∧ I p.timers ∧ ∀ id ∈ p.timers.timers, msNow < id.first := by
  have hcount : s₀.timers.dueCount (fun it => it.first ≤ msNow) < passes :=
    calc s₀.timers.dueCount (fun it => it.first ≤ msNow)
        ≤ s₀.timers.toList.length := List.length_filter_le _ _
      _ ≤ s₀.timerPtrs.toList.length := hs.length_timers_le
      _ < passes := hpasses
  have hdrain : ∃ p, OrderedSet.drain (fun p : Pass κ => p.timers.timers)
      (fun it => it.first ≤ msNow) (Pass.take callbacks msNow) passes { timers := s₀ } = some p ∧
      (Progress msNow s₀ p ∧ I p.timers) ∧
      ∀ id ∈ p.timers.timers, decide (id.first ≤ msNow) = false := by
    refine OrderedSet.drain_spec (I := fun p => Progress msNow s₀ p ∧ I p.timers)
      ?_ ?_ ?_ ⟨Progress.init hs, hI⟩ hcount
    · intro id id' hle hdue
      exact decide_eq_true ((TimerId.first_le hle).trans (of_decide_eq_true hdue))
    · intro p it hp hfirst hdue
      have hdue := of_decide_eq_true hdue
      obtain ⟨t, l, htaken⟩ := hp.1.taken hwrap hcallbacks hfirst hdue
      exact ⟨htaken.progress hp.1 hwrap hfirst hdue, hkeep p it hp.1 hp.2 hfirst hdue⟩
    · intro p it hp hfirst hdue id hid hid'
      obtain ⟨t, l, htaken⟩ := hp.1.taken hwrap hcallbacks hfirst (of_decide_eq_true hdue)
      exact htaken.mem_of_due hp.1 hwrap (of_decide_eq_true hdue) hid (of_decide_eq_true hid')
  obtain ⟨p, hp, ⟨hprogress, hIp⟩, hdone⟩ := hdrain
  exact ⟨p, hp, hprogress, hIp, fun id hid => by simpa using hdone id hid⟩

/-- With no timer there is nothing to run. -/
theorem RunsDueTimers.of_empty (hs : s.Consistent) (hempty : s.timers.first? = none) :
    RunsDueTimers msNow s { timers := s } := by
  have hnone : ∀ a t, s.pending a ≠ some t := fun a t ht =>
    OrderedSet.first?_eq_none.mp hempty _ (hs.mem_of_pending ht)
  exact
    { fired := fun f hf => absurd hf List.not_mem_nil
      order := .nil
      fired_iff := fun a t ht => absurd ht (hnone a t)
      gone := fun f hf => absurd hf List.not_mem_nil
      rescheduled := fun f hf => absurd hf List.not_mem_nil
      kept := fun a t ht => absurd ht (hnone a t)
      origin := fun a t ht => absurd ht (hnone a t)
      later := fun a t ht => absurd ht (hnone a t) }

/-- Of a pass with callbacks that call nothing: the timer that was `t` at the address `a` is in the
list, under its first due time or the next one as the code computes it. -/
structure Idles (msNow a : ℕ) (t : Timer κ) (p : Pass κ) : Prop where
  consistent : p.timers.Consistent
  pending : ∃ t', p.timers.pending a = some t' ∧ t'.msInterval = t.msInterval ∧
    (t'.msValue ≤ msNow ∨ t'.msValue = addMillis msNow t.msInterval)
  calls : ∀ f ∈ p.log, f.calls = []

/-- A pass of the loop keeps this of a periodic timer. -/
theorem Idles.take (h : Idles msNow a t p) (hperiodic : 0 < t.msInterval)
    (hfirst : p.timers.timers.first? = some it) :
    Idles msNow a t (p.take (fun _ _ _ => []) msNow it) := by
  have hmem := OrderedSet.mem_of_first? hfirst
  obtain ⟨u, hu, -⟩ := h.consistent.exists_pending hmem
  obtain ⟨t', ht', hinterval, hv⟩ := h.pending
  have htake : p.take (fun _ _ _ => []) msNow it =
      { timers := p.timers.fire msNow it, log := p.log ++ [⟨it, u, []⟩] } := by
    unfold Pass.take
    rw [(TimerList.pending_eq_some.mp hu).2]
    rfl
  rw [htake]
  refine ⟨h.consistent.fire hmem, ?_, ?_⟩
  · rw [TimerList.pending_fire hu]
    by_cases ha : a = it.second
    · subst ha
      obtain rfl := Option.some.inj (ht'.symm.trans hu)
      rw [Function.update_self, Timer.rescheduled, hinterval, if_pos hperiodic]
      exact ⟨_, rfl, rfl, .inr rfl⟩
    · rw [Function.update_of_ne ha]
      exact ⟨t', ht', hinterval, hv⟩
  · intro f hf
    rcases List.mem_append.mp hf with hf | hf
    · exact h.calls f hf
    · rw [List.mem_singleton.mp hf]

/-- With callbacks that call nothing, a due periodic timer is in the list after the loop, with the
next due time as the code computes it. -/
theorem runTimerProcs_idle (hs : s.Consistent) (ht : (s.beginPass msNow).pending a = some t)
    (hdue : t.msValue ≤ msNow) (hperiodic : 0 < t.msInterval) {passes : ℕ}
    (h : runTimerProcs (fun _ _ _ => []) msNow passes s = some p) :
    (∃ t', p.timers.pending a = some t' ∧ t'.msValue = addMillis msNow t.msInterval ∧
      msNow < t'.msValue) ∧ ∀ f ∈ p.log, f.calls = [] := by
  have hnonempty : s.timers.first? ≠ none := by
    intro hempty
    rw [TimerList.pending_beginPass hs] at ht
    obtain ⟨t', ht', -⟩ := Option.map_eq_some_iff.mp ht
    exact OrderedSet.first?_eq_none.mp hempty _ (hs.mem_of_pending ht')
  rw [runTimerProcs, if_neg (by simpa using hnonempty)] at h
  have hstart : Idles msNow a t { timers := s.beginPass msNow } :=
    ⟨hs.beginPass msNow, ⟨t, ht, rfl, .inl hdue⟩, fun f hf => absurd hf List.not_mem_nil⟩
  obtain ⟨hidles, hdone⟩ := OrderedSet.drain_invariant (I := Idles msNow a t)
    (fun id id' hle hid => decide_eq_true ((TimerId.first_le hle).trans (of_decide_eq_true hid)))
    (fun p it hp hfirst _ => hp.take hperiodic hfirst) hstart h
  obtain ⟨t', ht', -, hv⟩ := hidles.pending
  have hlater : msNow < t'.msValue := by
    simpa using hdone _ (hidles.consistent.mem_of_pending ht')
  exact ⟨⟨t', ht', hv.resolve_left (Nat.not_le.mpr hlater), hlater⟩, hidles.calls⟩

/-- **`RunTimerProcs` runs the timers that are due**, whatever the callbacks remove and start, after
at most as many passes as there are timers and one more, just if no due periodic timer has a next
due time that wraps around. -/
theorem runTimerProcs_spec {now : ℕ} {r : RunLoop κ}
    (hrun : Reaches RunLoop.step (fun _ _ => True) (RunLoop.new now) r) (msNow : ℕ) :
    NoWrap msNow r.timers ↔
      ∀ callbacks : Callbacks κ,
        (∀ cb log s, s.Consistent → PermittedCalls msNow s (callbacks cb log s)) →
        ∀ passes, r.timers.timerPtrs.toList.length < passes →
          ∃ p, runTimerProcs callbacks msNow passes r.timers = some p ∧
            RunsDueTimers msNow r.timers p := by
  have hs := (RunLoop.sound_of_reaches hrun).consistent
  constructor
  · intro hwrap callbacks hcallbacks passes hpasses
    unfold runTimerProcs
    split_ifs with hempty
    · exact ⟨_, rfl, .of_empty hs (Option.isNone_iff_eq_none.mp hempty)⟩
    · have hptrs : (r.timers.beginPass msNow).timerPtrs = r.timers.timerPtrs :=
        TimerList.timerPtrs_beginPass r.timers msNow
      obtain ⟨p, hp, hprogress, -, hdone⟩ := drain_take (hs.beginPass msNow) (hwrap.beginPass hs)
        hcallbacks (I := fun _ => True) trivial (fun _ _ _ _ _ _ => trivial) (hptrs ▸ hpasses)
      exact ⟨p, hp, hprogress.runsDueTimers hs hwrap hdone⟩
  · intro hspec a t ht hperiodic hdue
    obtain ⟨p, hp, hruns⟩ := hspec (fun _ _ _ => []) (fun _ _ _ _ => trivial) _
      (Nat.lt_succ_self _)
    have hbegin : (r.timers.beginPass msNow).pending a =
        some (t.shifted (r.timers.lastTimeOut - msNow)) := by
      rw [TimerList.pending_beginPass hs, ht]
      rfl
    obtain ⟨⟨t', ht', hnext, -⟩, hcalls⟩ := runTimerProcs_idle hs hbegin hdue hperiodic hp
    -- The timer was run, and nothing removed it.
    have hnot : ∀ f ∈ p.log, ¬Removes f.calls a := by
      rintro f hf ⟨id, hid, -⟩
      rw [hcalls f hf] at hid
      exact List.not_mem_nil hid
    obtain ⟨f, hf, rfl⟩ := (hruns.fired_iff a t ht).mpr ⟨hdue, fun f hf _ => hnot f hf⟩
    obtain ⟨u, hu, htimer, -, -⟩ := hruns.fired f hf
    obtain rfl := Option.some.inj (ht.symm.trans hu)
    have hagain := hruns.rescheduled f hf (by rw [htimer]; exact hperiodic)
      fun ⟨g, hg, hremoves⟩ => hnot g hg hremoves
    rw [ht', htimer] at hagain
    rw [Option.some.inj hagain] at hnext
    have hlt : addMillis msNow t.msInterval < 2 ^ 64 := Nat.mod_lt _ (by decide)
    exact lt_of_eq_of_lt hnext hlt

/-- Three timers: one every ten milliseconds, and two that are run once. -/
def threeTimers : List (LoopEvent ℕ) :=
  [.call true (.runEvery 7 0 10 1), .call true (.runAt 8 15 2), .call true (.runAt 9 12 3)]

/-- At the time 20 all three are due, and the first removes the last. -/
theorem runTimerProcs_spec_threeTimers : ∃ (r : RunLoop ℕ) (p : Pass ℕ),
    run RunLoop.step (RunLoop.new 0) threeTimers = some r ∧
      runTimerProcs (fun cb _ _ => if cb = 1 then [.remove ⟨15, 8⟩] else []) 20 4 r.timers =
        some p ∧
      RunsDueTimers 20 r.timers p := by
  have hrun : (run RunLoop.step (RunLoop.new 0) threeTimers).map (fun r =>
      (r.timers.timerPtrs.toList, r.timers.heap 7, r.timers.heap 8, r.timers.heap 9)) =
      some ([7, 8, 9], some ⟨10, 10, 1⟩, some ⟨15, 0, 2⟩, some ⟨12, 0, 3⟩) := by decide +kernel
  obtain ⟨r, hr, htuple⟩ := Option.map_eq_some_iff.mp hrun
  simp only [Prod.mk.injEq] at htuple
  obtain ⟨hptrs, h7, h8, h9⟩ := htuple
  have hspec : ∃ p, runTimerProcs (fun cb _ _ => if cb = 1 then [.remove ⟨15, 8⟩] else []) 20 4
      r.timers = some p ∧ RunsDueTimers 20 r.timers p := by
    refine (runTimerProcs_spec (Reaches.of_run threeTimers (fun _ _ _ => trivial) hr) 20).mp ?_ _
      ?_ 4 (by rw [hptrs]; decide)
    rotate_left
    · intro cb log s _
      split_ifs
      · exact trivial
      · exact trivial
    · intro a t ht _
      obtain ⟨hmem, hheap⟩ := TimerList.pending_eq_some.mp ht
      rw [← OrderedSet.mem_toList, hptrs] at hmem
      simp only [List.mem_cons, List.not_mem_nil, or_false] at hmem
      obtain rfl | rfl | rfl := hmem
      · obtain rfl := Option.some.inj (h7.symm.trans hheap)
        exact fun _ => by decide
      · obtain rfl := Option.some.inj (h8.symm.trans hheap)
        exact fun _ => by decide
      · obtain rfl := Option.some.inj (h9.symm.trans hheap)
        exact fun _ => by decide
  obtain ⟨p, hp, hruns⟩ := hspec
  exact ⟨r, p, hr, hp, hruns⟩

/-! ## The function is a run of the loop -/

/-- The calls of a callback are steps of the loop. -/
theorem RunLoop.reaches_calls (r : RunLoop κ) (hl : PermittedCalls msNow s l) :
    Reaches RunLoop.step (fun _ _ => True) { r with timers := s }
      { r with timers := s.calls l } := by
  induction l generalizing s with
  | nil => exact .refl
  | cons c l ih =>
    cases c with
    | start addr t =>
      obtain ⟨hfree, -, hl⟩ := hl
      refine (Reaches.tail (.call true (.start addr t)) .refl trivial ?_).trans (ih hl)
      simp only [RunLoop.step, RunLoop.call, hfree, Option.isNone_none, if_true]
      rfl
    | remove timer =>
      exact (Reaches.tail (.call true (.remove timer)) .refl trivial rfl).trans (ih hl)

/-- The list that `RunTimerProcs` leaves is one that the steps of the loop lead to, so that the loop
goes on from there as from any other. -/
theorem runTimerProcs_reaches {now : ℕ} {r : RunLoop κ}
    (hrun : Reaches RunLoop.step (fun _ _ => True) (RunLoop.new now) r) (hpass : r.pass = none)
    (hcallbacks : ∀ cb log s, s.Consistent → PermittedCalls msNow s (callbacks cb log s))
    (hwrap : NoWrap msNow r.timers) {passes : ℕ}
    (hpasses : r.timers.timerPtrs.toList.length < passes) :
    ∃ p, runTimerProcs callbacks msNow passes r.timers = some p ∧
      Reaches RunLoop.step (fun _ _ => True) r { r with timers := p.timers } := by
  have hs := (RunLoop.sound_of_reaches hrun).consistent
  unfold runTimerProcs
  split_ifs with hempty
  · exact ⟨_, rfl, .refl⟩
  · -- The loop of the function is `beginPass`, a step for each pass and its calls, and `endPass`.
    have hbegin : Reaches RunLoop.step (fun _ _ => True) r
        { r with timers := r.timers.beginPass msNow, pass := some msNow } := by
      refine .tail (.beginPass msNow) .refl trivial ?_
      simp only [RunLoop.step, hpass, Option.isSome_none, Bool.false_eq_true, if_false, hempty]
    have hkeep : ∀ p it, Progress msNow (r.timers.beginPass msNow) p →
        Reaches RunLoop.step (fun _ _ => True) r
          { r with timers := p.timers, pass := some msNow } →
        p.timers.timers.first? = some it → it.first ≤ msNow →
        Reaches RunLoop.step (fun _ _ => True) r
          { r with timers := (p.take callbacks msNow it).timers, pass := some msNow } := by
      intro p it hprogress hreaches hfirst hdue
      have hmem := OrderedSet.mem_of_first? hfirst
      obtain ⟨t, ht, -⟩ := hprogress.consistent.exists_pending hmem
      have hfire : Reaches RunLoop.step (fun _ _ => True) r
          { r with timers := p.timers.fire msNow it, pass := some msNow } := by
        refine .tail .fire hreaches trivial ?_
        simp only [RunLoop.step, Option.bind_some, RunLoop.dueTimer_eq_some.mpr ⟨hfirst, hdue⟩,
          Option.map_some]
      unfold Pass.take
      rw [(TimerList.pending_eq_some.mp ht).2]
      exact hfire.trans (RunLoop.reaches_calls { r with pass := some msNow }
        (hcallbacks _ _ _ (hprogress.consistent.fire hmem)))
    have hptrs := TimerList.timerPtrs_beginPass r.timers msNow
    obtain ⟨p, hp, -, hreaches, hdone⟩ := drain_take (hs.beginPass msNow) (hwrap.beginPass hs)
      hcallbacks (I := fun s => Reaches RunLoop.step (fun _ _ => True) r
        { r with timers := s, pass := some msNow }) hbegin hkeep (hptrs ▸ hpasses)
    refine ⟨p, hp, .tail .endPass hreaches trivial ?_⟩
    have hnone : RunLoop.dueTimer msNow p.timers = none := by
      by_contra hsome
      obtain ⟨it, hit⟩ := Option.ne_none_iff_exists'.mp hsome
      obtain ⟨hfirst, hdue⟩ := RunLoop.dueTimer_eq_some.mp hit
      exact absurd (hdone it (OrderedSet.mem_of_first? hfirst)) (Nat.not_lt.mpr hdue)
    simp only [RunLoop.step, Option.bind_some, hnone, Option.isNone_none, if_true, hpass]

/-! ## Due times that wrap around -/

/-- If the next due time of a due periodic timer is not after the reading either, `RunTimerProcs`
does not return. -/
theorem runTimerProcs_eq_none (hs : s.Consistent)
    (ht : (s.beginPass msNow).pending a = some t) (hdue : t.msValue ≤ msNow)
    (hperiodic : 0 < t.msInterval) (hwraps : addMillis msNow t.msInterval ≤ msNow) (passes : ℕ) :
    runTimerProcs (fun _ _ _ => []) msNow passes s = none := by
  by_contra hsome
  obtain ⟨p, hp⟩ := Option.ne_none_iff_exists'.mp hsome
  obtain ⟨⟨t', -, hnext, hlater⟩, -⟩ := runTimerProcs_idle hs ht hdue hperiodic hp
  omega

/-- A timer with the longest interval is due one millisecond before the time at which it was
started, and `RunTimerProcs` does not return. -/
theorem runTimerProcs_wraps : ∃ r : RunLoop ℕ,
    run RunLoop.step (RunLoop.new 1000) [.call true (.runEvery 7 1000 (2 ^ 64 - 1) 1)] = some r ∧
      r.timers.timers.toList = [⟨999, 7⟩] ∧
      ∀ passes, runTimerProcs (fun _ _ _ => []) 1000 passes r.timers = none := by
  have hrun : (run RunLoop.step (RunLoop.new 1000)
      [.call true (.runEvery 7 1000 (2 ^ 64 - 1) 1)]).map (fun r =>
        (r.timers.timers.toList, (r.timers.beginPass 1000).pending 7)) =
      some ([⟨999, 7⟩], some ⟨999, 2 ^ 64 - 1, 1⟩) := by decide +kernel
  obtain ⟨r, hr, hpair⟩ := Option.map_eq_some_iff.mp hrun
  obtain ⟨htimers, hpending⟩ := Prod.mk.inj hpair
  have hreach : Reaches RunLoop.step (fun _ _ => True) (RunLoop.new 1000) r :=
    Reaches.of_run _ (fun _ _ _ => trivial) hr
  have hs := (RunLoop.sound_of_reaches hreach).consistent
  refine ⟨r, hr, htimers, runTimerProcs_eq_none hs hpending ?_ ?_ ?_⟩
  · decide
  · decide
  · decide

end Skywalker
