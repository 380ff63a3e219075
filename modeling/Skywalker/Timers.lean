import Mathlib.Data.Prod.Lex
import Mathlib.Tactic.NormNum
import Mathlib.Logic.Function.Basic
import Skywalker.Library.OrderedSet

/-!
# Timers

`TimerList` of `util/timerlist.cc`: the set `timers_` of the pending timers in the order of their
due times, the set `timer_ptrs_` of their addresses, and the `Timer` objects themselves, which are
in memory that `new` and `delete` manage. Times are `uint64_t` milliseconds, so that sums wrap
around.

The abstract model of a timer list is the map `TimerList.pending` from addresses to timers.
`TimerList.Consistent` says that the two sets and the objects describe one map, and each operation
of the list is an update of it, as long as the list is consistent (`pending_insertInLoop`,
`pending_remove`, `pending_fire`, `pending_shift`).
-/

namespace Skywalker

/-- `Timer`. The callback is of any type. -/
structure Timer (κ : Type*) where
  msValue : ℕ
  /-- The time between two runs, and zero if there is only one. -/
  msInterval : ℕ
  timerprocCb : κ
deriving DecidableEq, Repr

/-- `TimerId`: a due time and the address of a `Timer`. -/
@[ext]
structure TimerId where
  first : ℕ
  second : ℕ
deriving Repr

namespace TimerId

/-- The pair, with the order of `std::pair`. -/
def toLexPair (id : TimerId) : ℕ ×ₗ ℕ := toLex (id.first, id.second)

theorem toLexPair_injective : Function.Injective toLexPair := by
  intro a b h
  have hpair : (a.first, a.second) = (b.first, b.second) := toLex.injective h
  exact TimerId.ext (congrArg Prod.fst hpair) (congrArg Prod.snd hpair)

instance : LinearOrder TimerId := LinearOrder.lift' toLexPair toLexPair_injective

theorem first_le {a b : TimerId} (h : a ≤ b) : a.first ≤ b.first := by
  obtain hlt | heq := (Prod.Lex.le_iff (x := toLexPair a) (y := toLexPair b)).mp h
  · exact hlt.le
  · exact heq.1.le

end TimerId

/-- `TimerList`, with the memory of the timers. -/
structure TimerList (κ : Type*) where
  /-- `last_time_out_`: the last reading of the clock. -/
  lastTimeOut : ℕ
  /-- `timers_`: the entries in the order of their due times. -/
  timers : OrderedSet TimerId := ∅
  /-- `timer_ptrs_`: the addresses of the timers in the list. -/
  timerPtrs : OrderedSet ℕ := ∅
  /-- The `Timer` at an address, `none` where there is none. -/
  heap : ℕ → Option (Timer κ) := fun _ => none

/-- A sum of two `uint64_t`. -/
def addMillis (a b : ℕ) : ℕ := (a + b) % 2 ^ 64

/-- What becomes of a timer that fires at the reading `msNow`. -/
def Timer.rescheduled {κ : Type*} (msNow : ℕ) (t : Timer κ) : Option (Timer κ) :=
  if 0 < t.msInterval then some { t with msValue := addMillis msNow t.msInterval } else none

/-- A timer after the clock went back by `diff`. -/
def Timer.shifted {κ : Type*} (diff : ℕ) (t : Timer κ) : Timer κ :=
  { t with msValue := t.msValue - diff }

/-- A call of one of the public functions. Those that create a timer do it at the address that `new`
returns. -/
inductive TimerCall (κ : Type*) where
  /-- A call of `RunAt`, `RunAfter` or `RunEvery`. -/
  | start (addr : ℕ) (t : Timer κ)
  /-- A call of `Remove` with an entry. -/
  | remove (timer : TimerId)
deriving Repr

namespace TimerCall

variable {κ : Type*}

/-- `TimerList::RunAt` with a due time. -/
def runAt (addr msValue : ℕ) (cb : κ) : TimerCall κ := .start addr ⟨msValue, 0, cb⟩

/-- `TimerList::RunAfter` at the time `now`. -/
def runAfter (addr now msDelay : ℕ) (cb : κ) : TimerCall κ :=
  .start addr ⟨addMillis now msDelay, 0, cb⟩

/-- `TimerList::RunEvery` at the time `now`. -/
def runEvery (addr now msInterval : ℕ) (cb : κ) : TimerCall κ :=
  .start addr ⟨addMillis now msInterval, msInterval, cb⟩

end TimerCall

namespace TimerList

variable {κ : Type*}

/-- The effect of `new Timer` on the memory. -/
def alloc (addr : ℕ) (t : Timer κ) (s : TimerList κ) : TimerList κ :=
  { s with heap := Function.update s.heap addr (some t) }

/-- The function of `TimerList::InsertInLoop`, in the loop. -/
def insertInLoop (timer : TimerId) (s : TimerList κ) : TimerList κ :=
  { s with timers := s.timers.insert timer, timerPtrs := s.timerPtrs.insert timer.second }

/-- A function that creates a timer, in the loop. -/
def start (addr : ℕ) (t : Timer κ) (s : TimerList κ) : TimerList κ :=
  (s.alloc addr t).insertInLoop ⟨t.msValue, addr⟩

/-- The function of `TimerList::Remove`, in the loop. Only the address of the id is looked up. It is
undefined for an address in `timer_ptrs_` that has no timer. -/
def remove (timer : TimerId) (s : TimerList κ) : TimerList κ :=
  if timer.second ∈ s.timerPtrs then
    match s.heap timer.second with
    | none => s
    | some t =>
      { s with
        timerPtrs := s.timerPtrs.erase timer.second
        heap := Function.update s.heap timer.second none
        timers := s.timers.erase ⟨t.msValue, timer.second⟩ }
  else s

/-- A call in the loop. -/
def call (s : TimerList κ) : TimerCall κ → TimerList κ
  | .start addr t => s.start addr t
  | .remove timer => s.remove timer

/-- `TimerList::TimeoutMs` at the time `now`. -/
def timeoutMs (now : ℕ) (s : TimerList κ) : ℕ :=
  match s.timers.first? with
  -- `-1` as a `uint64_t`.
  | none => 2 ^ 64 - 1
  | some it =>
    if now < s.lastTimeOut then 0
    else if it.first ≤ now then 0
    else it.first - now

/-- A due time after the clock went back by `diff`. -/
def shiftValue (diff first : ℕ) : ℕ := if diff < first then first - diff else 0

/-- A pass of the loop over the timers when the clock has gone back by `diff`. The set of `r` is the
new one. -/
def shiftOne (diff : ℕ) (r : TimerList κ) (it : TimerId) : TimerList κ :=
  let value := shiftValue diff it.first
  { r with
    heap := Function.update r.heap it.second
      ((r.heap it.second).map fun t => { t with msValue := value })
    timers := r.timers.insert ⟨value, it.second⟩ }

/-- The branch of `RunTimerProcs` for a clock that has gone back by `diff`. -/
def shift (diff : ℕ) (s : TimerList κ) : TimerList κ :=
  s.timers.toList.foldl (shiftOne diff) { s with timers := ∅ }

/-- `RunTimerProcs` up to its loop, at the reading `msNow`. -/
def beginPass (msNow : ℕ) (s : TimerList κ) : TimerList κ :=
  let r := if msNow < s.lastTimeOut then s.shift (s.lastTimeOut - msNow) else s
  { r with lastTimeOut := msNow }

/-- A pass of the loop of `RunTimerProcs` for the first timer `it`, up to its callback. It is
undefined if there is no timer at the address. -/
def fire (msNow : ℕ) (it : TimerId) (s : TimerList κ) : TimerList κ :=
  match s.heap it.second with
  | none => s
  | some t =>
    if 0 < t.msInterval then
      let value := addMillis msNow t.msInterval
      { s with
        timers := (s.timers.erase it).insert ⟨value, it.second⟩
        heap := Function.update s.heap it.second (some { t with msValue := value }) }
    else
      { s with
        timers := s.timers.erase it
        heap := Function.update s.heap it.second none
        timerPtrs := s.timerPtrs.erase it.second }

/-! ## The map of the pending timers -/

/-- The pending timer at an address. -/
def pending (s : TimerList κ) (a : ℕ) : Option (Timer κ) :=
  if a ∈ s.timerPtrs then s.heap a else none

/-- `timers_`, `timer_ptrs_` and the objects describe one map: there is an object at each address of
`timer_ptrs_`, and `timers_` has the due time of each with its address, and nothing else. -/
structure Consistent (s : TimerList κ) : Prop where
  /-- Every address is the one of a timer. -/
  live : ∀ a ∈ s.timerPtrs, ∃ t, s.heap a = some t
  /-- The ids are those of the timers. -/
  mem_timers : ∀ id : TimerId,
    id ∈ s.timers ↔ ∃ t, s.pending id.second = some t ∧ t.msValue = id.first

variable {s : TimerList κ} {t : Timer κ} {a addr msNow : ℕ} {id it : TimerId}

theorem pending_eq_some : s.pending a = some t ↔ a ∈ s.timerPtrs ∧ s.heap a = some t := by
  unfold pending
  split_ifs with h
  · simp [h]
  · simp [h]

theorem pending_eq_none_of_free (ha : s.heap a = none) : s.pending a = none := by
  unfold pending
  rw [ha, ite_self]

namespace Consistent

theorem mem_timerPtrs (h : s.Consistent) : a ∈ s.timerPtrs ↔ ∃ t, s.pending a = some t := by
  constructor
  · intro ha
    obtain ⟨t, ht⟩ := h.live a ha
    exact ⟨t, pending_eq_some.mpr ⟨ha, ht⟩⟩
  · rintro ⟨t, ht⟩
    exact (pending_eq_some.mp ht).1

theorem exists_pending (h : s.Consistent) (hid : id ∈ s.timers) :
    ∃ t, s.pending id.second = some t ∧ t.msValue = id.first := (h.mem_timers id).mp hid

theorem mem_of_pending (h : s.Consistent) (ht : s.pending a = some t) :
    (⟨t.msValue, a⟩ : TimerId) ∈ s.timers := (h.mem_timers ⟨t.msValue, a⟩).mpr ⟨t, ht, rfl⟩

theorem eq_of_second_eq (h : s.Consistent) (hid : id ∈ s.timers) (hit : it ∈ s.timers)
    (heq : id.second = it.second) : id = it := by
  obtain ⟨t, ht, hv⟩ := h.exists_pending hid
  obtain ⟨t', ht', hv'⟩ := h.exists_pending hit
  rw [heq, ht'] at ht
  obtain rfl := Option.some.inj ht
  exact TimerId.ext (hv.symm.trans hv') heq

/-- A list whose map is an update of the one of a consistent list is consistent, if its two sets
were updated at the same address. -/
theorem update {s' : TimerList κ} (h : s.Consistent) {o : Option (Timer κ)}
    (hlive : ∀ b ∈ s'.timerPtrs, ∃ t, s'.heap b = some t)
    (hpending : s'.pending = Function.update s.pending a o)
    (hmem : ∀ id : TimerId, id ∈ s'.timers ↔
      if id.second = a then ∃ t, o = some t ∧ t.msValue = id.first else id ∈ s.timers) :
    s'.Consistent := by
  refine ⟨hlive, fun id => ?_⟩
  rw [hmem, hpending]
  split_ifs with ha
  · rw [ha, Function.update_self]
  · rw [Function.update_of_ne ha]
    exact h.mem_timers id

end Consistent

theorem consistent_new (now : ℕ) : ({ lastTimeOut := now } : TimerList κ).Consistent where
  live a ha := absurd ha (OrderedSet.not_mem_empty a)
  mem_timers id := by
    constructor
    · exact fun h => absurd h (OrderedSet.not_mem_empty id)
    · rintro ⟨t, ht, -⟩
      exact absurd (pending_eq_some.mp ht).1 (OrderedSet.not_mem_empty _)

theorem Consistent.setLastTimeOut (h : s.Consistent) (now : ℕ) :
    ({ s with lastTimeOut := now } : TimerList κ).Consistent := ⟨h.live, h.mem_timers⟩

/-! ## The operations are updates of the map -/

theorem Consistent.notMem_of_free (h : s.Consistent) (ha : s.heap addr = none) :
    addr ∉ s.timerPtrs := by
  intro hmem
  obtain ⟨t, ht⟩ := h.live addr hmem
  rw [ha] at ht
  exact Option.some_ne_none t ht.symm

theorem pending_alloc (h : s.Consistent) (ha : s.heap addr = none) :
    (s.alloc addr t).pending = s.pending := by
  funext b
  unfold pending alloc
  by_cases hb : b = addr
  · subst hb
    rw [if_neg (h.notMem_of_free ha), if_neg (h.notMem_of_free ha)]
  · simp only [Function.update_of_ne hb]

theorem Consistent.alloc (h : s.Consistent) (ha : s.heap addr = none) :
    (s.alloc addr t).Consistent := by
  constructor
  · intro b hb
    have hne : b ≠ addr := fun heq => h.notMem_of_free ha (heq ▸ hb)
    obtain ⟨t', ht'⟩ := h.live b hb
    exact ⟨t', (Function.update_of_ne hne _ _).trans ht'⟩
  · intro id
    rw [pending_alloc h ha]
    exact h.mem_timers id

/-- `InsertInLoop` makes an object pending. -/
theorem pending_insertInLoop (ht : s.heap id.second = some t) :
    (s.insertInLoop id).pending = Function.update s.pending id.second (some t) := by
  funext b
  by_cases hb : b = id.second
  · subst hb
    rw [Function.update_self]
    exact pending_eq_some.mpr ⟨OrderedSet.mem_insert.mpr (.inl rfl), ht⟩
  · rw [Function.update_of_ne hb]
    unfold pending insertInLoop
    simp only [OrderedSet.mem_insert, hb, false_or]

/-- A timer whose address is not in the set is inserted. -/
theorem Consistent.insertInLoop (h : s.Consistent) (hid : id.second ∉ s.timerPtrs)
    (ht : s.heap id.second = some t) (hv : t.msValue = id.first) :
    (s.insertInLoop id).Consistent := by
  refine h.update ?_ (pending_insertInLoop ht) fun it => ?_
  · intro b hb
    obtain rfl | hb := OrderedSet.mem_insert.mp hb
    · exact ⟨t, ht⟩
    · exact h.live b hb
  · change it ∈ s.timers.insert id ↔ _
    rw [OrderedSet.mem_insert]
    split_ifs with heq
    · constructor
      · rintro (rfl | hit)
        · exact ⟨t, rfl, hv⟩
        · obtain ⟨t', ht', -⟩ := h.exists_pending hit
          exact absurd (heq ▸ (pending_eq_some.mp ht').1) hid
      · rintro ⟨t', ht', hv'⟩
        obtain rfl := Option.some.inj ht'
        exact .inl (TimerId.ext (hv'.symm.trans hv) heq)
    · refine ⟨?_, .inr⟩
      rintro (rfl | hit)
      · exact absurd rfl heq
      · exact hit

theorem pending_start (h : s.Consistent) (ha : s.heap addr = none) :
    (s.start addr t).pending = Function.update s.pending addr (some t) := by
  unfold start
  rw [pending_insertInLoop (t := t) (Function.update_self ..), pending_alloc h ha]

theorem Consistent.start (h : s.Consistent) (ha : s.heap addr = none) :
    (s.start addr t).Consistent :=
  (h.alloc ha).insertInLoop (h.notMem_of_free ha) (Function.update_self ..) rfl

theorem remove_of_pending (ht : s.pending id.second = some t) :
    s.remove id =
      { s with
        timerPtrs := s.timerPtrs.erase id.second
        heap := Function.update s.heap id.second none
        timers := s.timers.erase ⟨t.msValue, id.second⟩ } := by
  obtain ⟨hmem, hheap⟩ := pending_eq_some.mp ht
  unfold remove
  rw [if_pos hmem, hheap]

theorem remove_of_not_pending (ht : s.pending id.second = none) : s.remove id = s := by
  unfold remove
  split_ifs with hmem
  · rw [pending, if_pos hmem] at ht
    rw [ht]
  · rfl

/-- A list from which a timer was taken, out of both sets and out of the memory. -/
theorem pending_erased (s : TimerList κ) (a : ℕ) (timers : OrderedSet TimerId) :
    TimerList.pending { s with
      timers := timers
      timerPtrs := s.timerPtrs.erase a
      heap := Function.update s.heap a none } = Function.update s.pending a none := by
  funext b
  unfold pending
  by_cases hb : b = a
  · subst hb
    simp
  · simp [hb]

/-- A pending timer is erased from both sets and freed. -/
theorem Consistent.erased (h : s.Consistent) (ht : s.pending a = some t) :
    TimerList.Consistent { s with
      timers := s.timers.erase ⟨t.msValue, a⟩
      timerPtrs := s.timerPtrs.erase a
      heap := Function.update s.heap a none } := by
  refine h.update ?_ (pending_erased s a _) fun it => ?_
  · intro b hb
    obtain ⟨hne, hb⟩ := OrderedSet.mem_erase.mp hb
    obtain ⟨t', ht'⟩ := h.live b hb
    exact ⟨t', (Function.update_of_ne hne _ _).trans ht'⟩
  · change it ∈ s.timers.erase _ ↔ _
    rw [OrderedSet.mem_erase]
    split_ifs with heq
    · refine ⟨fun hit => ?_, fun ⟨t', ht', _⟩ => absurd ht' nofun⟩
      exact absurd (h.eq_of_second_eq hit.2 (h.mem_of_pending ht) heq) hit.1
    · refine ⟨And.right, fun hit => ⟨?_, hit⟩⟩
      rintro rfl
      exact heq rfl

/-- `Remove` takes the timer at the address of the id away, whichever it is. -/
theorem pending_remove (s : TimerList κ) (id : TimerId) :
    (s.remove id).pending = Function.update s.pending id.second none := by
  cases ht : s.pending id.second with
  | none => rw [remove_of_not_pending ht, ← ht, Function.update_eq_self]
  | some t =>
    rw [remove_of_pending ht]
    exact pending_erased s id.second _

theorem Consistent.remove (h : s.Consistent) (id : TimerId) : (s.remove id).Consistent := by
  cases ht : s.pending id.second with
  | none =>
    rw [remove_of_not_pending ht]
    exact h
  | some t =>
    rw [remove_of_pending ht]
    exact h.erased ht

/-! ## Firing -/

/-- Firing the timer `it`, by whether it is periodic. -/
theorem fire_eq (ht : s.heap it.second = some t) :
    s.fire msNow it =
      if 0 < t.msInterval then
        { s with
          timers := (s.timers.erase it).insert ⟨addMillis msNow t.msInterval, it.second⟩
          heap := Function.update s.heap it.second
            (some { t with msValue := addMillis msNow t.msInterval }) }
      else
        { s with
          timers := s.timers.erase it
          heap := Function.update s.heap it.second none
          timerPtrs := s.timerPtrs.erase it.second } := by
  unfold fire
  rw [ht]

/-- Firing a timer reschedules it or takes it away. -/
theorem pending_fire (ht : s.pending it.second = some t) :
    (s.fire msNow it).pending =
      Function.update s.pending it.second (Timer.rescheduled msNow t) := by
  obtain ⟨hmem, hheap⟩ := pending_eq_some.mp ht
  rw [fire_eq hheap, Timer.rescheduled]
  split_ifs with hperiodic
  · funext b
    unfold pending
    by_cases hb : b = it.second
    · subst hb
      simp [hmem]
    · simp [hb]
  · exact pending_erased s it.second _

/-- A timer that is run is dropped, or put back with its next due time. -/
theorem Consistent.fire (h : s.Consistent) (hit : it ∈ s.timers) :
    (s.fire msNow it).Consistent := by
  obtain ⟨t, ht, hv⟩ := h.exists_pending hit
  obtain ⟨hmem, hheap⟩ := pending_eq_some.mp ht
  have hpending : (s.fire msNow it).pending =
      Function.update s.pending it.second (Timer.rescheduled msNow t) := pending_fire ht
  have hself : it = ⟨t.msValue, it.second⟩ := TimerId.ext hv.symm rfl
  rw [fire_eq hheap, Timer.rescheduled] at *
  split_ifs at hpending ⊢ with hperiodic
  · refine h.update ?_ hpending fun id => ?_
    · intro b hb
      by_cases hb' : b = it.second
      · subst hb'
        exact ⟨_, Function.update_self ..⟩
      · obtain ⟨t', ht'⟩ := h.live b hb
        exact ⟨t', (Function.update_of_ne hb' _ _).trans ht'⟩
    · change id ∈ (s.timers.erase it).insert _ ↔ _
      rw [OrderedSet.mem_insert, OrderedSet.mem_erase]
      split_ifs with heq
      · constructor
        · rintro (rfl | hid)
          · exact ⟨_, rfl, rfl⟩
          · exact absurd (h.eq_of_second_eq hid.2 hit heq) hid.1
        · rintro ⟨t', ht', hv'⟩
          obtain rfl := Option.some.inj ht'
          exact .inl (TimerId.ext hv'.symm heq)
      · constructor
        · rintro (rfl | hid)
          · exact absurd rfl heq
          · exact hid.2
        · intro hid
          refine .inr ⟨?_, hid⟩
          rintro rfl
          exact heq rfl
  · have herased := h.erased ht
    rw [← hself] at herased
    exact herased

/-! ## The clock going back -/

/-- The branch for due times before the epoch is the subtraction of natural numbers. -/
theorem shiftValue_eq (diff first : ℕ) : shiftValue diff first = first - diff := by
  unfold shiftValue
  split_ifs with h
  · rfl
  · exact (Nat.sub_eq_zero_of_le (Nat.le_of_not_lt h)).symm

section Shift

variable {diff : ℕ}

theorem timerPtrs_foldl_shiftOne (l : List TimerId) (r : TimerList κ) :
    (l.foldl (shiftOne diff) r).timerPtrs = r.timerPtrs := by
  induction l generalizing r with
  | nil => rfl
  | cons it l ih => exact ih (shiftOne diff r it)

theorem timerPtrs_shift (s : TimerList κ) (diff : ℕ) :
    (s.shift diff).timerPtrs = s.timerPtrs := timerPtrs_foldl_shiftOne _ _

/-- The loop adds an id for each one that it has seen. -/
theorem mem_timers_foldl_shiftOne (l : List TimerId) (r : TimerList κ) :
    id ∈ (l.foldl (shiftOne diff) r).timers ↔
      id ∈ r.timers ∨ ∃ it ∈ l, id = ⟨it.first - diff, it.second⟩ := by
  induction l generalizing r with
  | nil => simp
  | cons it l ih =>
    rw [List.foldl_cons, ih]
    simp only [shiftOne, shiftValue_eq, OrderedSet.mem_insert, List.mem_cons, exists_eq_or_imp]
    tauto

theorem heap_foldl_shiftOne_of_notMem (l : List TimerId) (r : TimerList κ)
    (ha : a ∉ l.map TimerId.second) : (l.foldl (shiftOne diff) r).heap a = r.heap a := by
  induction l generalizing r with
  | nil => rfl
  | cons it l ih =>
    rw [List.map_cons, List.mem_cons, not_or] at ha
    rw [List.foldl_cons, ih _ ha.2]
    exact Function.update_of_ne ha.1 _ _

/-- The loop sets the due time of each object that it sees once. -/
theorem heap_foldl_shiftOne (l : List TimerId) (r : TimerList κ)
    (hl : (l.map TimerId.second).Nodup) (hit : it ∈ l) :
    (l.foldl (shiftOne diff) r).heap it.second =
      (r.heap it.second).map fun t => { t with msValue := it.first - diff } := by
  induction l generalizing r with
  | nil => exact absurd hit List.not_mem_nil
  | cons id l ih =>
    obtain ⟨hnotin, hl⟩ := List.nodup_cons.mp hl
    rw [List.foldl_cons]
    obtain rfl | hit := List.mem_cons.mp hit
    · rw [heap_foldl_shiftOne_of_notMem l _ hnotin, ← shiftValue_eq]
      exact Function.update_self ..
    · rw [ih _ hl hit]
      have hne : it.second ≠ id.second := fun heq => hnotin (heq ▸ List.mem_map_of_mem hit)
      exact congrArg _ (Function.update_of_ne hne _ _)

theorem Consistent.nodup_seconds (h : s.Consistent) :
    (s.timers.toList.map TimerId.second).Nodup :=
  s.timers.nodup.map_on fun _ ha _ hb heq => h.eq_of_second_eq ha hb heq

/-- After the clock went back every due time is earlier by as much. -/
theorem pending_shift (h : s.Consistent) (a : ℕ) :
    (s.shift diff).pending a = (s.pending a).map (Timer.shifted diff) := by
  have hptrs := timerPtrs_shift s diff
  by_cases ha : a ∈ s.timerPtrs
  · obtain ⟨t, ht⟩ := h.mem_timerPtrs.mp ha
    have hheap : (s.shift diff).heap a =
        (s.heap a).map fun u => { u with msValue := t.msValue - diff } :=
      heap_foldl_shiftOne s.timers.toList { s with timers := ∅ } h.nodup_seconds
        (h.mem_of_pending ht)
    rw [pending, if_pos (hptrs ▸ ha), hheap, ht, (pending_eq_some.mp ht).2]
    rfl
  · rw [pending, pending, if_neg ha, if_neg (hptrs ▸ ha)]
    rfl

/-- All due times go back alike, which keeps the order. -/
theorem Consistent.shift (h : s.Consistent) : (s.shift diff).Consistent := by
  have hptrs := timerPtrs_shift s diff
  constructor
  · intro a ha
    obtain ⟨t, ht⟩ := h.mem_timerPtrs.mp (hptrs ▸ ha)
    have hshift : (s.shift diff).pending a = some (t.shifted diff) := by
      rw [pending_shift h, ht]
      rfl
    exact ⟨_, (pending_eq_some.mp hshift).2⟩
  · intro id
    rw [TimerList.shift, mem_timers_foldl_shiftOne, ← TimerList.shift, pending_shift h]
    constructor
    · rintro (hid | ⟨it, hit, rfl⟩)
      · exact absurd hid (OrderedSet.not_mem_empty id)
      · obtain ⟨t, ht, hv⟩ := h.exists_pending hit
        refine ⟨t.shifted diff, by rw [ht]; rfl, ?_⟩
        rw [Timer.shifted, hv]
    · rintro ⟨t', ht', hv⟩
      obtain ⟨t, ht, rfl⟩ := Option.map_eq_some_iff.mp ht'
      exact .inr ⟨⟨t.msValue, id.second⟩, h.mem_of_pending ht, TimerId.ext hv.symm rfl⟩

end Shift

theorem timerPtrs_beginPass (s : TimerList κ) (msNow : ℕ) :
    (s.beginPass msNow).timerPtrs = s.timerPtrs := by
  unfold beginPass
  split_ifs with hback
  · exact timerPtrs_shift s _
  · rfl

/-- At the begin of a pass the due times are earlier by what the clock went back. -/
theorem pending_beginPass (h : s.Consistent) (msNow a : ℕ) :
    (s.beginPass msNow).pending a =
      (s.pending a).map (Timer.shifted (s.lastTimeOut - msNow)) := by
  unfold beginPass
  split_ifs with hback
  · exact pending_shift h a
  · rw [Nat.sub_eq_zero_of_le (Nat.le_of_not_lt hback)]
    exact (Option.map_id_apply ..).symm

theorem Consistent.beginPass (h : s.Consistent) (msNow : ℕ) : (s.beginPass msNow).Consistent := by
  unfold TimerList.beginPass
  split_ifs with hback
  · exact h.shift.setLastTimeOut msNow
  · exact h.setLastTimeOut msNow

end TimerList

end Skywalker
