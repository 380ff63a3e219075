import Mathlib.Logic.Function.Basic
import Mathlib.Data.List.Basic

/-!
# Copy on write

An object that readers hold by counted pointers and that one writer changes under a lock. A reader
takes a pointer under the lock, and may then copy it, read through it and drop it at any time
without the lock. The writer copies the object if a reader has a pointer to it, and makes its
changes in place one after the other, between which the readers come.

To the readers it is as if the writer replaced the object at once when it releases the lock, and as
if each pointer were a value of its own (`Views`). `Refines` relates the two, and there is one lemma
for each kind of step.
-/

namespace CopyOnWrite

variable {α ε : Type*}

/-- Where the writer is between taking and releasing the lock. -/
inductive Writer (ε : Type*) where
  /-- It does not have the lock. -/
  | idle
  /-- It has the lock for some changes and has not looked at the count. -/
  | locked (request : List ε)
  /-- It changes the object, of all changes with these left. -/
  | editing (request rest : List ε)
deriving DecidableEq, Repr

/-- The changes that the writer has the lock for. -/
def Writer.request : Writer ε → Option (List ε)
  | .idle => none
  | .locked request => some request
  | .editing request _ => some request

/-- The objects and the pointers to them. -/
structure Shared (α ε : Type*) where
  /-- The object at each address. -/
  objects : ℕ → α
  /-- The first address that has not been used. -/
  next : ℕ
  /-- The address that the writer points to. -/
  current : ℕ
  /-- The pointers of the readers, by their names. -/
  pointers : List (ℕ × ℕ) := []
  /-- Where the writer is, with the changes that it makes. -/
  writer : Writer ε := .idle

namespace Shared

/-- One object, and no reader. -/
def start (x : α) : Shared α ε where
  objects _ := x
  next := 1
  current := 0

/-- The object that the writer points to. -/
def value (s : Shared α ε) : α := s.objects s.current

/-- What a reader sees through a pointer. -/
def read (s : Shared α ε) (r : ℕ) : Option α := (s.pointers.lookup r).map s.objects

/-- The writer's pointer is the only one to its object. -/
def unique (s : Shared α ε) : Bool := s.pointers.all fun p => p.2 ≠ s.current

/-- The writer takes the lock. -/
def lock (request : List ε) (s : Shared α ε) : Option (Shared α ε) :=
  match s.writer with
  | .idle => some { s with writer := .locked request }
  | _ => none

/-- The writer sees to it that its pointer is the only one: where it is not, it copies the object
and points to the copy. -/
def makeUnique (s : Shared α ε) : Option (Shared α ε) :=
  match s.writer with
  | .locked request =>
    if s.unique then some { s with writer := .editing request request }
    else some { s with
      objects := Function.update s.objects s.next s.value
      next := s.next + 1
      current := s.next
      writer := .editing request request }
  | _ => none

/-- The next change, in place. -/
def edit (apply : ε → α → Option α) (s : Shared α ε) : Option (Shared α ε) :=
  match s.writer with
  | .editing request (e :: rest) =>
    (apply e s.value).map fun x => { s with
      objects := Function.update s.objects s.current x
      writer := .editing request rest }
  | _ => none

/-- After the last change the writer releases the lock. -/
def unlock (s : Shared α ε) : Option (Shared α ε) :=
  match s.writer with
  | .editing _ [] => some { s with writer := .idle }
  | _ => none

/-- A reader takes a pointer, under the lock. -/
def take (r : ℕ) (s : Shared α ε) : Option (Shared α ε) :=
  match s.writer, s.pointers.lookup r with
  | .idle, none => some { s with pointers := (r, s.current) :: s.pointers }
  | _, _ => none

/-- A reader copies its pointer. -/
def copy (r q : ℕ) (s : Shared α ε) : Option (Shared α ε) :=
  match s.pointers.lookup r, s.pointers.lookup q with
  | some a, none => some { s with pointers := (q, a) :: s.pointers }
  | _, _ => none

/-- A reader drops its pointer. -/
def drop (r : ℕ) (s : Shared α ε) : Shared α ε :=
  { s with pointers := s.pointers.filter fun p => p.1 ≠ r }

end Shared

/-- An object that is replaced at once, and what the readers have of it. -/
structure Views (α : Type*) where
  /-- The object as it is after the last replacement. -/
  value : α
  /-- The values of the readers, by their names. -/
  views : List (ℕ × α) := []

namespace Views

/-- The value that a reader has, if it has one. -/
def read (t : Views α) (r : ℕ) : Option α := t.views.lookup r

/-- A reader gets the object. -/
def take (r : ℕ) (t : Views α) : Option (Views α) :=
  match t.read r with
  | none => some { t with views := (r, t.value) :: t.views }
  | some _ => none

/-- A reader copies what it has. -/
def copy (r q : ℕ) (t : Views α) : Option (Views α) :=
  match t.read r, t.read q with
  | some x, none => some { t with views := (q, x) :: t.views }
  | _, _ => none

/-- A reader forgets what it has. -/
def drop (r : ℕ) (t : Views α) : Views α :=
  { t with views := t.views.filter fun p => p.1 ≠ r }

end Views

/-- The changes one after the other. -/
def applyAll (apply : ε → α → Option α) : List ε → α → Option α
  | [], x => some x
  | e :: l, x => (apply e x).bind (applyAll apply l)

/-- What the writer's object is, compared with the object that the readers can get. -/
def Writer.Holds (apply : ε → α → Option α) (s : Shared α ε) (x : α) : Writer ε → Prop
  | .idle => s.value = x
  | .locked _ => s.value = x
  | .editing request rest =>
    s.unique = true ∧ applyAll apply request x = applyAll apply rest s.value

/-- The objects and pointers stand for the object and the values of the readers. -/
structure Refines (apply : ε → α → Option α) (s : Shared α ε) (t : Views α) : Prop where
  /-- No address is used before it is allocated. -/
  allocated : s.current < s.next ∧ ∀ p ∈ s.pointers, p.2 < s.next
  /-- Each pointer leads to the value of its reader. -/
  views : t.views = s.pointers.map fun p => (p.1, s.objects p.2)
  /-- The writer is at the object, or has changed it as far as it is. -/
  writer : s.writer.Holds apply s t.value

section

variable {apply : ε → α → Option α} {s u : Shared α ε} {t : Views α}

theorem lookup_map (f : ℕ → α) (l : List (ℕ × ℕ)) (r : ℕ) :
    (l.map fun p => (p.1, f p.2)).lookup r = (l.lookup r).map f := by
  induction l with
  | nil => rfl
  | cons p l ih =>
    rw [List.map_cons, List.lookup_cons, List.lookup_cons, ih]
    cases r == p.1 <;> rfl

theorem Refines.read (h : Refines apply s t) (r : ℕ) : s.read r = t.read r := by
  rw [Views.read, h.views, lookup_map, Shared.read]

theorem Refines.start (x : α) : Refines (ε := ε) apply (.start x) ⟨x, []⟩ :=
  ⟨⟨Nat.zero_lt_one, fun _ hp => absurd hp List.not_mem_nil⟩, rfl, rfl⟩

theorem unique_iff : s.unique = true ↔ ∀ p ∈ s.pointers, p.2 ≠ s.current := by
  simp [Shared.unique]

theorem map_update_of_ne {a : ℕ} (x : α) {l : List (ℕ × ℕ)} (h : ∀ p ∈ l, p.2 ≠ a) :
    (l.map fun p => (p.1, Function.update s.objects a x p.2)) =
      l.map fun p => (p.1, s.objects p.2) :=
  List.map_congr_left fun p hp => by rw [Function.update_of_ne (h p hp)]

/-- The pointers still stand for the values when the writer takes the lock. -/
theorem Refines.lock {request : List ε} (h : Refines apply s t) (hu : s.lock request = some u) :
    Refines apply u t ∧ s.writer = .idle ∧ u.writer.request = some request := by
  have hw := h.writer
  unfold Shared.lock at hu
  split at hu
  case h_1 hidle =>
    rw [hidle] at hw
    obtain rfl := Option.some.inj hu
    exact ⟨⟨h.allocated, h.views, hw⟩, hidle, rfl⟩
  case h_2 => cases hu

/-- The writer makes its pointer the only one. -/
theorem Refines.makeUnique (h : Refines apply s t) (hu : s.makeUnique = some u) :
    Refines apply u t ∧ u.writer.request = s.writer.request := by
  have hw := h.writer
  unfold Shared.makeUnique at hu
  split at hu
  case h_1 request hlocked =>
    rw [hlocked] at hw ⊢
    split_ifs at hu with hunique
    · obtain rfl := Option.some.inj hu
      exact ⟨⟨h.allocated, h.views, hunique, congrArg (applyAll apply request) hw.symm⟩, rfl⟩
    · obtain rfl := Option.some.inj hu
      have hne : ∀ p ∈ s.pointers, p.2 ≠ s.next := fun p hp =>
        Nat.ne_of_lt (h.allocated.2 p hp)
      refine ⟨⟨⟨Nat.lt_succ_self _, fun p hp => Nat.lt_succ_of_lt (h.allocated.2 p hp)⟩,
        ?_, unique_iff.mpr hne, ?_⟩, rfl⟩
      · rw [h.views]
        exact (map_update_of_ne _ hne).symm
      · have hcopy : Function.update s.objects s.next s.value s.next = t.value := by
          rw [Function.update_self]
          exact hw
        exact congrArg (applyAll apply request) hcopy.symm
  case h_2 => cases hu

/-- The pointers still stand for the values when the writer makes a change in place. -/
theorem Refines.edit (h : Refines apply s t) (hu : s.edit apply = some u) :
    Refines apply u t ∧ u.writer.request = s.writer.request := by
  have hw := h.writer
  unfold Shared.edit at hu
  split at hu
  case h_1 request e rest hediting =>
    rw [hediting] at hw ⊢
    obtain ⟨x, hx, rfl⟩ := Option.map_eq_some_iff.mp hu
    obtain ⟨hunique, hrest⟩ := hw
    have hne := unique_iff.mp hunique
    refine ⟨⟨h.allocated, ?_, hunique, ?_⟩, rfl⟩
    · rw [h.views]
      exact (map_update_of_ne x hne).symm
    · have hvalue : Function.update s.objects s.current x s.current = x := Function.update_self ..
      rw [applyAll, hx, Option.bind_some] at hrest
      exact hrest.trans (congrArg (applyAll apply rest) hvalue.symm)
  case h_2 => cases hu

/-- The writer releases the lock: all changes are there at once. -/
theorem Refines.unlock (h : Refines apply s t) (hu : s.unlock = some u) :
    ∃ request x, s.writer.request = some request ∧ applyAll apply request t.value = some x ∧
      u.writer = .idle ∧ Refines apply u { t with value := x } := by
  have hw := h.writer
  unfold Shared.unlock at hu
  split at hu
  case h_1 request hediting =>
    rw [hediting] at hw ⊢
    obtain rfl := Option.some.inj hu
    exact ⟨request, s.value, rfl, hw.2, rfl, h.allocated, h.views, rfl⟩
  case h_2 => cases hu

/-- The pointers still stand for the values when a reader takes one. -/
theorem Refines.take {r : ℕ} (h : Refines apply s t) (hu : s.take r = some u) :
    u.writer = s.writer ∧ ∃ v, t.take r = some v ∧ Refines apply u v := by
  have hw := h.writer
  have hread := h.read r
  unfold Shared.take at hu
  split at hu
  case h_1 hidle hnone =>
    rw [hidle] at hw
    obtain rfl := Option.some.inj hu
    rw [Shared.read, hnone, Option.map_none] at hread
    refine ⟨rfl, { t with views := (r, t.value) :: t.views }, ?_, ⟨h.allocated.1, ?_⟩, ?_, ?_⟩
    · rw [Views.take, ← hread]
    · exact List.forall_mem_cons.mpr ⟨h.allocated.1, h.allocated.2⟩
    · rw [List.map_cons, ← h.views, ← hw]
      rfl
    · rw [hidle]
      exact hw
  case h_2 => cases hu

/-- A pointer to an object that another pointer leads to does not make the writer's less unique. -/
theorem Writer.Holds.congr {w : Writer ε} {x : α} (h : w.Holds apply s x)
    (hsame : u.value = s.value) (hunique : s.unique = true → u.unique = true) :
    w.Holds apply u x := by
  cases w with
  | idle | locked request => exact hsame.trans h
  | editing request rest => exact ⟨hunique h.1, by rw [hsame]; exact h.2⟩

/-- The pointers still stand for the values when a reader copies its own. -/
theorem Refines.copy {r q : ℕ} (h : Refines apply s t) (hu : s.copy r q = some u) :
    u.writer = s.writer ∧ ∃ v, t.copy r q = some v ∧ Refines apply u v := by
  have hreadr := h.read r
  have hreadq := h.read q
  unfold Shared.copy at hu
  split at hu
  case h_1 a hsome hnone =>
    obtain rfl := Option.some.inj hu
    rw [Shared.read, hsome, Option.map_some] at hreadr
    rw [Shared.read, hnone, Option.map_none] at hreadq
    have hmem : (r, a) ∈ s.pointers := by
      obtain ⟨l₁, l₂, hl, -⟩ := List.lookup_eq_some_iff.mp hsome
      rw [hl]
      exact List.mem_append_right l₁ List.mem_cons_self
    refine ⟨rfl, { t with views := (q, s.objects a) :: t.views }, ?_, ⟨h.allocated.1, ?_⟩, ?_,
      h.writer.congr rfl fun hunique => unique_iff.mpr ?_⟩
    · rw [Views.copy, ← hreadr, ← hreadq]
    · exact List.forall_mem_cons.mpr ⟨h.allocated.2 (r, a) hmem, h.allocated.2⟩
    · rw [List.map_cons, ← h.views]
    · have hne := unique_iff.mp hunique
      exact List.forall_mem_cons.mpr ⟨hne (r, a) hmem, hne⟩
  case h_2 => cases hu

theorem Refines.drop (h : Refines apply s t) (r : ℕ) : Refines apply (s.drop r) (t.drop r) := by
  have hsub : ∀ p ∈ (s.drop r).pointers, p ∈ s.pointers := fun p hp => List.mem_of_mem_filter hp
  refine ⟨⟨h.allocated.1, fun p hp => h.allocated.2 p (hsub p hp)⟩, ?_,
    h.writer.congr rfl fun hunique => unique_iff.mpr fun p hp => ?_⟩
  · rw [Views.drop, h.views, List.filter_map]
    rfl
  · exact unique_iff.mp hunique p (hsub p hp)

end

/-! ## What the readers have stays -/

namespace Views

variable {t u : Views α} {r q : ℕ} {x : α}

theorem lookup_cons_of_none {l : List (ℕ × α)} {y : α} (hq : l.lookup q = none)
    (hr : l.lookup r = some x) : ((q, y) :: l).lookup r = some x := by
  have hne : (r == q) = false := by
    rw [beq_eq_false_iff_ne]
    rintro rfl
    rw [hq] at hr
    cases hr
  rw [List.lookup_cons, hne]
  exact hr

theorem take_eq (hu : t.take r = some u) :
    t.read r = none ∧ u = { t with views := (r, t.value) :: t.views } := by
  unfold take at hu
  split at hu
  case h_1 hr => exact ⟨hr, (Option.some.inj hu).symm⟩
  case h_2 => cases hu

theorem copy_eq (hu : t.copy r q = some u) : ∃ x, t.read r = some x ∧ t.read q = none ∧
    u = { t with views := (q, x) :: t.views } := by
  unfold copy at hu
  split at hu
  case h_1 x hr hq => exact ⟨x, hr, hq, (Option.some.inj hu).symm⟩
  case h_2 => cases hu

theorem read_take (hr : t.read r = some x) (hu : t.take q = some u) : u.read r = some x := by
  obtain ⟨hq, rfl⟩ := take_eq hu
  exact lookup_cons_of_none hq hr

theorem read_copy {q' : ℕ} (hr : t.read r = some x) (hu : t.copy q q' = some u) :
    u.read r = some x := by
  obtain ⟨y, -, hq, rfl⟩ := copy_eq hu
  exact lookup_cons_of_none hq hr

theorem mem_of_read (hr : t.read r = some x) : x ∈ t.views.map Prod.snd := by
  obtain ⟨l₁, l₂, hl, -⟩ := List.lookup_eq_some_iff.mp hr
  rw [hl]
  simp

/-- The value of a reader stays when another one drops its own. -/
theorem read_drop (hne : r ≠ q) : (t.drop q).read r = t.read r := by
  unfold drop read
  induction t.views with
  | nil => rfl
  | cons p l ih =>
    rw [List.filter_cons, List.lookup_cons]
    split_ifs with hp
    · rw [List.lookup_cons, ih]
    · have hpq : p.1 = q := by simpa using hp
      have hrp : (r == p.1) = false := by
        rw [beq_eq_false_iff_ne, hpq]
        exact hne
      rw [hrp]
      exact ih

end Views

end CopyOnWrite
