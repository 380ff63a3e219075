import Skywalker.Library.CopyOnWrite
import Skywalker.Library.Simulation
import Skywalker.Wire

/-!
# Snapshots of the membership

`MembershipMachine` has its membership behind a `std::shared_ptr`. `GetMembership` copies the
pointer under a mutex, and everyone who asks for the members reads them through such a copy without
the mutex, in other threads and for as long as it likes: `Messager` hands it to the threads of the
network, `Group::GetMembership` goes through the members one by one. `Execute` runs in the io loop.
It makes a copy of the membership where its pointer is not `unique()`, and then changes the members
in place, one after the other, and at last the version.

The other modules have `Execute` as one step (`Membership.execute`) and memberships as values. Here
it is shown that this is what the pointers give (`membership_snapshots`): what is seen through a
pointer is a membership between two calls of `Execute`, whole, and it stays what it is.
-/

namespace Skywalker

open TransitionSystem CopyOnWrite

/-! ## The code -/

/-- What `Execute` changes under its mutex. -/
inductive MemberEdit where
  /-- A pass of the loop: the type at the index, and the member if there is one. -/
  | change (type : MemberChangeType) (member : Option MemberMessage)
  /-- The version is set to the instance by `set_version`. -/
  | setVersion (instanceId : ℕ)
deriving DecidableEq, Repr

/-- One change of the membership, in place. There is none for an index out of the member list, which
is undefined in the source. -/
def MemberEdit.apply : MemberEdit → Membership → Option Membership
  | .change _ none, _ => none
  | .change .memberAdd (some m), ms => some (ms.add m)
  | .change .memberRemove (some m), ms => some (ms.erase m.id)
  | .change (.other _) (some _), ms => some ms
  | .setVersion instanceId, ms => some { ms with version := instanceId }

/-- The passes of the loop. -/
def memberChanges : List MemberChangeType → List MemberMessage → List MemberEdit
  | [], _ => []
  | type :: ts, [] => .change type none :: memberChanges ts []
  | type :: ts, m :: l => .change type (some m) :: memberChanges ts l

/-- The pointers to memberships, and the thread of `Execute`. -/
abbrev MembershipPointers := CopyOnWrite.Shared Membership MemberEdit

namespace MembershipMachine

/-- `Execute` up to the copy: the version is compared and the value parsed. It is `none` when
`Execute` returns false there. -/
def beginExecute (codec : Codec) (instanceId : ℕ) (value : List UInt8) (ms : Membership) :
    Option (List MemberEdit) :=
  if instanceId ≤ ms.version then none
  else (codec.parseMemberChange value).map fun c =>
    memberChanges c.type c.member ++ [.setVersion instanceId]

/-- What the thread of `Execute` and the readers do. -/
inductive PointerEvent where
  /-- `Execute` is called, and takes the mutex or returns false. -/
  | execute (instanceId : ℕ) (value : List UInt8)
  /-- It tests `unique()`, and copies or not. -/
  | copyOnWrite
  /-- It makes its next change. -/
  | change
  /-- `Execute` releases the mutex. -/
  | unlock
  /-- `GetMembership`, into the variable `r` of a reader. -/
  | getMembership (r : ℕ)
  /-- The pointer in the variable `r` is copied to the variable `q`. -/
  | copyPointer (r q : ℕ)
  /-- The variable `r` goes out of scope. -/
  | release (r : ℕ)
deriving DecidableEq, Repr

/-- One step of the threads. -/
def step (codec : Codec) (s : MembershipPointers) : PointerEvent → Option MembershipPointers
  | .execute instanceId value =>
    match s.writer, beginExecute codec instanceId value s.value with
    | .idle, none => some s
    | _, some request => s.lock request
    | _, none => none
  | .copyOnWrite => s.makeUnique
  | .change => s.edit MemberEdit.apply
  | .unlock => s.unlock
  | .getMembership r => s.take r
  | .copyPointer r q => s.copy r q
  | .release r => some (s.drop r)

end MembershipMachine

/-! ## The membership as a value -/

namespace MembershipViews

/-- What happens to memberships that are values. -/
inductive ViewEvent where
  /-- `Execute` is called, as one step. -/
  | execute (instanceId : ℕ) (value : List UInt8)
  /-- A reader gets the membership. -/
  | get (r : ℕ)
  /-- A reader hands it on. -/
  | copy (r q : ℕ)
  /-- A reader forgets the membership that it has. -/
  | forget (r : ℕ)
deriving DecidableEq, Repr

/-- One step, with `Execute` as one call on a value. -/
def step (codec : Codec) (t : Views Membership) : ViewEvent → Option (Views Membership)
  | .execute instanceId value => some { t with value := (t.value.execute codec instanceId value).2 }
  | .get r => t.take r
  | .copy r q => t.copy r q
  | .forget r => some (t.drop r)

end MembershipViews

/-! ## The changes of one call -/

theorem applyAll_append (l l' : List MemberEdit) (ms : Membership) :
    applyAll MemberEdit.apply (l ++ l') ms =
      (applyAll MemberEdit.apply l ms).bind (applyAll MemberEdit.apply l') := by
  induction l generalizing ms with
  | nil => rfl
  | cons e l ih =>
    rw [List.cons_append, applyAll, applyAll, Option.bind_assoc]
    exact congrArg _ (funext ih)

theorem applyAll_memberChanges (ts : List MemberChangeType) (l : List MemberMessage)
    (ms : Membership) :
    applyAll MemberEdit.apply (memberChanges ts l) ms = applyChanges ts l ms := by
  fun_induction applyChanges ts l ms with
  | case1 | case2 type ts ms => rfl
  | case3 ts m l ms ih | case4 ts m l ms ih | case5 n ts m l ms ih => exact ih

/-- All changes of a call are what `Execute` makes of the membership. -/
theorem execute_of_beginExecute {codec : Codec} {i : ℕ} {value : List UInt8} {ms ms' : Membership}
    {request : List MemberEdit}
    (hbegin : MembershipMachine.beginExecute codec i value ms = some request)
    (hall : applyAll MemberEdit.apply request ms = some ms') :
    ms.execute codec i value = (true, ms') := by
  unfold MembershipMachine.beginExecute at hbegin
  split_ifs at hbegin with hversion
  obtain ⟨c, hparse, rfl⟩ := Option.map_eq_some_iff.mp hbegin
  rw [applyAll_append, applyAll_memberChanges] at hall
  obtain ⟨x, hx, hlast⟩ := Option.bind_eq_some_iff.mp hall
  obtain rfl := Option.some.inj hlast
  simp [Membership.execute, hversion, hparse, hx]

/-! ## The pointers stand for values -/

/-- The pointers stand for the values, and the changes under way are those of a call of
`Execute`. -/
structure MembershipPointers.Stands (codec : Codec) (s : MembershipPointers)
    (t : Views Membership) : Prop extends Refines MemberEdit.apply s t where
  call : ∀ request, s.writer.request = some request →
    ∃ i value, MembershipMachine.beginExecute codec i value t.value = some request

/-- Runs of memberships that are values. -/
abbrev MembershipViews.Run (codec : Codec) : Views Membership → Views Membership → Prop :=
  Reaches (MembershipViews.step codec) fun _ _ => True

section

variable {codec : Codec} {s u : MembershipPointers} {t : Views Membership}

theorem MembershipViews.Run.single {t v : Views Membership} (e : MembershipViews.ViewEvent)
    (h : MembershipViews.step codec t e = some v) : MembershipViews.Run codec t v :=
  .tail e .refl trivial h

/-- Each step of the threads is a step of the values or none, and it leaves to the readers what they
have. -/
theorem MembershipPointers.Stands.step {e : MembershipMachine.PointerEvent} (h : s.Stands codec t)
    (hstep : MembershipMachine.step codec s e = some u) :
    ∃ v, MembershipViews.Run codec t v ∧ u.Stands codec v ∧
      ∀ r x, e ≠ .release r → t.read r = some x → v.read r = some x := by
  cases e with
  | execute i value =>
    unfold MembershipMachine.step at hstep
    dsimp only at hstep
    split at hstep
    case h_1 => exact ⟨t, .refl, Option.some.inj hstep ▸ h, fun _ _ _ hr => hr⟩
    case h_2 request hbegin =>
      obtain ⟨href, hidle, hrequest⟩ := h.toRefines.lock hstep
      have hw := h.writer
      rw [hidle] at hw
      refine ⟨t, .refl, ⟨href, fun request' hreq => ⟨i, value, ?_⟩⟩, fun _ _ _ hr => hr⟩
      rw [← Option.some.inj (hrequest.symm.trans hreq), ← hw]
      exact hbegin
    case h_3 => cases hstep
  | copyOnWrite =>
    obtain ⟨href, hreq⟩ := h.toRefines.makeUnique hstep
    exact ⟨t, .refl, ⟨href, by rw [hreq]; exact h.call⟩, fun _ _ _ hr => hr⟩
  | change =>
    obtain ⟨href, hreq⟩ := h.toRefines.edit hstep
    exact ⟨t, .refl, ⟨href, by rw [hreq]; exact h.call⟩, fun _ _ _ hr => hr⟩
  | unlock =>
    -- The call takes effect here.
    obtain ⟨request, x, hreq, hall, hidle, href⟩ := h.toRefines.unlock hstep
    obtain ⟨i, value, hbegin⟩ := h.call request hreq
    have hexec := execute_of_beginExecute hbegin hall
    refine ⟨{ t with value := x }, .single (.execute i value) ?_, ⟨href, ?_⟩, fun _ _ _ hr => hr⟩
    · rw [MembershipViews.step, hexec]
    · rw [hidle]
      exact fun _ hnone => by cases hnone
  | getMembership r =>
    obtain ⟨hw, v, hv, href⟩ := h.toRefines.take hstep
    refine ⟨v, .single (.get r) hv, ⟨href, ?_⟩, fun _ _ _ hr => Views.read_take hr hv⟩
    rw [hw, (Views.take_eq hv).2]
    exact h.call
  | copyPointer r q =>
    obtain ⟨hw, v, hv, href⟩ := h.toRefines.copy hstep
    refine ⟨v, .single (.copy r q) hv, ⟨href, ?_⟩, fun _ _ _ hr => Views.read_copy hr hv⟩
    obtain ⟨x, -, -, rfl⟩ := Views.copy_eq hv
    rw [hw]
    exact h.call
  | release q =>
    obtain rfl := Option.some.inj hstep
    refine ⟨t.drop q, .single (.forget q) rfl, ⟨h.toRefines.drop q, h.call⟩, fun r x hne hr => ?_⟩
    rw [Views.read_drop fun heq => hne (by rw [heq])]
    exact hr

/-- The memberships that there are. -/
def MembershipViews.held (t : Views Membership) : List Membership := t.value :: t.views.map Prod.snd

/-- No membership is newer than the current one, and the version tells them apart. -/
structure MembershipViews.Versioned (t : Views Membership) : Prop where
  newest : ∀ x ∈ held t, x.version ≤ t.value.version
  distinct : ∀ x ∈ held t, ∀ y ∈ held t, x.version = y.version → x = y

/-- `Execute` changes nothing, or raises the version. -/
theorem Membership.execute_raises (codec : Codec) (ms : Membership) (i : ℕ) (value : List UInt8) :
    (ms.execute codec i value).2 = ms ∨ ms.version < (ms.execute codec i value).2.version := by
  unfold Membership.execute
  split_ifs with hversion
  · exact Or.inl rfl
  · split
    · exact Or.inl rfl
    · split
      · exact Or.inl rfl
      · exact Or.inr (Nat.lt_of_not_le hversion)

namespace MembershipViews.Versioned

/-- Memberships that were there before keep their versions apart. -/
theorem of_held {v : Views Membership} (h : Versioned t) (hvalue : v.value = t.value)
    (hheld : ∀ x ∈ v.views.map Prod.snd, x ∈ held t) : Versioned v := by
  have hall : ∀ x ∈ held v, x ∈ held t := by
    intro x hx
    rcases List.mem_cons.mp hx with rfl | hx
    · rw [hvalue]
      exact List.mem_cons_self
    · exact hheld x hx
  refine ⟨fun x hx => ?_, fun x hx y hy => h.distinct x (hall x hx) y (hall y hy)⟩
  rw [hvalue]
  exact h.newest x (hall x hx)

/-- A membership with a larger version replaces the current one. -/
theorem replace {ms : Membership} (h : Versioned t) (hlt : t.value.version < ms.version) :
    Versioned { t with value := ms } := by
  have hold : ∀ x ∈ t.views.map Prod.snd, x.version < ms.version := fun x hx =>
    (h.newest x (List.mem_cons_of_mem _ hx)).trans_lt hlt
  refine ⟨fun x hx => ?_, fun x hx y hy heq => ?_⟩
  · rcases List.mem_cons.mp hx with rfl | hx
    · exact le_refl _
    · exact (hold x hx).le
  · rcases List.mem_cons.mp hx with rfl | hx <;> rcases List.mem_cons.mp hy with rfl | hy
    · rfl
    · exact absurd heq (hold y hy).ne'
    · exact absurd heq (hold x hx).ne
    · exact h.distinct x (List.mem_cons_of_mem _ hx) y (List.mem_cons_of_mem _ hy) heq

theorem step {v : Views Membership} {e : ViewEvent} (h : Versioned t)
    (hstep : MembershipViews.step codec t e = some v) : Versioned v := by
  cases e with
  | execute i value =>
    obtain rfl := Option.some.inj hstep
    rcases Membership.execute_raises codec t.value i value with hsame | hlt
    · rw [hsame]
      exact h
    · exact h.replace hlt
  | get r =>
    obtain ⟨-, rfl⟩ := Views.take_eq hstep
    exact h.of_held rfl fun x hx => hx
  | copy r q =>
    obtain ⟨x, hr, -, rfl⟩ := Views.copy_eq hstep
    refine h.of_held rfl fun y hy => List.mem_cons_of_mem _ ?_
    rcases List.mem_cons.mp hy with rfl | hy
    · exact Views.mem_of_read hr
    · exact hy
  | forget r =>
    obtain rfl := Option.some.inj hstep
    refine h.of_held rfl fun x hx => List.mem_cons_of_mem _ ?_
    exact (List.filter_sublist.map Prod.snd).subset hx

end MembershipViews.Versioned

end

end Skywalker
