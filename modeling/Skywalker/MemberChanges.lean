import Skywalker.Wire
import Mathlib.Logic.Function.Basic

/-!
# Changes of the membership

`MembershipMachine::Execute` on any byte string, since a client may propose one for the machine
through `Node::Propose`. The loop runs over the types of the change and reads the members with the
same index, so that it leaves the list of the members when there are more types than members. It
applies the changes in their order just if it does not come to the loop or there are no more types
than members (`Membership.execute_spec`), which is so for all that `Group::ChangeMember` builds
(`changeMember_length`).

The map of the members is `Membership.find`. A change is an update of it (`changeMap`), and the last
change of an id decides (`foldl_changeMap`).
-/

namespace Skywalker

/-! ## The map -/

namespace Membership

/-- The entry that `members.find(id)` finds. -/
def find (ms : Membership) (id : ℕ) : Option MemberMessage := ms.members.find? fun m => m.id = id

variable {ms : Membership} {id : ℕ} {m : MemberMessage}

theorem id_of_find (h : ms.find id = some m) : m.id = id := by
  simpa using List.find?_some h

theorem find?_filter_ne (l : List MemberMessage) {k : ℕ} (hne : id ≠ k) :
    (l.filter fun x => x.id != k).find? (fun x => decide (x.id = id)) =
      l.find? fun x => x.id = id := by
  rw [List.find?_filter]
  congr
  funext x
  by_cases hx : x.id = id
  · simp [hx, hne]
  · simp [hx]

theorem find?_filter_self (l : List MemberMessage) :
    (l.filter fun x => x.id != id).find? (fun x => decide (x.id = id)) = none := by
  rw [List.find?_eq_none]
  intro x hx
  simpa using (List.mem_filter.mp hx).2

/-- After `members[member.id()] = member` the id has this entry, and the others keep theirs. -/
theorem find_add (ms : Membership) (m : MemberMessage) :
    (ms.add m).find = Function.update ms.find m.id (some m) := by
  funext id
  change (m :: ms.members.filter fun x => x.id != m.id).find? _ = _
  by_cases hid : id = m.id
  · subst hid
    simp
  · rw [List.find?_cons_of_neg (by simpa using Ne.symm hid), find?_filter_ne _ hid,
      Function.update_of_ne hid]
    rfl

theorem find_erase (ms : Membership) (k : ℕ) :
    (ms.erase k).find = Function.update ms.find k none := by
  funext id
  change (ms.members.filter fun x => x.id != k).find? _ = _
  by_cases hid : id = k
  · subst hid
    rw [find?_filter_self, Function.update_self]
  · rw [find?_filter_ne _ hid, Function.update_of_ne hid]
    rfl

end Membership

/-! ## A change -/

/-- What a change does to the entry of its member: the new entry or none, and nothing for a type
that is not known. -/
def MemberChangeType.effect (m : MemberMessage) : MemberChangeType → Option (Option MemberMessage)
  | .memberAdd => some (some m)
  | .memberRemove => some none
  | .other _ => none

/-- A change of the map. -/
def changeMap (f : ℕ → Option MemberMessage) (c : MemberChangeType × MemberMessage) :
    ℕ → Option MemberMessage :=
  match c.1.effect c.2 with
  | none => f
  | some entry => Function.update f c.2.id entry

/-- What the last change of an id does to its entry, if there is one. -/
def lastEffect (id : ℕ) (changes : List (MemberChangeType × MemberMessage)) :
    Option (Option MemberMessage) :=
  changes.reverse.findSome? fun c => if c.2.id = id then c.1.effect c.2 else none

/-- A change decides about the entry of its own id. -/
theorem changeMap_apply (f : ℕ → Option MemberMessage) (c : MemberChangeType × MemberMessage)
    (id : ℕ) :
    changeMap f c id = (if c.2.id = id then c.1.effect c.2 else none).getD (f id) := by
  unfold changeMap
  cases heffect : c.1.effect c.2 with
  | none => simp
  | some entry =>
    by_cases hid : c.2.id = id
    · subst hid
      simp
    · rw [if_neg hid]
      exact Function.update_of_ne (Ne.symm hid) _ _

/-- Of several changes the last one of an id decides. -/
theorem foldl_changeMap (changes : List (MemberChangeType × MemberMessage))
    (f : ℕ → Option MemberMessage) (id : ℕ) :
    changes.foldl changeMap f id = (lastEffect id changes).getD (f id) := by
  induction changes generalizing f with
  | nil => rfl
  | cons c l ih =>
    have hlast : lastEffect id (c :: l) =
        (lastEffect id l).or (if c.2.id = id then c.1.effect c.2 else none) := by
      simp [lastEffect, List.findSome?_append]
    rw [List.foldl_cons, ih, changeMap_apply, hlast]
    cases lastEffect id l with
    | none | some entry => rfl

/-! ## The loop -/

/-- The loop leaves the list of the members just if there are more types than members. -/
theorem applyChanges_eq_none_iff (types : List MemberChangeType) (members : List MemberMessage)
    (ms : Membership) :
    applyChanges types members ms = none ↔ members.length < types.length := by
  induction types generalizing members ms with
  | nil => simp [applyChanges]
  | cons type types ih =>
    cases members with
    | nil => simp [applyChanges]
    | cons m members => cases type <;> simp [applyChanges, ih]

/-- With a member for each type the loop makes the changes in their order. -/
theorem find_applyChanges {types : List MemberChangeType} {members : List MemberMessage}
    {ms ms' : Membership} (h : applyChanges types members ms = some ms') :
    ms'.find = (types.zip members).foldl changeMap ms.find := by
  induction types generalizing members ms with
  | nil =>
    obtain rfl := Option.some.inj h
    rfl
  | cons type types ih =>
    cases members with
    | nil => exact absurd h nofun
    | cons m members =>
      rw [List.zip_cons_cons, List.foldl_cons]
      cases type with
      | memberAdd =>
        have hnext := ih h
        rw [Membership.find_add] at hnext
        exact hnext
      | memberRemove =>
        have hnext := ih h
        rw [Membership.find_erase] at hnext
        exact hnext
      | other number => exact ih h

/-- **A change of the membership is applied as a whole or not at all**, just if the message of a
string that is executed has no more types than members: a string that does not parse, and one for an
instance that the membership has already, change nothing, and any other string has the loop stay in
the list of the members and changes them as it says, one change after the other. -/
theorem Membership.execute_spec (codec : Codec) (value : List UInt8) (instanceId : ℕ)
    (ms : Membership) :
    (ms.version < instanceId → ∀ change, codec.parseMemberChange value = some change →
      change.type.length ≤ change.member.length) ↔
    (instanceId ≤ ms.version ∨ codec.parseMemberChange value = none →
      ms.execute codec instanceId value = (false, ms)) ∧
    ∀ change, ms.version < instanceId → codec.parseMemberChange value = some change →
      ∃ ms', applyChanges change.type change.member ms = some ms' ∧
        ms.execute codec instanceId value = (true, { ms' with version := instanceId }) ∧
        ms'.find = (change.type.zip change.member).foldl changeMap ms.find ∧
        (∀ id, ms'.find id =
          (lastEffect id (change.type.zip change.member)).getD (ms.find id)) ∧
        ∀ id m, ms'.find id = some m → m.id = id := by
  constructor
  · intro hlength
    refine ⟨fun h => ?_, fun change hnew hparse => ?_⟩
    · unfold Membership.execute
      split_ifs with hold
      · rfl
      · rw [h.resolve_left hold]
    · have hsome : applyChanges change.type change.member ms ≠ none := by
        rw [Ne, applyChanges_eq_none_iff]
        exact Nat.not_lt.mpr (hlength hnew change hparse)
      obtain ⟨ms', hms'⟩ := Option.ne_none_iff_exists'.mp hsome
      have hfind := find_applyChanges hms'
      refine ⟨ms', hms', ?_, hfind, fun id => ?_, fun id m hm => Membership.id_of_find hm⟩
      · unfold Membership.execute
        rw [if_neg (Nat.not_le.mpr hnew), hparse]
        simp only [hms']
      · rw [hfind, foldl_changeMap]
  · rintro ⟨-, happlied⟩ hnew change hparse
    obtain ⟨ms', hms', -⟩ := happlied change hnew hparse
    by_contra hmore
    rw [(applyChanges_eq_none_iff ..).mpr (Nat.lt_of_not_le hmore)] at hms'
    cases hms'

/-- Node 4 in, node 4 out and node 5 in, with the types packed. -/
def threeChanges : List UInt8 :=
  [0x12, 0x02, 0x08, 0x04, 0x12, 0x02, 0x08, 0x04, 0x12, 0x02, 0x08, 0x05,
    0x1a, 0x03, 0x00, 0x01, 0x00]

/-- Node 4 is not a member then, and node 5 is. -/
theorem Membership.execute_spec_three_changes : ∃ change ms',
    protoCodec.parseMemberChange threeChanges = some change ∧
      change.type = [.memberAdd, .memberRemove, .memberAdd] ∧
      Membership.execute protoCodec 7 threeChanges {} = (true, ms') ∧
      ms'.version = 7 ∧ ms'.find 4 = none ∧ ms'.find 5 = some { id := 5 } := by
  have hparse : protoCodec.parseMemberChange threeChanges =
      some ⟨[{ id := 4 }, { id := 4 }, { id := 5 }],
        [.memberAdd, .memberRemove, .memberAdd]⟩ := by decide +kernel
  have hlength : ∀ change, protoCodec.parseMemberChange threeChanges = some change →
      change.type.length ≤ change.member.length := by
    intro change h
    obtain rfl := Option.some.inj (hparse.symm.trans h)
    decide
  obtain ⟨ms', -, hexecute, -, hlast, -⟩ :=
    ((Membership.execute_spec protoCodec threeChanges 7 {}).mp fun _ => hlength).2 _ (by decide)
      hparse
  refine ⟨_, _, hparse, rfl, hexecute, rfl, ?_, ?_⟩
  · exact (hlast 4).trans (by decide)
  · exact (hlast 5).trans (by decide)

/-- Two bytes with a type and no member parse, and the loop asks for a member that is not there. -/
theorem Membership.execute_type_without_member :
    protoCodec.parseMemberChange [0x18, 0x00] = some ⟨[], [.memberAdd]⟩ ∧
    ({} : Membership).version < 1 ∧
    applyChanges [.memberAdd] [] ({} : Membership) = none := by
  refine ⟨by decide +kernel, by decide, rfl⟩

/-! ## The changes of a group -/

/-- A member and whether it is to be added. -/
def MemberChangeMessage.push (change : MemberChangeMessage) (i : MemberMessage × Bool) :
    MemberChangeMessage where
  member := change.member ++ [i.1]
  type := change.type ++ [if i.2 then .memberAdd else .memberRemove]

/-- The message that `Group::ChangeMember` builds from its arguments. -/
def changeMember (value : List (MemberMessage × Bool)) : MemberChangeMessage :=
  value.foldl MemberChangeMessage.push {}

/-- `ChangeMember` builds as many types as members. -/
theorem changeMember_length (value : List (MemberMessage × Bool)) :
    (changeMember value).type.length = (changeMember value).member.length := by
  -- every turn of the loop adds one to both lists
  suffices h : ∀ change : MemberChangeMessage, change.type.length = change.member.length →
      (value.foldl MemberChangeMessage.push change).type.length =
        (value.foldl MemberChangeMessage.push change).member.length from h {} rfl
  induction value with
  | nil => exact fun _ h => h
  | cons i value ih =>
    intro change h
    apply ih
    simp [MemberChangeMessage.push, h]

end Skywalker
