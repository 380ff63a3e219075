import Mathlib.Data.Finset.Card
import Mathlib.Order.Basic

/-!
# Voting under ballots

Acceptors vote for values under ballots and promise to vote under no ballot below a bound. A value
is chosen when a quorum votes for it under one ballot. The argument that only one value is chosen
rests on `SafeAt`: no other value can ever be chosen below a ballot, because in every quorum
somebody has promised too much to vote for it and did not vote for it before. A ballot that is safe
stays safe, so a proposer may establish safety once, from the promises of a quorum and from the
votes that they report.

Nothing here fixes what acceptors, ballots and values are, nor how votes are cast. A system uses the
library by showing that its steps extend the board of votes and that what is voted for is safe.
-/

namespace Voting

/-- Sets of acceptors of which every two have a member in common. -/
structure Quorums (A : Type*) where
  /-- The sets of acceptors that are quorums. -/
  sets : Set (Finset A)
  /-- Any two quorums have an acceptor in common. -/
  meet : ∀ Q ∈ sets, ∀ Q' ∈ sets, ∃ a, a ∈ Q ∧ a ∈ Q'

/-- The majorities of a set. -/
def majorities {A : Type*} [DecidableEq A] (M : Finset A) : Quorums A where
  sets := {Q | Q ⊆ M ∧ M.card / 2 + 1 ≤ Q.card}
  meet := by
    rintro Q ⟨hQ, hcard⟩ Q' ⟨hQ', hcard'⟩
    have hlt : M.card < Q.card + Q'.card := by omega
    obtain ⟨a, ha⟩ := Finset.inter_nonempty_of_card_lt_card_add_card hQ hQ' hlt
    exact ⟨a, Finset.mem_inter.mp ha⟩

/-- What the acceptors have done. -/
structure Board (A B V : Type*) where
  /-- Who voted for what under which ballot. -/
  votes : A → B → V → Prop
  /-- An acceptor votes under no ballot below its promise. -/
  promise : A → B

namespace Board

variable {A B V : Type*} {v : V} {b : B}

/-- A quorum voted for the value under the ballot. -/
def ChosenAt (S : Board A B V) (q : Quorums A) (b : B) (v : V) : Prop :=
  ∃ Q ∈ q.sets, ∀ a ∈ Q, S.votes a b v

/-- A quorum voted for the value under some ballot. -/
def Chosen (S : Board A B V) (q : Quorums A) (v : V) : Prop := ∃ b, S.ChosenAt q b v

theorem ChosenAt.exists_vote {S : Board A B V} {q : Quorums A} (h : S.ChosenAt q b v) :
    ∃ a, S.votes a b v := by
  obtain ⟨Q, hQ, hvotes⟩ := h
  obtain ⟨a, ha, -⟩ := q.meet Q hQ Q hQ
  exact ⟨a, hvotes a ha⟩

variable [LinearOrder B]

/-- No quorum votes for the value under the ballot, now or later. -/
def Blocked (S : Board A B V) (q : Quorums A) (b : B) (v : V) : Prop :=
  ∀ Q ∈ q.sets, ∃ a ∈ Q, b < S.promise a ∧ ¬ S.votes a b v

/-- No other value is chosen below the ballot, now or later. -/
def SafeAt (S : Board A B V) (q : Quorums A) (b : B) (v : V) : Prop :=
  ∀ c < b, ∀ w, w ≠ v → S.Blocked q c w

/-- Votes are for safe values, one under each ballot. -/
structure Sound (S : Board A B V) (q : Quorums A) : Prop where
  unique : ∀ a a' b v w, S.votes a b v → S.votes a' b w → v = w
  safe : ∀ a b v, S.votes a b v → S.SafeAt q b v

/-- What may happen to a board: promises rise, and new votes respect the promises. -/
structure Extends (S T : Board A B V) : Prop where
  promise : ∀ a, S.promise a ≤ T.promise a
  keep : ∀ a b v, S.votes a b v → T.votes a b v
  new : ∀ a b v, T.votes a b v → S.votes a b v ∨ S.promise a ≤ b

variable {S T : Board A B V} {q : Quorums A}

/-! ## What stays -/

theorem ChosenAt.extend (h : S.ChosenAt q b v) (hext : S.Extends T) :
    T.ChosenAt q b v := by
  obtain ⟨Q, hQ, hvotes⟩ := h
  exact ⟨Q, hQ, fun a ha => hext.keep a b v (hvotes a ha)⟩

theorem Chosen.extend (h : S.Chosen q v) (hext : S.Extends T) : T.Chosen q v := by
  obtain ⟨b, hb⟩ := h
  exact ⟨b, hb.extend hext⟩

theorem Blocked.extend (h : S.Blocked q b v) (hext : S.Extends T) :
    T.Blocked q b v := by
  intro Q hQ
  obtain ⟨a, ha, hlt, hno⟩ := h Q hQ
  refine ⟨a, ha, hlt.trans_le (hext.promise a), fun hvote => ?_⟩
  rcases hext.new a b v hvote with hold | hle
  · exact hno hold
  · exact absurd hlt (not_lt.mpr hle)

theorem SafeAt.extend (h : S.SafeAt q b v) (hext : S.Extends T) :
    T.SafeAt q b v :=
  fun c hc w hw => (h c hc w hw).extend hext

/-! ## Agreement -/

theorem Blocked.not_chosenAt (h : S.Blocked q b v) : ¬ S.ChosenAt q b v := by
  rintro ⟨Q, hQ, hvotes⟩
  obtain ⟨a, ha, -, hno⟩ := h Q hQ
  exact hno (hvotes a ha)

/-- A value that is voted for under a ballot is the one that is chosen below it. -/
theorem Sound.eq_of_chosenAt_of_le (hS : S.Sound q) {c : B} {w : V} {a : A} (h : S.ChosenAt q c w)
    (hvote : S.votes a b v) (hle : c ≤ b) : v = w := by
  rcases hle.lt_or_eq with hlt | rfl
  · by_contra hne
    exact (hS.safe a b v hvote c hlt w (Ne.symm hne)).not_chosenAt h
  · obtain ⟨a', ha'⟩ := h.exists_vote
    exact hS.unique a a' c v w hvote ha'

/-- **Agreement.** Only one value is chosen. -/
theorem Sound.eq_of_chosen (hS : S.Sound q) {w : V} (hv : S.Chosen q v) (hw : S.Chosen q w) :
    v = w := by
  obtain ⟨b, hb⟩ := hv
  obtain ⟨c, hc⟩ := hw
  obtain ⟨a, ha⟩ := hb.exists_vote
  obtain ⟨a', ha'⟩ := hc.exists_vote
  rcases le_total c b with hle | hle
  · exact hS.eq_of_chosenAt_of_le hc ha hle
  · exact (hS.eq_of_chosenAt_of_le hb ha' hle).symm

/-! ## How a proposer establishes safety -/

/-- A quorum that promised a ballot and has no vote of a value below it blocks the value there. -/
theorem blocked_of_promises {c : B} {w : V} {Q : Finset A} (hQ : Q ∈ q.sets)
    (hprom : ∀ a ∈ Q, b ≤ S.promise a) (hc : c < b) (hno : ∀ a ∈ Q, ¬ S.votes a c w) :
    S.Blocked q c w := by
  intro Q' hQ'
  obtain ⟨a, ha, ha'⟩ := q.meet Q hQ Q' hQ'
  exact ⟨a, ha', hc.trans_le (hprom a ha), hno a ha⟩

/-- A quorum promised the ballot, and none of it voted below: every value is safe. -/
theorem safeAt_of_silent {Q : Finset A} (hQ : Q ∈ q.sets) (hprom : ∀ a ∈ Q, b ≤ S.promise a)
    (hno : ∀ a ∈ Q, ∀ c w, S.votes a c w → b ≤ c) :
    S.SafeAt q b v := by
  intro c hc w _
  refine blocked_of_promises hQ hprom hc fun a ha hvote => ?_
  exact absurd hc (not_lt.mpr (hno a ha c w hvote))

/-- A quorum promised the ballot, and none of it voted below but under ballots up to `m`: a value
that somebody voted for under `m` is safe. -/
theorem Sound.safeAt_of_report (hS : S.Sound q) {m : B} {Q : Finset A} {a : A} (hQ : Q ∈ q.sets)
    (hprom : ∀ a ∈ Q, b ≤ S.promise a) (hle : ∀ a ∈ Q, ∀ c w, S.votes a c w → c ≤ m ∨ b ≤ c)
    (hvote : S.votes a m v) :
    S.SafeAt q b v := by
  intro c hc w hne
  rcases lt_trichotomy c m with hlt | rfl | hgt
  · exact hS.safe a m v hvote c hlt w hne
  · -- Under the reported ballot itself there are only votes for the value.
    refine blocked_of_promises hQ hprom hc fun a' _ hvote' => ?_
    exact hne (hS.unique a' a c w v hvote' hvote)
  · refine blocked_of_promises hQ hprom hc fun a' ha' hvote' => ?_
    rcases hle a' ha' c w hvote' with h | h
    · exact absurd hgt (not_lt.mpr h)
    · exact absurd hc (not_lt.mpr h)

/-- A quorum promised the ballot: a value that is chosen is safe. -/
theorem Sound.safeAt_of_chosen (hS : S.Sound q) {Q : Finset A} (hQ : Q ∈ q.sets)
    (hprom : ∀ a ∈ Q, b ≤ S.promise a) (hv : S.Chosen q v) : S.SafeAt q b v := by
  intro c hc w hne
  obtain ⟨d, hd⟩ := hv
  rcases lt_or_ge c d with hlt | hge
  · obtain ⟨a, ha⟩ := hd.exists_vote
    exact hS.safe a d v ha c hlt w hne
  · -- From the ballot of the choice on, nobody votes for another value.
    refine blocked_of_promises hQ hprom hc fun a _ hvote => ?_
    exact hne (hS.eq_of_chosenAt_of_le hd hvote hge)

end Board

end Voting
