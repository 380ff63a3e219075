import Skywalker.Quorums
import Skywalker.Library.Voting

/-!
# The votes of an acceptor

An entry `accepted` of a trace is a vote. `Remembers` relates the votes and promises of a node to
what its acceptor and its log hold: the acceptor has the last vote of its instance, no promise is
below a vote or an earlier promise, and a record lacks no vote of its instance unless the learner
wrote it. The boards of the system, one for each instance, collect the votes of all nodes, and every
action extends them.
-/

namespace Skywalker

open Voting

variable {R : Rules} {E : Env} {net : PaxosMessage → Prop} {x y : Node} {b : BallotNumber} {i : ℕ}
  {v : PaxosValue} {r : PaxosInstance} {dirs : List (ℕ × Machines)} {a : Acceptor} {s t : Sys}

/-! ## One node -/

/-- The acceptor and the log of a node. -/
structure Node.Stores (x : Node) : Prop where
  /-- Records lie at their ids, and none is ahead. -/
  keys : ∀ i r, x.db.get i = some r → r.instanceId = i ∧ i ≤ x.instanceId
  /-- What the acceptor has accepted is on disk. -/
  stored : 0 < x.acceptor.acceptedBallot.proposalId → ∃ r, x.db.get x.instanceId = some r
  /-- The record of the instance has the acceptor's last vote, unless the learner wrote it. -/
  record : ∀ r, x.db.get x.instanceId = some r →
    r.accepted = r.promised ∨ x.acceptor.acceptedBallot ≤ r.accepted
  /-- The log cleaner stays behind the instance. -/
  maxChosen : x.maxChosenId ≤ x.instanceId

/-- What a node's acceptor and log know of the node's votes and promises. -/
structure Node.Remembers (x : Node) : Prop where
  store : x.Stores
  /-- No promise was above the current one. -/
  promised : ∀ j b, .promised j b ∈ x.trace → b ≤ x.acceptor.promisedBallot
  /-- No vote was above the promise, or in a later instance. -/
  voted : ∀ i b v, .accepted i b v ∈ x.trace → b ≤ x.acceptor.promisedBallot ∧ i ≤ x.instanceId
  /-- The acceptor has the last vote of its instance. -/
  current : ∀ b v, .accepted x.instanceId b v ∈ x.trace → b ≤ x.acceptor.acceptedBallot
  /-- Votes respect the promises of earlier instances. -/
  later : ∀ j b i c v, .promised j b ∈ x.trace → .accepted i c v ∈ x.trace → j < i → b ≤ c
  /-- The records of earlier instances have the last votes there, unless the learner wrote them. -/
  records : ∀ i r, i < x.instanceId → x.db.get i = some r →
    r.accepted = r.promised ∨ ∀ c v, .accepted i c v ∈ x.trace → c ≤ r.accepted

/-- A promise that an action appends is the acceptor's new one. -/
theorem NewEvent.promise_cases (hw : x.WF) {j : ℕ} (h : NewEvent R E net x y (.promised j b)) :
    j = x.instanceId ∧ b = y.acceptor.promisedBallot ∧ x.acceptor.promisedBallot ≤ b := by
  cases h with
  | quiet he => cases he
  | promised hm hle hy =>
    refine ⟨hm.id.trans hw.acceptorId, ?_, hle⟩
    rw [hy]
  | prepareReply _ _ he | acceptReply _ _ he => rcases he with ⟨he, -⟩ | ⟨he, -⟩ <;> cases he

/-- A vote that an action appends is the acceptor's new one, in the instance of both states. -/
theorem NewEvent.vote_cases (hw : x.WF) (hw' : y.WF) (h : NewEvent R E net x y (.accepted i b v)) :
    i = x.instanceId ∧ y.instanceId = x.instanceId ∧ b = y.acceptor.promisedBallot ∧
      b = y.acceptor.acceptedBallot ∧ x.acceptor.promisedBallot ≤ b := by
  cases h with
  | quiet he => cases he
  | accepted hm hle hy =>
    have hid : y.acceptor.instanceId = x.acceptor.instanceId := by rw [hy]
    rw [hw'.acceptorId, hw.acceptorId] at hid
    refine ⟨hm.id.trans hw.acceptorId, hid, ?_, ?_, hle⟩
    · rw [hy]
    · rw [hy]
  | prepareReply _ _ he | acceptReply _ _ he => rcases he with ⟨he, -⟩ | ⟨he, -⟩ <;> cases he

/-- Promises rise and instances do not fall in an action. -/
theorem StoreChange.mono (h : StoreChange R E net x y) :
    x.acceptor.promisedBallot ≤ y.acceptor.promisedBallot ∧ x.instanceId ≤ y.instanceId := by
  cases h with
  | same hacc hdb hid => exact ⟨by rw [hacc], hid.ge⟩
  | promised m k hm hle hkeep hacc hdb hid | accepted m k hm hle hkeep hacc hdb hid =>
    exact ⟨by rw [hacc]; exact hle, hid.ge⟩
  | learned m hm hmid hballot hacc hdb hid | learnedValue m hm htype hmid hrule hacc hdb hid =>
    exact ⟨by rw [hacc], hid.ge⟩
  | executed hl hok hy hacc hdb hid =>
    refine ⟨?_, by omega⟩
    rw [hacc]
    exact (Acceptor.setInstanceId_promisedBallot x.acceptor _).ge
  | cleaned hrule hy hdb hkept hacc hid => exact ⟨by rw [hacc], hid.ge⟩

/-- The instance up to which the log cleaner may go changes when a value is executed, to the
instance that the node leaves. -/
theorem Act.maxChosenId_cases (h : Act R E net x y) (hw : x.WF) : y.maxChosenId = x.maxChosenId ∨
      (x.learner.hasLearned = true ∧ y.maxChosenId = x.instanceId ∧
        y.instanceId = x.instanceId + 1 ∧ y.db = x.db) := by
  cases h.outerChange with
  | same h => exact Or.inl h.maxChosenId
  | executed hl hok => exact Or.inr ⟨hl, hw.learnerId, rfl, rfl⟩
  | gcLoop db m g hrule hframe => exact Or.inl (by rw [hframe])
  | _ => exact Or.inl rfl

/-- The instance up to which the log cleaner may go stays behind that of the node. -/
theorem Act.maxChosenId_le (h : Act R E net x y) (hw : x.WF) (hle : x.maxChosenId ≤ x.instanceId) :
    y.maxChosenId ≤ y.instanceId := by
  have hmono := (h.storeChange hw).mono.2
  rcases h.maxChosenId_cases hw with heq | ⟨-, heq, hnext, -⟩ <;> omega

namespace Node.Stores

/-- The acceptor and the log after a record is put at the instance. -/
theorem of_put (h : x.Stores) (hid : y.instanceId = x.instanceId)
    (hdb : y.db = x.db.put y.instanceId r) (hkey : r.instanceId = y.instanceId)
    (hr : r.accepted = r.promised ∨ y.acceptor.acceptedBallot ≤ r.accepted)
    (hmax : y.maxChosenId ≤ y.instanceId) : y.Stores := by
  have hget : y.db.get y.instanceId = some r := by rw [hdb, DB.get_put_self]
  refine ⟨?_, fun _ => ⟨r, hget⟩, ?_, hmax⟩
  · intro i q hq
    rw [hdb] at hq
    rcases DB.get_put_cases hq with ⟨rfl, rfl⟩ | hold
    · exact ⟨hkey, le_refl _⟩
    · rw [hid]
      exact h.keys i q hold
  · intro q hq
    obtain rfl : r = q := Option.some.inj (hget.symm.trans hq)
    exact hr

/-- Every action keeps the acceptor and the log in step, when writes succeed. -/
theorem act (h : x.Stores) (hw : x.WF) (hput : ∀ k, E.putOk k = true) (hact : Act R E net x y) :
    y.Stores := by
  have hw' := hact.wf hw
  have hmax := hact.maxChosenId_le hw h.maxChosen
  -- The acceptor writes its own record at the instance.
  have hwrite : ∀ {k : ℕ}, y.instanceId = x.instanceId →
      y.db = x.db.write (E.putOk k) y.acceptor.record → y.Stores := by
    intro k hid hdb
    have hkey : y.acceptor.record.instanceId = y.instanceId := hw'.acceptorId
    rw [DB.write, hput k, if_pos rfl, hkey] at hdb
    exact h.of_put hid hdb hkey (Or.inr (le_refl _)) hmax
  cases hact.storeChange hw with
  | same hacc hdb hid =>
    refine ⟨?_, ?_, ?_, hmax⟩ <;> rw [hdb, hid]
    · exact h.keys
    · rw [hacc]
      exact h.stored
    · rw [hacc]
      exact h.record
  | promised m k hm hle hkeep hacc hdb hid | accepted m k hm hle hkeep hacc hdb hid =>
    exact hwrite hid hdb
  | learned m hm hmid hballot hacc hdb hid =>
    refine ⟨?_, ?_, ?_, hmax⟩ <;> rw [hdb, hid]
    · exact h.keys
    · rw [hacc]
      exact h.stored
    · rw [hacc]
      exact h.record
  | learnedValue m hm htype hmid hrule hacc hdb hid =>
    have hkey : (Learner.record m).instanceId = y.instanceId := hmid.trans hid.symm
    refine h.of_put (r := Learner.record m) hid ?_ hkey (Or.inl rfl) hmax
    rw [hdb, hid, hmid]
  | executed hl hok hy hacc hdb hid =>
    have hzero : y.acceptor.acceptedBallot = {} := by
      rw [hacc, Acceptor.nextInstance_eq]
    refine ⟨?_, ?_, ?_, hmax⟩
    · intro i r hr
      rw [hdb] at hr
      obtain ⟨hkey, hle⟩ := h.keys i r hr
      exact ⟨hkey, by omega⟩
    · intro hpos
      rw [hzero] at hpos
      exact absurd hpos (Nat.lt_irrefl 0)
    · intro r hr
      rw [hdb] at hr
      have hle := (h.keys _ r hr).2
      omega
  | cleaned hrule hy hdb hkept hacc hid =>
    -- The cleaner does not reach the instance.
    have hsame : y.db.get y.instanceId = x.db.get x.instanceId := by
      rw [hid]
      exact hkept _ h.maxChosen
    refine ⟨?_, ?_, ?_, hmax⟩
    · intro i r hr
      rw [hid]
      exact h.keys i r (hdb i r hr)
    · rw [hsame, hacc]
      exact h.stored
    · rw [hsame, hacc]
      exact h.record

/-- Recovery keeps the acceptor and the log in step. -/
theorem recover (h : x.Stores) (hrec : x.Restarts E dirs a y) : y.Stores := by
  refine ⟨?_, ?_, ?_, hrec.maxChosenId.le⟩
  · intro i r hr
    rw [hrec.db_eq] at hr
    have hle := Acceptor.le_of_readFromDB hrec.read hr
    have hinst := hrec.instanceId
    exact ⟨(h.keys i r hr).1, by omega⟩
  · intro hpos
    rw [hrec.db_eq]
    rcases hrec.acceptor_cases with ⟨r, hr, -⟩ | ⟨-, hball, -⟩
    · exact ⟨r, hr⟩
    · rw [hball] at hpos
      exact absurd hpos (Nat.lt_irrefl 0)
  · intro r hr
    rw [hrec.db_eq] at hr
    obtain ⟨hacc, hball, -, -⟩ := hrec.acceptor_of_get hr
    rw [hacc, hball]
    exact Or.inr (le_refl _)

theorem fresh (config : Config) : (Node.fresh config).Stores := by
  refine ⟨?_, ?_, ?_, le_refl _⟩
  · intro i r hr
    cases hr
  · intro hpos
    exact absurd hpos (Nat.lt_irrefl 0)
  · intro r hr
    cases hr

end Node.Stores

namespace Node.Remembers

/-- The last vote of the instance after an action. -/
theorem current_act (h : x.Remembers) (hst : StoreChange R E net x y)
    (hvote : .accepted y.instanceId b v ∈ x.trace) : b ≤ y.acceptor.acceptedBallot := by
  have hold : y.instanceId = x.instanceId → b ≤ x.acceptor.acceptedBallot := by
    intro hid
    rw [hid] at hvote
    exact h.current b v hvote
  cases hst with
  | same hacc hdb hid | promised m k hm hle hkeep hacc hdb hid => rw [hacc]; exact hold hid
  | accepted m k hm hle hkeep hacc hdb hid =>
    rw [hacc]
    exact (h.voted _ b v hvote).1.trans hle
  | learned m hm hmid hballot hacc hdb hid | learnedValue m hm htype hmid hrule hacc hdb hid =>
    rw [hacc]; exact hold hid
  | executed hl hok hy hacc hdb hid =>
    have hle := (h.voted _ b v hvote).2
    omega
  | cleaned hrule hy hdb hkept hacc hid => rw [hacc]; exact hold hid

/-- The votes that the record of an instance knows of, when the node is about to leave it. -/
theorem record_complete (h : x.Remembers) (hr : x.db.get x.instanceId = some r) :
    r.accepted = r.promised ∨ ∀ c v, .accepted x.instanceId c v ∈ x.trace → c ≤ r.accepted := by
  rcases h.store.record r hr with heq | hle
  · exact Or.inl heq
  · exact Or.inr fun c v hvote => (h.current c v hvote).trans hle

/-- The records of earlier instances after an action. -/
theorem records_act (h : x.Remembers) (hst : StoreChange R E net x y) (hw' : y.WF)
    (hi : i < y.instanceId) (hr : y.db.get i = some r) :
    r.accepted = r.promised ∨ ∀ c v, .accepted i c v ∈ x.trace → c ≤ r.accepted := by
  have hwrite : ∀ {ok : Bool}, y.instanceId = x.instanceId →
      y.db = x.db.write ok y.acceptor.record → x.db.get i = some r := by
    intro ok hid hdb
    rw [hdb] at hr
    rcases DB.get_write_cases hr with ⟨heq, -⟩ | hold
    · have hkey : y.acceptor.record.instanceId = y.instanceId := hw'.acceptorId
      omega
    · exact hold
  cases hst with
  | same hacc hdb hid =>
    rw [hdb] at hr
    rw [hid] at hi
    exact h.records i r hi hr
  | promised m k hm hle hkeep hacc hdb hid | accepted m k hm hle hkeep hacc hdb hid =>
    exact h.records i r (by omega) (hwrite hid hdb)
  | learned m hm hmid hballot hacc hdb hid =>
    rw [hdb] at hr
    rw [hid] at hi
    exact h.records i r hi hr
  | learnedValue m hm htype hmid hrule hacc hdb hid =>
    rw [hdb] at hr
    rcases DB.get_put_cases hr with ⟨-, rfl⟩ | hold
    · exact Or.inl rfl
    · exact h.records i r (by omega) hold
  | executed hl hok hy hacc hdb hid =>
    rw [hdb] at hr
    rcases Nat.lt_or_ge i x.instanceId with hlt | hge
    · exact h.records i r hlt hr
    · obtain rfl : i = x.instanceId := by omega
      exact h.record_complete hr
  | cleaned hrule hy hdb hkept hacc hid =>
    rw [hid] at hi
    exact h.records i r hi (hdb i r hr)

/-- **Every action keeps what a node knows of its votes**, when writes succeed. -/
theorem act (h : x.Remembers) (hw : x.WF) (hput : ∀ k, E.putOk k = true) (hact : Act R E net x y) :
    y.Remembers := by
  have hst := hact.storeChange hw
  have hw' := hact.wf hw
  obtain ⟨hprom, hinst⟩ := hst.mono
  have hpromise : ∀ {j b}, .promised j b ∈ y.trace → .promised j b ∈ x.trace ∨
      (j = x.instanceId ∧ b = y.acceptor.promisedBallot ∧ x.acceptor.promisedBallot ≤ b) :=
    fun he => (hact.mem_trace hw he).imp id fun hnew => hnew.promise_cases hw
  have hvote : ∀ {i b v}, .accepted i b v ∈ y.trace → .accepted i b v ∈ x.trace ∨
      (i = x.instanceId ∧ y.instanceId = x.instanceId ∧ b = y.acceptor.promisedBallot ∧
        b = y.acceptor.acceptedBallot ∧ x.acceptor.promisedBallot ≤ b) :=
    fun he => (hact.mem_trace hw he).imp id fun hnew => hnew.vote_cases hw hw'
  refine ⟨h.store.act hw hput hact, ?_, ?_, ?_, ?_, ?_⟩
  · intro j b he
    rcases hpromise he with hold | ⟨-, rfl, -⟩
    · exact (h.promised j b hold).trans hprom
    · exact le_refl _
  · intro i b v he
    rcases hvote he with hold | ⟨hi, hid, hb, -, -⟩
    · obtain ⟨hb, hi⟩ := h.voted i b v hold
      exact ⟨hb.trans hprom, hi.trans hinst⟩
    · exact ⟨hb.le, by omega⟩
  · intro b v he
    rcases hvote he with hold | ⟨-, -, -, hb, -⟩
    · exact h.current_act hst hold
    · exact hb.le
  · intro j b i c v hj hi hlt
    -- A new vote is above every promise, and a new promise is not in an earlier instance than a
    -- vote.
    rcases hvote hi with hold | ⟨rfl, -, -, -, hc⟩
    · rcases hpromise hj with hold' | ⟨rfl, -, -⟩
      · exact h.later j b i c v hold' hold hlt
      · have hle := (h.voted i c v hold).2
        omega
    · rcases hpromise hj with hold' | ⟨rfl, -, -⟩
      · exact (h.promised j b hold').trans hc
      · exact absurd hlt (Nat.lt_irrefl _)
  · intro i r hi hr
    refine (h.records_act hst hw' hi hr).imp id fun hall c v he => ?_
    rcases hvote he with hold | ⟨rfl, hid, -⟩
    · exact hall c v hold
    · omega

/-- **Recovery keeps what a node knows of its votes**, when the promise of the process before it is
on disk and no instance is given up that has no record. -/
theorem recover (h : x.Remembers) (hrec : x.Restarts E dirs a y)
    (hpos : ∀ i b v, .accepted i b v ∈ x.trace → 1 ≤ b.proposalId)
    (hprom : x.acceptor.promisedBallot ≤ a.promisedBallot) (hinst : x.instanceId ≤ y.instanceId ∨
      (x.instanceId = y.instanceId + 1 ∧ ∃ r, x.db.get y.instanceId = some r)) : y.Remembers := by
  have hyprom : y.acceptor.promisedBallot = a.promisedBallot := by
    rw [hrec.acceptor, Acceptor.setInstanceId_promisedBallot]
  have hold : ∀ {e}, e ∈ y.trace → e.ofRecovery = false → e ∈ x.trace := hrec.mem_old
  have hylast : a.instanceId ≤ y.instanceId := by
    have := hrec.instanceId
    omega
  -- A vote of the instance that the process left is in a record, so that recovery finds it.
  have hlast : ∀ b v, .accepted x.instanceId b v ∈ x.trace → x.instanceId ≤ y.instanceId := by
    intro b v hvote
    have hle := BallotNumber.proposalId_le (h.current b v hvote)
    have hb := hpos _ b v hvote
    obtain ⟨r, hr⟩ := h.store.stored (by omega)
    exact (Acceptor.le_of_readFromDB hrec.read hr).trans hylast
  have hbound : ∀ i b v, .accepted i b v ∈ x.trace → i ≤ y.instanceId := by
    intro i b v hvote
    have hi := (h.voted i b v hvote).2
    rcases hi.lt_or_eq with hlt | rfl
    · rcases hinst with hle | ⟨hnext, -⟩ <;> omega
    · exact hlast b v hvote
  -- So is every vote of the instance that the new process starts with.
  have hstart : ∀ b v, .accepted y.instanceId b v ∈ x.trace →
      ∃ r, x.db.get y.instanceId = some r ∧
        (r.accepted = r.promised ∨ ∀ c v, .accepted y.instanceId c v ∈ x.trace →
          c ≤ r.accepted) := by
    intro b v hvote
    have hi := (h.voted _ b v hvote).2
    rcases hi.lt_or_eq with hlt | heq
    · obtain ⟨r, hr⟩ := (hinst.resolve_left (by omega)).2
      exact ⟨r, hr, h.records _ r hlt hr⟩
    · rw [heq] at hvote ⊢
      have hle := BallotNumber.proposalId_le (h.current b v hvote)
      have hb := hpos _ b v hvote
      obtain ⟨r, hr⟩ := h.store.stored (by omega)
      exact ⟨r, hr, h.record_complete hr⟩
  refine ⟨h.store.recover hrec, ?_, ?_, ?_, ?_, ?_⟩
  · intro j b he
    rw [hyprom]
    exact (h.promised j b (hold he rfl)).trans hprom
  · intro i b v he
    rw [hyprom]
    exact ⟨(h.voted i b v (hold he rfl)).1.trans hprom, hbound i b v (hold he rfl)⟩
  · intro b v he
    obtain ⟨r, hr, hcase⟩ := hstart b v (hold he rfl)
    obtain ⟨hacc, hball, hpr, -⟩ := hrec.acceptor_of_get hr
    rw [hacc, hball]
    rcases hcase with heq | hall
    · rw [heq, ← hpr]
      exact (h.voted _ b v (hold he rfl)).1.trans hprom
    · exact hall b v (hold he rfl)
  · intro j b i c v hj hi hlt
    exact h.later j b i c v (hold hj rfl) (hold hi rfl) hlt
  · intro i r hi hr
    rw [hrec.db_eq] at hr
    have hkey := (h.store.keys i r hr).2
    have hcase : r.accepted = r.promised ∨ ∀ c v, .accepted i c v ∈ x.trace → c ≤ r.accepted := by
      rcases hkey.lt_or_eq with hlt | rfl
      · exact h.records i r hlt hr
      · exact h.record_complete hr
    exact hcase.imp id fun hall c v he => hall c v (hold he rfl)

/-- The first process of a node has neither promised nor voted. -/
theorem fresh (config : Config) : (Node.fresh config).Remembers := by
  have hnone : ∀ {e}, e ∈ (Node.fresh config).trace → e.ofRecovery = true := by
    intro e he
    rw [List.mem_singleton.mp he]
    rfl
  refine ⟨.fresh config, ?_, ?_, ?_, ?_, ?_⟩
  · exact fun j b he => absurd (hnone he) Bool.false_ne_true
  · exact fun i b v he => absurd (hnone he) Bool.false_ne_true
  · exact fun b v he => absurd (hnone he) Bool.false_ne_true
  · exact fun j b i c v he => absurd (hnone he) Bool.false_ne_true
  · intro i r _ hr
    cases hr

end Node.Remembers

/-! ## The boards of the system -/

/-- The votes of all nodes in an instance. -/
def Sys.board (s : Sys) (i : ℕ) : Board ℕ BallotNumber PaxosValue where
  votes a b v := .accepted i b v ∈ (s a).trace
  promise a := (s a).acceptor.promisedBallot

/-- A majority of the members accepted the value in the instance, under one ballot. -/
def Sys.Decided (s : Sys) (M : Finset ℕ) (i : ℕ) (v : PaxosValue) : Prop :=
  (s.board i).Chosen (majorities M) v

/-- Every action extends the boards. -/
theorem Micro.board_extends {C : Setup} {P : Policy} (hw : s.WF C) (hst : Micro P s t) (i : ℕ) :
    (s.board i).Extends (t.board i) := by
  have hwt := hw.micro hst
  obtain ⟨n, E, -, hact, hother, hgrow, hmem⟩ := hst.newEvents hw
  refine ⟨?_, fun a b v hv => hgrow a _ hv, fun a b v hv => ?_⟩
  · exact Sys.forall_of_others
      (Q := fun a x => (s a).acceptor.promisedBallot ≤ x.acceptor.promisedBallot) hother
      (fun a _ => le_refl _) (hact.storeChange (hw n).1).mono.1
  · rcases hmem a _ hv with hold | ⟨rfl, hnew⟩
    · exact Or.inl hold
    · exact Or.inr (hnew.vote_cases (hw a).1 (hwt a).1).2.2.2.2

/-- A recovery extends the boards, when the promise of the process before it is on disk. -/
theorem Node.Recovered.board_extends {n : ℕ} (hrec : (s n).Restarts E dirs a y)
    (hprom : (s n).acceptor.promisedBallot ≤ a.promisedBallot) (i : ℕ) :
    (s.board i).Extends (Sys.board (Function.update s n y) i) := by
  refine ⟨?_, fun k b v hv => hrec.grows.1 k _ hv, fun k b v hv => ?_⟩
  · refine Sys.forall_update
      (Q := fun k x => (s k).acceptor.promisedBallot ≤ x.acceptor.promisedBallot)
      (fun k => le_refl _) ?_
    rw [hrec.acceptor, Acceptor.setInstanceId_promisedBallot]
    exact hprom
  · exact Or.inl (hrec.mem_old_at hv rfl)

/-- A value that a place holds under a ballot: somebody accepted it under the ballot, or it is
decided. -/
def Sys.Backed (s : Sys) (M : Finset ℕ) (i : ℕ) (b : BallotNumber) (v : PaxosValue) : Prop :=
  (∃ a, .accepted i b v ∈ (s a).trace) ∨ s.Decided M i v

theorem Sys.Decided.extend {M : Finset ℕ} (h : s.Decided M i v)
    (hext : (s.board i).Extends (t.board i)) : t.Decided M i v :=
  Board.Chosen.extend h hext

theorem Sys.Backed.extend {M : Finset ℕ} (h : s.Backed M i b v)
    (hext : (s.board i).Extends (t.board i)) : t.Backed M i b v := by
  rcases h with ⟨a, ha⟩ | h
  · exact Or.inl ⟨a, hext.keep a b v ha⟩
  · exact Or.inr (h.extend hext)

end Skywalker
