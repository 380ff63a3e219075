import Skywalker.Library.Lease
import Skywalker.Contexts
import Skywalker.Origins
import Mathlib.Order.Bounds.Basic

/-!
# At most one master

A value of the master machine grants a lease to the node that proposed it. The node itself counts
the lease from the time that `TryBeMaster` noted before the proposal, which `MachineExecute` hands
to `Execute` as the context of the node's own value. The other nodes count it from the time at which
they execute the value, which is later, and propose themselves only after it has ended for them.
Since a value is chosen only in the instance that it was proposed for (`Origins`), the node that
proposes has executed the values of all instances below. The leases of the decided values are thus
`Orderly`, and a node that is master has one of them.

The argument fails where a node executes a value of its own without the context: when the value is
chosen after its proposal timed out, or is replayed after a restart. The node then counts the lease
from the time at which it executes the value, and may be master after another node has taken over.
-/

namespace Skywalker

open TransitionSystem Lease

variable {a : Env × Label} {codec : Codec} {v : PaxosValue} {w : MasterState} {ms : Machines}
  {userResult : Bool} {context : Option ℕ} {g : Grant ℕ ℕ} {time : ℕ} {dirs : List (ℕ × Machines)}
  {E : Env} {net : PaxosMessage → Prop} {y : Node} {C : Setup} {s : Sys} {l : List (Env × Label)}

/-! ## One clock -/

/-- The system, with the time that all clocks show. -/
structure Timed where
  nodes : Sys
  now : ℕ

namespace Timed

/-- The start of all nodes, at the time zero. -/
def init (C : Setup) : Timed := ⟨System.init C, 0⟩

/-- A step is at the time of its environment, and time does not go back. -/
def step (s : Timed) (a : Env × Label) : Option Timed :=
  if s.now ≤ a.1.nowMillis then (System.step s.nodes a).map fun t => ⟨t, a.1.nowMillis⟩ else none

theorem step_spec {s t : Timed} (h : s.step a = some t) :
    s.now ≤ a.1.nowMillis ∧ System.step s.nodes a = some t.nodes ∧ t.now = a.1.nowMillis := by
  simp only [step, Option.ite_none_right_eq_some, Option.map_eq_some_iff] at h
  obtain ⟨hle, u, hu, rfl⟩ := h
  exact ⟨hle, hu, rfl⟩

end Timed

/-- `Group::IsMaster` of a node at a time. -/
def Node.isMaster (x : Node) (now : ℕ) : Bool := x.machines.master.isMaster x.nodeId now

/-! ## The leases of the decided values -/

/-- What a value says to the master machine, when it is for it. -/
def PaxosValue.masterState (codec : Codec) (v : PaxosValue) : Option MasterState :=
  if v.machineId = masterMachineId then codec.parseMasterState v.userData else none

theorem PaxosValue.machineId_of_masterState (h : v.masterState codec = some w) :
    v.machineId = masterMachineId := by
  unfold masterState at h
  split_ifs at h with hid
  exact hid

/-- All nodes have the same parser, which reads what was serialised. -/
structure Setup.Reads (C : Setup) (codec : Codec) : Prop where
  same : ∀ n, (C.config n).codec = codec
  roundTrips : codec.RoundTrips

section

variable (M : Finset ℕ) (codec : Codec)

/-- The lease that the decided value of an instance grants: it starts with the first proposal of the
value and is as long as the value says. -/
def Sys.Grants (s : Sys) (i : ℕ) (g : Grant ℕ ℕ) : Prop :=
  ∃ v w, s.Decided M i v ∧ v.masterState codec = some w ∧ g.holder = w.nodeId ∧
    IsLeast {time | s.ProposedAt i v time} g.start ∧ g.stop = g.start + w.leaseTime

/-- What the master machine of a node holds when the node gets to an instance: nothing yet, or the
last lease below the instance. The end that a node notes for another's lease is not too early. -/
structure Sys.Follows (s : Sys) (n i : ℕ) (st : MasterState) : Prop where
  version : st.version < i
  plain : ∀ j, st.version < j → j < i → ∃ v, s.Decided M j v ∧ v.machineId ≠ masterMachineId
  grant : (st.version = 0 ∧ st.leaseTime = 0) ∨ ∃ g, s.Grants M codec st.version g ∧
    st.nodeId = g.holder ∧ (g.holder ≠ n → g.stop ≤ st.leaseTime)

/-- The end that a node notes for its own lease is not too late. -/
def Sys.Bounded (s : Sys) (n : ℕ) (st : MasterState) : Prop :=
  ∀ g, s.Grants M codec st.version g → g.holder = n → st.leaseTime ≤ g.stop

/-- A node may propose itself for an instance, at a time: the last lease below the instance is its
own or has ended. -/
def Sys.MayClaim (s : Sys) (n i time : ℕ) : Prop :=
  ∃ j < i, (∀ l, j < l → l < i → ∃ v, s.Decided M l v ∧ v.machineId ≠ masterMachineId) ∧
    (j = 0 ∨ ∃ g, s.Grants M codec j g ∧ g.start ≤ time ∧ (g.holder ≠ n → g.stop ≤ time))

/-- `t` follows on `s`, with proposals at the time `now`. -/
structure Sys.Succeeds (now : ℕ) (s t : Sys) : Prop where
  grows : s.Grows t
  decided : ∀ i v, s.Decided M i v → t.Decided M i v
  clock : ∀ i v time, s.ProposedAt i v time → time ≤ now
  proposed : ∀ n i v time, .proposed i time v ∈ (t n).trace →
    .proposed i time v ∈ (s n).trace ∨ time = now

/-- What the traces say of the values for the master machine. -/
structure Sys.Attests (C : Setup) (s : Sys) : Prop where
  /-- A value for the master machine names the node that proposes it and grants the configured
  lease. -/
  named : ∀ n i v time, .proposed i time v ∈ (s n).trace → v.machineId = masterMachineId →
    ∃ w, v.masterState codec = some w ∧ w.nodeId = n ∧ w.leaseTime = (C.config n).masterLeaseTime
  /-- `Execute` gets a context with a value that names the node itself, which is no later than the
  proposals of the value. -/
  own : ∀ n i v context w, .executed i v context true ∈ (s n).trace → v.masterState codec = some w →
    w.nodeId = n → ∃ start, context = some start ∧
      ∀ time, .proposed i time v ∈ (s n).trace → start ≤ time
  /-- It gets none with another value. -/
  other : ∀ n i v context w, .executed i v context true ∈ (s n).trace →
    v.masterState codec = some w → w.nodeId ≠ n → context = none

/-- What the nodes know of the leases, and how they propose themselves. -/
structure Leases (now : ℕ) (s : Sys) : Prop where
  clock : ∀ i v time, s.ProposedAt i v time → time ≤ now
  claims : ∀ n i v time, .proposed i time v ∈ (s n).trace → v.machineId = masterMachineId →
    s.MayClaim M codec n i time
  follows : ∀ n, s.Follows M codec n (s n).instanceId (s n).machines.master
  bounded : ∀ n, s.Bounded M codec n (s n).machines.master

end

variable {M : Finset ℕ} {t : Sys} {n i now : ℕ}

/-- A value for another machine leaves the state of the master machine. -/
theorem Machines.execute_of_plain (hid : v.machineId ≠ masterMachineId) :
    (ms.execute codec now userResult context i v).2.master = ms.master := by
  unfold Machines.execute
  split_ifs
  · rfl
  · rfl

/-- A value for the master machine, after the version that the machine has. -/
theorem Machines.execute_of_master (hw : v.masterState codec = some w) (hlt : ms.master.version < i)
    :
    (ms.execute codec now userResult context i v).2.master =
      { w with version := i, leaseTime := (context.getD now + w.leaseTime) % 2 ^ 64 } := by
  have hid := PaxosValue.machineId_of_masterState hw
  have hparse : codec.parseMasterState v.userData = some w := by
    rwa [PaxosValue.masterState, if_pos hid] at hw
  have hne : ¬ masterMachineId = membershipMachineId := by decide
  rw [Machines.execute, hid, if_neg hne, if_pos rfl]
  simp only [MasterState.execute, if_neg (Nat.not_le.mpr hlt), hparse]

namespace Sys.Grants

/-- One instance grants one lease. -/
theorem unique {g' : Grant ℕ ℕ} (h : s.Grants M codec i g) (h' : s.Grants M codec i g')
    (hcons : Consensus M s) : g = g' := by
  obtain ⟨v, w, hv, hw, hholder, hstart, hstop⟩ := h
  obtain ⟨v', w', hv', hw', hholder', hstart', hstop'⟩ := h'
  obtain rfl := hcons.eq_of_decided hv hv'
  obtain rfl := Option.some.inj (hw.symm.trans hw')
  have hfirst : g.start = g'.start := hstart.unique hstart'
  obtain ⟨holder, start, stop, hle⟩ := g
  obtain ⟨holder', start', stop', hle'⟩ := g'
  dsimp only at hholder hholder' hfirst hstop hstop'
  subst hholder hholder' hfirst hstop hstop'
  rfl

/-- A decided value for the master machine grants a lease. -/
theorem of_decided (hv : s.Decided M i v) (hw : v.masterState codec = some w)
    (hprop : s.ProposedFor i v) :
    ∃ g, s.Grants M codec i g ∧ g.holder = w.nodeId ∧
      IsLeast {time | s.ProposedAt i v time} g.start ∧ g.stop = g.start + w.leaseTime := by
  classical
  have hleast : IsLeast {time | s.ProposedAt i v time} (Nat.find hprop) :=
    ⟨Nat.find_spec hprop, fun _ htime => Nat.find_min' hprop htime⟩
  let g : Grant ℕ ℕ :=
    ⟨w.nodeId, Nat.find hprop, Nat.find hprop + w.leaseTime, Nat.le_add_right _ _⟩
  exact ⟨g, ⟨v, w, hv, hw, rfl, hleast, rfl⟩, rfl, hleast, rfl⟩

theorem later (h : s.Grants M codec i g) (hst : s.Succeeds M now t) :
    t.Grants M codec i g := by
  obtain ⟨v, w, hv, hw, hholder, ⟨⟨n, he⟩, hmin⟩, hstop⟩ := h
  refine ⟨v, w, hst.decided i v hv, hw, hholder, ⟨⟨n, hst.grows n _ he⟩, ?_⟩, hstop⟩
  rintro time ⟨k, hk⟩
  rcases hst.proposed k i v time hk with hold | rfl
  · exact hmin ⟨k, hold⟩
  · exact hst.clock i v _ ⟨n, he⟩

theorem not_plain (h : s.Grants M codec i g) (hcons : Consensus M s) :
    ¬ ∃ v, s.Decided M i v ∧ v.machineId ≠ masterMachineId := by
  rintro ⟨v, hv, hid⟩
  obtain ⟨v', w, hv', hw, -⟩ := h
  obtain rfl := hcons.eq_of_decided hv hv'
  exact hid (PaxosValue.machineId_of_masterState hw)

end Sys.Grants

namespace Sys.Follows

variable {st : MasterState}

theorem later (h : s.Follows M codec n i st) (hst : s.Succeeds M now t) :
    t.Follows M codec n i st where
  version := h.version
  plain j hj hji := by
    obtain ⟨v, hv, hid⟩ := h.plain j hj hji
    exact ⟨v, hst.decided j v hv, hid⟩
  grant := h.grant.imp id fun ⟨g, hg, hrest⟩ => ⟨g, hg.later hst, hrest⟩

theorem first (hst : st.version = 0 ∧ st.leaseTime = 0) : s.Follows M codec n 1 st where
  version := by omega
  plain j hj hji := by omega
  grant := .inl hst

theorem bounded_later (h : s.Follows M codec n i st) (hbound : s.Bounded M codec n st)
    (hst : s.Succeeds M now t) (hcons : Consensus M t) : t.Bounded M codec n st := by
  intro g hg hholder
  rcases h.grant with ⟨-, hzero⟩ | ⟨g', hg', -⟩
  · rw [hzero]
    exact Nat.zero_le _
  · obtain rfl := hg.unique (hg'.later hst) hcons
    exact hbound g hg' hholder

/-- **A node that executes the decided value holds the last lease again.** A value of another node
is executed without a context. -/
theorem execute (h : s.Follows M codec n i ms.master) (hv : s.Decided M i v)
    (hprop : s.ProposedFor i v) (hclock : ∀ time, s.ProposedAt i v time → time ≤ now)
    (hparse : v.machineId = masterMachineId → ∃ w, v.masterState codec = some w)
    (hcontext : ∀ w, v.masterState codec = some w → w.nodeId ≠ n → context = none)
    (hwrap : ∀ w, v.masterState codec = some w → now + w.leaseTime < 2 ^ 64) :
    s.Follows M codec n (i + 1) (ms.execute codec now userResult context i v).2.master := by
  by_cases hid : v.machineId = masterMachineId
  · obtain ⟨w, hw⟩ := hparse hid
    obtain ⟨g, hg, hholder, hstart, hstop⟩ := Sys.Grants.of_decided hv hw hprop
    rw [Machines.execute_of_master hw h.version]
    refine ⟨Nat.lt_succ_self i, fun j (hj : i < j) hji => by omega,
      .inr ⟨g, hg, hholder.symm, fun hne => ?_⟩⟩
    -- The value was proposed before it is executed here.
    rw [hcontext w hw (hholder ▸ hne), hstop, Option.getD_none, Nat.mod_eq_of_lt (hwrap w hw)]
    exact Nat.add_le_add_right (hclock _ hstart.1) _
  · rw [Machines.execute_of_plain hid]
    refine ⟨h.version.trans (Nat.lt_succ_self i), fun j hj hji => ?_, h.grant⟩
    rcases Nat.lt_succ_iff_lt_or_eq.mp hji with hlt | rfl
    · exact h.plain j hj hlt
    · exact ⟨v, hv, hid⟩

/-- A node that `TryBeMasterInLoop` lets propose may do so. -/
theorem mayClaim (h : s.Follows M codec n i st)
    (hclock : ∀ i v time, s.ProposedAt i v time → time ≤ now)
    (hmay : st.leaseTime ≤ now ∨ st.nodeId = n) : s.MayClaim M codec n i now := by
  refine ⟨st.version, h.version, h.plain, ?_⟩
  rcases h.grant with ⟨hzero, -⟩ | ⟨g, hg, hnode, hstop⟩
  · exact .inl hzero
  · refine .inr ⟨g, hg, ?_, fun hne => ?_⟩
    · obtain ⟨v, w, -, -, -, hstart, -⟩ := hg
      exact hclock _ v _ hstart.1
    · exact (hstop hne).trans (hmay.resolve_right (hnode ▸ hne))

end Sys.Follows

theorem Sys.MayClaim.later (h : s.MayClaim M codec n i time) (hst : s.Succeeds M now t) :
    t.MayClaim M codec n i time := by
  obtain ⟨j, hj, hplain, hgrant⟩ := h
  refine ⟨j, hj, fun l hjl hli => ?_, hgrant.imp id fun ⟨g, hg, hrest⟩ => ⟨g, hg.later hst, hrest⟩⟩
  obtain ⟨v, hv, hid⟩ := hplain l hjl hli
  exact ⟨v, hst.decided l v hv, hid⟩

namespace Leases

/-- The proposal that a lease starts with. -/
theorem proposal_of_grants (h : Leases M codec now s) (hatt : s.Attests codec C)
    (hg : s.Grants M codec i g) :
    s.MayClaim M codec g.holder i g.start ∧
      g.stop = g.start + (C.config g.holder).masterLeaseTime := by
  obtain ⟨v, w, -, hw, hholder, ⟨⟨k, hk⟩, -⟩, hstop⟩ := hg
  have hid := PaxosValue.machineId_of_masterState hw
  obtain ⟨w', hw', hnode, hlease⟩ := hatt.named k i v g.start hk hid
  obtain rfl := Option.some.inj (hw.symm.trans hw')
  obtain rfl : g.holder = k := hholder.trans hnode
  exact ⟨h.claims _ i v g.start hk hid, hlease ▸ hstop⟩

/-- **The leases of the decided values are orderly.** -/
theorem orderly (h : Leases M codec now s) (hatt : s.Attests codec C) (hcons : Consensus M s) :
    Orderly (s.Grants M codec) where
  unique i a b ha hb := ha.unique hb hcons
  next i k a b ha hb hik hnone := by
    obtain ⟨hclaim, hstopa⟩ := h.proposal_of_grants hatt ha
    obtain ⟨⟨j, hj, hplain, hlast⟩, hstopb⟩ := h.proposal_of_grants hatt hb
    -- The last lease that the holder of `b` knew of is `a`.
    have hji : j = i := by
      rcases lt_trichotomy j i with hlt | heq | hgt
      · exact absurd (hplain i hlt hik) (ha.not_plain hcons)
      · exact heq
      · rcases hlast with hzero | ⟨g, hg, -⟩
        · omega
        · exact absurd hg (hnone j g hgt hj)
    subst hji
    rcases hlast with rfl | ⟨g, hg, hstart, hstop⟩
    · obtain ⟨l, hl, -⟩ := hclaim
      omega
    · obtain rfl := hg.unique ha hcons
      by_cases hholder : g.holder = b.holder
      · refine .of_renewed hstart ?_ hholder
        calc g.stop = g.start + (C.config b.holder).masterLeaseTime := by rw [hstopa, hholder]
          _ ≤ b.start + (C.config b.holder).masterLeaseTime := Nat.add_le_add_right hstart _
          _ = b.stop := hstopb.symm
      · exact .of_ended (hstop hholder)

/-- A master has a lease. -/
theorem covers_of_isMaster (h : Leases M codec now s) (hw : s.WF C) (hnow : now ≤ time)
    (hm : (s n).isMaster time = true) :
    ∃ i g, s.Grants M codec i g ∧ g.holder = n ∧ g.Covers time := by
  simp only [Node.isMaster, MasterState.isMaster, Bool.and_eq_true, decide_eq_true_eq,
    hw.nodeId n] at hm
  obtain ⟨hnode, hlt⟩ := hm
  rcases (h.follows n).grant with ⟨-, hzero⟩ | ⟨g, hg, hholder, -⟩
  · omega
  · have hself : g.holder = n := hholder.symm.trans hnode
    refine ⟨_, g, hg, hself, ?_, ?_⟩
    · obtain ⟨v, w, -, -, -, hstart, -⟩ := hg
      exact (h.clock _ v _ hstart.1).trans hnow
    · exact hlt.trans_le (h.bounded n g hg hself)

theorem wait (h : Leases M codec now s) (hle : now ≤ time) :
    Leases M codec time s :=
  { h with clock := fun i v _ hprop => (h.clock i v _ hprop).trans hle }

end Leases

/-! ## The conditions -/

/-- The last value for the master machine in the records of the instances `1 .. n`. -/
def DB.lastMaster (codec : Codec) (db : DB) : ℕ → Option MasterState
  | 0 => none
  | n + 1 =>
    ((db.get (n + 1)).bind fun r => r.acceptedValue.masterState codec).or (lastMaster codec db n)

/-- The state that `TryBeMasterInLoop` serialises. -/
def Node.masterClaim (x : Node) : MasterState :=
  { x.machines.master with nodeId := x.nodeId, leaseTime := x.config.masterLeaseTime }

/-- Whether the replay of a restart ends with a lease of the node itself. -/
def Node.replaysOwn (x : Node) : Bool :=
  ((Acceptor.readFromDB x.db).bind fun a => x.db.lastMaster x.config.codec (a.instanceId - 1)).any
    fun w => w.nodeId = x.nodeId

/-- The condition on a step: values for the master machine come from `TryBeMaster` alone, with
numbers that fit into their types, and no node starts again with a lease of its own. -/
def ClaimsAt (s : Sys) (a : Env × Label) : Bool :=
  match a.2 with
  | .node _ (.propose machineId _ _ _) => machineId ≠ masterMachineId
  | .node n (.tryBeMaster _) => decide (s n).masterClaim.InRange
  | .restart n => !(s n).replaysOwn
  | _ => true

/-- A call of `Execute` with a value that names the node `n` itself is made while the node's own
proposal of the value, for the instance, is outstanding. -/
def OwnOutstanding (codec : Codec) (n : ℕ) (older : List Event) : Event → Prop
  | .executed i v _ true => ∀ w, v.masterState codec = some w → w.nodeId = n →
      ∃ time, outstanding older = some (i, time, v)
  | _ => True

/-- Every call of `Execute` of every node is of this kind. -/
def Sys.ExecutesOwn (codec : Codec) (s : Sys) : Prop :=
  ∀ n, AtEach (OwnOutstanding codec n) (s n).trace

theorem Sys.Attests.of_grows (h : t.Attests codec C) (hgrow : s.Grows t) : s.Attests codec C where
  named n i v time he := h.named n i v time (hgrow n _ he)
  own n i v context w he hw hn := by
    obtain ⟨start, hcontext, hle⟩ := h.own n i v context w (hgrow n _ he) hw hn
    exact ⟨start, hcontext, fun time hprop => hle time (hgrow n _ hprop)⟩
  other n i v context w he := h.other n i v context w (hgrow n _ he)

theorem Sys.Attests.exists_masterState (h : s.Attests codec C) (hprop : s.ProposedFor i v)
    (hid : v.machineId = masterMachineId) :
    ∃ w, v.masterState codec = some w := by
  obtain ⟨time, k, he⟩ := hprop
  obtain ⟨w, hw, -⟩ := h.named k i v time he hid
  exact ⟨w, hw⟩

/-- The end of its lease does not wrap. -/
theorem Sys.Attests.wrap (h : s.Attests codec C) (hprop : s.ProposedFor i v)
    (hwrap : ∀ n, now + (C.config n).masterLeaseTime < 2 ^ 64) (w : MasterState)
    (hw : v.masterState codec = some w) : now + w.leaseTime < 2 ^ 64 := by
  obtain ⟨time, k, he⟩ := hprop
  obtain ⟨w', hw', -, hlease⟩ := h.named k i v time he (PaxosValue.machineId_of_masterState hw)
  obtain rfl := Option.some.inj (hw.symm.trans hw')
  rw [hlease]
  exact hwrap k

/-- The policy of runs that meet the conditions, at the time of a step. -/
def Policy.mastership (M : Finset ℕ) (now : ℕ) : Policy where
  rules :=
    { (Policy.agreement M False).rules with
      propose := fun E x machineId _ _ => machineId ≠ membershipMachineId ∧
        (machineId = masterMachineId → Group.mayBeMaster E x) }
  env E := (∀ k, E.putOk k = true) ∧ E.nowMillis = now
  restart s n := s.RecoversSoundly M n (s n).checkpoints ∧ (s n).replaysOwn = false
  install _ _ _ _ := False

/-- The recoveries that the policy permits are from the node's own directories. -/
theorem Policy.mastership_recovers (h : (Policy.mastership M now).Recovers s n dirs) :
    s.RecoversSoundly M n dirs ∧ (s n).replaysOwn = false ∧ dirs = (s n).checkpoints := by
  rcases h with ⟨⟨hsound, hown⟩, rfl⟩ | ⟨source, c, saved, hfalse, -⟩
  · exact ⟨hsound, hown, rfl⟩
  · exact hfalse.elim

theorem Policy.mastership_keepsAgreement (M : Finset ℕ) (now : ℕ) :
    (Policy.mastership M now).KeepsAgreement M where
  rounds :=
    { members := fun _ _ _ _ _ h => h.1
      prepare := fun _ h => h.1
      skip := fun _ h => h.1
      current := fun _ => trivial
      recovers := fun _ _ _ h => (Policy.mastership_recovers h).1.fresh }
  writes _ h := h.1
  prepare _ h := h.2
  skip _ h := h.2
  keepsLearned := trivial
  recovers _ _ _ h := (Policy.mastership_recovers h).1

/-- A rule on proposals may be replaced where the new one holds. -/
theorem Rules.Allows.with_propose {R : Rules} {x : Node} {ev : NodeEvent}
    {Q : Env → Node → ℕ → List UInt8 → Option Context → Prop} (h : R.Allows E net x ev)
    (hpropose : ∀ machineId value context draw, ev = .propose machineId value context draw →
      R.propose E x machineId value context → Q E x machineId value context)
    (hmaster : Group.mayBeMaster E x → Q E { x with groupNow := E.nowMillis } masterMachineId
      (Group.masterBytes x) (some .groupNow)) :
    ({ R with propose := Q } : Rules).Allows E net x ev := by
  cases ev with
  | propose machineId value context draw => exact ⟨hpropose _ _ _ _ rfl h.1, h.2⟩
  | tryBeMaster draw => exact fun hmay => ⟨hmaster hmay, (h hmay).2⟩
  | _ => exact h

/-- The policy permits each step that meets the conditions. -/
theorem Policy.mastership_permits (h : LoggedConsensus M s) (hw : s.WF C)
    (hput : ∀ k, a.1.putOk k = true) (hagrees : AgreesAt s a = true) (hclaims : ClaimsAt s a = true)
    :
    (Policy.mastership M a.1.nowMillis).Permits s a := by
  have hpermits := h.permits hw hput hagrees
  obtain ⟨E, l⟩ := a
  cases l with
  | node n ev =>
    refine ⟨⟨hput, rfl⟩, fun hallowed => (hpermits.2 hallowed).with_propose ?_ ?_⟩
    · rintro machineId value context draw rfl hmembers
      have hother : machineId ≠ masterMachineId := of_decide_eq_true hclaims
      exact ⟨hmembers, fun hid => absurd hid hother⟩
    · exact fun hmay => ⟨by decide, fun _ => hmay⟩
  | restart n =>
    refine ⟨⟨hput, rfl⟩, hpermits.2, ?_⟩
    simpa [ClaimsAt] using hclaims
  | install n source c => cases hagrees

/-! ## Steps -/

/-- A new proposal is for the node's instance, at the time of the action. -/
theorem NewEvent.proposed_cases {R : Rules} {x : Node}
    (h : NewEvent R E net x y (.proposed i time v)) :
    i = x.instanceId ∧ time = E.nowMillis ∧
      ∃ context, R.propose E x v.machineId v.userData context := by
  generalize he : Event.proposed i time v = e at h
  cases h with
  | quiet hq =>
    subst he
    cases hq
  | proposed hidle hdraw hvalid hrule hy =>
    obtain ⟨rfl, rfl, rfl⟩ := Event.proposed.inj he
    rw [hy]
    exact ⟨rfl, rfl, _, hrule⟩
  | prepareReply _ _ hr | acceptReply _ _ hr => rcases hr with ⟨rfl, -⟩ | ⟨rfl, -⟩ <;> cases he
  | _ => cases he

theorem Sys.Succeeds.micro (hclock : ∀ i v time, s.ProposedAt i v time → time ≤ now) (hw : s.WF C)
    (hst : Micro (.mastership M now) s t) : s.Succeeds M now t := by
  have hext := hst.board_extends hw
  obtain ⟨k, E, ⟨-, hnow⟩, -, -, hgrow, hmem⟩ := hst.newEvents hw
  refine ⟨hgrow, fun i v hv => hv.extend (hext i), hclock, fun n i v time he => ?_⟩
  rcases hmem n _ he with hold | ⟨-, hnew⟩
  · exact .inl hold
  · exact .inr (hnew.proposed_cases.2.1.trans hnow)

/-- A recovery adds no proposal to the trace. -/
theorem Sys.Succeeds.recover {a : Acceptor}
    (hclock : ∀ i v time, s.ProposedAt i v time → time ≤ now) (hrec : (s n).Restarts E dirs a y)
    (hprom : (s n).acceptor.promisedBallot ≤ a.promisedBallot) :
    s.Succeeds M now (Function.update s n y) := by
  have hgrow := hrec.grows.1
  refine ⟨hgrow, fun i v hv => hv.extend (hrec.board_extends hprom i), hclock, ?_⟩
  exact fun k i v time he => .inl (hrec.mem_old_at he rfl)

theorem Sys.Succeeds.clock_later (h : s.Succeeds M now t) (i : ℕ) (v : PaxosValue) (time : ℕ)
    (hprop : t.ProposedAt i v time) : time ≤ now := by
  obtain ⟨n, he⟩ := hprop
  rcases h.proposed n i v time he with hold | rfl
  · exact h.clock i v time ⟨n, hold⟩
  · exact le_refl _

namespace Leases

/-- The proposals of the master machine after an action. -/
theorem claims_micro (h : Leases M codec now s) (hw : s.WF C) (hst : Micro (.mastership M now) s t)
    (he : .proposed i time v ∈ (t n).trace) (hid : v.machineId = masterMachineId) :
    t.MayClaim M codec n i time := by
  have hsucc := Sys.Succeeds.micro h.clock hw hst
  obtain ⟨k, E, ⟨-, hnow⟩, -, -, -, hmem⟩ := hst.newEvents hw
  rcases hmem n _ he with hold | ⟨rfl, hnew⟩
  · exact (h.claims n i v time hold hid).later hsucc
  · obtain ⟨rfl, htime, context, -, hmaster⟩ := hnew.proposed_cases
    have hmay := hmaster hid
    unfold Group.mayBeMaster at hmay
    rw [hnow, hw.nodeId n] at hmay
    rw [htime, hnow]
    exact ((h.follows n).mayClaim h.clock hmay).later hsucc

/-- **Every action keeps what the nodes know of the leases**, when the master machine gets the
contexts that it should. -/
theorem micro (h : Leases M codec now s) (hw : s.WF C) (hcodec : ∀ n, (C.config n).codec = codec)
    (hwrap : ∀ n, now + (C.config n).masterLeaseTime < 2 ^ 64)
    (hcons : Consensus M t) (horigins : Origins t) (hatt : t.Attests codec C)
    (hst : Micro (.mastership M now) s t) : Leases M codec now t := by
  have hsucc := Sys.Succeeds.micro h.clock hw hst
  have hclock := hsucc.clock_later
  -- What the node that acts holds.
  obtain ⟨k, E, ⟨-, hnow⟩, hact, hother, -, -⟩ := hst.newEvents hw
  have hnode : t.Follows M codec k (t k).instanceId (t k).machines.master ∧
      t.Bounded M codec k (t k).machines.master := by
    have hold := (h.follows k).later hsucc
    have hbound := (h.follows k).bounded_later (h.bounded k) hsucc hcons
    rcases hact.advance_cases with ⟨hmach, hid⟩ | ⟨hy, hentry⟩
    · rw [hmach, hid]
      exact ⟨hold, hbound⟩
    · have hv : t.Decided M (s k).instanceId (s k).learner.learnedValue :=
        (hcons.learned k).trace _ hentry
      have hparser : (s k).config.codec = codec := by
        rw [(hw k).2]
        exact hcodec k
      have hid : (t k).instanceId = (s k).instanceId + 1 := by rw [hy]; rfl
      have hmach : (t k).machines = ((s k).machines.execute codec now
          (E.executeOk (s k).trace.length) (Instance.executeContext (s k)) (s k).instanceId
          (s k).learner.learnedValue).2 := by
        rw [hy, ← hparser, ← hnow]
        rfl
      have hprop := horigins.of_decided hcons.rounds.traced hv
      rw [hid, hmach]
      generalize (s k).learner.learnedValue = v at hv hprop hentry ⊢
      refine ⟨hold.execute hv hprop (hclock _ v) (hatt.exists_masterState hprop)
        (fun w => hatt.other k _ v _ w hentry) (hatt.wrap hprop hwrap), ?_⟩
      by_cases hmaster : v.machineId = masterMachineId
      · -- The end of an own lease is counted from a time before the first proposal.
        obtain ⟨w, hw'⟩ := hatt.exists_masterState hprop hmaster
        rw [Machines.execute_of_master hw' hold.version]
        rintro g ⟨v', w', hv', hw'', hholder, ⟨⟨n, he⟩, -⟩, hstop⟩ hself
        obtain rfl := hcons.eq_of_decided hv hv'
        obtain rfl := Option.some.inj (hw'.symm.trans hw'')
        obtain ⟨w', hw'', hn, -⟩ := hatt.named n _ v _ he hmaster
        obtain rfl := Option.some.inj (hw'.symm.trans hw'')
        obtain rfl : n = k := hn.symm.trans (hholder.symm.trans hself)
        obtain ⟨start, hcontext, hle⟩ := hatt.own n _ v _ w hentry hw' hn
        rw [hcontext, hstop]
        exact (Nat.mod_le _ _).trans (Nat.add_le_add_right (hle _ he) _)
      · rw [Machines.execute_of_plain hmaster]
        exact hbound
  refine ⟨hclock, fun n i v time he hid => h.claims_micro hw hst he hid, ?_, ?_⟩
  · exact Sys.forall_of_others
      (Q := fun n x => t.Follows M codec n x.instanceId x.machines.master) hother
      (fun n _ => (h.follows n).later hsucc) hnode.1
  · exact Sys.forall_of_others
      (Q := fun n x => t.Bounded M codec n x.machines.master) hother
      (fun n _ => (h.follows n).bounded_later (h.bounded n) hsucc hcons) hnode.2

/-- What a restarted node holds is the last lease in its log. -/
theorem replayed {a : Acceptor} (hw : s.WF C) (hcodec : ∀ n, (C.config n).codec = codec)
    (hwrap : ∀ n, now + (C.config n).masterLeaseTime < 2 ^ 64) (hlog : LoggedConsensus M s)
    (horigins : Origins s) (hatt : s.Attests codec C) (hsucc : s.Succeeds M now t)
    (hnow : E.nowMillis = now) (hrec : (s n).Restarts E (s n).checkpoints a y) :
    t.Follows M codec n y.instanceId y.machines.master ∧
      ((y.machines.master.version = 0 ∧ y.machines.master.leaseTime = 0) ∨
        ∃ w, (s n).db.lastMaster codec (a.instanceId - 1) = some w ∧
          w.nodeId = y.machines.master.nodeId) := by
  have hparser : (s n).config.codec = codec := by
    rw [(hw n).2]
    exact hcodec n
  have hfresh : MachineManager.recover E (s n).config (s n).checkpoints =
      (0, { membership := .ofOptions (s n).config.membership }) := by
    rcases MachineManager.recover_cases E (s n).config (s n).checkpoints with hfresh | ⟨d, hd, -⟩
    · exact hfresh
    · rw [(hlog.logged n).checkpoints] at hd
      cases hd
  have hlast : y.instanceId - 1 = a.instanceId - 1 := by
    have hinst := hrec.instanceId
    rw [hfresh] at hinst
    omega
  rw [← hlast]
  refine hrec.machines (fun j ms => t.Follows M codec n j ms.master ∧
    ((ms.master.version = 0 ∧ ms.master.leaseTime = 0) ∨
      ∃ w, (s n).db.lastMaster codec (j - 1) = some w ∧ w.nodeId = ms.master.nodeId)) ?_ ?_
  · rw [hfresh]
    exact ⟨.first ⟨rfl, rfl⟩, .inl ⟨rfl, rfl⟩⟩
  · rintro j ms r ok hlow hhigh ⟨hfollows, hheld⟩ hget
    have hj : j < (s n).instanceId := by
      rcases Acceptor.readFromDB_spec hrec.read with ⟨-, hnone⟩ | ⟨q, hq, -⟩
      · rw [hnone j] at hget
        cases hget
      · exact hhigh.trans_le ((hlog.consensus.memory n).store.keys _ q hq).2
    have hv : s.Decided M j r.acceptedValue := (hlog.consensus.learned n).records j r hj hget
    have hprop := horigins.of_decided hlog.consensus.rounds.traced hv
    rw [hparser, hnow]
    refine ⟨hfollows.execute (hsucc.decided _ _ hv) (hprop.grow hsucc.grows) (hsucc.clock_later _ _)
      (hatt.exists_masterState hprop) (fun _ _ _ => rfl) (hatt.wrap hprop hwrap), ?_⟩
    -- One more record is read.
    obtain ⟨l, rfl⟩ : ∃ l, j = l + 1 := ⟨j - 1, by omega⟩
    rw [Nat.add_sub_cancel, DB.lastMaster, hget, Option.bind_some]
    by_cases hid : r.acceptedValue.machineId = masterMachineId
    · obtain ⟨w, hw'⟩ := hatt.exists_masterState hprop hid
      rw [Machines.execute_of_master hw' hfollows.version, hw']
      exact .inr ⟨w, rfl, rfl⟩
    · have hnone : r.acceptedValue.masterState codec = none := if_neg hid
      rw [Machines.execute_of_plain hid, hnone]
      exact hheld

/-- **So does a restart**, when its replay does not end with a lease of the node itself. -/
theorem recover {a : Acceptor} (h : Leases M codec now s) (hw : s.WF C)
    (hcodec : ∀ n, (C.config n).codec = codec)
    (hwrap : ∀ n, now + (C.config n).masterLeaseTime < 2 ^ 64) (hlog : LoggedConsensus M s)
    (horigins : Origins s) (hatt : s.Attests codec C) (hcons : Consensus M (Function.update s n y))
    (hnow : E.nowMillis = now) (hwhy : (Policy.mastership M now).Recovers s n dirs)
    (hrec : (s n).Restarts E dirs a y) : Leases M codec now (Function.update s n y) := by
  obtain ⟨hsound, hothers, rfl⟩ := Policy.mastership_recovers hwhy
  have hsucc : s.Succeeds M now (Function.update s n y) :=
    .recover h.clock hrec (hsound.promise a hrec.read)
  have hold : ∀ {k i v time}, .proposed i time v ∈ (Function.update s n y k).trace →
      .proposed i time v ∈ (s k).trace :=
    fun he => hrec.mem_old_at he rfl
  obtain ⟨hfollows, hheld⟩ := replayed hw hcodec hwrap hlog horigins hatt hsucc hnow hrec
  refine ⟨hsucc.clock_later,
    fun k i v time he hid => (h.claims k i v time (hold he) hid).later hsucc, ?_, ?_⟩
  · exact Sys.forall_update (Q := fun k x => Sys.Follows M codec (Function.update s n y) k
      x.instanceId x.machines.master) (fun k => (h.follows k).later hsucc) hfollows
  · refine Sys.forall_update (Q := fun k x => Sys.Bounded M codec (Function.update s n y) k
      x.machines.master) (fun k => (h.follows k).bounded_later (h.bounded k) hsucc hcons) ?_
    intro g hg hself
    rcases hheld with ⟨-, hzero⟩ | ⟨w, hlast, hnode⟩
    · rw [hzero]
      exact Nat.zero_le _
    · -- The lease is another node's.
      have hne : w.nodeId ≠ n := by
        unfold Node.replaysOwn at hothers
        rw [hrec.read, Option.bind_some, (hw n).2, hcodec n, hlast, Option.any_some,
          decide_eq_false_iff_not, hw.nodeId n] at hothers
        exact hothers
      rcases hfollows.grant with ⟨-, hzero⟩ | ⟨g', hg', hholder, -⟩
      · rw [hzero]
        exact Nat.zero_le _
      · obtain rfl := hg.unique hg' hcons
        exact absurd (hnode.trans (hholder.trans hself)) hne

theorem init (C : Setup) : Leases M codec 0 (System.init C) := by
  have hnone : ∀ {n i v time}, .proposed i time v ∉ (System.init C n).trace :=
    fun he => by cases List.mem_singleton.mp he
  refine ⟨?_, ?_, ?_, ?_⟩
  · rintro i v time ⟨n, he⟩
    exact absurd he hnone
  · exact fun n i v time he => absurd he hnone
  · exact fun n => .first ⟨rfl, rfl⟩
  · exact fun n g _ _ => Nat.zero_le _

end Leases

/-! ## Masters -/

/-- What holds in every run that meets the conditions. -/
structure Mastership (C : Setup) (M : Finset ℕ) (codec : Codec) (now : ℕ) (s : Sys) : Prop where
  logged : LoggedConsensus M s
  origins : Origins s
  leases : s.Attests codec C → Leases M codec now s

/-- A step of the system keeps it. -/
theorem Mastership.step (h : Mastership C M codec now s) (hw : s.WF C) (hC : C.HasMembers M)
    (hcodec : ∀ n, (C.config n).codec = codec)
    (hwrap : ∀ n, a.1.nowMillis + (C.config n).masterLeaseTime < 2 ^ 64)
    (hnow : now ≤ a.1.nowMillis) (hput : ∀ k, a.1.putOk k = true) (hagrees : AgreesAt s a = true)
    (hclaims : ClaimsAt s a = true) (hstep : System.step s a = some t) :
    t.WF C ∧ Mastership C M codec a.1.nowMillis t := by
  have hP := Policy.mastership_keepsAgreement M a.1.nowMillis
  have hone : Reaches System.step
      (fun s b => b = a ∧ AgreesAt s b = true ∧ ClaimsAt s b = true) s t :=
    .tail a .refl ⟨rfl, hagrees, hclaims⟩ hstep
  refine Policy.invariant_from (P := .mastership M a.1.nowMillis)
    (I := Mastership C M codec a.1.nowMillis) hw hone ?_ ?_ ?_ ?_
  · exact ⟨h.logged, h.origins, fun hatt => (h.leases hatt).wait hnow⟩
  · rintro s b hw h ⟨rfl, hagrees, hclaims⟩
    exact Policy.mastership_permits h.logged hw hput hagrees hclaims
  · intro s t hw h hst
    have hlog := h.logged.micro hw hP id id hst
    have horigins := h.origins.micro hw h.logged.consensus hlog.consensus hP.rounds.current hst
    refine ⟨hlog, horigins, fun hatt => ?_⟩
    obtain ⟨_, _, _, _, _, hgrow, _⟩ := hst.newEvents hw
    exact (h.leases (hatt.of_grows hgrow)).micro hw hcodec hwrap hlog.consensus horigins hatt hst
  · intro s n E dirs acc y hw h henv hwhy hrec
    have hlog := h.logged.recover hw hP hC hwhy hrec
    refine ⟨hlog, h.origins.recover hrec, fun hatt => ?_⟩
    have hold := hatt.of_grows hrec.grows.1
    exact (h.leases hold).recover hw hcodec hwrap h.logged h.origins hold hlog.consensus henv.2 hwhy
      hrec

/-- What the traces say of the proposals: a value for the master machine names the node that
proposes it and grants the configured lease, and no value is proposed twice. -/
structure Sys.Recounts (C : Setup) (codec : Codec) (s : Sys) : Prop where
  named : ∀ n i v time, .proposed i time v ∈ (s n).trace → v.machineId = masterMachineId →
    ∃ w, v.masterState codec = some w ∧ w.nodeId = n ∧ w.leaseTime = (C.config n).masterLeaseTime
  dated : ∀ n, (s n).Dated
  once : s.ProposedOnce

/-- A step keeps this, where only `TryBeMaster` proposes values for the master machine, and no
proposal draws an id again. -/
theorem Sys.Recounts.step (h : s.Recounts C codec) (hreads : C.Reads codec) (hw : s.WF C)
    (hclaims : ClaimsAt s a = true) (hfresh : FreshId s a) (hstep : System.step s a = some t) :
    t.Recounts C codec where
  named n i v time he hid := by
    rcases System.step_proposed hstep he with hold | ⟨-, -, ev, draw, hlabel, hprop, -⟩
    · exact h.named n i v time hold hid
    · cases ev with
      | propose machineId value context draw =>
        simp only [NodeEvent.proposal, Option.some.injEq, Prod.mk.injEq] at hprop
        simp [ClaimsAt, hlabel, hprop.1, hid] at hclaims
      | tryBeMaster draw =>
        simp only [NodeEvent.proposal, Option.some.injEq, Prod.mk.injEq] at hprop
        have hrange : (s n).masterClaim.InRange := by simpa [ClaimsAt, hlabel] using hclaims
        have hparse := hreads.roundTrips.masterState _ hrange
        rw [PaxosValue.masterState, if_pos hid, ← hprop.2.1, Group.masterBytes, (hw n).2,
          hreads.same n]
        refine ⟨(s n).masterClaim, ?_, hw.nodeId n, ?_⟩
        · rw [← hparse, Node.masterClaim, (hw n).2]
        · rw [Node.masterClaim, (hw n).2]
      | _ => cases hprop
  dated := by
    refine System.dated_step h.dated (fun n machineId value context draw hlabel => ?_) hstep
    simpa [ClaimsAt, hlabel] using hclaims
  once := h.once.step hfresh hstep

theorem Sys.Recounts.init (C : Setup) (codec : Codec) : (System.init C).Recounts C codec where
  named n i v time he := by cases List.mem_singleton.mp he
  dated := System.dated_init C
  once := .init C

/-- **What the traces say of the values for the master machine**, when every value that names the
node itself is executed while its proposal is outstanding, and every value is proposed once. -/
theorem Sys.Recounts.attests (h : s.Recounts C codec) (hcons : Consensus M s)
    (horigins : Origins s) (hown : s.ExecutesOwn codec) : s.Attests codec C where
  named := h.named
  own n i v context w he hw hn := by
    obtain ⟨l₁, l₂, hsplit⟩ := List.append_of_mem he
    obtain ⟨start, hout⟩ := (hown n).of_split hsplit w hw hn
    have hcall := (h.dated n).calls.of_split hsplit
    simp only [DatedCall, hout, if_true] at hcall
    refine ⟨start, hcall (PaxosValue.machineId_of_masterState hw), fun time hprop => ?_⟩
    have hmade : .proposed i start v ∈ (s n).trace := by
      rw [hsplit]
      exact List.mem_append_right _ (List.mem_cons_of_mem _ (mem_of_outstanding hout))
    exact (h.once n n i i start time v v hmade hprop rfl).2.2.1.le
  other n i v context w he hw hne := by
    obtain ⟨l₁, l₂, hsplit⟩ := List.append_of_mem he
    have hcall := (h.dated n).calls.of_split hsplit
    unfold DatedCall at hcall
    cases hout : outstanding l₂ with
    | none => simpa [hout] using hcall
    | some p =>
      obtain ⟨j, start, u⟩ := p
      rw [hout] at hcall
      -- The outstanding proposal of the node is another one, since it names the node.
      have hid : u.valueId ≠ v.valueId := by
        intro heq
        obtain ⟨time, k, hk⟩ :=
          horigins.of_decided hcons.rounds.traced ((hcons.learned n).trace _ he)
        have hmade : .proposed j start u ∈ (s n).trace := by
          rw [hsplit]
          exact List.mem_append_right _ (List.mem_cons_of_mem _ (mem_of_outstanding hout))
        obtain ⟨rfl, -⟩ := h.once n k j i start time u v hmade hk heq
        obtain ⟨w', hw', hn, -⟩ := h.named n i v time hk (PaxosValue.machineId_of_masterState hw)
        obtain rfl := Option.some.inj (hw.symm.trans hw')
        exact hne hn
      simpa [hid] using hcall

/-- The condition on a step of the system with its clock. -/
def MasterStep (C : Setup) (s : Timed) (a : Env × Label) : Prop :=
  (∀ k, a.1.putOk k = true) ∧ AgreesAt s.nodes a = true ∧ ClaimsAt s.nodes a = true ∧
    FreshId s.nodes a ∧ ∀ n, a.1.nowMillis + (C.config n).masterLeaseTime < 2 ^ 64

/-- **At most one node is master.** In every run of a group with the members `M` under one clock, of
any events, messages, time-outs and restarts that meet the conditions: when each value that names
the node itself was executed while its proposal was outstanding, no two nodes return `true` from
`IsMaster` at any time until the next step. -/
theorem at_most_one_master {C : Setup} {M : Finset ℕ} {codec : Codec} {s : Timed}
    (hC : ∀ n, (Membership.ofOptions (C.config n).membership).ids.toFinset = M)
    (hreads : C.Reads codec) (hrun : Reaches Timed.step (MasterStep C) (.init C) s)
    (hown : s.nodes.ExecutesOwn codec) {time a b : ℕ} (htime : s.now ≤ time)
    (ha : (s.nodes a).isMaster time = true) (hb : (s.nodes b).isMaster time = true) : a = b := by
  have hinv : s.nodes.WF C ∧ Mastership C M codec s.now s.nodes ∧ s.nodes.Recounts C codec := by
    refine hrun.invariant (P := fun s => s.nodes.WF C ∧ Mastership C M codec s.now s.nodes ∧
      s.nodes.Recounts C codec) ?_ ?_
    · exact ⟨System.wf_init C, ⟨.init hC, .init C, fun _ => .init C⟩, .init C codec⟩
    · rintro s t l ⟨hw, h, hrec⟩ ⟨hput, hagrees, hclaims, hfresh, hwrap⟩ hstep
      obtain ⟨hle, hst, hnow⟩ := Timed.step_spec hstep
      obtain ⟨hw', h'⟩ := h.step hw hC hreads.same hwrap hle hput hagrees hclaims hst
      rw [hnow]
      exact ⟨hw', h', hrec.step hreads hw hclaims hfresh hst⟩
  obtain ⟨hw, h, hrec⟩ := hinv
  have hatt := hrec.attests h.logged.consensus h.origins hown
  have hleases := h.leases hatt
  obtain ⟨i, g, hg, rfl, hcovers⟩ := hleases.covers_of_isMaster hw htime ha
  obtain ⟨k, g', hg', rfl, hcovers'⟩ := hleases.covers_of_isMaster hw htime hb
  exact (hleases.orderly hatt h.logged.consensus).holder_eq hg hg' hcovers hcovers'

/-! ## A group with leases -/

/-- A member of a group of three, with leases of ten milliseconds. -/
def leaseMember : Config := { trioMember with codec := protoCodec, masterLeaseTime := 10 }

theorem leaseMember_members (n : ℕ) : (Membership.ofOptions
    ((Setup.uniform leaseMember).config n).membership).ids.toFinset = {1, 2, 3} :=
  trio_members n

theorem leaseMember_reads : (Setup.uniform leaseMember).Reads protoCodec where
  same _ := rfl
  roundTrips := protoCodec_roundTrips

/-- The value that such a node proposes. -/
def leaseValue (valueId version nodeId : ℕ) : PaxosValue where
  valueId := valueId
  machineId := masterMachineId
  userData := protoCodec.serializeMasterState
    { version := version, nodeId := nodeId, leaseTime := 10 }

/-- An environment at a time. -/
def Env.at (now : ℕ) : Env := { nowMillis := now }

/-- Node 1 proposes itself, and node 2 promises and accepts. -/
def masterAccepted : List (Env × Label) :=
  [(.at 0, .node 1 (.tryBeMaster 256)),
   (.at 0, .node 2 (.paxosMessage
     { type := .prepare, nodeId := 1, instanceId := 1, proposalId := 1 })),
   (.at 0, .node 1 (.paxosMessage
     { type := .prepareReply, nodeId := 2, instanceId := 1, proposalId := 1 })),
   (.at 0, .node 2 (.paxosMessage { type := .accept, nodeId := 1, instanceId := 1, proposalId := 1,
                                    value := leaseValue 257 0 1 }))]

/-- Node 1 becomes master, node 2 hears of it at the time 2 and tries to take over at the time 12.
It restarts, replays the value of node 1, and takes over at the time 22. -/
def takenOver : List (Env × Label) := masterAccepted ++
  ([(.at 0, .node 1 (.paxosMessage
      { type := .acceptReply, nodeId := 2, instanceId := 1, proposalId := 1 })),
    (.at 2, .node 2 (.paxosMessage
      { type := .newChosenValue, nodeId := 1, instanceId := 1, proposalId := 1 })),
    (.at 12, .node 2 (.tryBeMaster 256)),
    (.at 12, .restart 2),
    (.at 22, .node 2 (.tryBeMaster 256)),
    (.at 22, .node 1 (.paxosMessage
      { type := .prepare, nodeId := 2, instanceId := 2, proposalId := 2 })),
    (.at 22, .node 2 (.paxosMessage
      { type := .prepareReply, nodeId := 1, instanceId := 2, proposalId := 2 })),
    (.at 22, .node 1 (.paxosMessage
      { type := .accept, nodeId := 2, instanceId := 2, proposalId := 2,
        value := leaseValue 92274945 1 2 })),
    (.at 22, .node 2 (.paxosMessage
      { type := .acceptReply, nodeId := 1, instanceId := 2, proposalId := 2 }))] :
    List (Env × Label))

/-- The check of `OwnOutstanding` along a trace. -/
def executesOwn (codec : Codec) (n : ℕ) : List Event → Bool
  | [] => true
  | .executed i v _ true :: l =>
    ((v.masterState codec).all fun w => w.nodeId ≠ n ||
      (outstanding l).any fun p => p.1 = i && p.2.2 = v) && executesOwn codec n l
  | _ :: l => executesOwn codec n l

/-- The check on a trace says this of each of its calls. -/
theorem atEach_of_executesOwn {n : ℕ} {l : List Event} (h : executesOwn codec n l = true) :
    AtEach (OwnOutstanding codec n) l := by
  induction l with
  | nil => trivial
  | cons e l ih =>
    cases e with
    | executed i v context ok =>
      cases ok with
      | false => exact ⟨trivial, ih h⟩
      | true =>
        simp only [executesOwn, Bool.and_eq_true] at h
        refine ⟨fun w hw hn => ?_, ih h.2⟩
        have hout := h.1
        rw [hw, Option.all_some, hn] at hout
        simp only [ne_eq, not_true_eq_false, decide_false, Bool.false_or, Option.any_eq_true,
          Bool.and_eq_true, decide_eq_true_eq] at hout
        obtain ⟨⟨j, time, u⟩, hp, rfl, rfl⟩ := hout
        exact ⟨time, hp⟩
    | _ => exact ⟨trivial, ih h⟩

/-- In a run with steps of the first three nodes only, it is enough to look at these. -/
theorem Sys.OnlyTrio.executesOwn (h : s.OnlyTrio C)
    (hcheck : ([1, 2, 3].all fun n => Skywalker.executesOwn codec n (s n).trace) = true) :
    s.ExecutesOwn codec := by
  intro n
  by_cases hn : n ∈ [1, 2, 3]
  · exact atEach_of_executesOwn (List.all_eq_true.mp hcheck n hn)
  · rw [h n hn]
    exact ⟨trivial, trivial⟩

/-- `FreshId`, for values that were built by one of the first three nodes. -/
def freshAt (s : Sys) (a : Env × Label) : Bool :=
  match a.2 with
  | .node n ev => (ev.proposal (s n)).all fun p =>
      [1, 2, 3].all fun k => (s k).trace.all fun
        | .proposed _ _ v => v.valueId ≠ idBits a.1.nowMillis p.2.2 (s n).seqNum
        | _ => true
  | _ => true

/-- Where the check holds, no value with the new id was built before. -/
theorem Sys.OnlyTrio.freshId (h : s.OnlyTrio C) (hcheck : freshAt s a = true) : FreshId s a := by
  unfold freshAt at hcheck
  unfold FreshId
  split
  · rename_i n ev hlabel
    rintro machineId data draw hprop v ⟨k, i, now, hmem⟩
    simp only [hlabel, hprop, Option.all_some] at hcheck
    by_cases hk : k ∈ [1, 2, 3]
    · exact of_decide_eq_true (List.all_eq_true.mp (List.all_eq_true.mp hcheck k hk) _ hmem)
    · rw [h k hk] at hmem
      cases List.mem_singleton.mp hmem
  · trivial

/-- The conditions of a step, as far as they are to be checked along a run of the three nodes. -/
def masterStepAt (s : Timed) (a : Env × Label) : Bool :=
  AgreesAt s.nodes a && ClaimsAt s.nodes a && freshAt s.nodes a &&
    decide (a.1.nowMillis + 10 < 2 ^ 64)

theorem putOk_of_at {times : List ℕ} (h : l.map Prod.fst = times.map .at) (a : Env × Label)
    (ha : a ∈ l) (k : ℕ) : a.1.putOk k = true := by
  have hmem : a.1 ∈ times.map Env.at := by
    rw [← h]
    exact List.mem_map_of_mem ha
  obtain ⟨now, -, hnow⟩ := List.mem_map.mp hmem
  rw [← hnow]
  rfl

/-- A checked run of the three nodes meets the conditions. -/
theorem reaches_of_masterStepAt {times : List ℕ} {s : Timed}
    (htimes : l.map Prod.fst = times.map .at)
    (htargets : (l.map fun a => a.2.target).all (· ∈ [1, 2, 3]) = true)
    (hs : runChecked Timed.step masterStepAt (.init (.uniform leaseMember)) l = some s) :
    Reaches Timed.step (MasterStep (.uniform leaseMember)) (.init (.uniform leaseMember)) s ∧
      s.nodes.OnlyTrio (.uniform leaseMember) := by
  have htarget : ∀ a ∈ l, a.2.target ∈ [1, 2, 3] := fun a ha => of_decide_eq_true
    (List.all_eq_true.mp htargets _ (List.mem_map_of_mem ha))
  have hboth : Reaches Timed.step (fun s a => MasterStep (.uniform leaseMember) s a ∧
      a.2.target ∈ [1, 2, 3]) (.init (.uniform leaseMember)) s := by
    refine Reaches.of_runChecked_of (P := fun s => s.nodes.OnlyTrio (.uniform leaseMember)) l
      (fun _ _ => rfl) ?_ ?_ hs
    · intro a ha s t h hstep
      exact h.step (htarget a ha) (Timed.step_spec hstep).2.1
    · intro a ha s h hok
      simp only [masterStepAt, Bool.and_eq_true, decide_eq_true_eq] at hok
      obtain ⟨⟨⟨hagrees, hclaims⟩, hfresh⟩, hwrap⟩ := hok
      exact ⟨⟨putOk_of_at htimes a ha, hagrees, hclaims, h.freshId hfresh, fun _ => hwrap⟩,
        htarget a ha⟩
  refine ⟨hboth.mono fun _ _ h => h.1, ?_⟩
  exact hboth.invariant (P := fun s => s.nodes.OnlyTrio (.uniform leaseMember)) (fun _ _ => rfl)
    fun s t a h hok hstep => h.step hok.2 (Timed.step_spec hstep).2.1

/-- After node 2 has taken over, it is the only master. -/
theorem at_most_one_master_trio : ∃ s : Timed,
    Reaches Timed.step (MasterStep (.uniform leaseMember)) (.init (.uniform leaseMember)) s ∧
    s.now = 22 ∧ (s.nodes 2).isMaster 22 = true ∧
    ∀ n, (s.nodes n).isMaster 22 = true → n = 2 := by
  have hend : (runChecked Timed.step masterStepAt (.init (.uniform leaseMember)) takenOver).map
      (fun s => (s.now, (s.nodes 2).isMaster 22,
        [1, 2, 3].all fun n => executesOwn protoCodec n (s.nodes n).trace)) =
        some (22, true, true) := by
    decide +kernel
  obtain ⟨s, hs, hval⟩ := Option.map_eq_some_iff.mp hend
  simp only [Prod.mk.injEq] at hval
  obtain ⟨hnow, hmaster, hown⟩ := hval
  have htimes : takenOver.map Prod.fst =
      [0, 0, 0, 0, 0, 2, 12, 12, 22, 22, 22, 22, 22].map .at := rfl
  obtain ⟨hrun, honly⟩ := reaches_of_masterStepAt htimes (by decide) hs
  refine ⟨s, hrun, hnow, hmaster, fun n hn => ?_⟩
  exact at_most_one_master leaseMember_members leaseMember_reads hrun (honly.executesOwn hown)
    hnow.le hn hmaster

/-- The proposal of node 1 times out after node 2 accepted it. Node 2 proposes itself at the time 1,
finds the value of node 1, has it chosen and executes it. Node 1 hears of it at the time 10. At the
time 11 the lease has ended for node 2, which proposes itself again, and node 1 accepts. -/
def executedLate : List (Env × Label) := masterAccepted ++
  ([(.at 1, .node 1 (.timer 1)),
    (.at 1, .node 2 (.tryBeMaster 512)),
    (.at 1, .node 3 (.paxosMessage
      { type := .prepare, nodeId := 2, instanceId := 1, proposalId := 1 })),
    (.at 1, .node 2 (.paxosMessage
      { type := .prepareReply, nodeId := 3, instanceId := 1, proposalId := 1 })),
    (.at 1, .node 3 (.paxosMessage
      { type := .accept, nodeId := 2, instanceId := 1, proposalId := 1,
        value := leaseValue 257 0 1 })),
    (.at 1, .node 2 (.paxosMessage
      { type := .acceptReply, nodeId := 3, instanceId := 1, proposalId := 1 })),
    (.at 10, .node 1 (.paxosMessage
      { type := .accept, nodeId := 2, instanceId := 1, proposalId := 1,
        value := leaseValue 257 0 1 })),
    (.at 10, .node 1 (.paxosMessage
      { type := .newChosenValue, nodeId := 2, instanceId := 1, proposalId := 1 })),
    (.at 11, .node 2 (.tryBeMaster 256)),
    (.at 11, .node 1 (.paxosMessage
      { type := .accept, nodeId := 2, instanceId := 2, proposalId := 1,
        value := leaseValue 46137602 1 2 })),
    (.at 11, .node 2 (.paxosMessage
      { type := .acceptReply, nodeId := 1, instanceId := 2, proposalId := 1 }))] :
    List (Env × Label))

/-- Each step meets the conditions, but node 1 executes its value after its proposal has timed out,
without the context, and counts its lease from the time 10: at the time 11, nodes 1 and 2 are both
master. -/
theorem two_masters : ∃ s : Timed,
    Reaches Timed.step (MasterStep (.uniform leaseMember)) (.init (.uniform leaseMember)) s ∧
    .executed 1 (leaseValue 257 0 1) none true ∈ (s.nodes 1).trace ∧ s.now = 11 ∧
    (s.nodes 1).isMaster 11 = true ∧ (s.nodes 2).isMaster 11 = true := by
  have hend : (runChecked Timed.step masterStepAt (.init (.uniform leaseMember)) executedLate).map
      (fun s => (decide (Event.executed 1 (leaseValue 257 0 1) none true ∈ (s.nodes 1).trace),
        s.now, (s.nodes 1).isMaster 11, (s.nodes 2).isMaster 11)) =
        some (true, 11, true, true) := by
    decide +kernel
  obtain ⟨s, hs, hval⟩ := Option.map_eq_some_iff.mp hend
  simp only [Prod.mk.injEq, decide_eq_true_eq] at hval
  obtain ⟨hentry, hnow, hone, htwo⟩ := hval
  have htimes : executedLate.map Prod.fst =
      [0, 0, 0, 0, 1, 1, 1, 1, 1, 1, 10, 10, 11, 11, 11].map .at := rfl
  obtain ⟨hrun, -⟩ := reaches_of_masterStepAt htimes (by decide) hs
  exact ⟨s, hrun, hentry, hnow, hone, htwo⟩

end Skywalker
