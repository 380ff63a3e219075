import Skywalker.Consensus

/-!
# Agreement

The conditions under which nodes agree, as checks on the state in which a step is taken, and what
holds in every run whose steps meet them: two nodes that execute an instance execute the same value,
a value that is read off a message of the next instance is decided, and a node serves only decided
values. Each condition excludes a step of the code that breaks agreement; runs that take such steps
follow the theorems.
-/

namespace Skywalker

open Voting TransitionSystem

variable {x y : Node} {M : Finset ℕ} {s : Sys} {n : ℕ} {dirs : List (ℕ × Machines)} {C : Setup}
  {E : Env} {a : Acceptor}

/-! ## The conditions -/

/-- Whether a round that an event starts takes no ballot to the next instance that an `ACCEPT`
carried and that was not announced. -/
def Node.carriesSafely (E : Env) (x : Node) (ev : NodeEvent) : Bool :=
  match x.roundKind E ev with
  | .none => true
  | _ => decide (Proposer.CarriesSafely x)

/-- Whether a message, in a round that goes on while the learner waits for a successful `Execute`,
lets the acceptor write nothing but the learned value over the record of the instance. -/
def Node.messageKeepsLearned (x : Node) (m : PaxosMessage) : Bool :=
  match m.type with
  | .prepare => decide (m.instanceId = x.acceptor.instanceId →
      x.acceptor.promisedBallot ≤ m.ballot →
      x.acceptor.acceptedValue = x.learner.learnedValue)
  | .accept => decide (m.instanceId = x.acceptor.instanceId → x.acceptor.promisedBallot ≤ m.ballot →
      m.value = x.learner.learnedValue)
  | .prepareReply => decide (x.proposer.preparing = true → m.instanceId = x.proposer.instanceId →
      Proposer.isPassedOnThisRound { x with proposer := x.proposer.countPrepareReply m } = true →
      x.acceptor.promisedBallot ≤ (Proposer.acceptMessage x).ballot →
      (x.proposer.countPrepareReply m).value = x.learner.learnedValue)
  | _ => true

/-- The same for an event, which may also start a round. -/
def Node.keepsLearned (E : Env) (x : Node) (ev : NodeEvent) : Bool :=
  !x.learner.hasLearned ||
  match x.roundKind E ev with
  | .prepare => decide (x.acceptor.acceptedValue = x.learner.learnedValue ∧
      0 < x.acceptor.acceptedBallot.proposalId)
  | .accept => decide (¬ x.acceptor.promisedBallot ≤ (Proposer.acceptMessage x).ballot)
  | .none =>
    match ev with
    | .paxosMessage m => x.learner.isReceivingCheckpoint || x.messageKeepsLearned m
    | _ => true

/-- The condition on an event of a node. -/
def Node.agrees (E : Env) (x : Node) (ev : NodeEvent) : Bool :=
  ev.keepsMembers && x.reusesSafely E ev && x.countsCurrent ev && x.carriesSafely E ev &&
    x.keepsLearned E ev

/-- Whether an event makes a checkpoint or cleans the log. -/
def NodeEvent.tidies : NodeEvent → Bool
  | .finishCheckpoint => true
  | .gcLoop => true
  | _ => false

theorem SameRound.carriesSafely (h : SameRound x y) (hx : Proposer.CarriesSafely x) :
    Proposer.CarriesSafely y := by
  have huses : ∀ {type i p}, y.uses type i p = true ↔ x.uses type i p = true := by
    intro type i p
    simp only [Node.uses_iff, h.broadcast]
  intro hrej hacc
  rw [h.proposer] at hrej hacc ⊢
  exact huses.mpr (hx hrej (huses.mp hacc))

/-- The policy of runs that meet the conditions. -/
def Policy.agreement (M : Finset ℕ) (tidies : Prop) : Policy where
  rules :=
    { propose := fun _ _ machineId _ _ => machineId ≠ membershipMachineId
      prepare := fun x => Proposer.PreparesSafely x ∧ Proposer.CarriesSafely x
      skip := fun x => Proposer.SkipsSafely x ∧ Proposer.CarriesSafely x
      current := fun _ => True
      keepsLearned := True
      clean := tidies
      checkpoint := tidies }
  env E := ∀ k, E.putOk k = true
  restart s n := s.RecoversSoundly M n (s n).checkpoints
  install s n source c := ∀ saved, (s source).checkpoints.lookup c = some saved →
    s.RecoversSoundly M n ((c, saved) :: (s n).checkpoints)

/-- Each recovery that the policy permits is sound. -/
theorem Policy.agreement_recovers {tidies : Prop}
    (h : (Policy.agreement M tidies).Recovers s n dirs) :
    s.RecoversSoundly M n dirs := by
  rcases h with ⟨h, rfl⟩ | ⟨source, c, saved, h, -, hlookup, rfl⟩
  · exact h
  · exact h saved hlookup

theorem Policy.agreement_keepsAgreement (M : Finset ℕ) (tidies : Prop) :
    (Policy.agreement M tidies).KeepsAgreement M where
  rounds :=
    { members := fun _ _ _ _ _ h => h
      prepare := fun _ h => h.1
      skip := fun _ h => h.1
      current := fun _ => trivial
      recovers := fun _ _ _ h => (Policy.agreement_recovers h).fresh }
  writes _ h := h
  prepare _ h := h.2
  skip _ h := h.2
  keepsLearned := trivial
  recovers _ _ _ h := Policy.agreement_recovers h

/-- The policy permits the events that meet the condition. -/
theorem Policy.agreement_permits {tidies : Prop} {ev : NodeEvent} (hw : s.WF C) (htr : Traced s)
    (hput : ∀ k, E.putOk k = true) (h : (s n).agrees E ev = true)
    (htidy : ev.tidies = true → tidies) :
    (Policy.agreement M tidies).Permits s (E, .node n ev) := by
  refine ⟨hput, fun hallowed => ?_⟩
  simp only [Node.agrees, Bool.and_eq_true] at h
  obtain ⟨⟨⟨⟨hmembers, hreuse⟩, hcounts⟩, hcarries⟩, hkeeps⟩ := h
  unfold Node.reusesSafely at hreuse
  unfold Node.carriesSafely at hcarries
  have hkeeps : (s n).learner.hasLearned = true → (s n).keepsLearned E ev = true := fun _ => hkeeps
  unfold Node.keepsLearned at hkeeps
  refine Rules.allows_of ?_ ?_ ?_ ?_ ?_ ?_ ?_
  · rintro machineId value context draw rfl
    exact (of_decide_eq_true hmembers : machineId ≠ membershipMachineId)
  · exact fun _ _ => (by decide : masterMachineId ≠ membershipMachineId)
  · intro hkind y hy
    rw [hkind] at hreuse hcarries hkeeps
    refine ⟨⟨hy.preparesSafely (of_decide_eq_true hreuse),
      hy.carriesSafely (of_decide_eq_true hcarries)⟩, fun _ hl => ?_⟩
    rw [hy.learner] at hl ⊢
    rw [hy.acceptor]
    have hk := hkeeps hl
    rw [hl] at hk
    exact of_decide_eq_true hk
  · intro hkind y hy
    rw [hkind] at hreuse hcarries hkeeps
    refine ⟨⟨hy.skipsSafely (of_decide_eq_true hreuse),
      hy.carriesSafely (of_decide_eq_true hcarries)⟩, fun _ hl hle => ?_⟩
    -- The node's own acceptor does not take the `ACCEPT`.
    have hball : (Proposer.acceptMessage y).ballot = (Proposer.acceptMessage (s n)).ballot := by
      show (⟨y.proposer.proposalId, y.config.nodeId⟩ : BallotNumber) = ⟨_, _⟩
      rw [hy.proposer, hy.config]
      rfl
    rw [hy.learner] at hl
    rw [hy.acceptor, hball] at hle
    have hk := hkeeps hl
    rw [hl] at hk
    exact absurd hle (of_decide_eq_true hk)
  · rintro m rfl
    refine ⟨hallowed, fun hrecv => Rules.messageOk_of ?_ ?_ ?_ fun _ _ => trivial⟩
    · exact fun _ htype => htr.nodeId_ne_of_inFlight hw hallowed htype
    · intro _ hphase hid
      simp only [Node.countsCurrent, hrecv, Bool.false_or, decide_eq_true_eq] at hcounts
      exact hcounts hphase hid
    · intro _ hl
      have hk := hkeeps hl
      simp only [hl, hrecv, Node.roundKind, Bool.not_true, Bool.false_or] at hk
      unfold Node.messageKeepsLearned at hk
      refine ⟨fun htype => ?_, fun htype => ?_, fun htype => ?_⟩ <;> rw [htype] at hk
      · exact of_decide_eq_true hk
      · exact of_decide_eq_true hk
      · exact of_decide_eq_true hk
  · rintro rfl
    exact htidy rfl
  · rintro rfl
    exact htidy rfl

/-! ## Two nodes execute the same value -/

/-- Whether a node executed a value for an instance, live or in a replay, and `Execute`
succeeded. -/
def Node.executes (x : Node) (i : ℕ) (v : PaxosValue) : Bool :=
  x.trace.any fun
    | .executed j w _ ok => ok && j = i && w = v
    | .replayed j w ok => ok && j = i && w = v
    | _ => false

/-- What a node executed satisfies what it has learned. -/
theorem Node.Learned.of_executes {D : ℕ → PaxosValue → Prop} (h : x.Learned D) {i : ℕ}
    {v : PaxosValue} (hx : x.executes i v = true) : D i v := by
  unfold Node.executes at hx
  rw [List.any_eq_true] at hx
  obtain ⟨e, he, hm⟩ := hx
  have htells := h.trace e he
  cases e with
  | executed j w c ok | replayed j w ok =>
    simp only [Bool.and_eq_true, decide_eq_true_eq] at hm
    obtain ⟨⟨-, rfl⟩, rfl⟩ := hm
    exact htells
  | _ => cases hm

/-- A node that makes no checkpoints has a record of each instance that it left. -/
structure Node.Logged (x : Node) : Prop where
  positive : 1 ≤ x.instanceId
  checkpoints : x.checkpoints = []
  complete : ∀ j, 1 ≤ j → j < x.instanceId → ∃ r, x.db.get j = some r

namespace Node.Logged

/-- Every action keeps the log complete, when it is not cleaned and no checkpoint is made. -/
theorem act {R : Rules} {net : PaxosMessage → Prop} (h : x.Logged) (hw : x.WF) (hclean : ¬ R.clean)
    (hcheckpoint : ¬ R.checkpoint)
    (hlearned : x.learner.hasLearned = true → ∃ r, x.db.get x.instanceId = some r)
    (hact : Act R E net x y) : y.Logged := by
  have hdirs : y.checkpoints = [] := by
    rw [List.eq_nil_iff_forall_not_mem]
    intro d hd
    rcases hact.checkpoints_cases hd with hold | ⟨-, -, hrule⟩
    · rw [h.checkpoints] at hold
      cases hold
    · exact hcheckpoint hrule
  -- Records that are kept or replaced.
  have hkeep : y.instanceId = x.instanceId →
      (∀ j r, x.db.get j = some r → ∃ r', y.db.get j = some r') → y.Logged := by
    intro hid hdb
    refine ⟨by rw [hid]; exact h.positive, hdirs, fun j hj hlt => ?_⟩
    rw [hid] at hlt
    obtain ⟨r, hr⟩ := h.complete j hj hlt
    exact hdb j r hr
  have hwrite : ∀ {ok : Bool}, y.instanceId = x.instanceId →
      y.db = x.db.write ok y.acceptor.record → y.Logged := by
    intro ok hid hdb
    refine hkeep hid fun j r hr => ?_
    rw [hdb]
    cases ok with
    | true => exact DB.exists_get_put _ hr
    | false => exact ⟨r, hr⟩
  cases hact.storeChange hw with
  | same hacc hdb hid => exact hkeep hid fun j r hr => ⟨r, by rw [hdb]; exact hr⟩
  | promised m k hm hle hkeep hacc hdb hid | accepted m k hm hle hkeep hacc hdb hid =>
    exact hwrite hid hdb
  | learned m hm hmid hballot hacc hdb hid =>
    exact hkeep hid fun j r hr => ⟨r, by rw [hdb]; exact hr⟩
  | learnedValue m hm htype hmid hrule hacc hdb hid =>
    refine hkeep hid fun j r hr => ?_
    rw [hdb]
    exact DB.exists_get_put _ hr
  | executed hl hok hy hacc hdb hid =>
    refine ⟨by omega, hdirs, fun j hj hlt => ?_⟩
    rw [hdb]
    rcases Nat.lt_or_ge j x.instanceId with hold | hge
    · exact h.complete j hj hold
    · obtain rfl : j = x.instanceId := by omega
      exact hlearned hl
  | cleaned hrule => exact absurd hrule hclean

/-- Where a node without checkpoints starts again: at the instance that it was in, or at the one
before, of which it has a record. -/
theorem restart (h : x.Logged) (hstore : x.Stores) (hrec : x.Restarts E x.checkpoints a y) :
    y.instanceId = x.instanceId ∨
      (x.instanceId = y.instanceId + 1 ∧ ∃ r, x.db.get y.instanceId = some r) := by
  have hlatest : (MachineManager.recover E x.config x.checkpoints).1 = 0 := by
    rw [h.checkpoints]
    simp [MachineManager.recover, cleanCheckpoint, CleanState.loop]
  have hinst := hrec.instanceId
  rw [hlatest] at hinst
  have hpos := h.positive
  rcases Acceptor.readFromDB_spec hrec.read with ⟨rfl, hnone⟩ | ⟨r, hr, -⟩
  · -- There is no record, so that the node is in its first instance.
    have hfirst : ¬ 1 < x.instanceId := by
      intro hlt
      obtain ⟨r, hr⟩ := h.complete 1 (le_refl 1) hlt
      rw [hnone] at hr
      cases hr
    have hzero : ({} : Acceptor).instanceId ≤ 1 := by decide
    omega
  · have hle := (hstore.keys _ r hr).2
    have hlast : x.instanceId - 1 ≤ a.instanceId := by
      by_cases hone : x.instanceId = 1
      · omega
      · obtain ⟨q, hq⟩ := h.complete (x.instanceId - 1) (by omega) (by omega)
        exact Acceptor.le_of_readFromDB hrec.read hq
    by_cases heq : a.instanceId = x.instanceId
    · left
      omega
    · by_cases hone : x.instanceId = 1
      · left
        omega
      · right
        have hy : y.instanceId = a.instanceId := by omega
        refine ⟨by omega, r, ?_⟩
        rw [hy]
        exact hr

theorem recover (h : x.Logged) (hstore : x.Stores) (hrec : x.Restarts E x.checkpoints a y) :
    y.Logged := by
  have hle : y.instanceId ≤ x.instanceId := by
    rcases h.restart hstore hrec with heq | ⟨heq, -⟩ <;> omega
  refine ⟨?_, ?_, ?_⟩
  · rw [hrec.instanceId]
    exact le_trans (Nat.le_add_left 1 _) (le_max_left _ _)
  · rw [hrec.checkpoints, h.checkpoints]
    rfl
  · intro j hj hlt
    rw [hrec.db_eq]
    exact h.complete j hj (by omega)

theorem fresh (config : Config) : (Node.fresh config).Logged := by
  refine ⟨le_refl 1, rfl, fun j hj hlt => ?_⟩
  have hone : (Node.fresh config).instanceId = 1 := rfl
  omega

end Node.Logged

/-- Whether recovery would load the promise of the acceptor, or a higher one. -/
def Node.promiseStored (x : Node) : Bool :=
  (Acceptor.readFromDB x.db).all fun a => x.acceptor.promisedBallot ≤ a.promisedBallot

/-- The condition on a step of a run without checkpoints. -/
def AgreesAt (s : Sys) (a : Env × Label) : Bool :=
  match a.2 with
  | .node n ev => !ev.tidies && (s n).agrees a.1 ev
  | .restart n => (s n).startsFresh && (s n).promiseStored
  | .install _ _ _ => false

/-- A restart that meets the condition is sound. -/
theorem Consensus.recoversSoundly (h : Consensus M s) (hlog : (s n).Logged)
    (hfresh : (s n).startsFresh = true) (hprom : (s n).promiseStored = true) :
    s.RecoversSoundly M n (s n).checkpoints where
  fresh := .of_check hfresh
  promise a ha := by
    unfold Node.promiseStored at hprom
    rw [ha, Option.all_some, decide_eq_true_eq] at hprom
    exact hprom
  back E a y hrec := (hlog.restart (h.memory n).store hrec).imp (fun heq => heq.ge) id
  jump E a y hrec hlt := by
    rcases hlog.restart (h.memory n).store hrec with heq | ⟨heq, -⟩ <;> omega

/-- The invariants of runs without checkpoints. -/
structure LoggedConsensus (M : Finset ℕ) (s : Sys) : Prop where
  consensus : Consensus M s
  logged : ∀ n, (s n).Logged

namespace LoggedConsensus

variable {P : Policy} {t : Sys}

/-- Every action keeps the invariants, when no checkpoint is made and the log is not cleaned. -/
theorem micro (h : LoggedConsensus M s) (hw : s.WF C) (hP : P.KeepsAgreement M)
    (hclean : ¬ P.rules.clean) (hcheckpoint : ¬ P.rules.checkpoint) (hst : Micro P s t) :
    LoggedConsensus M t := by
  refine ⟨h.consensus.micro hw hP hst, ?_⟩
  refine hst.forall_node (Q := fun _ x => x.Logged) h.logged fun n E y _ hact => ?_
  refine (h.logged n).act (hw n).1 hclean hcheckpoint (fun hl => ?_) hact
  obtain ⟨-, r, hr, -⟩ := (h.consensus.learned n).learner hl
  exact ⟨r, hr⟩

/-- A node recovers from its own checkpoints, since no other node has one to be installed. -/
theorem dirs_eq (h : LoggedConsensus M s) (hwhy : P.Recovers s n dirs) :
    dirs = (s n).checkpoints := by
  rcases hwhy with ⟨-, hdirs⟩ | ⟨source, c, saved, -, -, hlookup, -⟩
  · exact hdirs
  · rw [(h.logged source).checkpoints] at hlookup
    cases hlookup

theorem recover (h : LoggedConsensus M s) (hw : s.WF C) (hP : P.KeepsAgreement M)
    (hC : C.HasMembers M) (hwhy : P.Recovers s n dirs) (hrec : (s n).Restarts E dirs a y) :
    LoggedConsensus M (Function.update s n y) := by
  refine ⟨h.consensus.recover hw hP hC hwhy hrec, ?_⟩
  obtain rfl := h.dirs_eq hwhy
  exact Sys.forall_update (Q := fun _ x => x.Logged) h.logged
    ((h.logged n).recover (h.consensus.memory n).store hrec)

theorem permits {a : Env × Label} (h : LoggedConsensus M s) (hw : s.WF C)
    (hput : ∀ k, a.1.putOk k = true) (hok : AgreesAt s a = true) :
    (Policy.agreement M False).Permits s a := by
  obtain ⟨E, l⟩ := a
  cases l with
  | node n ev =>
    simp only [AgreesAt, Bool.and_eq_true, Bool.not_eq_true'] at hok
    refine Policy.agreement_permits hw h.consensus.rounds.traced hput hok.2 fun htidy => ?_
    rw [hok.1] at htidy
    cases htidy
  | restart n =>
    simp only [AgreesAt, Bool.and_eq_true] at hok
    exact ⟨hput, h.consensus.recoversSoundly (h.logged n) hok.1 hok.2⟩
  | install n source c => cases hok

theorem init (hC : C.HasMembers M) : LoggedConsensus M (System.init C) :=
  ⟨.init hC, fun _ => .fresh _⟩

end LoggedConsensus

/-- **Agreement.** In every run of a group with the members `M`, of any events, messages and
restarts that meet the conditions, two nodes that execute an instance execute the same value. -/
theorem agreement {C : Setup} {M : Finset ℕ} {s : Sys}
    (hC : ∀ n, (Membership.ofOptions (C.config n).membership).ids.toFinset = M)
    (hrun : Reaches System.step (fun s a => (∀ k, a.1.putOk k = true) ∧ AgreesAt s a = true)
      (System.init C) s) {a b i : ℕ} {v w : PaxosValue} (hv : (s a).executes i v = true)
    (hw : (s b).executes i w = true) : v = w := by
  have hP := Policy.agreement_keepsAgreement M False
  have hinv : LoggedConsensus M s := by
    refine (Policy.invariant (P := Policy.agreement M False) hrun (.init hC) ?_ ?_ ?_).2
    · exact fun s a hw h hok => h.permits hw hok.1 hok.2
    · exact fun s t hw h hst => h.micro hw hP id id hst
    · exact fun s n E dirs acc y hw h _ hwhy hrec => h.recover hw hP hC hwhy hrec
  exact hinv.consensus.eq_of_decided ((hinv.consensus.learned a).of_executes hv)
    ((hinv.consensus.learned b).of_executes hw)

theorem putOk_of_default {β : Type} {l : List (Env × β)} (h : l.map Prod.fst = List.replicate n {})
    (a : Env × β) (ha : a ∈ l) (k : ℕ) : a.1.putOk k = true := by
  have hmem : a.1 ∈ List.replicate n ({} : Env) := by
    rw [← h]
    exact List.mem_map_of_mem ha
  rw [List.eq_of_mem_replicate hmem]

/-- A checked run in which every environment is the default one, so that every write succeeds. -/
theorem reaches_of_default {β : Type} {step : Sys → Env × β → Option Sys}
    {check : Sys → Env × β → Bool} {s₀ : Sys} {l : List (Env × β)}
    (h : l.map Prod.fst = List.replicate n {}) (hs : runChecked step check s₀ l = some s) :
    Reaches step (fun s a => (∀ k, a.1.putOk k = true) ∧ check s a = true) s₀ s :=
  Reaches.of_runChecked l (fun a ha _ hok => ⟨putOk_of_default h a ha, hok⟩) hs

/-- The first value of node 1 is chosen, node 2 hears of it, and node 2 restarts. -/
def firstLearned : List (Env × Label) := firstChosen ++
  ([({}, .node 2 (.paxosMessage
      { type := .newChosenValue, nodeId := 1, instanceId := 1, proposalId := 1 })),
    ({}, .restart 2)] : List (Env × Label))

/-- Nodes 1 and 2 execute the first instance, with the same value. -/
theorem agreement_trio : ∃ s v w,
    Reaches System.step (fun s a => (∀ k, a.1.putOk k = true) ∧ AgreesAt s a = true)
      (System.init (.uniform trioMember)) s ∧
    (s 1).executes 1 v = true ∧ (s 2).executes 1 w = true ∧ v = w := by
  have hend : (runChecked System.step AgreesAt (System.init (.uniform trioMember))
      firstLearned).map (fun s => ((s 1).executes 1 firstValue, (s 2).executes 1 firstValue)) =
        some (true, true) := by
    decide +kernel
  obtain ⟨s, hs, hexec⟩ := Option.map_eq_some_iff.mp hend
  obtain ⟨hone, htwo⟩ := Prod.mk.inj hexec
  have hrun := reaches_of_default (n := 7) rfl hs
  exact ⟨s, firstValue, firstValue, hrun, hone, htwo, agreement trio_members hrun hone htwo⟩

/-- The value that node 1 proposes after its first proposal timed out. -/
def secondValue : PaxosValue := { valueId := 258, machineId := 7, userData := [2] }

/-- The `ACCEPT` of the first value reaches node 2, the proposal times out, and node 1 proposes a
second value. It skips `Prepare`, and the `ACCEPT` of the second value, with the same ballot,
reaches node 3. Node 1 announces the ballot, also to node 2. -/
def twoChosen : List (Env × Label) := firstAccept ++
  ([({}, .node 2 (.paxosMessage { type := .accept, nodeId := 1, instanceId := 1, proposalId := 1,
                                  value := firstValue })),
    ({}, .node 1 (.timer 1)),
    ({}, .node 1 (.propose 7 [2] none 256)),
    ({}, .node 3 (.paxosMessage { type := .accept, nodeId := 1, instanceId := 1, proposalId := 1,
                                  value := secondValue })),
    ({}, .node 1 (.paxosMessage
      { type := .acceptReply, nodeId := 3, instanceId := 1, proposalId := 1 })),
    ({}, .node 2 (.paxosMessage
      { type := .newChosenValue, nodeId := 1, instanceId := 1, proposalId := 1 }))] :
    List (Env × Label))

/-- Node 1 executes the second value for the first instance, and node 2 the first one. -/
theorem two_values_executed : ∃ s v w,
    run System.step (System.init (.uniform trioMember)) twoChosen = some s ∧
    (s 1).executes 1 v = true ∧ (s 2).executes 1 w = true ∧ v ≠ w := by
  have hend : (run System.step (System.init (.uniform trioMember)) twoChosen).map
      (fun s => ((s 1).executes 1 secondValue, (s 2).executes 1 firstValue)) =
        some (true, true) := by
    decide +kernel
  obtain ⟨s, hs, hexec⟩ := Option.map_eq_some_iff.mp hend
  obtain ⟨hone, htwo⟩ := Prod.mk.inj hexec
  exact ⟨s, secondValue, firstValue, hs, hone, htwo, by decide⟩

/-! ## Values read off messages of the next instance -/

/-- The condition on a step of a run without crashes. -/
def CrashFreeAt (s : Sys) (a : Env × Label) : Bool :=
  match a.2 with
  | .node n ev => (s n).agrees a.1 ev
  | _ => false

/-- The invariants hold along every run without crashes, and decisions stay. -/
theorem Consensus.crashFree {s₀ : Sys} (hC : C.HasMembers M) (hw₀ : s₀.WF C) (h₀ : Consensus M s₀)
    (hrun : Reaches System.step (fun s a => (∀ k, a.1.putOk k = true) ∧ CrashFreeAt s a = true)
      s₀ s) : s.WF C ∧ Consensus M s ∧ ∀ i v, s₀.Decided M i v → s.Decided M i v := by
  have hP := Policy.agreement_keepsAgreement M True
  refine Policy.invariant_from (P := Policy.agreement M True)
    (I := fun s => Consensus M s ∧ ∀ i v, s₀.Decided M i v → s.Decided M i v) hw₀ hrun ?_ ?_ ?_ ?_
  · exact ⟨h₀, fun i v hv => hv⟩
  · rintro s ⟨E, l⟩ hw ⟨hcons, -⟩ ⟨hput, hok⟩
    cases l with
    | node n ev => exact Policy.agreement_permits hw hcons.rounds.traced hput hok fun _ => trivial
    | restart n | install n source c => cases hok
  · rintro s t hw ⟨hcons, hdec⟩ hst
    exact ⟨hcons.micro hw hP hst, fun i v hv => (hdec i v hv).extend (hst.board_extends hw i)⟩
  · rintro s n E dirs a y hw ⟨hcons, hdec⟩ - hwhy hrec
    have hprom := (hP.recovers s n dirs hwhy).promise a hrec.read
    exact ⟨hcons.recover hw hP hC hwhy hrec,
      fun i v hv => (hdec i v hv).extend (hrec.board_extends hprom i)⟩

/-- **The next-instance shortcut is sound.** In every run of a group with the members `M` whose
steps meet the conditions, without crashes: where a `PREPARE` or `ACCEPT` of the next instance
reaches an acceptor that accepted under the ballot of the message, a majority of the members
accepted the acceptor's value under one ballot, and no node executes another value for the instance,
then or later. -/
theorem next_instance_decided {C : Setup} {M : Finset ℕ} {s : Sys}
    (hC : ∀ n, (Membership.ofOptions (C.config n).membership).ids.toFinset = M)
    (hrun : Reaches System.step (fun s a => (∀ k, a.1.putOk k = true) ∧ CrashFreeAt s a = true)
      (System.init C) s) {n : ℕ} {m : PaxosMessage} (hm : s.inFlight n m = true)
    (htype : m.type = .prepare ∨ m.type = .accept)
    (hid : m.instanceId = (s n).acceptor.instanceId + 1)
    (hballot : m.ballot = (s n).acceptor.acceptedBallot) :
    s.Decided M (s n).acceptor.instanceId (s n).acceptor.acceptedValue ∧
    ∀ t, Reaches System.step (fun s a => (∀ k, a.1.putOk k = true) ∧ CrashFreeAt s a = true) s t →
      ∀ k w, (t k).executes (s n).acceptor.instanceId w = true →
        w = (s n).acceptor.acceptedValue := by
  obtain ⟨hw, hcons, -⟩ := Consensus.crashFree hC (System.wf_init C) (.init hC) hrun
  have hinst := (hw n).1.acceptorId
  have hannounced : Announced (s.Network n) (s n)
      { m with type := .newChosenValue, instanceId := (s n).acceptor.instanceId } :=
    Or.inr (Or.inr ⟨m, hm, htype, hid, rfl, rfl⟩)
  have hdecided := hcons.decided_of_announced hw hannounced hinst hballot
  rw [← hinst] at hdecided
  refine ⟨hdecided, fun t hrun' k w hk => ?_⟩
  obtain ⟨-, hcons', hdec⟩ := Consensus.crashFree hC hw hcons hrun'
  exact hcons'.eq_of_decided ((hcons'.learned k).of_executes hk) (hdec _ _ hdecided)

/-- The `ACCEPT` of node 1 for the second instance. -/
def secondAccept : PaxosMessage :=
  { type := .accept, nodeId := 1, instanceId := 2, proposalId := 1, value := secondValue }

/-- The first value of node 1 is chosen, and node 1 goes on in the next instance with the same
ballot. -/
def nextAccept : List (Env × Label) := firstChosen ++
  ([({}, .node 1 (.propose 7 [2] none 256))] : List (Env × Label))

/-- The `ACCEPT` of the second instance is on its way to node 2, which accepted the first value
under its ballot and has not heard of the choice. -/
theorem next_instance_decided_trio : ∃ s m,
    Reaches System.step (fun s a => (∀ k, a.1.putOk k = true) ∧ CrashFreeAt s a = true)
      (System.init (.uniform trioMember)) s ∧
    s.inFlight 2 m = true ∧ m.type = .accept ∧ m.instanceId = (s 2).acceptor.instanceId + 1 ∧
    m.ballot = (s 2).acceptor.acceptedBallot ∧
    s.Decided {1, 2, 3} (s 2).acceptor.instanceId (s 2).acceptor.acceptedValue := by
  have hend : (runChecked System.step CrashFreeAt (System.init (.uniform trioMember))
      nextAccept).map (fun s => (s.inFlight 2 secondAccept, (s 2).acceptor.instanceId,
        (s 2).acceptor.acceptedBallot)) = some (true, 1, ⟨1, 1⟩) := by
    decide +kernel
  obtain ⟨s, hs, hfields⟩ := Option.map_eq_some_iff.mp hend
  obtain ⟨hm, hrest⟩ := Prod.mk.inj hfields
  obtain ⟨hid, hballot⟩ := Prod.mk.inj hrest
  have hrun := reaches_of_default (n := 6) rfl hs
  have hnext : secondAccept.instanceId = (s 2).acceptor.instanceId + 1 := by
    rw [hid]
    rfl
  refine ⟨s, secondAccept, hrun, hm, rfl, hnext, hballot.symm, ?_⟩
  exact (next_instance_decided trio_members hrun hm (Or.inr rfl) hnext hballot.symm).1

/-- A member of a group of five. -/
def quintMember : Config :=
  { nodeId := 1, codec := .empty,
    membership := [{ id := 1 }, { id := 2 }, { id := 3 }, { id := 4 }, { id := 5 }] }

/-- The value that node 5 proposes. -/
def fifthValue : PaxosValue := { valueId := 257, machineId := 7, userData := [5] }

/-- Of five nodes, 2 and 3 promise the ballot `(1, 1)`, and 1 and 2 accept the first value under it.
Nodes 3, 4 and 5 then choose another value under the ballot `(1, 5)`. Node 1 learns that value from
node 5, and its next proposal skips `Prepare` and carries the ballot `(1, 1)` to the second
instance. -/
def carriedBallot : List (Env × Label) :=
  [({}, .node 1 (.propose 7 [1] none 256)),
   ({}, .node 2 (.paxosMessage
      { type := .prepare, nodeId := 1, instanceId := 1, proposalId := 1 })),
   ({}, .node 3 (.paxosMessage
      { type := .prepare, nodeId := 1, instanceId := 1, proposalId := 1 })),
   ({}, .node 1 (.paxosMessage
     { type := .prepareReply, nodeId := 2, instanceId := 1, proposalId := 1 })),
   ({}, .node 1 (.paxosMessage
     { type := .prepareReply, nodeId := 3, instanceId := 1, proposalId := 1 })),
   ({}, .node 2 (.paxosMessage { type := .accept, nodeId := 1, instanceId := 1, proposalId := 1,
                                 value := firstValue })),
   ({}, .node 5 (.propose 7 [5] none 256)),
   ({}, .node 3 (.paxosMessage
      { type := .prepare, nodeId := 5, instanceId := 1, proposalId := 1 })),
   ({}, .node 4 (.paxosMessage
      { type := .prepare, nodeId := 5, instanceId := 1, proposalId := 1 })),
   ({}, .node 5 (.paxosMessage
     { type := .prepareReply, nodeId := 3, instanceId := 1, proposalId := 1 })),
   ({}, .node 5 (.paxosMessage
     { type := .prepareReply, nodeId := 4, instanceId := 1, proposalId := 1 })),
   ({}, .node 3 (.paxosMessage { type := .accept, nodeId := 5, instanceId := 1, proposalId := 1,
                                 value := fifthValue })),
   ({}, .node 4 (.paxosMessage { type := .accept, nodeId := 5, instanceId := 1, proposalId := 1,
                                 value := fifthValue })),
   ({}, .node 5 (.paxosMessage
     { type := .acceptReply, nodeId := 3, instanceId := 1, proposalId := 1 })),
   ({}, .node 5 (.paxosMessage
     { type := .acceptReply, nodeId := 4, instanceId := 1, proposalId := 1 })),
   ({}, .node 1 (.syncData false)),
   ({}, .node 5 (.paxosMessage { type := .askForLearn, nodeId := 1, instanceId := 1 })),
   ({}, .node 1 (.paxosMessage { type := .sendLearnedValue, nodeId := 5, instanceId := 1,
                                 proposalId := 1, proposalNodeId := 5, value := fifthValue })),
   ({}, .node 1 (.propose 7 [2] none 256))]

/-- The `ACCEPT` of the second instance makes node 2 execute the first value for the first instance,
where nodes 1 and 5 executed another one. -/
theorem carried_ballot_undecided : ∃ s t m w,
    run System.step (System.init (.uniform quintMember)) carriedBallot = some s ∧
    s.inFlight 2 m = true ∧ m.type = .accept ∧ m.instanceId = (s 2).acceptor.instanceId + 1 ∧
    m.ballot = (s 2).acceptor.acceptedBallot ∧
    System.step s ({}, .node 2 (.paxosMessage m)) = some t ∧
    (t 2).executes 1 (s 2).acceptor.acceptedValue = true ∧ (t 5).executes 1 w = true ∧
    w ≠ (s 2).acceptor.acceptedValue := by
  have hend : ((run System.step (System.init (.uniform quintMember)) carriedBallot).bind fun s =>
      (System.step s ({}, .node 2 (.paxosMessage secondAccept))).map fun t =>
      (s.inFlight 2 secondAccept, (s 2).acceptor.instanceId, (s 2).acceptor.acceptedBallot,
        (s 2).acceptor.acceptedValue, (t 2).executes 1 firstValue, (t 5).executes 1 fifthValue)) =
      some (true, 1, ⟨1, 1⟩, firstValue, true, true) := by
    decide +kernel
  obtain ⟨s, hs, hrest⟩ := Option.bind_eq_some_iff.mp hend
  obtain ⟨t, ht, hfields⟩ := Option.map_eq_some_iff.mp hrest
  simp only [Prod.mk.injEq] at hfields
  obtain ⟨hm, hid, hballot, hvalue, htwo, hfive⟩ := hfields
  refine ⟨s, t, secondAccept, fifthValue, hs, hm, rfl, ?_, hballot.symm, ht, ?_, hfive, ?_⟩
  · rw [hid]
    rfl
  · rw [hvalue]
    exact htwo
  · rw [hvalue]
    decide

end Skywalker
