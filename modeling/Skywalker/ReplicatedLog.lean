import Skywalker.Agreement
import Skywalker.Execution

/-!
# The replicated log

What the machines of a process have executed is what its replay executed and what it has executed
since. In the runs that agreement is proved for, with machines of the users that do not fail a value
in a replay, these are on every node the values of one log, from the first instance to the one
before that of the node, each once and in order (`replicated_log`). So machines whose state is
determined by the values they execute have the same state on nodes that are at the same instance,
whatever the nodes lived through.

A replay executes the values again that were executed before, on machines that start again from the
options. Whether `Execute` of the two machines of the group succeeds depends on the value and on
their version, so that it does not fail where it succeeded before.
-/

namespace Skywalker

open TransitionSystem

variable {i : ℕ} {l trace : List Event}

/-! ## Values that the machines of the group can execute -/

/-- Both machines have executed nothing from an instance on. -/
structure Machines.Below (i : ℕ) (ms : Machines) : Prop where
  membership : ms.membership.version < i
  master : ms.master.version < i

section

variable {codec : Codec} {now : ℕ} {userResult : Bool} {context : Option ℕ} {v : PaxosValue}
  {ms : Machines}

theorem Machines.executable_of_execute
    (h : (ms.execute codec now userResult context i v).1 = true) : codec.executable v = true := by
  rw [Machines.execute_fst, Machines.takes] at h
  split_ifs at h with hmembership hmaster
  · exact (Bool.and_eq_true_iff.mp h).2
  · exact (Bool.and_eq_true_iff.mp h).2
  · simp [Codec.executable, hmembership, hmaster]

/-- Machines that have executed nothing from an instance on take a value that can be executed at
this instance and at every later one. -/
theorem Machines.Below.takes {j : ℕ} (hms : ms.Below i) (hij : i ≤ j)
    (hv : codec.executable v = true) : ms.takes codec true j v = true := by
  have hmembership := hms.membership.trans_le hij
  have hmaster := hms.master.trans_le hij
  simp [Machines.takes, hv, hmembership, hmaster]

/-- `Execute` succeeds on all machines that have executed nothing from the instance on. -/
theorem Machines.execute_of_executable (hms : ms.Below i) (hv : codec.executable v = true) :
    (ms.execute codec now true context i v).1 = true := by
  rw [Machines.execute_fst]
  exact hms.takes (le_refl i) hv

/-- After an instance the machines have executed nothing from the next one on. -/
theorem Machines.Below.execute (hms : ms.Below i) :
    (ms.execute codec now userResult context i v).2.Below (i + 1) := by
  have hm := Nat.lt_succ_of_lt hms.membership
  have hs := Nat.lt_succ_of_lt hms.master
  unfold Machines.execute
  split_ifs
  · refine ⟨?_, hs⟩
    simp only [Membership.execute]
    split_ifs
    · exact hm
    · split
      · exact hm
      · split
        · exact hm
        · exact Nat.lt_succ_self i
  · refine ⟨hm, ?_⟩
    simp only [MasterState.execute]
    split_ifs
    · exact hs
    · split
      · exact hs
      · exact Nat.lt_succ_self i
  · exact ⟨hm, hs⟩

end

theorem Membership.version_ofOptions (l : List MemberMessage) : (ofOptions l).version = 0 := by
  suffices h : ∀ ms : Membership, (l.foldl insert ms).version = ms.version from h {}
  induction l with
  | nil => exact fun ms => rfl
  | cons m l ih =>
    intro ms
    rw [List.foldl_cons, ih, insert]
    split_ifs <;> rfl

theorem Machines.below_one (l : List MemberMessage) :
    ({ membership := .ofOptions l } : Machines).Below 1 :=
  ⟨by rw [Membership.version_ofOptions]; exact Nat.one_pos, Nat.one_pos⟩

/-- A replay of values that can be executed does not fail, when the users' machines do not. -/
theorem LogManager.replayEntries_succeed {E : Env} {codec : Codec} {db : DB} {n k : ℕ}
    {ms : Machines} (huser : ∀ k, E.executeOk k = true) (hms : ms.Below i)
    (hlog : ∀ j, i ≤ j → j < i + n → codec.executable (loggedValue db j) = true) :
    replayEntries E codec db n i k ms =
      (List.range' i n).map fun j => .replayed j (loggedValue db j) true := by
  rw [replayEntries_eq]
  refine List.map_congr_left fun j hj => ?_
  have hbounds := List.mem_range'_1.mp hj
  rw [huser, hms.takes hbounds.1 (hlog j hbounds.1 hbounds.2)]

theorem MachineManager.recover_nil (E : Env) (config : Config) :
    recover E config [] = (0, { membership := .ofOptions config.membership }) := by
  simp [recover, cleanCheckpoint, CleanState.loop]

/-! ## The history of a process -/

/-- The instance and the value of a call of `Execute` that returned true. -/
def Event.applied : Event → Option (ℕ × PaxosValue)
  | .executed i v _ true => some (i, v)
  | .replayed i v true => some (i, v)
  | _ => none

/-- Whether an entry is the start of a process. -/
def Event.isStart : Event → Bool
  | .recovered _ _ => true
  | _ => false

/-- Whether an entry is one of a replay. -/
def Event.isReplay : Event → Bool
  | .replayed _ _ _ => true
  | _ => false

/-- The entries of the process that runs now, newest first: those since its start, and those of the
replay right before. -/
def currentProcess (trace : List Event) : List Event :=
  trace.takeWhile (fun e => !e.isStart) ++
    (trace.dropWhile fun e => !e.isStart).tail.takeWhile Event.isReplay

/-- What the machines of the process that runs now executed, oldest first. -/
def appliedValues (trace : List Event) : List (ℕ × PaxosValue) :=
  ((currentProcess trace).filterMap Event.applied).reverse

/-- The history of a node, of the process that runs now. -/
def Node.applied (x : Node) : List (ℕ × PaxosValue) := appliedValues x.trace

theorem appliedValues_append (h : ∀ e ∈ l, e.isStart = false) :
    appliedValues (l ++ trace) = appliedValues trace ++ (l.filterMap Event.applied).reverse := by
  have hstart : ∀ e ∈ l, (!e.isStart) = true := fun e he => by rw [h e he]; rfl
  unfold appliedValues currentProcess
  rw [List.takeWhile_append_of_pos hstart, List.dropWhile_append_of_pos hstart, List.append_assoc,
    List.filterMap_append, List.reverse_append]

/-- A process starts with what it replayed. -/
theorem appliedValues_recovered {ms : Membership} (hl : ∀ e ∈ l, e.isReplay = true)
    (hhead : ∀ e ∈ trace.head?, e.isReplay = false) :
    appliedValues (.recovered i ms :: (l ++ trace)) = (l.filterMap Event.applied).reverse := by
  have hrest : trace.takeWhile Event.isReplay = [] := by
    cases trace with
    | nil => rfl
    | cons e trace => exact List.takeWhile_cons_of_neg (by simp [hhead e rfl])
  have hstart : currentProcess (.recovered i ms :: (l ++ trace)) = l := by
    unfold currentProcess
    rw [List.takeWhile_cons_of_neg (by simp [Event.isStart]),
      List.dropWhile_cons_of_neg (by simp [Event.isStart]), List.tail_cons,
      List.takeWhile_append_of_pos hl, hrest, List.append_nil, List.nil_append]
  rw [appliedValues, hstart]

theorem mem_trace_of_applied {p : ℕ × PaxosValue} (h : p ∈ appliedValues trace) :
    ∃ e ∈ trace, e.applied = some p := by
  obtain ⟨e, he, hp⟩ := List.mem_filterMap.mp (List.mem_reverse.mp h)
  refine ⟨e, ?_, hp⟩
  rcases List.mem_append.mp he with he | he
  · exact (List.takeWhile_sublist _).mem he
  · exact (List.dropWhile_sublist _).mem (List.mem_of_mem_tail ((List.takeWhile_sublist _).mem he))

theorem Node.executes_of_applied {x : Node} {v : PaxosValue} (h : (i, v) ∈ x.applied) :
    x.executes i v = true := by
  obtain ⟨e, he, hp⟩ := mem_trace_of_applied h
  refine List.any_eq_true.mpr ⟨e, he, ?_⟩
  cases e with
  | executed j w c ok | replayed j w ok => cases ok <;> simp_all [Event.applied]
  | _ => cases hp

/-! ## One node -/

/-- The invariant of a node: its history goes from the first instance to the one before its own. -/
structure Node.Applies (x : Node) : Prop where
  positive : 1 ≤ x.instanceId
  ids : x.applied.map Prod.fst = List.range' 1 (x.instanceId - 1)
  /-- The newest entry is not one of a replay. -/
  head : ∀ e ∈ x.trace.head?, e.isReplay = false
  machines : x.machines.Below x.instanceId
  /-- What was executed can be executed again. -/
  executable : ∀ e ∈ x.trace, ∀ p, e.applied = some p → x.config.codec.executable p.2 = true

namespace Node.Applies

variable {R : Rules} {E : Env} {net : PaxosMessage → Prop} {x y : Node}

theorem newEvent {e : Event} (h : NewEvent R E net x y e)
    (hne : ¬ (x.learner.hasLearned = true ∧ y = Instance.checkLearn E x)) :
    e.applied = none ∧ e.isStart = false ∧ e.isReplay = false := by
  cases h with
  | quiet he => cases e <;> first | exact ⟨rfl, rfl, rfl⟩ | cases he
  | prepareReply _ _ he | acceptReply _ _ he =>
    rcases he with ⟨rfl, -⟩ | ⟨rfl, -⟩ <;> exact ⟨rfl, rfl, rfl⟩
  | executed hl hy => exact absurd ⟨hl, hy⟩ hne
  | _ => exact ⟨rfl, rfl, rfl⟩

theorem machines_eq (h : Act R E net x y)
    (hne : ¬ (x.learner.hasLearned = true ∧ y = Instance.checkLearn E x)) :
    y.machines = x.machines := by
  cases h.outerChange with
  | same h => exact h.machines
  | executed hl hok => exact absurd ⟨hl, (Instance.checkLearn_of_true hl hok).symm⟩ hne
  | failed hl hok => exact absurd ⟨hl, (Instance.checkLearn_of_false hl hok).symm⟩ hne
  | gcLoop db m g hrule hframe => rw [hframe]
  | _ => rfl

/-- New entries of no interest keep the invariant, where the node stays. -/
theorem append (h : x.Applies) (htrace : y.trace = l ++ x.trace)
    (hl : ∀ e ∈ l, e.applied = none ∧ e.isStart = false ∧ e.isReplay = false)
    (hid : y.instanceId = x.instanceId) (hcodec : y.config = x.config)
    (hms : y.machines.Below x.instanceId) : y.Applies where
  positive := by
    rw [hid]
    exact h.positive
  ids := by
    have hnone : l.filterMap Event.applied = [] :=
      List.filterMap_eq_nil_iff.mpr fun e he => (hl e he).1
    rw [Node.applied, htrace, appliedValues_append fun e he => (hl e he).2.1, hnone,
      List.reverse_nil, List.append_nil, hid]
    exact h.ids
  head e he := by
    rw [htrace] at he
    cases l with
    | nil => exact h.head e he
    | cons d l =>
      obtain rfl := Option.some.inj he
      exact (hl d List.mem_cons_self).2.2
  machines := by
    rw [hid]
    exact hms
  executable e he p hp := by
    rw [hcodec]
    rw [htrace] at he
    rcases List.mem_append.mp he with he | he
    · rw [(hl e he).1] at hp
      cases hp
    · exact h.executable e he p hp

/-- The entries of `CheckLearn`: the call, and the completion of a proposal after it. -/
theorem executionEvents_eq (E : Env) (x : Node) :
    ∃ l, Instance.executionEvents E x = l ++ [.executed x.instanceId x.learner.learnedValue
        (Instance.executeContext x) (Instance.execution E x).1] ∧
      ∀ e ∈ l, e.applied = none ∧ e.isStart = false ∧ e.isReplay = false := by
  refine ⟨_, rfl, fun e he => ?_⟩
  split_ifs at he
  · rw [List.mem_singleton.mp he]
    exact ⟨rfl, rfl, rfl⟩
  · cases he

/-- `CheckLearn` appends the value of the instance when `Execute` succeeds. -/
theorem checkLearn (h : x.Applies) (hl : x.learner.hasLearned = true) :
    (Instance.checkLearn E x).Applies := by
  obtain ⟨l, hevents, hquiet⟩ := executionEvents_eq E x
  have htrace := Instance.checkLearn_trace (E := E) hl
  rw [hevents, List.append_assoc, List.singleton_append] at htrace
  cases hok : (Instance.execution E x).1 with
  | false =>
    rw [hok, List.append_cons] at htrace
    rw [Instance.checkLearn_of_false hl hok] at htrace ⊢
    refine h.append htrace (fun e he => ?_) rfl rfl ?_
    · rcases List.mem_append.mp he with he | he
      · exact hquiet e he
      · rw [List.mem_singleton.mp he]
        exact ⟨rfl, rfl, rfl⟩
    · have hsame : (Instance.execution E x).2 = x.machines := Machines.execute_of_false hok
      simp only [Instance.afterExecute, hsame]
      exact h.machines
  | true =>
    rw [hok] at htrace
    rw [Instance.checkLearn_of_true hl hok] at htrace ⊢
    -- The node right after the call, in the next instance.
    have hcall : Node.Applies { x with
        instanceId := x.instanceId + 1, machines := (Instance.execution E x).2,
        trace := .executed x.instanceId x.learner.learnedValue (Instance.executeContext x) true ::
          x.trace } := by
      refine ⟨Nat.le_add_left 1 _, ?_, fun e he => ?_, h.machines.execute, fun e he p hp => ?_⟩
      · have happend : appliedValues ([.executed x.instanceId x.learner.learnedValue
            (Instance.executeContext x) true] ++ x.trace) = _ :=
          appliedValues_append (by simp [Event.isStart])
        rw [List.singleton_append] at happend
        have hids := h.ids
        rw [Node.applied] at hids ⊢
        rw [happend, List.map_append, hids]
        obtain ⟨k, hk⟩ := Nat.exists_eq_add_of_le h.positive
        simp [Event.applied, hk, List.range'_concat, Nat.add_comm]
      · obtain rfl := Option.some.inj he
        rfl
      · rcases List.mem_cons.mp he with rfl | he
        · obtain rfl := Option.some.inj hp
          exact Machines.executable_of_execute hok
        · exact h.executable e he p hp
    exact hcall.append htrace hquiet rfl rfl hcall.machines

theorem act (h : x.Applies) (hw : x.WF) (hact : Act R E net x y) :
    y.Applies := by
  by_cases hc : x.learner.hasLearned = true ∧ y = Instance.checkLearn E x
  · rw [hc.2]
    exact h.checkLearn hc.1
  · obtain ⟨l, htrace, hnew⟩ := hact.newEvents hw
    refine h.append htrace (fun e he => newEvent (hnew e he) hc)
      (hact.instanceId_eq.resolve_left hc) hact.config_eq ?_
    rw [machines_eq hact hc]
    exact h.machines

theorem fresh (config : Config) : (Node.fresh config).Applies where
  positive := le_refl 1
  ids := rfl
  head e he := by
    obtain rfl := Option.some.inj he
    rfl
  machines := Machines.below_one _
  executable e he p hp := by
    rw [List.mem_singleton.mp he] at hp
    cases hp

/-- The trace after a recovery without checkpoints. -/
theorem recover_trace {config : Config} {db : DB}
    (hrec : Node.recover E config db [] trace = some y) :
    ∃ a, Acceptor.readFromDB db = some a ∧ y.trace =
      .recovered y.instanceId y.machines.membership ::
        ((LogManager.replayEntries E config.codec db (a.instanceId - 1) 1 trace.length
          { membership := .ofOptions config.membership }).reverse ++ trace) := by
  unfold Node.recover at hrec
  simp only [Option.bind_eq_some_iff, Option.map_eq_some_iff, MachineManager.recover_nil] at hrec
  obtain ⟨a, hread, t, hreplay, rfl⟩ := hrec
  have htrace := (LogManager.replayLog_trace hreplay).2
  obtain ⟨machines, l, rfl, -⟩ := LogManager.replayLog_spec hreplay
  exact ⟨a, hread, congrArg _ htrace⟩

/-- A recovery without checkpoints, from a log of values that can be executed. -/
theorem recover (h : x.Applies) (hrec : Node.recover E x.config x.db [] x.trace = some y)
    (huser : ∀ k, E.executeOk k = true)
    (hlog : ∀ a j, Acceptor.readFromDB x.db = some a → 1 ≤ j → j < a.instanceId →
      x.config.codec.executable (LogManager.loggedValue x.db j) = true) : y.Applies := by
  obtain ⟨a, hread, htrace⟩ := recover_trace hrec
  obtain ⟨b, hspec⟩ := Node.recover_spec hrec
  obtain rfl : a = b := Option.some.inj (hread.symm.trans hspec.read)
  rw [LogManager.replayEntries_succeed huser (Machines.below_one _)
    fun j h1 h2 => hlog a j hread h1 (by omega)] at htrace
  have hid := hspec.instanceId
  rw [MachineManager.recover_nil] at hid
  refine ⟨by omega, ?_, fun e he => ?_, ?_, fun e he p hp => ?_⟩
  · have hreplays : ∀ e ∈ ((List.range' 1 (a.instanceId - 1)).map fun j =>
        Event.replayed j (LogManager.loggedValue x.db j) true).reverse, e.isReplay = true := by
      intro e he
      obtain ⟨j, -, rfl⟩ := List.mem_map.mp (List.mem_reverse.mp he)
      rfl
    have hlast : max (0 + 1) a.instanceId - 1 = a.instanceId - 1 := by omega
    rw [Node.applied, htrace, appliedValues_recovered hreplays h.head, hid, hlast]
    simp [List.filterMap_reverse, Event.applied, Function.comp_def]
  · rw [htrace] at he
    obtain rfl := Option.some.inj he
    rfl
  · refine hspec.machines (fun j ms => ms.Below j) ?_ fun j ms r ok _ _ hms _ => hms.execute
    rw [MachineManager.recover_nil]
    exact Machines.below_one _
  · rw [hspec.config_eq]
    rw [htrace] at he
    rcases List.mem_cons.mp he with rfl | he
    · cases hp
    · rcases List.mem_append.mp he with he | he
      · obtain ⟨j, hj, rfl⟩ := List.mem_map.mp (List.mem_reverse.mp he)
        obtain rfl := Option.some.inj hp
        have hbounds := List.mem_range'_1.mp hj
        exact hlog a j hread hbounds.1 (by omega)
      · exact h.executable e he p hp

end Node.Applies

/-! ## The group -/

/-- Whether a label is no restart in whose replay a machine of the users fails. -/
def ReplaysAt (a : Env × Label) : Prop := ∀ n, a.2 = .restart n → ∀ k, a.1.executeOk k = true

section

variable {C : Setup} {M : Finset ℕ} {s t : Sys} {a : Env × Label}

/-- A step of a run that meets the conditions keeps the invariants of agreement. -/
theorem LoggedConsensus.step (hC : C.HasMembers M) (hw : s.WF C) (h : LoggedConsensus M s)
    (hput : ∀ k, a.1.putOk k = true) (hok : AgreesAt s a = true)
    (hstep : System.step s a = some t) : t.WF C ∧ LoggedConsensus M t := by
  have hP := Policy.agreement_keepsAgreement M False
  have hrun : Reaches System.step (fun s a => (∀ k, a.1.putOk k = true) ∧ AgreesAt s a = true)
      s t := .tail a .refl ⟨hput, hok⟩ hstep
  refine Policy.invariant_from (P := Policy.agreement M False) hw hrun h ?_ ?_ ?_
  · exact fun s a hw h hok => h.permits hw hok.1 hok.2
  · exact fun s t hw h hst => h.micro hw hP id id hst
  · exact fun s n E dirs acc y hw h _ hwhy hrec => h.recover hw hP hC hwhy hrec

/-- What a node finds in its log can be executed: it is what the node executed before. -/
theorem LoggedConsensus.executable (h : LoggedConsensus M s) {n : ℕ} (happ : (s n).Applies)
    {acc : Acceptor} {j : ℕ} (hread : Acceptor.readFromDB (s n).db = some acc) (hj : 1 ≤ j)
    (hlt : j < acc.instanceId) :
    (s n).config.codec.executable (LogManager.loggedValue (s n).db j) = true := by
  have hle : acc.instanceId ≤ (s n).instanceId := by
    rcases Acceptor.readFromDB_spec hread with ⟨rfl, -⟩ | ⟨r, hr, -⟩
    · exact Nat.zero_le _
    · exact ((h.consensus.memory n).store.keys _ r hr).2
  have hids : j ∈ (s n).applied.map Prod.fst := by
    rw [happ.ids, List.mem_range'_1]
    omega
  obtain ⟨⟨i, v⟩, hmem, rfl⟩ := List.mem_map.mp hids
  obtain ⟨r, hr⟩ := (h.logged n).complete i hj (by omega)
  -- The record and the history both have the value that was decided.
  have hsame : r.acceptedValue = v := h.consensus.eq_of_decided
    ((h.consensus.learned n).records i r (by omega) hr)
    ((h.consensus.learned n).of_executes (Node.executes_of_applied hmem))
  obtain ⟨e, he, hp⟩ := mem_trace_of_applied hmem
  have hexec := happ.executable e he (i, v) hp
  simpa [LogManager.loggedValue, hr, hsame] using hexec

/-- Every step keeps the histories of the nodes. -/
theorem Node.Applies.step (hw : s.WF C) (h : LoggedConsensus M s) (happ : ∀ n, (s n).Applies)
    (hok : AgreesAt s a = true) (hreplays : ReplaysAt a) (hstep : System.step s a = some t) :
    ∀ n, (t n).Applies := by
  obtain ⟨E, l⟩ := a
  cases l with
  | node n ev =>
    simp only [System.step, Option.ite_none_right_eq_some, Option.map_eq_some_iff] at hstep
    obtain ⟨-, y, hy, rfl⟩ := hstep
    have hchain := Node.step_chain (hw n).1 (Rules.allows_default E (s n) ev) hy
    refine Sys.forall_update (Q := fun _ x => x.Applies) happ ?_
    exact (invariant_of_actions (P := fun z => z.WF ∧ z.Applies)
      (fun u v hu hact => ⟨hact.wf hu.1, hu.2.act hu.1 hact⟩) hchain ⟨(hw n).1, happ n⟩).2
  | restart n =>
    simp only [System.step, Option.map_eq_some_iff, (h.logged n).checkpoints] at hstep
    obtain ⟨y, hy, rfl⟩ := hstep
    refine Sys.forall_update (Q := fun _ x => x.Applies) happ ?_
    exact (happ n).recover hy (hreplays n rfl)
      fun acc j hread hj hlt => h.executable (happ n) hread hj hlt
  | install n source c => cases hok

/-- **The replicated log.** In every run of a group with the members `M` whose steps meet the
conditions of agreement, and in whose restarts the machines of the users do not fail, there is one
log such that the machines of each node have executed its values from the first instance to the one
before the node's, each once and in order. -/
theorem replicated_log
    (hC : ∀ n, (Membership.ofOptions (C.config n).membership).ids.toFinset = M)
    (hrun : Reaches System.step (fun s a => (∀ k, a.1.putOk k = true) ∧ AgreesAt s a = true ∧
      ReplaysAt a) (System.init C) s) :
    ∃ log : ℕ → PaxosValue, ∀ n, (s n).applied =
      (List.range' 1 ((s n).instanceId - 1)).map fun i => (i, log i) := by
  obtain ⟨-, hcons, happ⟩ : s.WF C ∧ LoggedConsensus M s ∧ ∀ n, (s n).Applies := by
    refine hrun.invariant (P := fun s => s.WF C ∧ LoggedConsensus M s ∧ ∀ n, (s n).Applies)
      ⟨System.wf_init C, .init hC, fun n => .fresh _⟩ ?_
    rintro s t a ⟨hw, hcons, happ⟩ ⟨hput, hok, hreplays⟩ hstep
    obtain ⟨hw', hcons'⟩ := hcons.step hC hw hput hok hstep
    exact ⟨hw', hcons', Node.Applies.step hw hcons happ hok hreplays hstep⟩
  classical
  refine ⟨fun i => if h : ∃ v, s.Decided M i v then h.choose else {}, fun n => ?_⟩
  rw [← (happ n).ids, List.map_map]
  refine (List.map_id _).symm.trans (List.map_congr_left fun p hp => ?_)
  obtain ⟨i, v⟩ := p
  have hdecided := (hcons.consensus.learned n).of_executes (Node.executes_of_applied hp)
  have hsome : ∃ w, s.Decided M i w := ⟨v, hdecided⟩
  simp only [Function.comp_apply, dif_pos hsome, id_eq]
  rw [hcons.consensus.eq_of_decided hdecided hsome.choose_spec]

end

/-- After the first choice node 2 hears of it, accepts the value of the second instance, and
restarts with a replay of the first one. -/
def secondAccepted : List (Env × Label) := nextAccept ++
  ([({}, .node 2 (.paxosMessage
      { type := .newChosenValue, nodeId := 1, instanceId := 1, proposalId := 1 })),
    ({}, .node 2 (.paxosMessage secondAccept)), ({}, .restart 2)] : List (Env × Label))

/-- Node 1 has executed the first value, node 2 has replayed it, and node 3 has not heard of it. -/
theorem replicated_log_trio : ∃ s : Sys, ∃ log : ℕ → PaxosValue,
    (s 1).applied = [(1, log 1)] ∧ (s 2).applied = [(1, log 1)] ∧ (s 3).applied = [] := by
  have hend : (runChecked System.step AgreesAt (System.init (.uniform trioMember))
      secondAccepted).map (fun s => ((s 1).instanceId, (s 2).instanceId, (s 3).instanceId)) =
        some (2, 2, 1) := by
    decide +kernel
  obtain ⟨s, hs, hids⟩ := Option.map_eq_some_iff.mp hend
  simp only [Prod.mk.injEq] at hids
  obtain ⟨h1, h2, h3⟩ := hids
  have hdefault : ∀ a ∈ secondAccepted, a.1 = {} := by
    simp [secondAccepted, nextAccept, firstChosen, firstAccept]
  have hrun : Reaches System.step (fun s a => (∀ k, a.1.putOk k = true) ∧ AgreesAt s a = true ∧
      ReplaysAt a) (System.init (.uniform trioMember)) s := by
    refine Reaches.of_runChecked secondAccepted (fun a ha _ hok => ⟨?_, hok, ?_⟩) hs
    · exact fun k => by rw [hdefault a ha]
    · exact fun n _ k => by rw [hdefault a ha]
  obtain ⟨log, hlog⟩ := replicated_log trio_members hrun
  refine ⟨s, log, ?_, ?_, ?_⟩
  · rw [hlog, h1]
    rfl
  · rw [hlog, h2]
    rfl
  · rw [hlog, h3]
    rfl

end Skywalker
