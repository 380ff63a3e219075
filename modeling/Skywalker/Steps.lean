import Skywalker.Store
import Skywalker.Recovery

/-!
# Invariants of the system

A step of the system is an event of one node, which is a chain of actions, or a recovery. `Micro` is
one action of one node of the system. `Policy` collects what a class of runs asks of its steps, and
`Policy.invariant` is the induction that every property of runs goes through: the property holds at
the start and is kept by each action and by each recovery that the policy permits.
-/

namespace Skywalker

open TransitionSystem Relation

variable {C : Setup} {s t : Sys} {y : Node} {n : ℕ} {Q : ℕ → Node → Prop}
  {ok : Sys → Env × Label → Prop}

/-- What a run asks of its steps. -/
structure Policy where
  /-- On the decisions of the nodes. -/
  rules : Rules := {}
  /-- On the environment of a step. -/
  env : Env → Prop := fun _ => True
  /-- On the state in which a node restarts. -/
  restart : Sys → ℕ → Prop := fun _ _ => True
  /-- On the state in which a node installs the checkpoint of another and restarts. -/
  install : Sys → ℕ → ℕ → ℕ → Prop := fun _ _ _ _ => True

/-- Whether a policy permits a step in a state, if it is enabled there. -/
def Policy.Permits (P : Policy) (s : Sys) (a : Env × Label) : Prop :=
  P.env a.1 ∧
  match a.2 with
  | .node n ev => System.allowed s n ev = true →
      P.rules.Allows a.1 (fun m => s.inFlight n m = true) (s n) ev
  | .restart n => P.restart s n
  | .install n source checkpointId => P.install s n source checkpointId

/-- Each recovery that a policy permits: of a node on its own checkpoints, or with one of another
node added to them. -/
def Policy.Recovers (P : Policy) (s : Sys) (n : ℕ) (dirs : List (ℕ × Machines)) : Prop :=
  (P.restart s n ∧ dirs = (s n).checkpoints) ∨
    ∃ source c saved, P.install s n source c ∧ c ∉ (s n).checkpoints.map Prod.fst ∧
      (s source).checkpoints.lookup c = some saved ∧ dirs = (c, saved) :: (s n).checkpoints

theorem mem_of_lookup {dirs : List (ℕ × Machines)} {c : ℕ} {saved : Machines}
    (h : dirs.lookup c = some saved) : (c, saved) ∈ dirs := by
  obtain ⟨l₁, l₂, hl, -⟩ := List.lookup_eq_some_iff.mp h
  rw [hl]
  exact List.mem_append_right _ List.mem_cons_self

/-- What holds of the checkpoints of all nodes holds of the directories that a recovery reads. -/
theorem Policy.Recovers.forall_dirs {P : Policy} {dirs : List (ℕ × Machines)}
    {Q : ℕ × Machines → Prop} (h : P.Recovers s n dirs) (hQ : ∀ n, ∀ d ∈ (s n).checkpoints, Q d) :
    ∀ d ∈ dirs, Q d := by
  rcases h with ⟨-, rfl⟩ | ⟨source, c, saved, -, -, hlookup, rfl⟩
  · exact hQ n
  · exact List.forall_mem_cons.mpr ⟨hQ source _ (mem_of_lookup hlookup), hQ n⟩

/-- The messages that can reach a node. -/
abbrev Sys.Network (s : Sys) (n : ℕ) (m : PaxosMessage) : Prop := s.inFlight n m = true

/-- One action of one node of the system. -/
inductive Micro (P : Policy) (s : Sys) : Sys → Prop where
  | mk (n : ℕ) (E : Env) (y : Node) (henv : P.env E)
      (hact : Act P.rules E (fun m => s.inFlight n m = true) (s n) y) :
      Micro P s (Function.update s n y)

/-- Every node is well formed and has the configuration of its id. -/
def Sys.WF (C : Setup) (s : Sys) : Prop := ∀ n, (s n).WF ∧ (s n).config = C.config n

theorem Sys.WF.nodeId (h : s.WF C) (n : ℕ) : (s n).nodeId = n := by
  unfold Node.nodeId
  rw [(h n).2, C.nodeId_eq]

/-! ## Actions in the system -/

section

variable {R : Rules} {E : Env} {net net' : PaxosMessage → Prop}

/-- More messages in the network allow more actions. -/
theorem Act.mono {x : Node} (h : Act R E net x y) (hnet : ∀ m, net m → net' m) :
    Act R E net' x y := by
  have hans : ∀ m, Answered net x m → Answered net' x m := fun m hm => hm.imp (hnet m) id
  have hann : ∀ m, Announced net x m → Announced net' x m := by
    rintro m (⟨hm, ht⟩ | hm | ⟨m', hm', hrest⟩)
    · exact Or.inl ⟨hnet m hm, ht⟩
    · exact Or.inr (Or.inl hm)
    · exact Or.inr (Or.inr ⟨m', hnet m' hm', hrest⟩)
  cases h with
  | quiet h => exact .quiet h
  | setNow hidle => exact .setNow hidle
  | propose machineId value context draw h1 h2 h3 h4 =>
    exact .propose machineId value context draw h1 h2 h3 h4
  | timeout => exact .timeout
  | openRound z v h1 h2 h3 => exact .openRound z v h1 h2 h3
  | beginRound z v h1 h2 h3 h4 => exact .beginRound z v h1 h2 h3 h4
  | takePrepare m hm h1 h2 h3 => exact .takePrepare m (hnet m hm) h1 h2 h3
  | countPrepare m hm h1 h2 h3 h4 => exact .countPrepare m (hans m hm) h1 h2 h3 h4
  | passPrepare m hm h1 h2 h3 h4 h5 => exact .passPrepare m (hans m hm) h1 h2 h3 h4 h5
  | directAccept h1 h2 h3 h4 h5 => exact .directAccept h1 h2 h3 h4 h5
  | takeAccept m hm h1 h2 h3 => exact .takeAccept m (hm.imp (hnet m) id) h1 h2 h3
  | countAccept m hm h1 h2 h3 h4 => exact .countAccept m (hans m hm) h1 h2 h3 h4
  | passAccept m hm h1 h2 h3 h4 h5 => exact .passAccept m (hans m hm) h1 h2 h3 h4 h5
  | giveUp m hm h1 h2 h3 => exact .giveUp m (hans m hm) h1 h2 h3
  | learn m hm h1 h2 => exact .learn m (hann m hm) h1 h2
  | learnValue m hm h1 h2 h3 h4 => exact .learnValue m (hnet m hm) h1 h2 h3 h4
  | tellFollowers b h hb =>
    obtain ⟨m, hm, hballot⟩ := hb
    exact .tellFollowers b h ⟨m, hm.imp (hann m) (And.imp_left (hnet m)), hballot⟩
  | checkLearn h => exact .checkLearn h
  | serve dest i r h1 h2 => exact .serve dest i r h1 h2
  | finishCheckpoint h1 h2 h3 => exact .finishCheckpoint h1 h2 h3
  | gcLoop h => exact .gcLoop h

theorem Act.config_eq {x : Node} (h : Act R E net x y) : y.config = x.config := by
  cases h.outerChange with
  | same h => exact h.config
  | gcLoop db m g hrule hframe => rw [hframe]
  | _ => rfl

theorem Sys.inFlight_mono (h : ∀ k e, e ∈ (s k).trace → e ∈ (t k).trace) {m : PaxosMessage}
    (hm : s.inFlight n m = true) : t.inFlight n m = true := by
  unfold Sys.inFlight at hm ⊢
  rw [List.any_eq_true] at hm ⊢
  obtain ⟨e, he, hd⟩ := hm
  exact ⟨e, h _ e he, hd⟩

end

/-- What holds of one node, and of all others before a change that leaves them alone, holds of every
node after it. -/
theorem Sys.forall_of_others (hother : ∀ k, k ≠ n → t k = s k) (hs : ∀ k, k ≠ n → Q k (s k))
    (hn : Q n (t n)) (k : ℕ) :
    Q k (t k) := by
  by_cases hk : k = n
  · exact hk ▸ hn
  · rw [hother k hk]
    exact hs k hk

/-- What holds of every node holds after an update when it holds of the new node. -/
theorem Sys.forall_update (hs : ∀ k, Q k (s k)) (hy : Q n y) (k : ℕ) :
    Q k (Function.update s n y k) := by
  refine Sys.forall_of_others (fun j hj => Function.update_of_ne hj y s) (fun j _ => hs j) ?_ k
  rwa [Function.update_self]

theorem Sys.trace_update (h : ∀ e ∈ (s n).trace, e ∈ y.trace) :
    ∀ k e, e ∈ (s k).trace → e ∈ (Function.update s n y k).trace :=
  Sys.forall_update (Q := fun k x => ∀ e, e ∈ (s k).trace → e ∈ x.trace) (fun _ _ he => he) h

/-- What every action of a node keeps holds of all nodes after an action of the system. -/
theorem Micro.forall_node {P : Policy} (h : Micro P s t) (hs : ∀ k, Q k (s k))
    (hact : ∀ n E y, P.env E → Act P.rules E (s.Network n) (s n) y → Q n y) (k : ℕ) :
    Q k (t k) := by
  obtain ⟨n, E, y, henv, hy⟩ := h
  exact Sys.forall_update hs (hact n E y henv hy) k

/-- An update keeps a system well formed when the new node is, with the same configuration. -/
theorem Sys.WF.update (h : s.WF C) (hy : y.WF) (hc : y.config = (s n).config) :
    Sys.WF C (Function.update s n y) :=
  Sys.forall_update (Q := fun k x => x.WF ∧ x.config = C.config k) h ⟨hy, hc.trans (h n).2⟩

theorem Sys.WF.micro {P : Policy} (h : s.WF C) (hst : Micro P s t) :
    t.WF C := by
  obtain ⟨n, E, y, -, hact⟩ := hst
  exact h.update (hact.wf (h n).1) hact.config_eq

/-- A chain of actions of one node is a chain of actions of the system. -/
theorem Micro.of_chain {P : Policy} (hw : s.WF C) {E : Env} (henv : P.env E)
    (h : Chain P.rules E (s.Network n) (s n) y) :
    ReflTransGen (Micro P) s (Function.update s n y) := by
  have hgoal : y.WF ∧ (∀ e ∈ (s n).trace, e ∈ y.trace) ∧
      ReflTransGen (Micro P) s (Function.update s n y) := by
    induction h with
    | refl =>
      refine ⟨(hw n).1, fun e he => he, ?_⟩
      rw [Function.update_eq_self]
    | @tail x y _ hact ih =>
      obtain ⟨hx, hgrow, hrun⟩ := ih
      refine ⟨hact.wf hx, fun e he => hact.trace_mono hx (hgrow e he), hrun.tail ?_⟩
      have hact' : Act P.rules E (fun m => Sys.inFlight (Function.update s n x) n m = true)
          (Function.update s n x n) y := by
        rw [Function.update_self]
        exact hact.mono fun m hm => Sys.inFlight_mono (Sys.trace_update hgrow) hm
      have hmicro := Micro.mk n E y henv hact'
      rwa [Function.update_idem] at hmicro
  exact hgoal.2.2

/-! ## The induction over runs -/

/-- The node that a label is about. -/
def Label.target : Label → ℕ
  | .node n _ => n
  | .restart n => n
  | .install n _ _ => n

/-- A step changes one node: by an event of it, or by a recovery on its disk. -/
theorem System.step_target {a : Env × Label} (h : System.step s a = some t) :
    ∃ y, t = Function.update s a.2.target y ∧
      ((∃ ev, a.2 = .node a.2.target ev ∧ (s a.2.target).step a.1 ev = some y) ∨
        ∃ dirs, Node.recover a.1 (s a.2.target).config (s a.2.target).db dirs
          (s a.2.target).trace = some y) := by
  obtain ⟨E, l⟩ := a
  unfold System.step at h
  cases l with
  | node n ev =>
    simp only [Option.ite_none_right_eq_some, Option.map_eq_some_iff] at h
    obtain ⟨-, y, hy, rfl⟩ := h
    exact ⟨y, rfl, Or.inl ⟨ev, rfl, hy⟩⟩
  | restart n =>
    simp only [Option.map_eq_some_iff] at h
    obtain ⟨y, hy, rfl⟩ := h
    exact ⟨y, rfl, Or.inr ⟨_, hy⟩⟩
  | install n source c =>
    simp only [Option.ite_none_left_eq_some, Option.bind_eq_some_iff, Option.map_eq_some_iff] at h
    obtain ⟨-, saved, -, y, hy, rfl⟩ := h
    exact ⟨y, rfl, Or.inr ⟨_, hy⟩⟩

/-- A node that no step of a run is about stays as it was. -/
theorem System.eq_of_not_target {l : List ℕ} {s₀ : Sys}
    (hrun : Reaches System.step (fun _ a => a.2.target ∈ l) s₀ s) (hn : n ∉ l) :
    s n = s₀ n := by
  refine hrun.invariant (P := fun s => s n = s₀ n) rfl fun s t a hs hok hstep => ?_
  obtain ⟨y, rfl, -⟩ := System.step_target hstep
  have hne : n ≠ a.2.target := fun heq => hn (heq ▸ hok)
  rw [Function.update_of_ne hne]
  exact hs

/-- What a step of the system is. -/
theorem System.step_cases {P : Policy} {a : Env × Label} (hw : s.WF C) (hok : P.Permits s a)
    (h : System.step s a = some t) :
    ReflTransGen (Micro P) s t ∨
    ∃ n dirs acc y, (s n).Restarts a.1 dirs acc y ∧
      t = Function.update s n y ∧ P.Recovers s n dirs := by
  obtain ⟨E, l⟩ := a
  obtain ⟨henv, hok⟩ := hok
  unfold System.step at h
  cases l with
  | node n ev =>
    simp only [Option.ite_none_right_eq_some, Option.map_eq_some_iff] at h
    obtain ⟨hallowed, y, hy, rfl⟩ := h
    exact Or.inl (Micro.of_chain hw henv (Node.step_chain (hw n).1 (hok hallowed) hy))
  | restart n =>
    simp only [Option.map_eq_some_iff] at h
    obtain ⟨y, hy, rfl⟩ := h
    obtain ⟨acc, hacc⟩ := Node.recover_spec hy
    exact Or.inr ⟨n, _, acc, y, hacc, rfl, Or.inl ⟨hok, rfl⟩⟩
  | install n source c =>
    simp only [Option.ite_none_left_eq_some, Option.bind_eq_some_iff,
      Option.map_eq_some_iff] at h
    obtain ⟨hnew, saved, hsaved, y, hy, rfl⟩ := h
    obtain ⟨acc, hacc⟩ := Node.recover_spec hy
    exact Or.inr ⟨n, _, acc, y, hacc, rfl, Or.inr ⟨source, c, saved, hok, hnew, hsaved, rfl⟩⟩

theorem System.wf_init (C : Setup) : (System.init C).WF C :=
  fun n => ⟨Node.wf_fresh (C.config n), rfl⟩

/-- The induction over the runs that a policy permits, from any well-formed state. -/
theorem Policy.invariant_from {P : Policy} {I : Sys → Prop} {s₀ : Sys} (hw₀ : s₀.WF C)
    (hrun : Reaches System.step ok s₀ s) (hinit : I s₀)
    (hok : ∀ s a, s.WF C → I s → ok s a → P.Permits s a)
    (hmicro : ∀ s t, s.WF C → I s → Micro P s t → I t)
    (hrecover : ∀ s n E dirs a y, s.WF C → I s → P.env E → P.Recovers s n dirs →
      (s n).Restarts E dirs a y →
      I (Function.update s n y)) : s.WF C ∧ I s := by
  refine hrun.invariant (P := fun s => s.WF C ∧ I s) ⟨hw₀, hinit⟩ ?_
  intro s t a hs hoks hstep
  have hperm := hok s a hs.1 hs.2 hoks
  rcases System.step_cases hs.1 hperm hstep with hchain | ⟨n, dirs, acc, y, hrec, rfl, hwhy⟩
  · refine invariant_of_actions (P := fun s => s.WF C ∧ I s) ?_ hchain hs
    intro u v hu huv
    exact ⟨hu.1.micro huv, hmicro u v hu.1 hu.2 huv⟩
  · refine ⟨hs.1.update hrec.wf hrec.config_eq, ?_⟩
    exact hrecover s n a.1 dirs acc y hs.1 hs.2 hperm.1 hwhy hrec

/-- **The induction over the runs that a policy permits.** -/
theorem Policy.invariant {P : Policy} {I : Sys → Prop}
    (hrun : Reaches System.step ok (System.init C) s) (hinit : I (System.init C))
    (hok : ∀ s a, s.WF C → I s → ok s a → P.Permits s a)
    (hmicro : ∀ s t, s.WF C → I s → Micro P s t → I t)
    (hrecover : ∀ s n E dirs a y, s.WF C → I s → P.env E → P.Recovers s n dirs →
      (s n).Restarts E dirs a y →
      I (Function.update s n y)) : s.WF C ∧ I s :=
  Policy.invariant_from (System.wf_init C) hrun hinit hok hmicro hrecover

end Skywalker
