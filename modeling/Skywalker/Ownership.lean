import Skywalker.Proposing
import Skywalker.Validity

/-!
# Whose value a completion is for

`CheckLearn` takes a learned value for the node's own when its id is that of the outstanding
proposal. The id is made of the clock, a random number and a counter of eight bits, and of nothing
that belongs to the node. As long as no proposal draws the id of another value that was built
before, a completion with `OK` is for the machine and the data that were proposed; when two nodes
draw the same id, a node can report `OK` for the other's value.
-/

namespace Skywalker

open TransitionSystem

variable {i now : ℕ} {v : PaxosValue} {s t : Sys} {a : Env × Label} {C : Setup}

/-! ## What an event proposes -/

/-- What an event hands to `OnPropose`: the machine id, the data and the number that is drawn. -/
def NodeEvent.proposal (x : Node) : NodeEvent → Option (ℕ × List UInt8 × ℕ)
  | .propose machineId value _ draw => some (machineId, value, draw)
  | .tryBeMaster draw => some (masterMachineId, Group.masterBytes x, draw)
  | _ => none

/-- No handler adds a proposal to the trace. -/
theorem ClientChain.mem_proposed {x y : Node} (h : ClientChain x y)
    (hv : .proposed i now v ∈ y.trace) : .proposed i now v ∈ x.trace := by
  refine invariant_of_actions (P := fun y => .proposed i now v ∈ y.trace →
      .proposed i now v ∈ x.trace)
    ?_ h id hv
  intro s t hs hst ht
  refine hs ?_
  cases hst with
  | same hxy =>
    obtain ⟨l, hl, hq⟩ := hxy.trace
    rw [hl] at ht
    rcases List.mem_append.mp ht with ht | ht
    · cases hq _ ht
    · exact ht
  | checkLearn E =>
    by_cases hl : s.learner.hasLearned = true
    · rw [Instance.checkLearn_trace hl] at ht
      rcases List.mem_append.mp ht with ht | ht
      · unfold Instance.executionEvents at ht
        split_ifs at ht <;> simp at ht
      · exact ht
    · rwa [Instance.checkLearn, if_neg hl] at ht
  | _ => exact ht

/-- A proposal in the trace of a node was there before an event, or the event made it, for the
node's instance and at the time of the event. -/
theorem Node.step_proposed {E : Env} {x y : Node} {ev : NodeEvent} (h : x.step E ev = some y)
    (hv : .proposed i now v ∈ y.trace) :
    .proposed i now v ∈ x.trace ∨
      (i = x.instanceId ∧ now = E.nowMillis ∧
        ∃ draw, ev.proposal x = some (v.machineId, v.userData, draw) ∧ drawOk draw = true ∧
          v.valueId = idBits E.nowMillis draw x.seqNum) := by
  obtain ⟨z, hev, hchain⟩ := Node.step_client h
  have hz := hchain.mem_proposed hv
  cases hev with
  | propose hidle hdraw =>
    rcases List.mem_cons.mp hz with heq | hold
    · obtain ⟨rfl, rfl, rfl⟩ := Event.proposed.inj heq
      exact Or.inr ⟨rfl, rfl, _, rfl, hdraw, rfl⟩
    · exact Or.inl hold
  | proposeInvalid =>
    rcases List.mem_cons.mp hz with heq | hold
    · cases heq
    · exact Or.inl hold
  | tryBeMaster hidle hdraw =>
    rcases List.mem_cons.mp hz with heq | hold
    · obtain ⟨rfl, rfl, rfl⟩ := Event.proposed.inj heq
      exact Or.inr ⟨rfl, rfl, _, rfl, hdraw, rfl⟩
    · exact Or.inl hold
  | tryBeMasterConflict | timeout =>
    rcases List.mem_cons.mp hz with heq | hold
    · cases heq
    · exact Or.inl hold
  | timer | other => exact Or.inl hz

/-- A proposal in the trace of a node was there before a step, or the step is an event of the node
that made it. -/
theorem System.step_proposed (h : System.step s a = some t) {n : ℕ}
    (hv : .proposed i now v ∈ (t n).trace) :
    .proposed i now v ∈ (s n).trace ∨
      (i = (s n).instanceId ∧ now = a.1.nowMillis ∧
        ∃ ev draw, a.2 = .node n ev ∧
          ev.proposal (s n) = some (v.machineId, v.userData, draw) ∧ drawOk draw = true ∧
          v.valueId = idBits a.1.nowMillis draw (s n).seqNum) := by
  obtain ⟨y, rfl, hy⟩ := System.step_target h
  by_cases hn : n = a.2.target
  · subst hn
    rw [Function.update_self] at hv
    rcases hy with ⟨ev, hev, hstep⟩ | ⟨dirs, hrec⟩
    · rcases Node.step_proposed hstep hv with hold | ⟨hi, hnow, draw, hmade⟩
      · exact .inl hold
      · exact .inr ⟨hi, hnow, ev, draw, hev, hmade⟩
    · obtain ⟨acc, hrecovered⟩ := Node.recover_spec hrec
      exact .inl (hrecovered.mem_old hv rfl)
  · rw [Function.update_of_ne hn] at hv
    exact .inl hv

/-! ## Values with one id -/

/-- The condition on a step: a proposal does not draw the id of a value that was built before for
another machine or with other data. -/
def DistinctId (s : Sys) (a : Env × Label) : Prop :=
  match a.2 with
  | .node n ev => ∀ machineId data draw, ev.proposal (s n) = some (machineId, data, draw) →
      ∀ v, s.Built v → v.valueId = idBits a.1.nowMillis draw (s n).seqNum →
        v.machineId = machineId ∧ v.userData = data
  | _ => True

/-- Built values with one id are for one machine and have the same data, and every one has an id. -/
structure Sys.Distinct (s : Sys) : Prop where
  same : ∀ v w, s.Built v → s.Built w → v.valueId = w.valueId →
    v.machineId = w.machineId ∧ v.userData = w.userData
  positive : ∀ v, s.Built v → 0 < v.valueId

/-- A value that is built after a step was built before, or by the step. -/
theorem System.step_built (h : System.step s a = some t) (hv : t.Built v) :
    s.Built v ∨ ∃ ev draw, a.2 = .node a.2.target ev ∧
      ev.proposal (s a.2.target) = some (v.machineId, v.userData, draw) ∧ drawOk draw = true ∧
        v.valueId = idBits a.1.nowMillis draw (s a.2.target).seqNum := by
  obtain ⟨n, i, now, hmem⟩ := hv
  rcases System.step_proposed h hmem with hold | ⟨-, -, ev, draw, hlabel, hmade⟩
  · exact .inl ⟨n, i, now, hold⟩
  · have htarget : a.2.target = n := by rw [hlabel]; rfl
    rw [htarget]
    exact .inr ⟨ev, draw, hlabel, hmade⟩

/-- A step that meets the condition keeps ids apart. -/
theorem Sys.Distinct.step (h : s.Distinct) (hok : DistinctId s a) (hst : System.step s a = some t) :
    t.Distinct where
  same v w hv hw hid := by
    -- A new value against one that was there.
    have hnew : ∀ {v w : PaxosValue} {ev draw}, a.2 = .node a.2.target ev →
        ev.proposal (s a.2.target) = some (v.machineId, v.userData, draw) →
        v.valueId = idBits a.1.nowMillis draw (s a.2.target).seqNum → s.Built w →
        w.valueId = v.valueId → w.machineId = v.machineId ∧ w.userData = v.userData := by
      intro v w ev draw hlabel hprop hvid hbuilt heq
      unfold DistinctId at hok
      rw [hlabel] at hok
      exact hok _ _ _ hprop w hbuilt (heq.trans hvid)
    rcases System.step_built hst hv with hv | ⟨ev, draw, hlabel, hprop, -, hvid⟩ <;>
      rcases System.step_built hst hw with hw | ⟨ev', draw', hlabel', hprop', -, hwid⟩
    · exact h.same v w hv hw hid
    · exact hnew hlabel' hprop' hwid hv hid
    · obtain ⟨h1, h2⟩ := hnew hlabel hprop hvid hw hid.symm
      exact ⟨h1.symm, h2.symm⟩
    · -- One step builds one value.
      rw [hlabel] at hlabel'
      obtain ⟨-, rfl⟩ := Label.node.inj hlabel'
      rw [hprop] at hprop'
      simp only [Option.some.injEq, Prod.mk.injEq] at hprop'
      exact ⟨hprop'.1, hprop'.2.1⟩
  positive v hv := by
    rcases System.step_built hst hv with hv | ⟨ev, draw, -, -, hdraw, hid⟩
    · exact h.positive v hv
    · rw [hid]
      exact idBits_pos hdraw

/-! ## The values that nodes handle -/

/-- A value was built, or is that of an unset field. -/
def Sys.Known (s : Sys) (v : PaxosValue) : Prop := s.Built v ∨ v = {}

theorem Sys.Known.grow (h : s.Known v) (hgrow : s.Grows t) :
    t.Known v := by
  rcases h with ⟨n, i, now, he⟩ | rfl
  · exact Or.inl ⟨n, i, now, hgrow n _ he⟩
  · exact Or.inr rfl

theorem Held.const {Ok : PaxosValue → Prop} {p : ℕ} (h : Held Ok Ok p v) : Ok v := by
  unfold Held at h
  rwa [ite_self] at h

/-- In every run, nodes handle known values only. -/
theorem values_known {ok : Sys → Env × Label → Prop}
    (hrun : Reaches System.step ok (System.init C) s) : s.Values s.Known s.Known := by
  refine (Policy.invariant (P := {}) (I := fun s => Traced s ∧ s.Values s.Known s.Known) hrun
    ⟨.init C, .init (Or.inr rfl) C⟩ ?_ ?_ ?_).2.2
  · exact fun s a _ _ _ =>
      Policy.permits_free rfl trivial (fun _ _ => trivial) fun _ _ _ _ => trivial
  · rintro s t hw ⟨htr, hvalues⟩ hst
    obtain ⟨_, _, _, _, _, hgrow, _⟩ := hst.newEvents hw
    have hweak : ∀ v, s.Known v → t.Known v := fun v hv => hv.grow hgrow
    have hold : s.Values t.Known t.Known := fun n => (hvalues n).mono hweak hweak
    refine ⟨htr.micro hw hst, hold.micro (fun _ => id) (Or.inr rfl) hw htr hst ?_ ?_⟩
    · exact fun n i r _ _ hheld => hheld.const
    · intro n E machineId value context draw _ _ _ hy
      refine Or.inl ⟨n, (s n).instanceId, E.nowMillis, ?_⟩
      rw [hy]
      exact List.mem_cons_self
  · rintro s n E dirs a y hw ⟨htr, hvalues⟩ - - hrec
    have hgrow := hrec.grows.1
    have hweak : ∀ v, s.Known v → Sys.Known (Function.update s n y) v := fun v hv => hv.grow hgrow
    refine ⟨htr.recover hgrow hrec.grows.2, ?_⟩
    have hrecovered := hvalues.recover (Or.inr rfl) hrec fun i r _ _ hheld => hheld.const
    exact fun k => (hrecovered k).mono hweak hweak

/-! ## Completions -/

theorem System.owned_step (h : ∀ n, (s n).Owned) (hst : System.step s a = some t) (n : ℕ) :
    (t n).Owned := by
  obtain ⟨y, rfl, ⟨ev, -, hy⟩ | ⟨dirs, hy⟩⟩ := System.step_target hst
  · exact Sys.forall_update (Q := fun _ x => x.Owned) h ((h _).of_step hy) n
  · exact Sys.forall_update (Q := fun _ x => x.Owned) h ((h _).recover hy) n

theorem Sys.built_of_lastProposed {n : ℕ} {l₁ l₂ : List Event} {w : PaxosValue}
    (htr : (s n).trace = l₁ ++ l₂) (hw : lastProposed l₂ = some w) : s.Built w := by
  obtain ⟨e, he, hsome⟩ := List.exists_of_findSome?_eq_some hw
  cases e with
  | proposed i now v =>
    obtain rfl := Option.some.inj hsome
    exact ⟨n, i, now, htr ▸ List.mem_append_right _ he⟩
  | _ => cases hsome

/-- **A completion with `OK` is for the own value.** In every run in which no proposal draws the id
of a different value that was built before: when a proposal of a node completes with `OK` at an
instance, the value that the node executed there has the machine id and the data of the proposal,
which is the last one that the node started. -/
theorem ok_completes_own_value {C : Setup} {s : Sys}
    (hrun : Reaches System.step DistinctId (System.init C) s) {n i : ℕ} {status : Status}
    {l₁ l₂ : List Event} (hdone : (s n).trace = l₁ ++ .completed i status :: l₂)
    (hok : status.code = .ok) :
    ∃ v c rest w, l₂ = .executed i v c true :: rest ∧ lastProposed rest = some w ∧
      v.machineId = w.machineId ∧ v.userData = w.userData := by
  have howned : ∀ n, (s n).Owned := by
    refine hrun.invariant (P := fun s => ∀ n, (s n).Owned) ?_ fun _ _ _ h _ hst =>
      System.owned_step h hst
    exact fun n => ⟨nofun, trivial, trivial⟩
  have hdistinct : s.Distinct := by
    refine hrun.invariant ⟨?_, ?_⟩ fun _ _ _ h hd hst => h.step hd hst
    · rintro v w ⟨k, j, now, hmem⟩
      cases List.mem_singleton.mp hmem
    · rintro v ⟨k, j, now, hmem⟩
      cases List.mem_singleton.mp hmem
  obtain ⟨v, c, rest, w, rfl, hlast, hid⟩ := (howned n).completed.of_split hdone hok
  have htr : (s n).trace = (l₁ ++ [.completed i status, .executed i v c true]) ++ rest := by
    rw [hdone]
    simp
  have hbuilt : s.Built w := Sys.built_of_lastProposed htr hlast
  have hmem : .executed i v c true ∈ (s n).trace := by
    rw [htr]
    simp
  refine ⟨v, c, rest, w, rfl, hlast, ?_⟩
  rcases (values_known hrun n).trace _ hmem with hv | rfl
  · exact hdistinct.same v w hv hbuilt hid.symm
  · -- The empty value has no id.
    exact absurd hid (Nat.ne_of_gt (hdistinct.positive w hbuilt))

/-- `DistinctId`, for values that were built by one of the first three nodes. -/
def distinctAt (s : Sys) (a : Env × Label) : Bool :=
  match a.2 with
  | .node n ev =>
    match ev.proposal (s n) with
    | some (machineId, data, draw) =>
      [1, 2, 3].all fun k => (s k).trace.all fun
        | .proposed _ _ v => v.valueId ≠ idBits a.1.nowMillis draw (s n).seqNum ||
            (v.machineId = machineId && v.userData = data)
        | _ => true
    | none => true
  | _ => true

/-- The other nodes have done nothing. -/
def Sys.OnlyTrio (C : Setup) (s : Sys) : Prop := ∀ k, k ∉ [1, 2, 3] → s k = System.init C k

theorem Sys.OnlyTrio.step (h : s.OnlyTrio C) (ha : a.2.target ∈ [1, 2, 3])
    (hst : System.step s a = some t) : t.OnlyTrio C := by
  intro k hk
  obtain ⟨y, rfl, -⟩ := System.step_target hst
  have hne : k ≠ a.2.target := fun heq => hk (heq ▸ ha)
  rw [Function.update_of_ne hne]
  exact h k hk

/-- Where the check holds, no other value with the new id was built. -/
theorem Sys.OnlyTrio.distinctId (h : s.OnlyTrio C) (hcheck : distinctAt s a = true) :
    DistinctId s a := by
  unfold distinctAt at hcheck
  unfold DistinctId
  split
  · rename_i n ev hlabel
    rintro machineId data draw hprop v ⟨k, i, now, hmem⟩ hid
    simp only [hlabel, hprop] at hcheck
    by_cases hk : k ∈ [1, 2, 3]
    · have hall := List.all_eq_true.mp (List.all_eq_true.mp hcheck k hk) _ hmem
      simpa [hid] using hall
    · rw [h k hk] at hmem
      cases List.mem_singleton.mp hmem
  · trivial

/-- In the run in which node 1 has one value chosen and proposes another, the completion of the
first proposal is for its value. -/
theorem ok_completes_own_value_trio : ∃ s l₁ l₂ v c rest w,
    Reaches System.step DistinctId (System.init (.uniform trioMember)) s ∧
    (s 1).trace = l₁ ++ .completed 1 {} :: l₂ ∧ l₂ = .executed 1 v c true :: rest ∧
    lastProposed rest = some w ∧ v.machineId = w.machineId ∧ v.userData = w.userData := by
  have hend : (runChecked System.step distinctAt (System.init (.uniform trioMember))
      nextAccept).map (fun s => decide (Event.completed 1 {} ∈ (s 1).trace)) = some true := by
    decide +kernel
  obtain ⟨s, hs, hdone⟩ := Option.map_eq_some_iff.mp hend
  have hrun : Reaches System.step DistinctId (System.init (.uniform trioMember)) s := by
    refine Reaches.of_runChecked_of (P := Sys.OnlyTrio (.uniform trioMember)) nextAccept
      (fun _ _ => rfl) ?_ (fun a _ s h hcheck => h.distinctId hcheck) hs
    intro a ha s t h hst
    have htargets : (nextAccept.map fun a => a.2.target).all (· ∈ [1, 2, 3]) = true := by decide
    exact h.step (of_decide_eq_true
      (List.all_eq_true.mp htargets _ (List.mem_map_of_mem ha))) hst
  obtain ⟨l₁, l₂, hsplit⟩ := List.append_of_mem (of_decide_eq_true hdone)
  obtain ⟨v, c, rest, w, hexec, hlast, hown⟩ := ok_completes_own_value hrun hsplit rfl
  exact ⟨s, l₁, l₂, v, c, rest, w, hrun, hsplit, hexec, hlast, hown⟩

/-- What node 2 proposes, with the id that node 1 has drawn. -/
def otherValue : PaxosValue := { valueId := 257, machineId := 7, userData := [2] }

/-- Nodes 1 and 2 propose in the same millisecond and draw the same number. Node 2 has its value
accepted by node 1 and tells node 1 that it was chosen. -/
def sameIdDrawn : List (Env × Label) :=
  [({}, .node 1 (.propose 7 [1] none 256)),
   ({}, .node 2 (.propose 7 [2] none 256)),
   ({}, .node 3 (.paxosMessage
      { type := .prepare, nodeId := 2, instanceId := 1, proposalId := 1 })),
   ({}, .node 2 (.paxosMessage
      { type := .prepareReply, nodeId := 3, instanceId := 1, proposalId := 1 })),
   ({}, .node 1 (.paxosMessage { type := .accept, nodeId := 2, instanceId := 1, proposalId := 1,
                                 value := otherValue })),
   ({}, .node 2 (.paxosMessage
      { type := .acceptReply, nodeId := 1, instanceId := 1, proposalId := 1 })),
   ({}, .node 1 (.paxosMessage
      { type := .newChosenValue, nodeId := 2, instanceId := 1, proposalId := 1 }))]

/-- Node 1 completes its proposal of the data `[1]` with `OK` after it has executed the data
`[2]`. -/
theorem ok_for_another_value : ∃ s rest,
    run System.step (System.init (.uniform trioMember)) sameIdDrawn = some s ∧
    (s 1).trace = .completed 1 {} :: .executed 1 otherValue none true :: rest ∧
    lastProposed rest = some firstValue ∧ otherValue.userData ≠ firstValue.userData := by
  have hend : (run System.step (System.init (.uniform trioMember)) sameIdDrawn).map
      (fun s => ((s 1).trace.take 2, lastProposed ((s 1).trace.drop 2))) =
        some ([.completed 1 {}, .executed 1 otherValue none true], some firstValue) := by
    decide +kernel
  obtain ⟨s, hs, hfields⟩ := Option.map_eq_some_iff.mp hend
  obtain ⟨htop, hlast⟩ := Prod.mk.inj hfields
  refine ⟨s, (s 1).trace.drop 2, hs, ?_, hlast, by decide⟩
  conv_lhs => rw [← List.take_append_drop 2 (s 1).trace, htop]
  rfl

end Skywalker
