import Skywalker.Ownership

/-!
# The context of a call of `Execute`

`TryBeMasterInLoop` notes the time and proposes with a pointer to it as the context. `CheckLearn`
hands the time to `Execute` when it takes the learned value for the node's outstanding proposal,
that is, when the two have the same id.

Which proposal of a node is outstanding can be read off its trace (`outstanding`): the last one, if
it has not ended since and no new process has started. So can the context of each call
(`Node.Dated`), when only `TryBeMaster` proposes values for the master machine. When no proposal
draws the id of a value that was built before, each value is proposed once (`Sys.ProposedOnce`).
-/

namespace Skywalker

open TransitionSystem

/-! ## The outstanding proposal -/

/-- The outstanding proposal of a node: its instance, its time and its value. -/
def outstanding : List Event → Option (ℕ × ℕ × PaxosValue)
  | [] => none
  | .proposed i time v :: _ => some (i, time, v)
  | .completed _ _ :: _ => none
  | .recovered _ _ :: _ => none
  | _ :: l => outstanding l

theorem outstanding_cons {e : Event} {l : List Event} (h : e.isClient = false) :
    outstanding (e :: l) = outstanding l := by
  cases e <;> first | rfl | cases h

theorem outstanding_append {l l' : List Event} (h : ∀ e ∈ l', e.isClient = false) :
    outstanding (l' ++ l) = outstanding l := by
  induction l' with
  | nil => rfl
  | cons e l' ih =>
    rw [List.cons_append, outstanding_cons (h e List.mem_cons_self)]
    exact ih fun d hd => h d (List.mem_cons_of_mem e hd)

/-- An outstanding proposal was made. -/
theorem mem_of_outstanding {l : List Event} {i time : ℕ} {v : PaxosValue}
    (h : outstanding l = some (i, time, v)) : .proposed i time v ∈ l := by
  induction l with
  | nil => cases h
  | cons e l ih =>
    cases e with
    | proposed j now w =>
      simp only [outstanding, Option.some.injEq, Prod.mk.injEq] at h
      obtain ⟨rfl, rfl, rfl⟩ := h
      exact List.mem_cons_self
    | completed | recovered => cases h
    | _ => exact List.mem_cons_of_mem _ (ih h)

/-! ## One node -/

/-- The context of a call of `Execute`: none if no proposal is outstanding or it has another id than
the value, and the time of the proposal if it has the id and is for the master machine. -/
def DatedCall (older : List Event) : Event → Prop
  | .executed _ v context _ =>
    match outstanding older with
    | none => context = none
    | some (_, time, u) =>
      if u.valueId = v.valueId then u.machineId = masterMachineId → context = some time
      else context = none
  | _ => True

/-- What the trace of a node says of its proposal and of its calls. -/
structure Node.Dated (x : Node) : Prop where
  current : ∃ time,
    outstanding x.trace =
      (if x.isProposing then some (x.instanceId, time, x.proposeValue) else none) ∧
    (x.isProposing = true → x.proposeValue.machineId = masterMachineId →
      x.context = some .groupNow ∧ x.groupNow = time)
  calls : AtEach DatedCall x.trace

namespace Node.Dated

variable {E : Env} {x y : Node}

theorem idle (h : x.Dated) (hidle : x.isProposing = false) : outstanding x.trace = none := by
  obtain ⟨time, hout, -⟩ := h.current
  rw [hout, hidle]
  rfl

/-- Handlers that are not about the proposal. -/
theorem same (h : x.Dated) (hxy : SameClient x y) : y.Dated := by
  obtain ⟨time, hout, hmaster⟩ := h.current
  obtain ⟨l, htr, hq⟩ := hxy.trace
  refine ⟨⟨time, ?_, ?_⟩, ?_⟩
  · rw [htr, outstanding_append hq, hout, hxy.isProposing, hxy.instanceId, hxy.proposeValue]
  · rw [hxy.isProposing, hxy.proposeValue, hxy.context, hxy.groupNow]
    exact hmaster
  · rw [htr]
    refine h.calls.append fun e he l' => ?_
    have hqe := hq e he
    cases e <;> trivial

/-- The timers of the roles are not about the proposal. -/
theorem of_timers (h : x.Dated) (htr : y.trace = x.trace) (hp : y.isProposing = x.isProposing)
    (hi : y.instanceId = x.instanceId) (hv : y.proposeValue = x.proposeValue)
    (hc : y.context = x.context) (hg : y.groupNow = x.groupNow) : y.Dated := by
  obtain ⟨time, hout, hmaster⟩ := h.current
  refine ⟨⟨time, ?_, ?_⟩, ?_⟩
  · rw [htr, hout, hp, hi, hv]
  · rw [hp, hv, hc, hg]
    exact hmaster
  · rw [htr]
    exact h.calls

/-- The call of `Execute` in `CheckLearn` has the context that the trace says. -/
theorem datedCall (h : x.Dated) (ok : Bool) : DatedCall x.trace
    (.executed x.instanceId x.learner.learnedValue (Instance.executeContext x) ok) := by
  obtain ⟨time, hout, hmaster⟩ := h.current
  unfold DatedCall Instance.executeContext Instance.isMine
  rw [hout]
  cases hp : x.isProposing with
  | false => simp
  | true =>
    by_cases hid : x.proposeValue.valueId = x.learner.learnedValue.valueId
    · simp only [hid, if_true, Bool.true_and, beq_self_eq_true]
      intro hmachine
      obtain ⟨hcontext, hnow⟩ := hmaster hp hmachine
      rw [hcontext, Option.map_some, ← hnow]
      rfl
    · simp [hid]

/-- `CheckLearn` ends the outstanding proposal as the trace says. -/
theorem checkLearn (h : x.Dated) : (Instance.checkLearn E x).Dated := by
  by_cases hl : x.learner.hasLearned = true
  · have hp := (Instance.checkLearn_client (E := E) hl).1
    have htr := Instance.checkLearn_trace (E := E) hl
    unfold Instance.executionEvents at htr
    cases hx : x.isProposing with
    | false =>
      rw [hx] at htr
      refine ⟨⟨0, ?_, fun hy => by simp [hp] at hy⟩, ?_⟩
      · rw [htr, hp]
        exact h.idle hx
      · rw [htr]
        exact ⟨h.datedCall _, h.calls⟩
    | true =>
      rw [hx] at htr
      refine ⟨⟨0, ?_, fun hy => by simp [hp] at hy⟩, ?_⟩
      · rw [htr, hp]
        rfl
      · rw [htr]
        exact ⟨trivial, h.datedCall _, h.calls⟩
  · rw [Instance.checkLearn, if_neg hl]
    exact h

theorem step (h : x.Dated) (hs : ClientStep x y) : y.Dated := by
  cases hs with
  | same hxy => exact h.same hxy
  | checkLearn => exact h.checkLearn
  | _ => exact h.of_timers rfl rfl rfl rfl rfl rfl

theorem complete (h : x.Dated) {i : ℕ} {st : Status} (htr : y.trace = .completed i st :: x.trace)
    (hp : y.isProposing = false) : y.Dated := by
  refine ⟨⟨0, ?_, fun hy => by simp [hp] at hy⟩, ?_⟩
  · rw [htr, hp]
    rfl
  · rw [htr]
    exact ⟨trivial, h.calls⟩

/-- One event, when only `TryBeMaster` proposes for the master machine. -/
theorem event {ev : NodeEvent} (h : x.Dated) (hev : ClientEvent E x ev y)
    (hmaster : ∀ machineId value context draw, ev = .propose machineId value context draw →
      machineId ≠ masterMachineId) : y.Dated := by
  cases hev with
  | propose =>
    refine ⟨⟨E.nowMillis, rfl, fun _ hid => ?_⟩, trivial, h.calls⟩
    exact absurd hid (hmaster _ _ _ _ rfl)
  | proposeInvalid hidle => exact h.complete rfl hidle
  | tryBeMaster => exact ⟨⟨E.nowMillis, rfl, fun _ _ => ⟨rfl, rfl⟩⟩, trivial, h.calls⟩
  | tryBeMasterConflict hidle => exact h.complete rfl hidle
  | timeout => exact h.complete rfl rfl
  | timer => exact h.of_timers rfl rfl rfl rfl rfl rfl
  | other => exact h

theorem of_step {ev : NodeEvent} (h : x.Dated) (hstep : x.step E ev = some y)
    (hmaster : ∀ machineId value context draw, ev = .propose machineId value context draw →
      machineId ≠ masterMachineId) : y.Dated := by
  obtain ⟨z, hev, hchain⟩ := Node.step_client hstep
  exact invariant_of_actions (fun _ _ hs hst => step hs hst) hchain (h.event hev hmaster)

theorem recover (h : x.Dated) {config : Config} {db : DB} {dirs : List (ℕ × Machines)}
    (hrec : Node.recover E config db dirs x.trace = some y) : y.Dated := by
  obtain ⟨a, hy⟩ := Node.recover_spec hrec
  obtain ⟨l, htr, hreplayed⟩ := hy.trace_eq
  refine ⟨⟨0, ?_, fun hp => by simp [hy.isProposing] at hp⟩, ?_⟩
  · rw [htr, hy.isProposing]
    rfl
  · rw [htr]
    refine ⟨trivial, h.calls.append fun e he l' => ?_⟩
    obtain ⟨j, r, ok, rfl, -⟩ := hreplayed e he
    trivial

end Node.Dated

/-! ## All nodes -/

/-- The condition on a step: a proposal does not draw the id of a value that was built before. -/
def FreshId (s : Sys) (a : Env × Label) : Prop :=
  match a.2 with
  | .node n ev => ∀ machineId data draw, ev.proposal (s n) = some (machineId, data, draw) →
      ∀ v, s.Built v → v.valueId ≠ idBits a.1.nowMillis draw (s n).seqNum
  | _ => True

/-- Each value is proposed once: proposals of one id are one proposal. -/
def Sys.ProposedOnce (s : Sys) : Prop :=
  ∀ n n' i i' time time' v v', .proposed i time v ∈ (s n).trace →
    .proposed i' time' v' ∈ (s n').trace → v.valueId = v'.valueId →
    n = n' ∧ i = i' ∧ time = time' ∧ v = v'

/-- A step that meets the condition keeps it so. -/
theorem Sys.ProposedOnce.step {s t : Sys} {a : Env × Label} (h : s.ProposedOnce)
    (hfresh : FreshId s a) (hst : System.step s a = some t) : t.ProposedOnce := by
  -- A new proposal has another id than the old ones.
  have hnew : ∀ {n i time v}, .proposed i time v ∈ (s n).trace → ∀ {k ev machineId data draw},
      a.2 = .node k ev → ev.proposal (s k) = some (machineId, data, draw) →
      v.valueId ≠ idBits a.1.nowMillis draw (s k).seqNum := by
    intro n i time v hold k ev machineId data draw hlabel hprop
    unfold FreshId at hfresh
    rw [hlabel] at hfresh
    exact hfresh _ _ _ hprop v ⟨n, i, time, hold⟩
  intro n n' i i' time time' v v' he he' hid
  rcases System.step_proposed hst he with hold | ⟨hi, htime, ev, draw, hlabel, hprop, -, hv⟩
  · rcases System.step_proposed hst he' with hold' | ⟨-, -, ev', draw', hlabel', hprop', -, hv'⟩
    · exact h n n' i i' time time' v v' hold hold' hid
    · exact absurd (hid.trans hv') (hnew hold hlabel' hprop')
  · rcases System.step_proposed hst he' with
      hold' | ⟨hi', htime', ev', draw', hlabel', hprop', -, hv'⟩
    · exact absurd (hid.symm.trans hv) (hnew hold' hlabel hprop)
    · -- One step makes one proposal.
      rw [hlabel] at hlabel'
      obtain ⟨rfl, rfl⟩ := Label.node.inj hlabel'
      rw [hprop] at hprop'
      simp only [Option.some.injEq, Prod.mk.injEq] at hprop'
      obtain ⟨hmachine, hdata, rfl⟩ := hprop'
      refine ⟨rfl, hi.trans hi'.symm, htime.trans htime'.symm, ?_⟩
      cases v
      cases v'
      simp_all

theorem Sys.ProposedOnce.init (C : Setup) : (System.init C).ProposedOnce := by
  intro n n' i i' time time' v v' he
  cases List.mem_singleton.mp he

/-- A step keeps the traces dated, when only `TryBeMaster` proposes for the master machine. -/
theorem System.dated_step {s t : Sys} {a : Env × Label} (h : ∀ n, (s n).Dated)
    (hmaster : ∀ n machineId value context draw,
      a.2 = .node n (.propose machineId value context draw) → machineId ≠ masterMachineId)
    (hst : System.step s a = some t) (n : ℕ) : (t n).Dated := by
  obtain ⟨y, rfl, ⟨ev, hev, hy⟩ | ⟨dirs, hy⟩⟩ := System.step_target hst
  · refine Sys.forall_update (Q := fun _ x => x.Dated) h ((h _).of_step hy ?_) n
    rintro machineId value context draw rfl
    exact hmaster _ _ _ _ _ hev
  · exact Sys.forall_update (Q := fun _ x => x.Dated) h ((h _).recover hy) n

theorem System.dated_init (C : Setup) (n : ℕ) : (System.init C n).Dated :=
  ⟨⟨0, rfl, nofun⟩, trivial, trivial⟩

end Skywalker
