import Skywalker.Values

/-!
# A fixed membership

The members of a group change only when a value of the membership machine is executed. In a run in
which no client proposes one, every node keeps the members that it was started with, over
executions, checkpoints and recoveries.
-/

namespace Skywalker

variable {R : Rules} {E : Env} {net : PaxosMessage → Prop} {x y : Node} {dirs : List (ℕ × Machines)}
  {C : Setup} {P : Policy}

/-- A value for another machine leaves the members alone. -/
theorem Machines.execute_membership {codec : Codec} {now : ℕ} {userResult : Bool}
    {context : Option ℕ} {instanceId : ℕ} {value : PaxosValue} (ms : Machines)
    (h : value.machineId ≠ membershipMachineId) :
    (ms.execute codec now userResult context instanceId value).2.membership = ms.membership := by
  unfold Machines.execute
  rw [if_neg h]
  split_ifs <;> rfl

/-- The machines change only in an execution that succeeds. -/
theorem Act.machines_cases (h : Act R E net x y) : y.machines = x.machines ∨
      (x.learner.hasLearned = true ∧ (Instance.execution E x).1 = true ∧
        y = Instance.nextInstance (Instance.afterExecute E x)) := by
  cases h.outerChange with
  | same h => exact Or.inl h.machines
  | executed hl hok => exact Or.inr ⟨hl, hok, rfl⟩
  | failed hl hok => exact Or.inl (Machines.execute_of_false hok)
  | gcLoop db m g hrule hframe => exact Or.inl (by rw [hframe])
  | _ => exact Or.inl rfl

/-- The checkpoint directories change only when the machines finish a checkpoint. -/
theorem Act.checkpoints_eq (h : Act R E net x y) : y.checkpoints = x.checkpoints ∨
      (y = MachineManager.finishCheckpoint x ∧ 1 < x.instanceId ∧
        x.instanceId - 1 ∉ x.checkpoints.map Prod.fst ∧ R.checkpoint) := by
  cases h.outerChange with
  | same h => exact Or.inl h.checkpoints
  | finishCheckpoint hid hnew hrule => exact Or.inr ⟨rfl, hid, hnew, hrule⟩
  | gcLoop db m g hrule hframe => exact Or.inl (by rw [hframe])
  | _ => exact Or.inl rfl

/-- A checkpoint directory was there before, or holds the machines of the last instance. -/
theorem Act.checkpoints_cases (h : Act R E net x y) {d : ℕ × Machines} (hd : d ∈ y.checkpoints) :
    d ∈ x.checkpoints ∨
      (d = (x.instanceId - 1, x.machines) ∧ 1 < x.instanceId ∧ R.checkpoint) := by
  rcases h.checkpoints_eq with hsame | ⟨rfl, hid, -, hrule⟩
  · exact Or.inl (hsame ▸ hd)
  · have hmem : d ∈ (x.instanceId - 1, x.machines) :: x.checkpoints := (List.mem_filter.mp hd).1
    rcases List.mem_cons.mp hmem with heq | hold
    · exact Or.inr ⟨heq, hid, hrule⟩
    · exact Or.inl hold

/-- Whether a value is for another machine than that of the membership. -/
def KeepsMembers (v : PaxosValue) : Prop := v.machineId ≠ membershipMachineId

theorem KeepsMembers.default : KeepsMembers {} := by
  unfold KeepsMembers membershipMachineId
  decide

/-- All nodes are started with the members `M`. -/
abbrev Setup.HasMembers (C : Setup) (M : Finset ℕ) : Prop :=
  ∀ n, (Membership.ofOptions (C.config n).membership).ids.toFinset = M

/-- All nodes have the members `M`, and so have their checkpoints. -/
structure FixedMembers (M : Finset ℕ) (s : Sys) : Prop where
  values : s.Values KeepsMembers KeepsMembers
  members : ∀ n, (s n).memberIds.toFinset = M
  saved : ∀ n d, d ∈ (s n).checkpoints → d.2.membership.ids.toFinset = M

namespace FixedMembers

variable {M : Finset ℕ} {s : Sys}

theorem length (h : FixedMembers M s) (n : ℕ) : (s n).memberIds.length = M.card := by
  rw [← h.members n, List.toFinset_card_of_nodup]
  exact (s n).machines.membership.nodup

theorem ok_of_held {p : ℕ} {v : PaxosValue} (h : Held KeepsMembers KeepsMembers p v) :
    KeepsMembers v := by
  unfold Held at h
  split_ifs at h <;> exact h

/-- Every action keeps the members, when no membership change is proposed. -/
theorem micro {t : Sys} (h : FixedMembers M s) (hw : s.WF C) (htr : Traced s) (hst : Micro P s t)
    (hpropose : ∀ E x machineId value context, P.rules.propose E x machineId value context →
      machineId ≠ membershipMachineId) : FixedMembers M t := by
  have hvalues : t.Values KeepsMembers KeepsMembers := by
    refine h.values.micro (fun _ hv => hv) .default hw htr hst
      (fun n i r _ _ hheld => ok_of_held hheld) ?_
    intro n E machineId value context draw _ hrule _ hy
    rw [hy]
    exact hpropose E (s n) machineId value context hrule
  obtain ⟨n, E, henv, hact, hother, -, -⟩ := hst.newEvents hw
  have hmember : (t n).machines.membership = (s n).machines.membership := by
    rcases hact.machines_cases with hsame | ⟨hl, -, hy⟩
    · rw [hsame]
    · rw [hy]
      exact Machines.execute_membership _ ((h.values n).learner hl)
  refine ⟨hvalues, ?_, ?_⟩
  · refine Sys.forall_of_others (Q := fun _ x => x.memberIds.toFinset = M) hother
      (fun k _ => h.members k) ?_
    unfold Node.memberIds
    rw [hmember]
    exact h.members n
  · refine Sys.forall_of_others
      (Q := fun _ x => ∀ d, d ∈ x.checkpoints → d.2.membership.ids.toFinset = M) hother
      (fun k _ => h.saved k) fun d hd => ?_
    rcases hact.checkpoints_cases hd with hold | ⟨rfl, -⟩
    · exact h.saved n d hold
    · exact h.members n

/-- A recovery keeps the members, when all nodes are started with them. -/
theorem recover {n : ℕ} {a : Acceptor} (h : FixedMembers M s) (hw : s.WF C) (hC : C.HasMembers M)
    (hwhy : P.Recovers s n dirs) (hrec : (s n).Restarts E dirs a y) :
    FixedMembers M (Function.update s n y) := by
  have hdirs := hwhy.forall_dirs h.saved
  -- The checkpoint that is restored, or the options, have the members.
  have hstart : (MachineManager.recover E (s n).config dirs).2.membership.ids.toFinset = M := by
    have hfresh : (Membership.ofOptions (s n).config.membership).ids.toFinset = M := by
      rw [(hw n).2]
      exact hC n
    unfold MachineManager.recover
    dsimp only
    split_ifs
    · exact hfresh
    · split
      · exact hfresh
      · rename_i saved hlookup
        have hsaved := hdirs _ (mem_of_lookup hlookup)
        exact hsaved
  have hend : y.memberIds.toFinset = M := by
    refine hrec.machines (fun _ ms => ms.membership.ids.toFinset = M) hstart ?_
    intro j ms r ok _ _ hms hget
    rw [Machines.execute_membership ms (ok_of_held ((h.values n).records j r hget))]
    exact hms
  refine ⟨h.values.recover .default hrec fun i r _ _ hheld => ok_of_held hheld, ?_, ?_⟩
  · exact Sys.forall_update (Q := fun _ x => x.memberIds.toFinset = M) h.members hend
  · refine Sys.forall_update
      (Q := fun _ x => ∀ d, d ∈ x.checkpoints → d.2.membership.ids.toFinset = M) h.saved ?_
    intro d hd
    rw [hrec.checkpoints] at hd
    exact hdirs d (List.mem_filter.mp hd).1

theorem init (hC : C.HasMembers M) : FixedMembers M (System.init C) :=
  ⟨.init .default C, hC, fun n d hd => by cases hd⟩

end FixedMembers

end Skywalker
