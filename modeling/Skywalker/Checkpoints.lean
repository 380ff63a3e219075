import Skywalker.Votes
import Mathlib.Data.List.Pairwise

/-!
# Checkpoint directories

`CleanCheckpoint` deletes directories until at most `keepCheckpointCount` are left, and it runs
after each finished checkpoint. A node that installs no checkpoint of another one therefore never
has more, so that its recovery deletes none and restores the newest, which is behind the instance
that the node was in: a restart does not jump over an instance.
-/

namespace Skywalker

/-! ## `CleanCheckpoint` -/

/-- A pass of the loop takes the front out of the vector. -/
theorem swapPop_perm {l : List ℕ} (h : l ≠ []) : (l.headD 0 :: swapPop l).Perm l := by
  cases l with
  | nil => exact absurd rfl h
  | cons x xs =>
    rcases List.eq_nil_or_concat xs with rfl | ⟨ys, y, rfl⟩
    · exact List.Perm.refl _
    · rw [List.concat_eq_append]
      have hswap : swapPop (x :: (ys ++ [y])) = y :: ys := by simp [swapPop]
      rw [hswap]
      exact (List.perm_append_singleton y ys).symm.cons x

/-- The loop moves one id for each pass from the vector to the deleted ones. -/
theorem CleanState.loop_spec (n : ℕ) (c : CleanState) (h : n ≤ c.checkpoints.length) :
    ((loop n c).checkpoints ++ (loop n c).deleted).Perm (c.checkpoints ++ c.deleted) ∧
      (loop n c).checkpoints.length + n = c.checkpoints.length := by
  induction n generalizing c with
  | zero => exact ⟨List.Perm.refl _, rfl⟩
  | succ n ih =>
    have hne : c.checkpoints ≠ [] := by
      rintro hnil
      rw [hnil] at h
      exact absurd h (Nat.not_succ_le_zero n)
    have hperm := swapPop_perm hne
    have hlen := hperm.length_eq
    rw [List.length_cons] at hlen
    unfold loop
    obtain ⟨hrest, hcount⟩ := ih
      ⟨swapPop c.checkpoints, c.checkpoints.getD 1 0, c.checkpoints.headD 0 :: c.deleted⟩
      (show n ≤ (swapPop c.checkpoints).length by omega)
    refine ⟨hrest.trans ?_, ?_⟩
    · exact List.perm_middle.trans (hperm.append_right c.deleted)
    · change _ = (swapPop c.checkpoints).length at hcount
      omega

/-- What `CleanCheckpoint` keeps and what it deletes are the directories, and it keeps few
enough. -/
theorem cleanCheckpoint_spec (keep : ℕ) (ids : List ℕ) :
    ((cleanCheckpoint keep ids).checkpoints ++ (cleanCheckpoint keep ids).deleted).Perm ids ∧
      (cleanCheckpoint keep ids).checkpoints.length ≤ keep := by
  have hsort : (ids.insertionSort (· ≤ ·)).Perm ids := List.perm_insertionSort _ ids
  have hlen := hsort.length_eq
  obtain ⟨hperm, hcount⟩ := CleanState.loop_spec (ids.length - keep)
    ⟨ids.insertionSort (· ≤ ·), (ids.insertionSort (· ≤ ·)).headD 0, []⟩
    (show ids.length - keep ≤ (ids.insertionSort (· ≤ ·)).length by omega)
  change _ = (ids.insertionSort (· ≤ ·)).length at hcount
  rw [List.append_nil] at hperm
  refine ⟨hperm.trans hsort, ?_⟩
  unfold cleanCheckpoint
  dsimp only
  omega

theorem cleanCheckpoint_of_le {keep : ℕ} {ids : List ℕ} (h : ids.length ≤ keep) :
    cleanCheckpoint keep ids =
      ⟨ids.insertionSort (· ≤ ·), (ids.insertionSort (· ≤ ·)).headD 0, []⟩ := by
  unfold cleanCheckpoint
  rw [Nat.sub_eq_zero_of_le h]
  rfl

theorem CleanState.deleted_subset_loop (n : ℕ) (c : CleanState) :
    c.deleted ⊆ (loop n c).deleted := by
  induction n generalizing c with
  | zero => exact List.Subset.refl _
  | succ n ih =>
    intro i hi
    exact ih _ (List.mem_cons_of_mem _ hi)

/-- The directories that are left after `CleanCheckpoint`. -/
theorem length_cleaned_le (keep : ℕ) {dirs : List (ℕ × Machines)}
    (hnodup : (dirs.map Prod.fst).Nodup) :
    (dirs.filter fun d => d.1 ∉ (cleanCheckpoint keep (dirs.map Prod.fst)).deleted).length ≤
      keep := by
  obtain ⟨hperm, hlen⟩ := cleanCheckpoint_spec keep (dirs.map Prod.fst)
  generalize cleanCheckpoint keep (dirs.map Prod.fst) = c at hperm hlen
  -- The ids that are left are those that stand in the vector.
  have hleft : ((dirs.filter fun d => d.1 ∉ c.deleted).map Prod.fst).Nodup :=
    hnodup.sublist (List.filter_sublist.map _)
  have hsub : (dirs.filter fun d => d.1 ∉ c.deleted).map Prod.fst ⊆ c.checkpoints := by
    intro i hi
    obtain ⟨d, hd, rfl⟩ := List.mem_map.mp hi
    obtain ⟨hmem, hkept⟩ := List.mem_filter.mp hd
    have hin : d.1 ∈ c.checkpoints ++ c.deleted := hperm.symm.subset (List.mem_map_of_mem hmem)
    rcases List.mem_append.mp hin with hin | hin
    · exact hin
    · exact absurd hin (of_decide_eq_true hkept)
  have hle := (hleft.subperm hsub).length_le
  rw [List.length_map] at hle
  exact hle.trans hlen

/-! ## Which directories are left -/

theorem pairwise_lt_sorted {ids : List ℕ} (h : ids.Nodup) :
    (ids.insertionSort (· ≤ ·)).Pairwise (· < ·) := by
  have hle := List.pairwise_insertionSort (· ≤ ·) ids
  have hne : (ids.insertionSort (· ≤ ·)).Nodup := (List.perm_insertionSort _ ids).nodup_iff.mpr h
  exact (hle.and hne).imp fun hab => lt_of_le_of_ne hab.1 hab.2

/-- The smallest id is the front of the sorted ones. -/
theorem min?_eq_head?_sorted (ids : List ℕ) : ids.min? = (ids.insertionSort (· ≤ ·)).head? := by
  have hsort := List.pairwise_insertionSort (· ≤ ·) ids
  have hperm : (ids.insertionSort (· ≤ ·)).Perm ids := List.perm_insertionSort _ ids
  generalize ids.insertionSort (· ≤ ·) = l at hsort hperm
  cases l with
  | nil => rw [List.nil_perm.mp hperm]; rfl
  | cons x xs =>
    refine List.min?_eq_some_iff.mpr ⟨hperm.subset List.mem_cons_self, fun i hi => ?_⟩
    rcases List.mem_cons.mp (hperm.symm.subset hi) with rfl | hi
    · exact le_refl i
    · exact (List.pairwise_cons.mp hsort).1 i hi

/-- The largest id is the back of the sorted ones. -/
theorem max?_eq_getLast?_sorted (ids : List ℕ) :
    ids.max? = (ids.insertionSort (· ≤ ·)).getLast? := by
  have hsort := List.pairwise_insertionSort (· ≤ ·) ids
  have hperm : (ids.insertionSort (· ≤ ·)).Perm ids := List.perm_insertionSort _ ids
  generalize ids.insertionSort (· ≤ ·) = l at hsort hperm
  by_cases hnil : l = []
  · subst hnil
    rw [List.nil_perm.mp hperm]
    rfl
  · rw [List.getLast?_eq_getLast_of_ne_nil hnil]
    refine List.max?_eq_some_iff.mpr ⟨hperm.subset (List.getLast_mem hnil), fun i hi => ?_⟩
    exact hsort.rel_getLast (hperm.symm.subset hi)

/-- The checkpoint that `MachineManager::Recover` restores is the back of the cleaned vector. -/
theorem MachineManager.recover_fst (E : Env) (config : Config) (dirs : List (ℕ × Machines)) :
    (MachineManager.recover E config dirs).1 =
      (cleanCheckpoint config.keepCheckpointCount (dirs.map Prod.fst)).checkpoints.getLast?.getD
        0 := by
  rw [← List.getLastD_eq_getLast?]
  unfold MachineManager.recover
  dsimp only
  split_ifs
  · rfl
  · split <;> rfl

/-- The checkpoint that recovery restores is one of the directories, or there is none. -/
theorem MachineManager.recover_fst_mem (E : Env) (config : Config) (dirs : List (ℕ × Machines)) :
    (MachineManager.recover E config dirs).1 = 0 ∨
      ∃ d ∈ dirs, d.1 = (MachineManager.recover E config dirs).1 := by
  rw [MachineManager.recover_fst]
  cases hlast : (cleanCheckpoint config.keepCheckpointCount
      (dirs.map Prod.fst)).checkpoints.getLast? with
  | none => exact Or.inl rfl
  | some c =>
    right
    have hmem := List.mem_append_left (cleanCheckpoint config.keepCheckpointCount
      (dirs.map Prod.fst)).deleted (List.mem_of_getLast? hlast)
    exact List.mem_map.mp ((cleanCheckpoint_spec _ _).1.subset hmem)

/-- What `MachineManager::Recover` restores: the machines of a new process, or those of one of the
directories. -/
theorem MachineManager.recover_cases (E : Env) (config : Config) (dirs : List (ℕ × Machines)) :
    MachineManager.recover E config dirs =
        (0, { membership := .ofOptions config.membership }) ∨
      ∃ d ∈ dirs, MachineManager.recover E config dirs =
        (d.1, d.2.recover config.nodeId E.nowMillis) := by
  have hmem := MachineManager.recover_fst_mem E config dirs
  rw [MachineManager.recover_fst, ← List.getLastD_eq_getLast?] at hmem
  unfold MachineManager.recover
  dsimp only
  generalize (cleanCheckpoint config.keepCheckpointCount
    (dirs.map Prod.fst)).checkpoints.getLastD 0 = latest at hmem ⊢
  split_ifs with hzero
  · exact .inl (by rw [hzero])
  · cases hlook : dirs.lookup latest with
    | none =>
      obtain ⟨d, hd, rfl⟩ := hmem.resolve_left hzero
      exact absurd (List.lookup_eq_none_iff.mp hlook d hd) (by simp)
    | some saved => exact .inr ⟨(latest, saved), mem_of_lookup hlook, rfl⟩

/-- The ids of the directories that are left after `CleanCheckpoint`. -/
def cleanedIds (keep : ℕ) (ids : List ℕ) : List ℕ :=
  ids.filter fun i => i ∉ (cleanCheckpoint keep ids).deleted

/-- What cleaning is for: the newest directories are left, as many as are to be kept, and
`oldest_checkpoint_instance_id_` and `Recover` go by them. -/
structure KeepsNewest (E : Env) (config : Config) (dirs : List (ℕ × Machines)) : Prop where
  count : (cleanedIds config.keepCheckpointCount (dirs.map Prod.fst)).length =
    min dirs.length config.keepCheckpointCount
  newest : ∀ i ∈ cleanedIds config.keepCheckpointCount (dirs.map Prod.fst),
    ∀ j ∈ dirs.map Prod.fst, j ∉ cleanedIds config.keepCheckpointCount (dirs.map Prod.fst) → j < i
  /-- The smallest id that is left, zero where none is. -/
  oldest : (cleanCheckpoint config.keepCheckpointCount (dirs.map Prod.fst)).oldest =
    (cleanedIds config.keepCheckpointCount (dirs.map Prod.fst)).min?.getD 0
  /-- The back of the vector, and with it what is restored, is the largest id. -/
  latest : (cleanCheckpoint config.keepCheckpointCount (dirs.map Prod.fst)).checkpoints.getLast? =
      (dirs.map Prod.fst).max? ∧
    (MachineManager.recover E config dirs).1 = (dirs.map Prod.fst).max?.getD 0

namespace KeepsNewest

variable {E : Env} {config : Config} {dirs : List (ℕ × Machines)}

/-- Where there are few enough directories, all of them are left. -/
theorem of_le (h : dirs.length ≤ config.keepCheckpointCount) : KeepsNewest E config dirs := by
  have hlen : (dirs.map Prod.fst).length ≤ config.keepCheckpointCount := by
    rw [List.length_map]
    exact h
  have hclean := cleanCheckpoint_of_le hlen
  have hall : cleanedIds config.keepCheckpointCount (dirs.map Prod.fst) = dirs.map Prod.fst := by
    unfold cleanedIds
    rw [hclean]
    simp
  refine ⟨?_, ?_, ?_, ?_⟩
  · rw [hall, List.length_map, min_eq_left h]
  · intro i _ j hj hnot
    rw [hall] at hnot
    exact absurd hj hnot
  · rw [hall, hclean, min?_eq_head?_sorted]
    exact List.headD_eq_head?_getD ..
  · rw [MachineManager.recover_fst, hclean, max?_eq_getLast?_sorted]
    exact ⟨rfl, rfl⟩

/-- Of two directories, the newer one is left when one is to be kept. -/
theorem of_two (hnodup : (dirs.map Prod.fst).Nodup) (hkeep : config.keepCheckpointCount = 1)
    (htwo : dirs.length = 2) : KeepsNewest E config dirs := by
  have hlt := pairwise_lt_sorted hnodup
  have hmax := max?_eq_getLast?_sorted (dirs.map Prod.fst)
  have hperm : ((dirs.map Prod.fst).insertionSort (· ≤ ·)).Perm (dirs.map Prod.fst) :=
    List.perm_insertionSort _ _
  have hlen := hperm.length_eq
  rw [List.length_map, htwo] at hlen
  obtain ⟨a, b, hsorted⟩ := List.length_eq_two.mp hlen
  have hclean : cleanCheckpoint 1 (dirs.map Prod.fst) = ⟨[b], b, [a]⟩ := by
    unfold cleanCheckpoint
    dsimp only
    rw [hsorted, List.length_map, htwo]
    rfl
  rw [hsorted] at hlt hmax hperm
  have hab : a < b := (List.pairwise_cons.mp hlt).1 b List.mem_cons_self
  have hleft : cleanedIds 1 (dirs.map Prod.fst) = [b] := by
    unfold cleanedIds
    rw [hclean]
    refine List.perm_singleton.mp ((hperm.symm.filter _).trans ?_)
    simp [hab.ne']
  refine ⟨?_, ?_, ?_, ?_⟩
  · rw [hkeep, hleft, htwo]
    rfl
  · rw [hkeep, hleft]
    intro i hi j hj hnot
    obtain rfl := List.mem_singleton.mp hi
    rcases List.mem_cons.mp (hperm.symm.subset hj) with rfl | hj
    · exact hab
    · exact absurd hj hnot
  · rw [hkeep, hleft, hclean]
    rfl
  · rw [MachineManager.recover_fst, hkeep, hclean, hmax]
    exact ⟨rfl, rfl⟩

/-- The back is not the largest id once the front was swapped away from three directories or
more. -/
theorem length_ne_succ (h : KeepsNewest E config dirs) (hnodup : (dirs.map Prod.fst).Nodup)
    (hkeep : 2 ≤ config.keepCheckpointCount) :
    dirs.length ≠ config.keepCheckpointCount + 1 := by
  intro hlen
  have hlt := pairwise_lt_sorted hnodup
  have hmax := max?_eq_getLast?_sorted (dirs.map Prod.fst)
  have hperm : ((dirs.map Prod.fst).insertionSort (· ≤ ·)).Perm (dirs.map Prod.fst) :=
    List.perm_insertionSort _ _
  have hsize := hperm.length_eq
  rw [List.length_map, hlen] at hsize
  have hback := h.latest.1
  unfold cleanCheckpoint at hback
  rw [List.length_map, hlen, Nat.add_sub_cancel_left, hmax] at hback
  generalize (dirs.map Prod.fst).insertionSort (· ≤ ·) = l at hlt hsize hback
  obtain ⟨a, xs, rfl⟩ := List.exists_cons_of_length_eq_add_one hsize
  rcases List.eq_nil_or_concat xs with rfl | ⟨ys, z, rfl⟩
  · simp at hsize
    omega
  · rw [List.concat_eq_append] at hlt hsize hback
    -- The front is now `z`, and the back is the last of the middle.
    have hys : ys ≠ [] := by
      rintro rfl
      simp at hsize
      omega
    have hlast : ys.getLast hys = z := by
      simpa [CleanState.loop, swapPop, List.getLast?_cons, List.getLast?_eq_getLast_of_ne_nil hys]
        using hback
    have hless := (List.pairwise_append.mp (List.pairwise_cons.mp hlt).2).2.2 _
      (List.getLast_mem hys) z (List.mem_singleton_self z)
    omega

/-- The second pass deletes the largest id, which the first moved to the front. -/
theorem length_le_succ (h : KeepsNewest E config dirs) (hkeep : 1 ≤ config.keepCheckpointCount) :
    dirs.length ≤ config.keepCheckpointCount + 1 := by
  by_contra hmany
  obtain ⟨m, hm⟩ : ∃ m, dirs.length - config.keepCheckpointCount = m + 2 :=
    ⟨dirs.length - config.keepCheckpointCount - 2, by omega⟩
  have hmax := max?_eq_getLast?_sorted (dirs.map Prod.fst)
  have hperm : ((dirs.map Prod.fst).insertionSort (· ≤ ·)).Perm (dirs.map Prod.fst) :=
    List.perm_insertionSort _ _
  have hsize := hperm.length_eq
  rw [List.length_map] at hsize
  have hdel : ∀ z, (dirs.map Prod.fst).max? = some z →
      z ∈ (cleanCheckpoint config.keepCheckpointCount (dirs.map Prod.fst)).deleted := by
    intro z hz
    unfold cleanCheckpoint
    rw [List.length_map, hm]
    rw [hmax] at hz
    generalize (dirs.map Prod.fst).insertionSort (· ≤ ·) = l at hz hsize
    refine CleanState.deleted_subset_loop m _ ?_
    obtain ⟨a, xs, rfl⟩ := List.exists_cons_of_length_pos (l := l) (by omega)
    rcases List.eq_nil_or_concat xs with rfl | ⟨ys, w, rfl⟩
    · simp at hsize
      omega
    · rw [List.concat_eq_append] at hz ⊢
      obtain rfl : w = z := by simpa [List.getLast?_cons] using hz
      simp [swapPop]
  -- Something is left, and the largest id is not.
  obtain ⟨i, hi⟩ : ∃ i, i ∈ cleanedIds config.keepCheckpointCount (dirs.map Prod.fst) := by
    refine List.exists_mem_of_length_pos ?_
    rw [h.count]
    omega
  have hids : i ∈ dirs.map Prod.fst := (List.mem_filter.mp hi).1
  obtain ⟨z, hz⟩ : ∃ z, (dirs.map Prod.fst).max? = some z := by
    refine Option.isSome_iff_exists.mp ?_
    rw [List.isSome_max?_iff]
    exact List.ne_nil_of_mem hids
  obtain ⟨hzmem, hzmax⟩ := List.max?_eq_some_iff.mp hz
  have hgone : z ∉ cleanedIds config.keepCheckpointCount (dirs.map Prod.fst) := by
    intro hin
    exact of_decide_eq_true (List.mem_filter.mp hin).2 (hdel z hz)
  have hless := h.newest i hi z hzmem hgone
  have hle := hzmax i hids
  omega

end KeepsNewest

/-- **When cleaning keeps the newest checkpoints**: when there is nothing to delete, and when one of
two is to be deleted. Where more are deleted, the newest is among them; where one of three or more
is, the newest is left and not restored. -/
theorem keepsNewest_iff (E : Env) {config : Config} {dirs : List (ℕ × Machines)}
    (hkeep : 1 ≤ config.keepCheckpointCount) (hnodup : (dirs.map Prod.fst).Nodup) :
    KeepsNewest E config dirs ↔ dirs.length ≤ config.keepCheckpointCount ∨
      (config.keepCheckpointCount = 1 ∧ dirs.length = 2) := by
  constructor
  · intro h
    have hle := h.length_le_succ hkeep
    by_cases hone : config.keepCheckpointCount = 1
    · omega
    · have hne := h.length_ne_succ hnodup (by omega)
      omega
  · rintro (hle | ⟨hone, htwo⟩)
    · exact .of_le hle
    · exact .of_two hnodup hone htwo

/-- Of two directories the newer one is kept, whatever their order on disk. -/
theorem keepsNewest_of_two_unsorted :
    KeepsNewest {} { trioMember with keepCheckpointCount := 1 } [(8, {}), (5, {})] :=
  (keepsNewest_iff {} (le_refl 1) (by decide)).mpr (Or.inr ⟨rfl, rfl⟩)

/-- Of five directories, where three are to be kept, the newest is deleted, and the one that is
restored is not even the newest of those left. -/
theorem newest_deleted :
    cleanedIds trioMember.keepCheckpointCount [1, 2, 3, 4, 5] = [2, 3, 4] ∧
    (MachineManager.recover {} trioMember
      [(1, {}), (2, {}), (3, {}), (4, {}), (5, {})]).1 = 3 ∧
    ¬ KeepsNewest {} trioMember [(1, {}), (2, {}), (3, {}), (4, {}), (5, {})] := by
  have hleft : cleanedIds trioMember.keepCheckpointCount [1, 2, 3, 4, 5] = [2, 3, 4] := by
    decide
  refine ⟨hleft, by decide, fun h => ?_⟩
  have hnewest := h.newest
  rw [show List.map Prod.fst [((1 : ℕ), ({} : Machines)), (2, {}), (3, {}), (4, {}), (5, {})] =
    [1, 2, 3, 4, 5] from rfl, hleft] at hnewest
  exact absurd (hnewest 2 (by decide) 5 (by decide) (by decide)) (by decide)

/-! ## The directories of a node -/

/-- The checkpoint directories of a node that installed none of another node. -/
structure Node.Kept (x : Node) : Prop where
  positive : 1 ≤ x.instanceId
  /-- Checkpoints are made of instances that the node has left. -/
  below : ∀ d ∈ x.checkpoints, d.1 < x.instanceId
  nodup : (x.checkpoints.map Prod.fst).Nodup
  few : x.checkpoints.length ≤ x.config.keepCheckpointCount

namespace Node.Kept

variable {x y : Node}

theorem act {R : Rules} {E : Env} {net : PaxosMessage → Prop} (h : x.Kept) (hw : x.WF)
    (hact : Act R E net x y) : y.Kept := by
  have hle : x.instanceId ≤ y.instanceId := (hact.storeChange hw).mono.2
  refine ⟨le_trans h.positive hle, ?_, ?_, ?_⟩
  · intro d hd
    rcases hact.checkpoints_cases hd with hold | ⟨rfl, hid, -⟩
    · exact lt_of_lt_of_le (h.below d hold) hle
    · show x.instanceId - 1 < y.instanceId
      omega
  · rcases hact.checkpoints_eq with hsame | ⟨rfl, -, hnew, -⟩
    · rw [hsame]
      exact h.nodup
    · exact (List.nodup_cons.mpr ⟨hnew, h.nodup⟩).sublist (List.filter_sublist.map Prod.fst)
  · rw [hact.config_eq]
    rcases hact.checkpoints_eq with hsame | ⟨rfl, -, hnew, -⟩
    · rw [hsame]
      exact h.few
    · exact length_cleaned_le _ (List.nodup_cons.mpr ⟨hnew, h.nodup⟩)

/-- A restart restores the newest checkpoint. -/
theorem latest (h : x.Kept) (E : Env) :
    (∀ d ∈ x.checkpoints, d.1 ≤ (MachineManager.recover E x.config x.checkpoints).1) ∧
      (MachineManager.recover E x.config x.checkpoints).1 < x.instanceId := by
  have hlatest := (KeepsNewest.of_le (E := E) h.few).latest.2
  rw [hlatest]
  cases hmax : (x.checkpoints.map Prod.fst).max? with
  | none =>
    have hnil : x.checkpoints = [] := by simpa using hmax
    rw [hnil]
    exact ⟨fun d hd => (by cases hd), h.positive⟩
  | some z =>
    obtain ⟨hmem, hle⟩ := List.max?_eq_some_iff.mp hmax
    obtain ⟨d, hd, rfl⟩ := List.mem_map.mp hmem
    exact ⟨fun d' hd' => hle d'.1 (List.mem_map_of_mem hd'), h.below d hd⟩

/-- **A restart does not jump over an instance.** -/
theorem instanceId_le {E : Env} {a : Acceptor} (h : x.Kept) (hstore : x.Stores)
    (hrec : x.Restarts E x.checkpoints a y) : y.instanceId ≤ x.instanceId := by
  have hlatest := (h.latest E).2
  have hinst := hrec.instanceId
  have hread : a.instanceId ≤ x.instanceId := by
    rcases Acceptor.readFromDB_spec hrec.read with ⟨rfl, -⟩ | ⟨r, hr, -⟩
    · exact Nat.zero_le _
    · exact (hstore.keys _ r hr).2
  omega

/-- A checkpoint that the node makes stays where there was another one: it is the oldest that is
deleted. -/
theorem made_stays (h : x.Kept) (hnew : x.instanceId - 1 ∉ x.checkpoints.map Prod.fst)
    {d : ℕ × Machines} (hd : d ∈ x.checkpoints) :
    (x.instanceId - 1, x.machines) ∈ (MachineManager.finishCheckpoint x).checkpoints := by
  refine List.mem_filter.mpr ⟨List.mem_cons_self, decide_eq_true ?_⟩
  show x.instanceId - 1 ∉ (cleanCheckpoint x.config.keepCheckpointCount
    ((x.instanceId - 1) :: x.checkpoints.map Prod.fst)).deleted
  generalize hids : (x.instanceId - 1) :: x.checkpoints.map Prod.fst = ids
  have hlen : ids.length ≤ x.config.keepCheckpointCount + 1 := by
    have hfew := h.few
    rw [← hids, List.length_cons, List.length_map]
    omega
  rcases hlen.lt_or_eq with hlt | heq
  · rw [cleanCheckpoint_of_le (Nat.lt_succ_iff.mp hlt)]
    exact List.not_mem_nil
  · -- One pass of the loop takes the front of the sorted ids.
    have hone : (cleanCheckpoint x.config.keepCheckpointCount ids).deleted =
        [(ids.insertionSort (· ≤ ·)).headD 0] := by
      rw [cleanCheckpoint, heq, Nat.add_sub_cancel_left]
      rfl
    have hmem : d.1 ∈ ids := by
      rw [← hids]
      exact List.mem_cons_of_mem _ (List.mem_map_of_mem hd)
    have hle : (ids.insertionSort (· ≤ ·)).headD 0 ≤ d.1 := by
      rw [List.headD_eq_head?_getD, ← min?_eq_head?_sorted]
      obtain ⟨z, hz⟩ := Option.isSome_iff_exists.mp (List.isSome_min?_of_mem hmem)
      rw [hz]
      exact (List.min?_eq_some_iff.mp hz).2 d.1 hmem
    have hbelow := h.below d hd
    have hne : d.1 ≠ x.instanceId - 1 := fun he => hnew (he ▸ List.mem_map_of_mem hd)
    rw [hone, List.mem_singleton]
    omega

theorem recover {E : Env} {a : Acceptor} (h : x.Kept) (hrec : x.Restarts E x.checkpoints a y) :
    y.Kept := by
  have hinst := hrec.instanceId
  have hsub : y.checkpoints.Sublist x.checkpoints := by
    rw [hrec.checkpoints]
    exact List.filter_sublist
  refine ⟨by omega, fun d hd => ?_, h.nodup.sublist (hsub.map _), ?_⟩
  · have hle := (h.latest E).1 d (hsub.subset hd)
    omega
  · rw [hrec.config_eq]
    exact hsub.length_le.trans h.few

theorem fresh (config : Config) : (Node.fresh config).Kept where
  positive := le_refl 1
  below d hd := by cases hd
  nodup := List.nodup_nil
  few := Nat.zero_le _

end Node.Kept

end Skywalker
