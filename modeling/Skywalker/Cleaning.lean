import Skywalker.LogRange
import Skywalker.Publishing
import Skywalker.Restart

/-!
# Cleaning the log

`LogCleaner::GCLoop` deletes the records of old instances. It reads `min_chosen_id_`,
`max_chosen_id_` and `oldest_checkpoint_instance_id_`, which three loops write, deletes from the
minimum up to a record that has to be kept, and only then raises the minimum. The state here has
what these loops share, and the loop is cut at each of its reads and writes, so that the others run
in between.

A process starts on any checkpoint directories, so that `CleanCheckpoint` may have many to delete.
Its loop exchanges the front of the vector with the back before it drops it, and the vector is
sorted only before the first pass. But its second entry stays where it is, and is the smallest of
those behind the front (`SecondLeast`). It is what each pass stores in
`oldest_checkpoint_instance_id_`, so that this id is never above a directory that is kept.

It does not fall either, as long as no directory is published below it. A callback of
`FinishMakeCheckpoint` gives `UpdateCheckpoint` the instance that its machine was asked for, and
this may be one of a round that was abandoned long ago (`deletes_above_kept`).
-/

namespace Skywalker

open TransitionSystem

variable {machines v : List ℕ} {config : Config}

namespace Cleaning

/-! ## The loops -/

/-- Where the clean loop is in `GCLoop`. -/
inductive Collector where
  /-- The loop is between two runs of `GCLoop`. -/
  | idle
  /-- `GCLoop` has read `max_chosen_id_` and goes on to the oldest checkpoint. -/
  | read (maxChosenId : ℕ)
  /-- The batch is made, up to the id where the scan ended. -/
  | scanned (upTo : ℕ)
  /-- The batch is written, and the minimum is still to be set. -/
  | written (upTo : ℕ)
deriving DecidableEq, Repr

/-- The state that the I/O loop and the clean loop share, with the disk. -/
structure State where
  db : DB := {}
  /-- The ids of the checkpoint directories. -/
  ids : List ℕ := []
  instanceId : ℕ := 1
  /-- `oldest_checkpoint_instance_id_`: the oldest directory that is kept. -/
  oldest : ℕ := 0
  /-- `min_chosen_id_`: the first instance that the log advertises. -/
  minChosenId : ℕ := 0
  /-- `max_chosen_id_`: the instance that `GCLoop` counts back from. -/
  maxChosenId : ℕ := 1
  /-- The checkpoint rounds of the machines, and the directories. -/
  rounds : MachineCheckpoints := {}
  /-- Where the I/O loop is. -/
  phase : Phase := .running
  /-- Where the clean loop is. -/
  gc : Collector := .idle
deriving DecidableEq, Repr

/-- The steps of the two loops, of the machines' threads and of a new process. -/
inductive Label where
  /-- The acceptor or the learner writes the record of the present instance. -/
  | put (r : PaxosInstance)
  /-- The present instance is executed, and `MakeCheckpoint` called with a draw of
  `distribution_`. -/
  | execute (drawn : ℕ) (F : FileEnv) (dirs : ℕ → FileEnv) (accepts : ℕ → Bool)
  /-- The `i`-th machine at work finishes a file. -/
  | write (i : ℕ) (place : Place)
  /-- The `i`-th machine at work reports. -/
  | report (i : ℕ) (result : Bool)
  /-- The I/O loop runs the next callback of `FinishMakeCheckpoint`. If it calls `CleanCheckpoint`,
  this gets the lock or returns. -/
  | callback (F : FileEnv) (locks : Bool)
  /-- The test of the loop of `CleanCheckpoint`. -/
  | cleanNext
  /-- The front directory is deleted. -/
  | deleteDir
  /-- `GCLoop` starts and reads `max_chosen_id_`. -/
  | gcRead
  /-- `GCLoop` reads `oldest_checkpoint_instance_id_` and scans. -/
  | gcScan
  /-- `GCLoop` writes its batch, which may fail. -/
  | gcWrite (ok : Bool)
  /-- `GCLoop` sets the new minimum. -/
  | gcSetMin (ok : Bool)

/-- A process after `Recover` on any directories and log. -/
def start (config : Config) (ids : List ℕ) (db : DB) (temp : Option TempDir) : State :=
  let c := cleanCheckpoint config.keepCheckpointCount ids
  let latest := c.checkpoints.getLastD 0
  let instanceId := max (latest + 1) (db.getMaxInstanceId.getD 0)
  { db, ids := ids.filter (· ∉ c.deleted), instanceId, oldest := c.oldest
    minChosenId := db.minChosen.getD 0, maxChosenId := instanceId
    rounds := { disk := { temp }, latest } }

/-- The rounds after a callback. Renaming fails where the directory is there already. -/
def State.finish (s : State) (F : FileEnv) (b : Report) (queue : List Report) :
    MachineCheckpoints :=
  MachineManager.finishMakeCheckpoint
    { F with renamed := F.renamed && !s.ids.contains b.instanceId } b { s.rounds with queue }

/-- A step of one of the loops. -/
def step (config : Config) (machines : List ℕ) (s : State) : Label → Option State
  | .put r =>
    if s.phase = .running then some { s with db := s.db.put s.instanceId r } else none
  | .execute drawn F dirs accepts =>
    if s.phase = .running ∧ s.rounds.latest < s.instanceId then
      some { s with
        instanceId := s.instanceId + 1
        maxChosenId := s.instanceId
        rounds := MachineManager.makeCheckpoint machines config.keepLogCount s.instanceId drawn F
          dirs accepts s.rounds }
    else none
  | .write i place =>
    (s.rounds.step machines config.keepLogCount (.write i place)).map fun rounds =>
      { s with rounds }
  | .report i result =>
    (s.rounds.step machines config.keepLogCount (.report i result)).map fun rounds =>
      { s with rounds }
  | .callback F locks =>
    match s.rounds.queue with
    | [] => none
    | b :: queue =>
      if s.phase = .running then
        let rounds := s.finish F b queue
        let ids := if rounds.disk.renamed = s.rounds.disk.renamed then s.ids
          else s.ids ++ [b.instanceId]
        -- `CleanCheckpoint` is called after `UpdateCheckpoint`
        if rounds.updates ≠ s.rounds.updates ∧ locks then
          let sorted := ids.insertionSort (· ≤ ·)
          some { s with rounds, ids, phase := .cleaning sorted, oldest := sorted.headD 0 }
        else some { s with rounds, ids }
      else none
  | .cleanNext =>
    match s.phase with
    | .cleaning v =>
      if config.keepCheckpointCount < v.length then
        some { s with phase := .deleting v, oldest := v.getD 1 0 }
      else some { s with phase := .running }
    | _ => none
  | .deleteDir =>
    match s.phase with
    | .deleting v =>
      some { s with ids := s.ids.filter (· ≠ v.headD 0), phase := .cleaning (swapPop v) }
    | _ => none
  | .gcRead => if s.gc = .idle then some { s with gc := .read s.maxChosenId } else none
  | .gcScan =>
    match s.gc with
    | .read maxChosenId =>
      let upTo := LogCleaner.scan config.keepLogCount maxChosenId (s.oldest + 1) maxChosenId
        s.minChosenId
      some { s with gc := if upTo = s.minChosenId then .idle else .scanned upTo }
    | _ => none
  | .gcWrite ok =>
    match s.gc with
    | .scanned upTo =>
      if ok then some { s with db := s.db.deleteRange s.minChosenId upTo, gc := .written upTo }
      else some { s with gc := .idle }
    | _ => none
  | .gcSetMin ok =>
    match s.gc with
    | .written upTo =>
      if ok then
        some { s with db := { s.db with minChosen := some upTo }, minChosenId := upTo, gc := .idle }
      else some { s with gc := .idle }
    | _ => none

/-- No directory is published below the oldest id. -/
def State.inOrder (s : State) : Label → Bool
  | .callback F _ => match s.rounds.queue with
    | [] => true
    | b :: queue =>
      s.oldest ≤ b.instanceId || (s.finish F b queue).disk.renamed = s.rounds.disk.renamed
  | _ => true

/-- The directories that are kept: all but the one that is being deleted. -/
def State.kept (s : State) : List ℕ :=
  match s.phase with
  | .deleting v => s.ids.filter (· ≠ v.headD 0)
  | _ => s.ids

/-! ## The vector of `CleanCheckpoint` -/

/-- The second entry of the vector is the smallest behind the front. -/
def SecondLeast (v : List ℕ) : Prop := ∀ c ∈ v.tail, v.getD 1 0 ≤ c

theorem SecondLeast.of_sorted (h : v.Pairwise (· ≤ ·)) : SecondLeast v := by
  intro c hc
  match v, h, hc with
  | _ :: b :: l, h, hc =>
    obtain rfl | hc := List.mem_cons.mp hc
    · exact le_refl _
    · exact (List.pairwise_cons.mp (List.pairwise_cons.mp h).2).1 c hc

theorem swapPop_cons {a : ℕ} {l : List ℕ} (h : l ≠ []) :
    swapPop (a :: l) = l.getLast h :: l.dropLast := by
  simp only [swapPop, List.getLast?_eq_getLast_of_ne_nil h]

theorem swapPop_getD_one (h : 3 ≤ v.length) : (swapPop v).getD 1 0 = v.getD 1 0 := by
  match v, h with
  | a :: b :: c :: l, _ => rw [swapPop_cons (List.cons_ne_nil b (c :: l))]; rfl

theorem SecondLeast.swapPop (h : SecondLeast v) : SecondLeast (swapPop v) := by
  intro c hc
  match v, h, hc with
  | a :: b :: d :: l, h, hc =>
    rw [swapPop_getD_one (by simp)]
    rw [swapPop_cons (List.cons_ne_nil b (d :: l))] at hc
    exact h c (List.dropLast_subset _ hc)
  | [a, b], _, hc => cases hc

/-! ## The directories -/

/-- The directories and the oldest id. -/
structure Directories (s : State) : Prop where
  nodup : s.ids.Nodup
  /-- No directory that is kept is below the oldest id. -/
  kept : ∀ c ∈ s.kept, s.oldest ≤ c
  empty : s.ids = [] → s.oldest = 0
  cleaning : ∀ v, s.phase = .cleaning v → v.Perm s.ids ∧ SecondLeast v
  deleting : ∀ v, s.phase = .deleting v →
    v.Perm s.ids ∧ SecondLeast v ∧ 2 ≤ v.length ∧ s.oldest = v.getD 1 0

theorem getD_one_mem_tail (h : 2 ≤ v.length) : v.getD 1 0 ∈ v.tail := by
  match v, h with
  | _ :: b :: l, _ => exact List.mem_cons_self

/-- A directory is renamed only where there was none of its name. -/
theorem renamed_of_finish {F : FileEnv} {b : Report} {s : MachineCheckpoints}
    (h : (MachineManager.finishMakeCheckpoint F b s).disk.renamed ≠ s.disk.renamed) :
    F.renamed = true := by
  by_contra hno
  have hsame : (s.disk.updateCheckpoint F .finishMakeCheckpoint b.instanceId).2 = s.disk := by
    unfold Disk.updateCheckpoint
    split
    · rfl
    · rw [if_neg hno]
  apply h
  simp only [MachineManager.finishMakeCheckpoint, hsame]
  split_ifs <;> rfl

namespace Directories

variable {s t : State}

/-- The directories depend on nothing but the ids, the oldest one and the I/O loop. -/
theorem of_same (h : Directories s) (hids : t.ids = s.ids) (hold : t.oldest = s.oldest)
    (hphase : t.phase = s.phase) : Directories t where
  nodup := hids ▸ h.nodup
  kept := by
    unfold State.kept
    rw [hids, hold, hphase]
    exact h.kept
  empty := by
    rw [hids, hold]
    exact h.empty
  cleaning := by
    rw [hids, hphase]
    exact h.cleaning
  deleting := by
    rw [hids, hold, hphase]
    exact h.deleting

theorem oldest_le (h : Directories s) (hphase : ∀ v, s.phase ≠ .deleting v) :
    ∀ c ∈ s.ids, s.oldest ≤ c := by
  have hkept : s.kept = s.ids := by
    unfold State.kept
    split
    case h_1 v hv => exact absurd hv (hphase v)
    case h_2 => rfl
  exact hkept ▸ h.kept

/-- The renaming of a finished checkpoint keeps the directories in order. -/
theorem publish (h : Directories s) (hphase : s.phase = .running) {c : ℕ} (hc : s.oldest ≤ c)
    (hnew : c ∉ s.ids) (rounds : MachineCheckpoints) :
    Directories { s with rounds, ids := s.ids ++ [c] } where
  nodup := List.nodup_append.mpr ⟨h.nodup, List.nodup_singleton c, by
    rintro a ha b hb rfl
    exact hnew (List.mem_singleton.mp hb ▸ ha)⟩
  kept := by
    intro d hd
    rw [State.kept, hphase] at hd
    obtain hd | hd := List.mem_append.mp hd
    · exact h.oldest_le (by rw [hphase]; exact nofun) d hd
    · rw [List.mem_singleton.mp hd]
      exact hc
  empty := fun hnil => absurd hnil (List.append_ne_nil_of_right_ne_nil _ (List.cons_ne_nil c []))
  cleaning := by
    intro v hv
    rw [hphase] at hv
    cases hv
  deleting := by
    intro v hv
    rw [hphase] at hv
    cases hv

/-- `CleanCheckpoint` starts with the smallest directory. -/
theorem startClean (h : Directories s) (hphase : s.phase = .running)
    (hv : v = s.ids.insertionSort (· ≤ ·)) :
    Directories { s with phase := .cleaning v, oldest := v.headD 0 } ∧ s.oldest ≤ v.headD 0 := by
  have hperm : v.Perm s.ids := hv ▸ List.perm_insertionSort _ _
  have hsorted : v.Pairwise (· ≤ ·) := hv ▸ List.pairwise_insertionSort _ _
  clear hv
  have hfront : ∀ c ∈ s.ids, v.headD 0 ≤ c :=
    fun c hc => headD_le_of_mem hsorted (hperm.mem_iff.mpr hc)
  constructor
  · refine ⟨h.nodup, hfront, fun hnil => ?_, ?_, nofun⟩
    · rw [List.perm_nil.mp (hnil ▸ hperm : v.Perm [])]
      rfl
    · intro w hw
      obtain rfl := Phase.cleaning.inj hw
      exact ⟨hperm, .of_sorted hsorted⟩
  · match v, hperm with
    | [], hperm =>
      rw [h.empty (List.nil_perm.mp hperm)]
      exact Nat.zero_le _
    | a :: l, hperm =>
      exact h.oldest_le (by rw [hphase]; exact nofun) a (hperm.mem_iff.mp List.mem_cons_self)

/-- A pass begins, and the front is given up. -/
theorem cleanPass (h : Directories s) (hphase : s.phase = .cleaning v) (hlen : 2 ≤ v.length) :
    Directories { s with phase := .deleting v, oldest := v.getD 1 0 } ∧
      s.oldest ≤ v.getD 1 0 := by
  obtain ⟨hperm, hsecond⟩ := h.cleaning v hphase
  have hmem := getD_one_mem_tail hlen
  constructor
  · refine ⟨h.nodup, ?_, ?_, nofun, ?_⟩
    · -- What is not the front is behind it.
      intro c hc
      obtain ⟨hc, hne⟩ := List.mem_filter.mp hc
      have hc := hperm.mem_iff.mpr hc
      match v, hc with
      | a :: l, hc =>
        obtain rfl | hc := List.mem_cons.mp hc
        · simp at hne
        · exact hsecond c hc
    · intro hnil
      rw [List.perm_nil.mp (hnil ▸ hperm : v.Perm [])] at hlen
      cases hlen
    · intro w hw
      obtain rfl := Phase.deleting.inj hw
      exact ⟨hperm, hsecond, hlen, rfl⟩
  · refine h.oldest_le (by rw [hphase]; exact nofun) _ ?_
    exact hperm.mem_iff.mp (List.mem_of_mem_tail hmem)

theorem cleanEnd (h : Directories s) (hphase : s.phase = .cleaning v) :
    Directories { s with phase := .running } where
  nodup := h.nodup
  kept := h.oldest_le (by rw [hphase]; exact nofun)
  empty := h.empty
  cleaning := nofun
  deleting := nofun

/-- A pass ends, and the front is deleted. -/
theorem deleteDir (h : Directories s) (hphase : s.phase = .deleting v) :
    Directories { s with ids := s.ids.filter (· ≠ v.headD 0), phase := .cleaning (swapPop v) } := by
  obtain ⟨hperm, hsecond, hlen, hold⟩ := h.deleting v hphase
  have hne : v ≠ [] := by
    rintro rfl
    cases hlen
  have hnodup : v.Nodup := hperm.nodup_iff.mpr h.nodup
  have hswap := swapPop_perm hne
  have hfront : v.headD 0 ∉ swapPop v :=
    (List.nodup_cons.mp (hswap.nodup_iff.mpr hnodup)).1
  -- The vector has the ids of the other directories.
  have hrest : (swapPop v).Perm (s.ids.filter (· ≠ v.headD 0)) := by
    have hfilter := (hswap.trans hperm).filter (· ≠ v.headD 0)
    rw [List.filter_cons_of_neg (by simp), List.filter_eq_self.mpr] at hfilter
    · exact hfilter
    · intro c hc
      exact decide_eq_true fun heq => hfront (heq ▸ hc)
  have hkept : s.kept = s.ids.filter (· ≠ v.headD 0) := by rw [State.kept, hphase]
  refine ⟨h.nodup.filter _, ?_, ?_, ?_, nofun⟩
  · exact hkept ▸ h.kept
  · intro hnil
    have hlen' := (hrest.trans (List.Perm.of_eq hnil)).length_eq
    have := hswap.length_eq
    simp only [List.length_cons, List.length_nil] at this hlen'
    omega
  · intro w hw
    obtain rfl := Phase.cleaning.inj hw
    exact ⟨hrest, hsecond.swapPop⟩

/-- **One step.** The oldest id stays right and does not fall. -/
theorem step (hkeep : 1 ≤ config.keepCheckpointCount) (h : Directories s) {a : Label}
    (hok : s.inOrder a = true) (hstep : Cleaning.step config machines s a = some t) :
    Directories t ∧ s.oldest ≤ t.oldest := by
  have hsame : ∀ {u : State}, u.ids = s.ids → u.oldest = s.oldest → u.phase = s.phase →
      Directories u ∧ s.oldest ≤ u.oldest :=
    fun hids hold hphase => ⟨h.of_same hids hold hphase, hold.ge⟩
  cases a with
  | put r | execute drawn F dirs accepts =>
    obtain ⟨-, heq⟩ := Option.ite_none_right_eq_some.mp hstep
    obtain rfl := Option.some.inj heq
    exact hsame rfl rfl rfl
  | write i place | report i result =>
    obtain ⟨rounds, -, rfl⟩ := Option.map_eq_some_iff.mp hstep
    exact hsame rfl rfl rfl
  | callback F locks =>
    rw [Cleaning.step] at hstep
    rw [State.inOrder] at hok
    split at hstep
    · cases hstep
    rename_i b queue hqueue
    rw [hqueue] at hok
    obtain ⟨hphase, heq⟩ := Option.ite_none_right_eq_some.mp hstep
    -- First the directory is renamed, or not, and then the loop starts.
    have hids : Directories { s with
        rounds := s.finish F b queue
        ids := if (s.finish F b queue).disk.renamed = s.rounds.disk.renamed then s.ids
          else s.ids ++ [b.instanceId] } := by
      split
      · exact h.of_same rfl rfl rfl
      case isFalse hren =>
        have hnew := renamed_of_finish hren
        simp only [Bool.and_eq_true, Bool.not_eq_true', List.contains_eq_mem,
          decide_eq_false_iff_not] at hnew
        simp only [hren, decide_false, Bool.or_false, decide_eq_true_eq] at hok
        exact h.publish hphase hok hnew.2 _
    dsimp only at heq
    split at heq
    · obtain rfl := Option.some.inj heq
      exact hids.startClean hphase rfl
    · obtain rfl := Option.some.inj heq
      exact ⟨hids, le_refl _⟩
  | cleanNext =>
    rw [Cleaning.step] at hstep
    split at hstep
    · rename_i v hphase
      split at hstep
      · obtain rfl := Option.some.inj hstep
        exact h.cleanPass hphase (by omega)
      · obtain rfl := Option.some.inj hstep
        exact ⟨h.cleanEnd hphase, le_refl _⟩
    · cases hstep
  | deleteDir =>
    rw [Cleaning.step] at hstep
    split at hstep
    · rename_i v hphase
      obtain rfl := Option.some.inj hstep
      exact ⟨h.deleteDir hphase, le_refl _⟩
    · cases hstep
  | gcRead =>
    obtain ⟨-, heq⟩ := Option.ite_none_right_eq_some.mp hstep
    obtain rfl := Option.some.inj heq
    exact hsame rfl rfl rfl
  | gcScan =>
    rw [Cleaning.step] at hstep
    split at hstep
    · obtain rfl := Option.some.inj hstep
      exact hsame rfl rfl rfl
    · cases hstep
  | gcWrite ok | gcSetMin ok =>
    rw [Cleaning.step] at hstep
    split at hstep
    · split at hstep <;> obtain rfl := Option.some.inj hstep <;> exact hsame rfl rfl rfl
    · cases hstep

end Directories

/-- The loop of `CleanCheckpoint` keeps the oldest id right. -/
theorem oldest_le_of_loop (n : ℕ) (c : CleanState) (hlen : n < c.checkpoints.length)
    (hold : ∀ i ∈ c.checkpoints, c.oldest ≤ i) (hsecond : SecondLeast c.checkpoints) :
    ∀ i ∈ (CleanState.loop n c).checkpoints, (CleanState.loop n c).oldest ≤ i := by
  induction n generalizing c with
  | zero => exact hold
  | succ n ih =>
    have hne : c.checkpoints ≠ [] := List.ne_nil_of_length_pos (Nat.zero_lt_of_lt hlen)
    have hlen' := (swapPop_perm hne).length_eq
    rw [List.length_cons] at hlen'
    apply ih
    · change n < (swapPop c.checkpoints).length
      omega
    · intro i hi
      exact hsecond i ((swapPop_perm_tail hne).mem_iff.mp hi)
    · exact hsecond.swapPop

/-- A new process finds the directories in order. -/
theorem Directories.start (hkeep : 1 ≤ config.keepCheckpointCount) {ids : List ℕ} (hids : ids.Nodup)
    (db : DB) (temp : Option TempDir) :
    Directories (start config ids db temp) := by
  obtain rfl | hne := eq_or_ne ids []
  · have hclean : cleanCheckpoint config.keepCheckpointCount [] = ⟨[], 0, []⟩ :=
      cleanCheckpoint_of_le (Nat.zero_le config.keepCheckpointCount)
    refine ⟨List.nodup_nil, nofun, fun _ => ?_, nofun, nofun⟩
    rw [Cleaning.start, hclean]
  have hsort : (ids.insertionSort (· ≤ ·)).Perm ids := List.perm_insertionSort _ ids
  have hsorted : (ids.insertionSort (· ≤ ·)).Pairwise (· ≤ ·) := List.pairwise_insertionSort _ ids
  have hlen := hsort.length_eq
  have hpos := List.length_pos_iff.mpr hne
  obtain ⟨hperm, hcount⟩ := CleanState.loop_spec (ids.length - config.keepCheckpointCount)
    ⟨ids.insertionSort (· ≤ ·), (ids.insertionSort (· ≤ ·)).headD 0, []⟩
    (show ids.length - _ ≤ (ids.insertionSort (· ≤ ·)).length by omega)
  have hold := oldest_le_of_loop (ids.length - config.keepCheckpointCount)
    ⟨ids.insertionSort (· ≤ ·), (ids.insertionSort (· ≤ ·)).headD 0, []⟩
    (show ids.length - _ < (ids.insertionSort (· ≤ ·)).length by omega)
    (fun i hi => headD_le_of_mem hsorted hi) (.of_sorted hsorted)
  change _ = (ids.insertionSort (· ≤ ·)).length at hcount
  rw [List.append_nil] at hperm
  have hperm := hperm.trans hsort
  have hdisj := List.disjoint_of_nodup_append (hperm.nodup_iff.mpr hids)
  change ∀ i ∈ (cleanCheckpoint config.keepCheckpointCount ids).checkpoints,
    (cleanCheckpoint config.keepCheckpointCount ids).oldest ≤ i at hold
  refine ⟨hids.filter _, fun c hc => ?_, fun hnil => ?_, nofun, nofun⟩
  · obtain ⟨hc, hstays⟩ := List.mem_filter.mp hc
    obtain hc | hc := List.mem_append.mp (hperm.mem_iff.mpr hc)
    · exact hold c hc
    · exact absurd hc (of_decide_eq_true hstays)
  · -- A directory that the loop left is there.
    obtain ⟨c, hc⟩ : ∃ c, c ∈ (cleanCheckpoint config.keepCheckpointCount ids).checkpoints := by
      apply List.exists_mem_of_length_pos
      change 0 < (CleanState.loop _ _).checkpoints.length
      omega
    have hstays := List.filter_eq_nil_iff.mp hnil c (hperm.mem_iff.mp (List.mem_append_left _ hc))
    exact absurd (decide_eq_true (show c ∉ _ from hdisj hc)) hstays

/-! ## The clean loop -/

/-- What a step does to the log and the clean loop. -/
inductive CollectorStep (config : Config) (s : State) : State → Prop where
  /-- The I/O loop or a machine runs. A record is written for the present instance only. -/
  | other {t : State} (hgc : t.gc = s.gc) (hmin : t.minChosenId = s.minChosenId)
      (hinstance : s.instanceId ≤ t.instanceId)
      (hmax : t.maxChosenId = s.maxChosenId ∨ t.maxChosenId = s.instanceId)
      (hdb : t.db = s.db ∨ ∃ r, t.db = s.db.put s.instanceId r) : CollectorStep config s t
  | read : CollectorStep config s { s with gc := .read s.maxChosenId }
  | scanned (m : ℕ) (hgc : s.gc = .read m)
      (hnew : LogCleaner.scan config.keepLogCount m (s.oldest + 1) m s.minChosenId ≠
        s.minChosenId) :
      CollectorStep config s
        { s with
          gc := .scanned (LogCleaner.scan config.keepLogCount m (s.oldest + 1) m s.minChosenId) }
  | written (upTo : ℕ) (hgc : s.gc = .scanned upTo) :
      CollectorStep config s
        { s with db := s.db.deleteRange s.minChosenId upTo, gc := .written upTo }
  | raised (upTo : ℕ) (hgc : s.gc = .written upTo) :
      CollectorStep config s
        { s with db := { s.db with minChosen := some upTo }, minChosenId := upTo, gc := .idle }
  /-- There is nothing to delete, or a write failed. -/
  | ended : CollectorStep config s { s with gc := .idle }

/-- Every step is one of the cases. -/
theorem step_cases {s t : State} {a : Label} (h : step config machines s a = some t) :
    CollectorStep config s t := by
  -- The steps of the machines and of the other clean loop leave the log and the collector.
  have hsame : ∀ {u : State}, u.gc = s.gc → u.minChosenId = s.minChosenId →
      u.instanceId = s.instanceId → u.maxChosenId = s.maxChosenId → u.db = s.db →
      CollectorStep config s u :=
    fun hgc hmin hinst hmax hdb => .other hgc hmin hinst.ge (.inl hmax) (.inl hdb)
  cases a with
  | put r =>
    obtain ⟨-, heq⟩ := Option.ite_none_right_eq_some.mp h
    obtain rfl := Option.some.inj heq
    exact .other rfl rfl (le_refl _) (.inl rfl) (.inr ⟨r, rfl⟩)
  | execute drawn F dirs accepts =>
    obtain ⟨-, heq⟩ := Option.ite_none_right_eq_some.mp h
    obtain rfl := Option.some.inj heq
    exact .other rfl rfl (Nat.le_succ _) (.inr rfl) (.inl rfl)
  | write i place | report i result =>
    obtain ⟨rounds, -, rfl⟩ := Option.map_eq_some_iff.mp h
    exact hsame rfl rfl rfl rfl rfl
  | callback F locks =>
    rw [step] at h
    split at h
    · cases h
    obtain ⟨-, heq⟩ := Option.ite_none_right_eq_some.mp h
    dsimp only at heq
    split at heq <;> obtain rfl := Option.some.inj heq <;> exact hsame rfl rfl rfl rfl rfl
  | cleanNext =>
    rw [step] at h
    split at h
    · split at h <;> obtain rfl := Option.some.inj h <;> exact hsame rfl rfl rfl rfl rfl
    · cases h
  | deleteDir =>
    rw [step] at h
    split at h
    · obtain rfl := Option.some.inj h
      exact hsame rfl rfl rfl rfl rfl
    · cases h
  | gcRead =>
    obtain ⟨-, heq⟩ := Option.ite_none_right_eq_some.mp h
    obtain rfl := Option.some.inj heq
    exact .read
  | gcScan =>
    rw [step] at h
    split at h
    · rename_i m hgc
      obtain rfl := Option.some.inj h
      split
      · exact .ended
      case isFalse hnew => exact .scanned m hgc hnew
    · cases h
  | gcWrite ok =>
    rw [step] at h
    split at h
    · rename_i upTo hgc
      split at h <;> obtain rfl := Option.some.inj h
      · exact .written upTo hgc
      · exact .ended
    · cases h
  | gcSetMin ok =>
    rw [step] at h
    split at h
    · rename_i upTo hgc
      split at h <;> obtain rfl := Option.some.inj h
      · exact .raised upTo hgc
      · exact .ended
    · cases h

/-- The ids of the clean loop, in a process that started with the minimum `low`. -/
structure Collects (config : Config) (low : ℕ) (s : State) : Prop where
  maxChosen : s.maxChosenId ≤ s.instanceId
  read : ∀ m, s.gc = .read m → m ≤ s.maxChosenId
  scanned : ∀ u, s.gc = .scanned u →
    s.minChosenId ≤ u ∧ u ≤ s.oldest + 1 ∧ u + config.keepLogCount ≤ s.maxChosenId
  written : ∀ u, s.gc = .written u → s.minChosenId ≤ u ∧
    ∀ d, s.minChosenId ≤ d → d < u → d < s.instanceId ∧ s.db.get d = none
  /-- What the minimum has passed is deleted. -/
  passed : ∀ d, low ≤ d → d < s.minChosenId → d < s.instanceId ∧ s.db.get d = none

namespace Collects

variable {low : ℕ} {s t : State}

/-- **One step.** The minimum moves only to the end of what was deleted. -/
theorem step (h : Collects config low s) (hold : s.oldest ≤ t.oldest)
    (hstep : CollectorStep config s t) :
    Collects config low t ∧ s.minChosenId ≤ t.minChosenId := by
  cases hstep with
  | other hgc hmin hinstance hmax hdb =>
    have hmax' : s.maxChosenId ≤ t.maxChosenId ∧ t.maxChosenId ≤ t.instanceId := by
      have := h.maxChosen
      omega
    -- No record below the present instance is written.
    have hgone : ∀ d, d < s.instanceId ∧ s.db.get d = none →
        d < t.instanceId ∧ t.db.get d = none := by
      rintro d ⟨hlt, hnone⟩
      refine ⟨hlt.trans_le hinstance, ?_⟩
      obtain hdb | ⟨r, hdb⟩ := hdb
      · rw [hdb, hnone]
      · rw [hdb, DB.get_put_of_ne _ _ (Nat.ne_of_lt hlt), hnone]
    refine ⟨⟨hmax'.2, fun m hm => ?_, fun u hu => ?_, fun u hu => ?_, fun d hlow hd => ?_⟩, hmin.ge⟩
    · exact (h.read m (hgc ▸ hm)).trans hmax'.1
    · obtain ⟨hle, hckpt, hkeep⟩ := h.scanned u (hgc ▸ hu)
      exact ⟨hmin.trans_le hle, by omega, hkeep.trans hmax'.1⟩
    · obtain ⟨hle, hnone⟩ := h.written u (hgc ▸ hu)
      exact ⟨hmin.trans_le hle, fun d hd hlt => hgone d (hnone d (hmin ▸ hd) hlt)⟩
    · exact hgone d (h.passed d hlow (hmin ▸ hd))
  | read =>
    refine ⟨⟨h.maxChosen, fun m hm => ?_, nofun, nofun, h.passed⟩, le_refl _⟩
    exact (Collector.read.inj hm).ge
  | scanned m hgc hnew =>
    refine ⟨⟨h.maxChosen, nofun, fun u hu => ?_, nofun, h.passed⟩, le_refl _⟩
    obtain rfl := Collector.scanned.inj hu
    obtain ⟨hckpt, hkeep⟩ := LocalNode.scan_le _ _ hnew
    exact ⟨LogCleaner.le_scan .., hckpt, hkeep.trans (h.read m hgc)⟩
  | written u hgc =>
    obtain ⟨hle, -, hkeep⟩ := h.scanned u hgc
    have hmax := h.maxChosen
    refine ⟨⟨hmax, nofun, nofun, fun w hw => ?_, fun d hlow hd => ?_⟩, le_refl _⟩
    · obtain rfl := Collector.written.inj hw
      refine ⟨hle, fun d (hd : s.minChosenId ≤ d) hlt => ⟨show d < s.instanceId by omega, ?_⟩⟩
      rw [DB.get_deleteRange, if_neg (by omega)]
    · obtain ⟨hlt, hnone⟩ := h.passed d hlow hd
      refine ⟨hlt, ?_⟩
      rw [DB.get_deleteRange, hnone, ite_self]
  | raised u hgc =>
    obtain ⟨hle, hnone⟩ := h.written u hgc
    refine ⟨⟨h.maxChosen, nofun, nofun, nofun, fun d hlow hd => ?_⟩, hle⟩
    obtain hpast | hnew := lt_or_ge d s.minChosenId
    · exact h.passed d hlow hpast
    · exact hnone d hnew hd
  | ended => exact ⟨⟨h.maxChosen, nofun, nofun, nofun, h.passed⟩, le_refl _⟩

/-- A record that a step loses is in the batch, and the whole batch is gone. -/
theorem lost (hstep : CollectorStep config s t) {d : ℕ} (hd : s.db.get d ≠ none)
    (hnone : t.db.get d = none) :
    ∃ upTo, s.gc = .scanned upTo ∧ s.minChosenId ≤ d ∧ d < upTo ∧
      ∀ e, s.minChosenId ≤ e → e < upTo → t.db.get e = none := by
  cases hstep with
  | other hgc hmin hinstance hmax hdb =>
    obtain hdb | ⟨r, hdb⟩ := hdb
    · rw [hdb] at hnone
      exact absurd hnone hd
    · by_cases heq : d = s.instanceId
      · rw [hdb, heq, DB.get_put_self] at hnone
        cases hnone
      · rw [hdb, DB.get_put_of_ne _ _ heq] at hnone
        exact absurd hnone hd
  | written u hgc =>
    refine ⟨u, hgc, ?_⟩
    rw [DB.get_deleteRange] at hnone
    split at hnone
    · exact absurd hnone hd
    · refine ⟨by omega, by omega, fun e hle hlt => ?_⟩
      rw [DB.get_deleteRange, if_neg (by omega)]
  | raised u hgc => exact absurd hnone hd
  | _ => exact absurd hnone hd

end Collects

/-! ## Safety of the clean loop -/

/-- The test of the loop of `GCLoop`. `keep` is an `int`, which is converted to 64 bits for the
sum. -/
def cleans (keepLogCount : UInt32) (minChosenId maxChosenId checkpointId : UInt64) : Bool :=
  let keep : Int32 := keepLogCount.toInt32
  minChosenId + keep.toInt64.toUInt64 < maxChosenId && minChosenId < checkpointId

theorem toNat_keep {keepLogCount : UInt32} (h : keepLogCount.toNat < 2 ^ 31) :
    keepLogCount.toInt32.toInt64.toUInt64.toNat = keepLogCount.toNat := by
  have hmsb : keepLogCount.toBitVec.msb = false := by
    rw [BitVec.msb_eq_false_iff_two_mul_lt]
    exact (by omega : 2 * keepLogCount.toNat < 2 ^ 32)
  change (keepLogCount.toBitVec.signExtend 64).toNat = keepLogCount.toBitVec.toNat
  rw [BitVec.signExtend_eq_setWidth_of_msb_false hmsb, BitVec.toNat_setWidth_of_le (by omega)]

/-- It is the one of the scan, for a count that an `int` holds. -/
theorem cleans_eq {keepLogCount : UInt32} {minChosenId : UInt64}
    (hint : keepLogCount.toNat < 2 ^ 31)
    (hsum : minChosenId.toNat + keepLogCount.toNat < 2 ^ 64) (maxChosenId checkpointId : UInt64) :
    cleans keepLogCount minChosenId maxChosenId checkpointId =
      decide (minChosenId.toNat + keepLogCount.toNat < maxChosenId.toNat ∧
        minChosenId.toNat < checkpointId.toNat) := by
  have hkeep := toNat_keep hint
  simp only [cleans, UInt64.lt_iff_toNat_lt, UInt64.toNat_add, hkeep, Nat.mod_eq_of_lt hsum,
    Bool.decide_and]

/-- **Garbage collection is safe.** In every run in which no directory is published below
`oldest_checkpoint_instance_id_`, with any counts of logs and checkpoints to keep:

* the batch of `GCLoop` has only ids that are at most each checkpoint kept, and more than
  `KeepLogCount` behind the maximum,
* a record is lost only with the whole batch from the minimum on, and all that the minimum has
  passed is gone,
* the minimum never falls,
* and the loop's test in the code's arithmetic is the one of the model. -/
theorem gc_safe {config : Config} {machines ids : List ℕ} {db : DB} {temp : Option TempDir}
    {s : State} (hkeep : 1 ≤ config.keepCheckpointCount) (hint : config.keepLogCount < 2 ^ 31)
    (hids : ids.Nodup)
    (h : Reaches (step config machines) (fun s a => s.inOrder a = true)
      (start config ids db temp) s) :
    (∀ upTo d, s.gc = .scanned upTo → s.minChosenId ≤ d → d < upTo →
      (∀ c ∈ s.kept, d ≤ c) ∧ d + config.keepLogCount < s.maxChosenId) ∧
    (∀ a t d, step config machines s a = some t → s.db.get d ≠ none → t.db.get d = none →
      ∃ upTo, s.gc = .scanned upTo ∧ s.minChosenId ≤ d ∧ d < upTo ∧
        ∀ e, s.minChosenId ≤ e → e < upTo → t.db.get e = none) ∧
    (∀ d, db.minChosen.getD 0 ≤ d → d < s.minChosenId → s.db.get d = none) ∧
    (∀ t, Reaches (step config machines) (fun s a => s.inOrder a = true) s t →
      s.minChosenId ≤ t.minChosenId) ∧
    ∀ m M c : UInt64, m.toNat + config.keepLogCount < 2 ^ 64 →
      cleans (.ofNat config.keepLogCount) m M c =
        decide (m.toNat + config.keepLogCount < M.toNat ∧ m.toNat < c.toNat) := by
  -- The two invariants go together: the deletions stop at the oldest checkpoint of the count.
  have hstep : ∀ s t a, (Directories s ∧ Collects config (db.minChosen.getD 0) s) →
      s.inOrder a = true → step config machines s a = some t →
      (Directories t ∧ Collects config (db.minChosen.getD 0) t) ∧
        s.minChosenId ≤ t.minChosenId := by
    rintro s t a ⟨hdirs, hgc⟩ hok hstep
    obtain ⟨hdirs', hold⟩ := hdirs.step hkeep hok hstep
    obtain ⟨hgc', hmin⟩ := hgc.step hold (step_cases hstep)
    exact ⟨⟨hdirs', hgc'⟩, hmin⟩
  have hinv : Directories s ∧ Collects config (db.minChosen.getD 0) s := by
    refine h.invariant ?_ fun s t a hs hok ht => (hstep s t a hs hok ht).1
    exact ⟨.start hkeep hids db temp, le_refl _, nofun, nofun, nofun,
      fun d hlow hd => absurd hd (not_lt_of_ge hlow)⟩
  obtain ⟨hdirs, hgc⟩ := hinv
  refine ⟨fun upTo d hu hd hlt => ?_, fun a t d ht => Collects.lost (step_cases ht),
    fun d hlow hd => (hgc.passed d hlow hd).2, fun t ht => ?_, fun m M c hsum => ?_⟩
  · -- The batch ends at the oldest checkpoint of the count, and none that is kept is older.
    obtain ⟨-, hold, hlog⟩ := hgc.scanned upTo hu
    refine ⟨fun c hc => ?_, by omega⟩
    have := hdirs.kept c hc
    omega
  · have hmono : (Directories t ∧ Collects config (db.minChosen.getD 0) t) ∧
        s.minChosenId ≤ t.minChosenId := by
      refine ht.invariant (P := fun t => (Directories t ∧ Collects config (db.minChosen.getD 0) t) ∧
        s.minChosenId ≤ t.minChosenId) ⟨⟨hdirs, hgc⟩, le_refl _⟩ fun u v a hu hok huv => ?_
      obtain ⟨hv, hmin⟩ := hstep u v a hu.1 hok huv
      exact ⟨hv, hu.2.trans hmin⟩
    exact hmono.2
  -- The code has the `uint32_t` count in an `int`, and adds that to a `uint64_t`.
  · have hnat : (UInt32.ofNat config.keepLogCount).toNat = config.keepLogCount :=
      UInt32.toNat_ofNat_of_lt' (hint.trans (by decide))
    have heq := cleans_eq (hnat.trans_lt hint) ((congrArg (m.toNat + ·) hnat).trans_lt hsum) M c
    rw [hnat] at heq
    exact heq

/-- A node that keeps few records. -/
def keeper (keepCheckpointCount : ℕ) : Config :=
  { solo with keepCheckpointCount, keepLogCount := 2 }

/-- Of three directories `Recover` leaves the second one, and the records up to it are cleaned. -/
theorem gc_safe_three : ∃ s : State, s.gc = .scanned 3 ∧ s.kept = [2] ∧
    ∀ d, s.minChosenId ≤ d → d < 3 → (∀ c ∈ s.kept, d ≤ c) ∧ d + 2 < s.maxChosenId := by
  have hrun : (runChecked (step (keeper 1) [1]) State.inOrder
      (start (keeper 1) [1, 3, 2] (DB.put {} 6 {}) none)
      [.execute 1 {} (fun _ => {}) (fun _ => true), .gcRead, .gcScan]).map
      (fun s => (s.gc, s.kept)) = some (.scanned 3, [2]) := by
    decide +kernel
  obtain ⟨s, hs, hval⟩ := Option.map_eq_some_iff.mp hrun
  obtain ⟨hgc, hkept⟩ := Prod.mk.inj hval
  exact ⟨s, hgc, hkept, fun d hd hlt => (gc_safe (by decide) (by decide) (by decide)
    (Reaches.of_runChecked _ (fun _ _ _ hok => hok) hs)).1 3 d hgc hd hlt⟩

/-- The record of an instance is written, and it is executed. -/
def executeNext (accepts : ℕ → Bool) : List Label :=
  [.put {}, .execute 1 {} (fun _ => {}) accepts]

/-- Two machines are asked for a checkpoint at instance 2. The first one is slow, and the second one
refuses, so that the round is abandoned. Both finish one at instance 3. In the round at instance 5
the second machine has reported, and the first one now reports for instance 2. -/
def slowMachine : List Label :=
  executeNext (fun _ => true) ++ executeNext (· ≠ 2) ++ [.write 0 { name := "data" }] ++
    executeNext (fun _ => true) ++
    [.write 1 { name := "data" }, .report 1 true, .write 1 { name := "data" }, .report 1 true,
      .callback {} true, .callback {} true, .cleanNext] ++
    executeNext (fun _ => true) ++ executeNext (fun _ => true) ++
    [.write 2 { name := "data" }, .report 2 true, .callback {} true, .report 0 true]

/-- After the slow machine and the steps `rest`, `GCLoop` deletes the record of instance 3 while the
directory of instance 2 is kept. -/
def DeletesAboveKept (rest : List Label) : Prop :=
  ∃ s t, run (step (keeper 2) [1, 2]) (start (keeper 2) [] {} none) (slowMachine ++ rest) =
      some s ∧ step (keeper 2) [1, 2] s (.gcWrite true) = some t ∧ 2 ∈ t.kept ∧
    s.db.get 3 ≠ none ∧ t.db.get 3 = none

/-- `DeletesAboveKept` follows from a run that is evaluated. -/
theorem DeletesAboveKept.of_check {rest : List Label}
    (h : ((run (step (keeper 2) [1, 2]) (start (keeper 2) [] {} none) (slowMachine ++ rest)).bind
      fun s => (step (keeper 2) [1, 2] s (.gcWrite true)).map fun t =>
        decide (2 ∈ t.kept ∧ s.db.get 3 ≠ none ∧ t.db.get 3 = none)) = some true) :
    DeletesAboveKept rest := by
  obtain ⟨s, hs, hrest⟩ := Option.bind_eq_some_iff.mp h
  obtain ⟨t, ht, hval⟩ := Option.map_eq_some_iff.mp hrest
  exact ⟨s, t, hs, ht, of_decide_eq_true hval⟩

/-- A directory is published for instance 2 while the records up to instance 3 may be deleted:
either `CleanCheckpoint` does not get the lock, or `GCLoop` has made its batch before. -/
theorem deletes_above_kept :
    DeletesAboveKept (.callback {} false :: executeNext (fun _ => true) ++ [.gcRead, .gcScan]) ∧
      DeletesAboveKept
        (executeNext (fun _ => true) ++ [.gcRead, .gcScan, .callback {} true, .cleanNext]) := by
  constructor
  · exact .of_check (by decide +kernel)
  · exact .of_check (by decide +kernel)

end Cleaning

end Skywalker
