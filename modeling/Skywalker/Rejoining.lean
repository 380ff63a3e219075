import Skywalker.CatchUp

/-!
# A node that has missed deleted instances rejoins

`GCLoop` deletes the records of old instances, so a node may be behind all that another one has.
`OnSendNowInstanceId` sees this from the minimum in the answer: the node does not confirm but asks
for a checkpoint, and stops handling messages. The other one queues `SendCheckpoint` in its learn
loop. The files arrive, the process exits, and the next one recovers from the new directory.

The recovery is at the instance after the checkpoint, whatever the old log of the node has, and the
records from there on are those that the other node keeps. So the two by themselves, with the
checkpoint in between, get the one to the instance of the other (`node_rejoins`).
-/

namespace Skywalker

open TransitionSystem

/-! ## The request -/

section

variable {E : Env} {nodes : List ℕ} {n m : ℕ}

/-- A node that is told of a minimum above its instance asks for a checkpoint. -/
theorem Learner.onPaxosMessage_nowAbove {x : Node} {msg : PaxosMessage} (hw : x.WF)
    (hx : x.learner.isReceivingCheckpoint = false ∧ x.learner.hasLearned = false)
    (htype : msg.type = .sendNowInstanceId) (hid : msg.instanceId = x.instanceId)
    (hlt : x.instanceId < msg.nowInstanceId) (hmin : x.instanceId < msg.minChosenInstanceId) :
    Instance.onPaxosMessage E msg x = { x with
      learner := { x.learner with isReceivingCheckpoint := true }
      trace := .send msg.nodeId { type := .askForCheckpoint, nodeId := x.nodeId,
                                  instanceId := x.instanceId } :: x.trace } := by
  simp [Instance.onPaxosMessage, Instance.frame, Instance.handle, onSendNowInstanceId,
    hw.learnerId, hx.1, hx.2, htype, hid, hlt, hmin, Node.sendMessage, Node.emit,
    Instance.checkLearn]

/-- In `t`, the node `n` waits for a checkpoint of `m`, whose learn loop is about to send it, and
nothing else has changed since `s` but what is queued and in the network. -/
structure Sys.Requested (s : Sys) (n m : ℕ) (t : Sys) : Prop where
  receiving : (t n).learner.isReceivingCheckpoint = true
  queued : (t m).learnTasks = [.sendCheckpoint n]
  client : ∃ learner l, t n = { s n with learner := learner, trace := l ++ (s n).trace } ∧
    ∀ e ∈ (t n).trace.head?, e.isReplay = false
  server : ∃ tasks l, t m = { s m with learnTasks := tasks, trace := l ++ (s m).trace }

/-- The exchange that ends with the request for a checkpoint. -/
theorem System.Runs.request {C : Setup} {s : Sys} (hfree : E.isSendingCheckpoint = false)
    (hn : n ∈ nodes) (hm : m ∈ nodes) (hw : s.WF C)
    (hmember : m ∈ E.newestMembership.getD (s n).memberIds)
    (hlearned : (s n).learner.hasLearned = false)
    (hserver : (s m).learner.isReceivingCheckpoint = false ∧ (s m).learner.hasLearned = false)
    (hfar : (s n).instanceId + 1 < (s m).instanceId)
    (hmin : (s n).instanceId < (s m).minChosenId) :
    ∃ t, System.Runs E nodes s t ∧ s.Requested n m t := by
  have hne : n ≠ m := by
    rintro rfl
    omega
  obtain ⟨s₁, dests, l, hask, hdest, h₁n, h₁m⟩ := System.Runs.question hn hm hne hw hmember
  obtain ⟨s₂, hnow, h₂n, h₂m⟩ := System.Runs.told (s := s₁) hfree hm hne
    (by rw [h₁m]; exact hw.nodeId m) hdest (by rw [h₁n]; exact List.mem_cons_self)
    (by rw [h₁m]; exact { (hw m).1 with learnTasks := by simp }) (by rw [h₁m])
    (by rw [h₁m]; exact hserver) (by rw [h₁n, h₁m]; exact hfar)
  rw [h₁n] at h₂n
  simp only [h₁n, h₁m] at h₂m
  have hself : (s₂ n).nodeId = n := by
    rw [h₂n]
    exact hw.nodeId n
  -- The learner asks for a checkpoint.
  obtain ⟨s₃, htold, h₃n, h₃⟩ := System.Runs.deliver (E := E) (s := s₂) (n := n)
    { type := .sendNowInstanceId, nodeId := m, instanceId := (s n).instanceId,
      nowInstanceId := (s m).instanceId, minChosenInstanceId := (s m).minChosenId } hn
    (by rw [h₂m]; exact List.mem_cons_self) (by simp [Event.delivers])
  rw [Learner.onPaxosMessage_nowAbove (by rw [h₂n]; exact { (hw n).1 with })
    (by rw [h₂n]; exact ⟨rfl, hlearned⟩) rfl (by rw [h₂n]) (by rw [h₂n]; simp only; omega)
    (by rw [h₂n]; exact hmin), hself, h₂n] at h₃n
  have h₃m : s₃ m = s₂ m := h₃ m hne.symm
  -- The server queues `SendCheckpoint`.
  obtain ⟨t, hasked, htm, ht⟩ := System.Runs.deliver (E := E) (s := s₃) (n := m)
    { type := .askForCheckpoint, nodeId := n, instanceId := (s n).instanceId } hm
    (by rw [h₃n]; exact List.mem_cons_self) (by simp [Event.delivers])
  rw [h₃m, h₂m] at htm
  simp only [Instance.onPaxosMessage, Instance.frame, Instance.handle, Learner.onAskForCheckpoint,
    Node.queueInLearnLoop, Instance.checkLearn, hserver.1, hserver.2, List.nil_append,
    Bool.false_eq_true, if_false] at htm
  have htn : t n = s₃ n := ht n hne
  rw [h₃n] at htn
  refine ⟨t, hask.trans (hnow.trans (htold.trans hasked)), ?_, ?_, ?_, ?_⟩
  · rw [htn]
  · rw [htm]
  · refine ⟨_, [_, _], htn, fun e he => ?_⟩
    rw [htn] at he
    cases Option.mem_some_iff.mp he
    rfl
  · exact ⟨_, _ :: l, htm⟩

end

/-! ## The recovery -/

section

variable {E : Env} {config : Config} {db : DB} {dirs : List (ℕ × Machines)} {c : ℕ}

/-- A new directory, later than the others, is what `MachineManager::Recover` restores, as long as
nothing is cleaned. -/
theorem MachineManager.recover_newest (saved : Machines) (hpos : 0 < c)
    (hnew : ∀ d ∈ dirs, d.1 < c) (hfew : dirs.length < config.keepCheckpointCount) :
    MachineManager.recover E config ((c, saved) :: dirs) =
      (c, saved.recover config.nodeId E.nowMillis) := by
  have hmax : (((c, saved) :: dirs).map Prod.fst).max? = some c := by
    refine List.max?_eq_some_iff.mpr ⟨List.mem_cons_self, fun i hi => ?_⟩
    obtain ⟨d, hd, rfl⟩ := List.mem_map.mp hi
    rcases List.mem_cons.mp hd with rfl | hd
    · exact le_refl _
    · exact (hnew d hd).le
  have hkeeps : KeepsNewest E config ((c, saved) :: dirs) := .of_le hfew
  have hlast := hkeeps.latest.2
  rw [hmax, Option.getD_some] at hlast
  rcases MachineManager.recover_cases E config ((c, saved) :: dirs) with heq | ⟨d, hd, heq⟩
  · rw [heq] at hlast
    exact absurd hlast (Nat.ne_of_lt hpos)
  · rw [heq] at hlast ⊢
    rcases List.mem_cons.mp hd with rfl | hd
    · rfl
    · exact absurd hlast (Nat.ne_of_lt (hnew d hd))

/-- A recovery from a checkpoint that is not behind the log replays nothing. -/
theorem Node.recover_ahead {ms : Machines} (trace : List Event)
    (hrecover : MachineManager.recover E config dirs = (c, ms))
    (hdb : ∀ i r, db.get i = some r → i ≤ c) :
    ∃ y, Node.recover E config db dirs trace = some y ∧ y.instanceId = c + 1 ∧
      y.machines = ms ∧ y.learner.hasLearned = false ∧ y.config = config ∧
      y.trace = .recovered (c + 1) ms.membership :: trace := by
  obtain ⟨a, ha, hle⟩ : ∃ a, Acceptor.readFromDB db = some a ∧ a.instanceId ≤ c + 1 := by
    unfold Acceptor.readFromDB
    cases hmax : db.getMaxInstanceId with
    | none => exact ⟨{}, rfl, Nat.zero_le _⟩
    | some i =>
      obtain ⟨⟨r, hr⟩, -⟩ := DB.getMaxInstanceId_eq_some hmax
      simp only [hr]
      exact ⟨_, rfl, Nat.le_succ_of_le (hdb i r hr)⟩
  have hmax : max (c + 1) a.instanceId = c + 1 := max_eq_left hle
  simp [Node.recover, ha, hrecover, hmax, Nat.sub_eq_zero_of_le hle, LogManager.replayLog]

end

/-! ## The whole way -/

section

variable {C : Setup} {E : Env} {s t : Sys} {n m c : ℕ}

/-- Schedules keep what a step keeps. -/
theorem System.Runs.keeps {nodes : List ℕ} (h : System.Runs E nodes s t) (hw : s.WF C)
    (htraced : Traced s) (hversioned : ∀ k, (s k).Versioned) :
    (t.WF C ∧ Traced t) ∧ ∀ k, (t k).Versioned :=
  h.invariant (P := fun u => (u.WF C ∧ Traced u) ∧ ∀ k, (u k).Versioned)
    ⟨⟨hw, htraced⟩, hversioned⟩
    fun _ _ _ hu _ hst => ⟨hu.1.2.step hu.1.1 hst, Sys.versioned_step hu.1.1 hu.2 hst⟩

/-- The node that waits for the checkpoint gets it, and its next process is at the instance after
the checkpoint, with the machines of the checkpoint. -/
theorem Sys.Requested.install {saved : Machines} (h : s.Requested n m t) (hpos : 0 < c)
    (hsaved : (s m).checkpoints.lookup c = some saved) (hnew : ∀ d ∈ (s n).checkpoints, d.1 < c)
    (hfew : (s n).checkpoints.length < (s n).config.keepCheckpointCount)
    (hdb : ∀ i r, (s n).db.get i = some r → i ≤ c) :
    ∃ u, System.step t (E, .install n m c) = some u ∧ (∀ k, k ≠ n → u k = t k) ∧
      (u n).instanceId = c + 1 ∧ (u n).learner.hasLearned = false ∧
      (u n).config = (s n).config ∧ (u n).applied = [] ∧
      (u n).machines = saved.recover (s n).nodeId E.nowMillis := by
  obtain ⟨learner, l, htn, hhead⟩ := h.client
  obtain ⟨tasks, l', htm⟩ := h.server
  have hrecover := MachineManager.recover_newest (E := E) saved hpos hnew hfew
  obtain ⟨y, hy, hid, hmachines, hlearned, hconfig, htrace⟩ :=
    Node.recover_ahead (t n).trace hrecover hdb
  refine ⟨Function.update t n y, ?_, fun k hk => Function.update_of_ne hk y t, ?_⟩
  · have hfresh : c ∉ (s n).checkpoints.map Prod.fst := by
      intro hmem
      obtain ⟨d, hd, rfl⟩ := List.mem_map.mp hmem
      exact lt_irrefl _ (hnew d hd)
    have hsource : (t m).checkpoints.lookup c = some saved := by
      rw [htm]
      exact hsaved
    have hdisk : (t n).config = (s n).config ∧ (t n).db = (s n).db ∧
        (t n).checkpoints = (s n).checkpoints := by
      rw [htn]
      exact ⟨rfl, rfl, rfl⟩
    simp only [System.step, if_neg hfresh, hsource, hdisk.1, hdisk.2.1, hdisk.2.2, hy,
      Option.bind_some, Option.map_some]
  · rw [Function.update_self]
    refine ⟨hid, hlearned, hconfig, ?_, hmachines⟩
    rw [Node.applied, htrace]
    exact appliedValues_recovered (l := []) (fun e he => absurd he List.not_mem_nil) hhead

/-- **A node that has missed deleted instances rejoins.** In every state that is reached as the
range of the log is held for: a node without a pending value, one of whose members is ahead of it by
more than an instance, has deleted what the node would need next, handles messages and has no
pending value either, comes to ask that member for a checkpoint, and the member to send one. With a
checkpoint of the member that is later than those of the node, and from which on the member has the
log, the next process of the node is at the instance after the checkpoint. From there it comes to
the instance of the member, having executed the values of the member's log in order, each once. -/
theorem node_rejoins {saved : Machines}
    (hrun : Reaches System.lifeStep (fun s a => (∀ k, a.1.putOk k = true) ∧ keepsRange s a = true)
      (System.init C) s)
    (hE : E.Calm) (hmember : m ∈ E.newestMembership.getD (s n).memberIds)
    (hmember' : m ∈ E.newestMembership.getD saved.membership.ids)
    (hn : (s n).learner.hasLearned = false)
    (hm : (s m).learner.isReceivingCheckpoint = false ∧ (s m).learner.hasLearned = false)
    (hfar : (s n).instanceId + 1 < (s m).instanceId)
    (hdeleted : (s n).instanceId < (s m).minChosenId)
    (hsaved : (s m).checkpoints.lookup c = some saved)
    (hmin : (s m).lowest ≤ c + 1) (hmax : c < (s m).instanceId)
    (hnew : ∀ d ∈ (s n).checkpoints, d.1 < c)
    (hfew : (s n).checkpoints.length < (s n).config.keepCheckpointCount)
    (hvalues : ∀ k, c < k → k < (s m).instanceId →
      (s n).config.codec.executable (LogManager.loggedValue (s m).db k) = true) :
    ∃ s₁ s₂ t, System.Runs E [n, m] s s₁ ∧ s.Requested n m s₁ ∧
      System.step s₁ (E, .install n m c) = some s₂ ∧ (s₂ n).instanceId = c + 1 ∧
      (s₂ n).machines = saved.recover n E.nowMillis ∧
      System.Runs E [n, m] s₂ t ∧ (t n).instanceId = (s m).instanceId ∧
      (t n).applied = (List.range' (c + 1) ((s m).instanceId - (c + 1))).map fun k =>
        (k, LogManager.loggedValue (s m).db k) := by
  obtain ⟨hranged, hversioned⟩ := Sys.ranged_versioned hrun
  have hnm : n ∈ [n, m] := List.mem_cons_self
  have hmn : m ∈ [n, m] := List.mem_cons_of_mem n List.mem_cons_self
  have hne : m ≠ n := by
    rintro rfl
    omega
  -- The node asks, and learns from the answer that the member has deleted its instance.
  obtain ⟨s₁, hfirst, hreq⟩ := System.Runs.request hE.free hnm hmn hranged.wf hmember hn hm hfar
    hdeleted
  -- The log of the node ends below the checkpoint, so that the new process replays nothing.
  have hpos := (hranged.ranged n).positive
  have hmin' := (hranged.ranged m).lowest.trans hmin
  obtain ⟨s₂, hinstall, hothers, hid, hlearned, hconfig, happlied, hmachines⟩ :=
    hreq.install (E := E) (by omega) hsaved hnew hfew fun i r hr => by
      have hbelow := (hranged.ranged n).below i r hr
      omega
  rw [hranged.wf.nodeId n] at hmachines
  obtain ⟨hwf, hversioned₁⟩ := hfirst.keeps hranged.wf hranged.traced hversioned
  have hwf₂ := (hwf.2.step hwf.1 hinstall).1
  have hversioned₂ := Sys.versioned_step hwf.1 hversioned₁ hinstall
  -- What the request and the installation changed of the member does not touch its log.
  obtain ⟨tasks, l, hserver⟩ := hreq.server
  rw [← hothers m hne] at hserver
  have hserverId : (s₂ m).instanceId = (s m).instanceId := by rw [hserver]
  refine ⟨s₁, s₂, ?_⟩
  rcases Nat.eq_or_lt_of_le (Nat.succ_le_of_lt hmax) with hlast | hbehind
  · -- The checkpoint is of the last instance: nothing is left to learn.
    refine ⟨s₂, hfirst, hreq, hinstall, hid, hmachines, .refl, hid.trans hlast, ?_⟩
    rw [happlied, ← hlast, Nat.sub_self]
    rfl
  · have hserves : s₂.Serves n m := by
      refine ⟨?_, ?_, ?_, ?_, ?_⟩ <;> rw [hserver]
      · exact hm.1
      · exact hm.2
      · rw [hid]
        exact hbehind
      · rw [hid]
        exact hmin'
      · rw [hid, hconfig]
        exact hranged.records m hmin hvalues
    obtain ⟨t, hrest, ht⟩ := System.Runs.catchUp hE hnm hmn hwf₂ hlearned (hversioned₂ n).machines
      (by
        have hids : (s₂ n).memberIds = saved.membership.ids := by
          unfold Node.memberIds
          rw [hmachines]
          rfl
        rw [hids]
        exact hmember')
      hserves
    have hend := ht.instanceId
    have hlog := ht.applied
    rw [happlied, hid, hserverId, hserver] at hlog
    exact ⟨t, hfirst, hreq, hinstall, hid, hmachines, hrest, by omega, hlog⟩

end

/-- The members of a group of three that keep two instances of the log. -/
def trioKeeper : Config := { trioMember with keepLogCount := 2 }

/-- The `ACCEPT` of the value that node 1 proposes in an instance. -/
def laterAccept (instanceId valueId : ℕ) (userData : List UInt8) : PaxosMessage :=
  { type := .accept, nodeId := 1, instanceId, proposalId := 1,
    value := { valueId, machineId := 7, userData } }

/-- A value of node 1 is accepted by node 2 as well, which takes the `ACCEPT` once for the news of
the last choice. -/
def laterChosen (accept : PaxosMessage) : List (Env × Label) :=
  [({}, .node 1 (.propose 7 accept.value.userData none 256)),
    ({}, .node 2 (.paxosMessage accept)), ({}, .node 2 (.paxosMessage accept)),
    ({}, .node 1 (.paxosMessage
      { type := .acceptReply, nodeId := 2, instanceId := accept.instanceId, proposalId := 1 }))]

/-- After two instances node 1 makes a checkpoint, two more values are chosen, and node 1 cleans its
log. -/
def fourthChosen : List (Env × Label) :=
  secondChosen ++ ([({}, .node 1 .finishCheckpoint)] : List (Env × Label)) ++
    laterChosen (laterAccept 3 259 [3]) ++ laterChosen (laterAccept 4 260 [4]) ++
    ([({}, .node 1 .gcLoop), ({}, .node 1 .gcLoop)] : List (Env × Label))

/-- Node 3 has heard nothing, and node 1 has deleted the first instance. With the checkpoint of the
second instance and the values of the next two, node 3 comes to the fifth. -/
theorem node_rejoins_trio : ∃ s s₁ s₂ t : Sys, System.Runs {} [3, 1] s s₁ ∧
    (s₁ 3).learner.isReceivingCheckpoint = true ∧ (s₁ 1).learnTasks = [.sendCheckpoint 3] ∧
    System.step s₁ ({}, .install 3 1 2) = some s₂ ∧ System.Runs {} [3, 1] s₂ t ∧
    (s 3).instanceId = 1 ∧ (s₂ 3).instanceId = 3 ∧ (t 3).instanceId = 5 ∧
    (t 3).applied =
      [(3, (laterAccept 3 259 [3]).value), (4, (laterAccept 4 260 [4]).value)] := by
  have hend : (runChecked System.lifeStep keepsRange (System.init (.uniform trioKeeper))
      (fourthChosen.map fun a => (a.1, .step a.2))).map (fun s =>
        ([(s 3).instanceId, (s 1).instanceId, (s 1).minChosenId, (s 1).lowest,
          (s 3).config.keepCheckpointCount],
        ((s 1).checkpoints.lookup 2).map (fun saved => saved.membership.ids),
        [3, 4].map (LogManager.loggedValue (s 1).db),
        decide (1 ∈ (s 3).memberIds) && !(s 3).learner.hasLearned &&
          !(s 1).learner.isReceivingCheckpoint && !(s 1).learner.hasLearned &&
          ([3, 4].all fun k =>
            (s 3).config.codec.executable (LogManager.loggedValue (s 1).db k)) &&
          (s 3).checkpoints.isEmpty)) =
      some ([1, 5, 2, 2, 3], some [3, 2, 1],
        [(laterAccept 3 259 [3]).value, (laterAccept 4 260 [4]).value], true) := by
    decide +kernel
  obtain ⟨s, hs, hfields⟩ := Option.map_eq_some_iff.mp hend
  simp only [Prod.mk.injEq, List.cons.injEq, and_true, Bool.and_eq_true, Bool.not_eq_true',
    decide_eq_true_eq, List.isEmpty_iff] at hfields
  obtain ⟨⟨h3, h1, hmin, hlow, hkeep⟩, hids, hlog, ⟨⟨⟨⟨hmember, hn⟩, hr⟩, hl⟩, hexec⟩, hempty⟩ :=
    hfields
  obtain ⟨saved, hsaved, hids⟩ := Option.map_eq_some_iff.mp hids
  have hrun := reaches_of_default (n := 20) rfl hs
  have hvalues : ∀ k, 2 < k → k < (s 1).instanceId →
      (s 3).config.codec.executable (LogManager.loggedValue (s 1).db k) = true := by
    intro k hk hlt
    refine List.all_eq_true.mp hexec k ?_
    have hcases : k = 3 ∨ k = 4 := by omega
    simpa using hcases
  have hmember' : 1 ∈ saved.membership.ids := by
    rw [hids]
    decide
  obtain ⟨s₁, s₂, t, hfirst, hreq, hinstall, hid, -, hrest, hlast, happlied⟩ :=
    node_rejoins (E := {}) (n := 3) (m := 1) (c := 2) hrun ⟨fun _ => rfl, fun _ => rfl, rfl⟩
      hmember hmember' hn ⟨hr, hl⟩ (by omega) (by omega) hsaved (by omega) (by omega)
      (by simp [hempty]) (by simp [hempty, hkeep]) hvalues
  refine ⟨s, s₁, s₂, t, hfirst, hreq.receiving, hreq.queued, hinstall, hrest, h3, hid,
    hlast.trans h1, ?_⟩
  have hrange : List.range' (2 + 1) (5 - (2 + 1)) = [3, 4] := rfl
  rw [happlied, h1, hrange]
  simp only [List.map_cons, List.map_nil, List.cons.injEq, and_true] at hlog
  simp [hlog.1, hlog.2]

end Skywalker
