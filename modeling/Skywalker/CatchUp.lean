import Skywalker.LogRange
import Skywalker.ReplicatedLog

/-!
# A node that is behind catches up

`AskForLearn` tells the other nodes the instance that a node is at. A node that is one instance
ahead answers with the value of that instance. One that is further ahead answers with its own
instance from the learn loop (`SendNowInstanceId`); the node confirms (`ComfirmAskForLearn`), and
the other one sends one record after the other (`ASyncSend`), each of which the learner writes,
executes and moves on from.

The messages may be lost, and other nodes may come in between, so that none of this has to happen.
What is proved is that it can: from every state that a run reaches, whatever is queued, pending and
in the network, the two nodes by themselves get the one to the instance of the other, as long as
that one has not deleted the records (`node_catches_up`).
-/

namespace Skywalker

open TransitionSystem

variable {x : Node} {s : Sys} {msg : PaxosMessage} {C : Setup} {E : Env}

/-! ## Schedules -/

/-- The states that events of the nodes in a list lead to, in one environment. -/
def System.Runs (E : Env) (nodes : List ℕ) : Sys → Sys → Prop :=
  Reaches System.step fun _ a => a.1 = E ∧ ∃ n ∈ nodes, ∃ ev, a.2 = .node n ev

namespace System.Runs

variable {nodes : List ℕ} {t u : Sys} {n : ℕ} {y : Node}

theorem event (ev : NodeEvent) (hn : n ∈ nodes) (hev : System.allowed s n ev = true)
    (hy : (s n).step E ev = some y) :
    ∃ t, System.Runs E nodes s t ∧ t n = y ∧ ∀ k, k ≠ n → t k = s k := by
  refine ⟨Function.update s n y, .tail (E, .node n ev) .refl ⟨rfl, n, hn, ev, rfl⟩ ?_,
    Function.update_self .., fun k hk => Function.update_of_ne hk y s⟩
  simp [System.step, hev, hy]

/-- The delivery of a message that was sent is a schedule. -/
theorem deliver (msg : PaxosMessage) {e : Event} (hn : n ∈ nodes)
    (hsent : e ∈ (s msg.nodeId).trace) (hdelivers : e.delivers n msg = true) :
    ∃ t, System.Runs E nodes s t ∧ t n = Instance.onPaxosMessage E msg (s n) ∧
      ∀ k, k ≠ n → t k = s k :=
  event (.paxosMessage msg) hn (List.any_eq_true.mpr ⟨e, hsent, hdelivers⟩) rfl

theorem trans (h : System.Runs E nodes s t) (h' : System.Runs E nodes t u) :
    System.Runs E nodes s u := Reaches.trans h h'

end System.Runs

/-- An environment in which writes and the machines of the users succeed, and no checkpoint is being
sent. -/
structure Env.Calm (E : Env) : Prop where
  put : ∀ k, E.putOk k = true
  user : ∀ k, E.executeOk k = true
  free : E.isSendingCheckpoint = false

/-! ## The learner -/

/-- A node that handles messages, has no value left to execute, and whose machines can execute the
values of its instance. -/
structure Node.Listening (x : Node) : Prop where
  wf : x.WF
  receiving : x.learner.isReceivingCheckpoint = false
  learned : x.learner.hasLearned = false
  machines : x.machines.Below x.instanceId

section

theorem Instance.checkLearn_of_not_learned (h : x.learner.hasLearned = false) :
    checkLearn E x = x := by
  simp [checkLearn, h]

/-- What a learner stores when it is told the value of its instance. -/
theorem Learner.onSendLearnedValue_stores (hput : ∀ k, E.putOk k = true)
    (hid : msg.instanceId = x.learner.instanceId) :
    ∃ db l, onSendLearnedValue E msg x = { x with
        learner := { x.learner with learnedValue := msg.value, hasLearned := true }
        db := db, trace := l ++ x.trace } ∧
      ∀ e ∈ l, e.applied = none ∧ e.isStart = false := by
  unfold onSendLearnedValue writeToDB Node.put broadcastMessageToFollower
  simp only [if_pos hid, hput, if_true]
  split_ifs
  · exact ⟨_, [_], rfl, fun e he => by rw [List.mem_singleton.mp he]; exact ⟨rfl, rfl⟩⟩
  · refine ⟨_, [_, _], rfl, fun e he => ?_⟩
    rcases List.mem_pair.mp he with rfl | rfl <;> exact ⟨rfl, rfl⟩

/-- The history of a node that executes a learned value. -/
theorem Instance.checkLearn_applied (hl : x.learner.hasLearned = true)
    (hok : (execution E x).1 = true) :
    (checkLearn E x).applied = x.applied ++ [(x.instanceId, x.learner.learnedValue)] := by
  obtain ⟨l, hevents, hquiet⟩ := Node.Applies.executionEvents_eq E x
  have hnone : l.filterMap Event.applied = [] :=
    List.filterMap_eq_nil_iff.mpr fun e he => (hquiet e he).1
  rw [Node.applied, checkLearn_trace hl, hevents, appliedValues_append]
  · simp [hnone, hok, Event.applied, Node.applied]
  · intro e he
    rcases List.mem_append.mp he with he | he
    · exact (hquiet e he).2.1
    · rw [List.mem_singleton.mp he]
      rfl

/-- A learner that is told the value of its instance stores it, executes it and moves on. -/
theorem Learner.onPaxosMessage_learned (msg : PaxosMessage) (hE : E.Calm) (hx : x.Listening)
    (htype : msg.type = .sendLearnedValue) (hid : msg.instanceId = x.instanceId)
    (hv : x.config.codec.executable msg.value = true) :
    (Instance.onPaxosMessage E msg x).Listening ∧
    (Instance.onPaxosMessage E msg x).instanceId = x.instanceId + 1 ∧
    (Instance.onPaxosMessage E msg x).config = x.config ∧
    (Instance.onPaxosMessage E msg x).applied = x.applied ++ [(x.instanceId, msg.value)] := by
  obtain ⟨db, l, hz, hquiet⟩ := onSendLearnedValue_stores (x := x) hE.put
    (hid.trans hx.wf.learnerId.symm)
  -- The handler stores the value, and the check after it executes the value.
  have hcall : Instance.onPaxosMessage E msg x =
      Instance.checkLearn E (onSendLearnedValue E msg x) := by
    simp [Instance.onPaxosMessage, Instance.frame, Instance.handle, htype, hx.receiving]
  rw [hcall]
  generalize onSendLearnedValue E msg x = z at hz ⊢
  have hlearned : z.learner.hasLearned = true := by rw [hz]
  have hwf : z.WF := by
    rw [hz]
    exact { hx.wf with }
  have hok : (Instance.execution E z).1 = true := by
    unfold Instance.execution
    rw [hE.user, hz]
    exact Machines.execute_of_executable hx.machines hv
  have hnone : l.filterMap Event.applied = [] :=
    List.filterMap_eq_nil_iff.mpr fun e he => (hquiet e he).1
  have happlied : z.applied = x.applied := by
    rw [Node.applied, hz, appliedValues_append fun e he => (hquiet e he).2, hnone,
      List.reverse_nil, List.append_nil]
    rfl
  have hnext := Instance.checkLearn_of_true hlearned hok
  refine ⟨⟨hwf.checkLearn hlearned, ?_, ?_, ?_⟩, ?_, ?_, ?_⟩
  · rw [hnext, hz]
    exact hx.receiving
  · rw [hnext]
    rfl
  · have hbelow : (Instance.execution E z).2.Below (z.instanceId + 1) := by
      refine Machines.Below.execute ?_
      rw [hz]
      exact hx.machines
    rw [hnext]
    exact hbelow
  · rw [hnext, hz]
    rfl
  · rw [hnext, hz]
    rfl
  · rw [Instance.checkLearn_applied hlearned hok, happlied, hz]

end

/-! ## The node that serves -/

section

variable {nodes : List ℕ} {n m : ℕ}

/-- How many passes of the learn loop a queued function takes at most. -/
def LearnTask.passes : LearnTask → ℕ
  | .send _ _ => 1
  | .aSyncSend _ fromId toId => toId - fromId + 1
  | .sendCheckpoint _ => 1

/-- A pass of the learn loop leaves less to do. -/
theorem Learner.runLearnLoop_shortens (h : x.learnTasks ≠ []) :
    ∃ ts l, runLearnLoop x = { x with learnTasks := ts, trace := l ++ x.trace } ∧
      (ts.map LearnTask.passes).sum < (x.learnTasks.map LearnTask.passes).sum := by
  unfold runLearnLoop
  cases htasks : x.learnTasks with
  | nil => exact absurd htasks h
  | cons task ts =>
    cases task with
    | send dest msg => exact ⟨ts, [_], rfl, by simp [LearnTask.passes]⟩
    | sendCheckpoint dest => exact ⟨ts, [], rfl, by simp [LearnTask.passes]⟩
    | aSyncSend dest fromId toId =>
      have hdone : (ts.map LearnTask.passes).sum <
          ((.aSyncSend dest fromId toId :: ts).map LearnTask.passes).sum := by
        simp [LearnTask.passes]
      dsimp only
      split_ifs with hlt
      · cases x.db.get fromId with
        | none => exact ⟨ts, [], rfl, hdone⟩
        | some r =>
          refine ⟨.aSyncSend dest (fromId + 1) toId :: ts, [_], rfl, ?_⟩
          simp only [List.map_cons, List.sum_cons, LearnTask.passes]
          omega
      · exact ⟨ts, [], rfl, hdone⟩

/-- The learn loop gets through what is queued. -/
theorem System.Runs.drainLearnLoop (hm : m ∈ nodes) (s : Sys) :
    ∃ t l, System.Runs E nodes s t ∧
      t m = { s m with learnTasks := [], trace := l ++ (s m).trace } ∧
      ∀ k, k ≠ m → t k = s k := by
  induction hk : ((s m).learnTasks.map LearnTask.passes).sum using Nat.strong_induction_on
    generalizing s with
  | _ k ih =>
    by_cases hempty : (s m).learnTasks = []
    · exact ⟨s, [], .refl, by rw [← hempty]; rfl, fun _ _ => rfl⟩
    · obtain ⟨ts, l, hpass, hless⟩ := Learner.runLearnLoop_shortens hempty
      obtain ⟨u, hfirst, hum, hu⟩ := System.Runs.event (E := E) (s := s)
        (y := Learner.runLearnLoop (s m)) .learnLoop hm rfl (by simp [Node.step, hempty])
      rw [hpass] at hum
      obtain ⟨t, l', hrest, htm, ht⟩ := ih _ (hk ▸ hless) u (by rw [hum])
      refine ⟨t, l' ++ l, hfirst.trans hrest, ?_, fun k hk => (ht k hk).trans (hu k hk)⟩
      rw [htm, hum, List.append_assoc]

/-- A node `m` that is ahead of `n` can serve it: it handles messages, has no value left to execute,
and has a record, with a value that `n` can execute, of each instance that `n` is behind. -/
structure Sys.Serves (s : Sys) (n m : ℕ) : Prop where
  receiving : (s m).learner.isReceivingCheckpoint = false
  learned : (s m).learner.hasLearned = false
  behind : (s n).instanceId < (s m).instanceId
  oldest : (s m).minChosenId ≤ (s n).instanceId
  records : ∀ k, (s n).instanceId ≤ k → k < (s m).instanceId → ∃ r, (s m).db.get k = some r ∧
    r.instanceId = k ∧ (s n).config.codec.executable r.acceptedValue = true

theorem Sys.Serves.ne (h : s.Serves n m) : n ≠ m := by
  rintro rfl
  exact lt_irrefl _ h.behind

/-- In `t`, the node `n` has executed the next `d` values of the log that `m` has in `s`. -/
structure Sys.Learned (s : Sys) (n m d : ℕ) (t : Sys) : Prop where
  instanceId : (t n).instanceId = (s n).instanceId + d
  server : (t m).instanceId = (s m).instanceId
  applied : (t n).applied = (s n).applied ++ (List.range' (s n).instanceId d).map fun k =>
    (k, LogManager.loggedValue (s m).db k)

/-- `ASyncSend` from the learner's instance on: each record is sent, delivered, stored and
executed. -/
theorem System.Runs.aSyncSend (hE : E.Calm) (hn : n ∈ nodes) (hm : m ∈ nodes) (hne : n ≠ m) (d : ℕ)
    (hid : (s m).nodeId = m) (hx : (s n).Listening)
    (htasks : (s m).learnTasks = [.aSyncSend n (s n).instanceId ((s n).instanceId + d)])
    (hrec : ∀ k, (s n).instanceId ≤ k → k < (s n).instanceId + d → ∃ r, (s m).db.get k = some r ∧
      r.instanceId = k ∧ (s n).config.codec.executable r.acceptedValue = true) :
    ∃ t, System.Runs E nodes s t ∧ s.Learned n m d t := by
  induction d generalizing s with
  | zero => exact ⟨s, .refl, rfl, rfl, by simp⟩
  | succ d ih =>
    obtain ⟨r, hr, hkey, hexec⟩ := hrec (s n).instanceId (le_refl _) (by omega)
    -- One pass of the loop of `ASyncSend`, and the delivery of what it sends.
    obtain ⟨u, hpass, hum, hu⟩ := System.Runs.event (E := E) (s := s) .learnLoop
      (y := { s m with
        learnTasks := [.aSyncSend n ((s n).instanceId + 1) ((s n).instanceId + 1 + d)]
        trace := .send n (Learner.learnedMessage (s m) r) :: (s m).trace }) hm rfl (by
          simp [Node.step, Learner.runLearnLoop, htasks, hr, Node.sendMessage, Node.emit,
            Nat.add_assoc, Nat.add_comm 1 d])
    have hfrom : (Learner.learnedMessage (s m) r).nodeId = m := hid
    obtain ⟨v, hdeliver, hvn, hv⟩ := System.Runs.deliver (E := E) (s := u)
      (Learner.learnedMessage (s m) r) hn
      (by rw [hfrom, hum]; exact List.mem_cons_self) (by simp [Event.delivers])
    have hvm : v m = u m := hv m hne.symm
    obtain ⟨hlisten, hnext, hconfig, happlied⟩ := Learner.onPaxosMessage_learned
      (Learner.learnedMessage (s m) r) hE hx rfl hkey hexec
    rw [hu n hne] at hvn
    rw [← hvn] at hlisten hnext hconfig happlied
    obtain ⟨t, hrun, ht⟩ := ih (s := v) (by rw [hvm, hum]; exact hid) hlisten
      (by rw [hvm, hum, hnext]) (by
        intro k h1 h2
        rw [hvm, hum, hconfig]
        exact hrec k (by omega) (by omega))
    have hvalue : LogManager.loggedValue (s m).db (s n).instanceId = r.acceptedValue := by
      rw [LogManager.loggedValue, hr]
      rfl
    refine ⟨t, hpass.trans (hdeliver.trans hrun), ?_, ?_, ?_⟩
    · rw [ht.instanceId, hnext]
      omega
    · rw [ht.server, hvm, hum]
    · rw [ht.applied, happlied, hnext, hvm, hum, List.range'_succ, List.map_cons, hvalue,
        List.append_assoc, List.singleton_append]
      rfl

/-- A node that is further ahead than one instance queues the answer with its own instance. -/
theorem Learner.onPaxosMessage_ask (hfree : E.isSendingCheckpoint = false) (hw : x.WF)
    (hx : x.learner.isReceivingCheckpoint = false ∧ x.learner.hasLearned = false)
    (htype : msg.type = .askForLearn) (hlt : msg.instanceId + 1 < x.instanceId) :
    Instance.onPaxosMessage E msg x = sendNowInstanceId msg x := by
  have hbelow : msg.instanceId < x.instanceId := by omega
  have hfar : msg.instanceId ≠ x.instanceId - 1 := by omega
  simp [Instance.onPaxosMessage, Instance.frame, Instance.handle, onAskForLearn, hw.learnerId,
    hx.1, hx.2, htype, hbelow, hfar, hfree, sendNowInstanceId, Node.queueInLearnLoop,
    Instance.checkLearn]

/-- A node that is one instance ahead sends the value of that instance. -/
theorem Learner.onPaxosMessage_askLast {r : PaxosInstance} (hw : x.WF)
    (hx : x.learner.isReceivingCheckpoint = false ∧ x.learner.hasLearned = false)
    (htype : msg.type = .askForLearn) (hlast : msg.instanceId + 1 = x.instanceId)
    (hr : x.db.get msg.instanceId = some r) :
    Instance.onPaxosMessage E msg x = x.sendMessage msg.nodeId (learnedMessage x r) := by
  have hbelow : x.instanceId - 1 < x.instanceId := by omega
  have hid : msg.instanceId = x.instanceId - 1 := by omega
  rw [hid] at hr
  simp [Instance.onPaxosMessage, Instance.frame, Instance.handle, onAskForLearn, hw.learnerId,
    hx.1, hx.2, htype, hid, hbelow, hr, Node.sendMessage, Node.emit, Instance.checkLearn]

/-- A node that is told of a later instance, whose log goes back to its own, confirms. -/
theorem Learner.onPaxosMessage_now (hw : x.WF)
    (hx : x.learner.isReceivingCheckpoint = false ∧ x.learner.hasLearned = false)
    (hidle : x.learner.isLearning = false) (htype : msg.type = .sendNowInstanceId)
    (hid : msg.instanceId = x.instanceId) (hlt : x.instanceId < msg.nowInstanceId)
    (hmin : msg.minChosenInstanceId ≤ x.instanceId) :
    Instance.onPaxosMessage E msg x = { x with
      learner := { x.learner with isLearning := true }
      trace := .send msg.nodeId { type := .comfirmAskForLearn, nodeId := x.nodeId,
                                  instanceId := x.instanceId } :: x.trace } := by
  simp [Instance.onPaxosMessage, Instance.frame, Instance.handle, onSendNowInstanceId,
    hw.learnerId, hx.1, hx.2, htype, hid, hlt, hidle, Nat.not_lt.mpr hmin, Node.sendMessage,
    Node.emit, Instance.checkLearn]

/-- What `SyncData` of the node that is behind leaves, and the question in the network. -/
theorem System.Runs.ask (hn : n ∈ nodes) (hw : (s n).WF)
    (hmember : m ∈ E.newestMembership.getD (s n).memberIds) (hne : m ≠ (s n).nodeId) :
    ∃ t dests, System.Runs E nodes s t ∧ (∀ k, k ≠ n → t k = s k) ∧ m ∈ dests ∧ t n = { s n with
      learner := { (s n).learner with isLearning := false, isReceivingCheckpoint := false }
      trace := .broadcast { type := .askForLearn, nodeId := (s n).nodeId,
                            instanceId := (s n).instanceId } dests :: (s n).trace } := by
  obtain ⟨t, hrun, htn, ht⟩ := System.Runs.event (E := E) (s := s)
    (y := Learner.askForLearn E false (s n)) (.syncData false) hn rfl rfl
  refine ⟨t, (s n).others (E.newestMembership.getD (s n).memberIds), hrun, ht, ?_, ?_⟩
  · exact List.mem_filter.mpr ⟨hmember, decide_eq_true hne⟩
  · rw [htn, ← hw.learnerId]
    rfl

theorem appliedValues_cons {e : Event} {trace : List Event} (happ : e.applied = none)
    (hstart : e.isStart = false) : appliedValues (e :: trace) = appliedValues trace := by
  have happend := @appliedValues_append [e] trace (by simp [hstart])
  simpa [happ] using happend

/-- A node that is further ahead than one instance answers with its instance, from the learn
loop. -/
theorem System.Runs.told (hfree : E.isSendingCheckpoint = false) (hm : m ∈ nodes) (hne : n ≠ m)
    (hid : (s m).nodeId = m) {dests : List ℕ} (hdest : m ∈ dests)
    (hsent : .broadcast { type := .askForLearn, nodeId := n, instanceId := (s n).instanceId }
      dests ∈ (s n).trace) (hw : (s m).WF) (htasks : (s m).learnTasks = [])
    (hserver : (s m).learner.isReceivingCheckpoint = false ∧ (s m).learner.hasLearned = false)
    (hfar : (s n).instanceId + 1 < (s m).instanceId) :
    ∃ t, System.Runs E nodes s t ∧ t n = s n ∧ t m = { s m with
      trace := .send n { type := .sendNowInstanceId, nodeId := m, instanceId := (s n).instanceId,
                         nowInstanceId := (s m).instanceId,
                         minChosenInstanceId := (s m).minChosenId } :: (s m).trace } := by
  obtain ⟨u, hasked, hum, hu⟩ := System.Runs.deliver (E := E) (s := s) (n := m)
    { type := .askForLearn, nodeId := n, instanceId := (s n).instanceId } hm hsent
    (by simpa [Event.delivers] using hdest)
  rw [Learner.onPaxosMessage_ask hfree hw hserver rfl hfar] at hum
  obtain ⟨t, hnow, htm, ht⟩ := System.Runs.event (E := E) (s := u)
    (y := Learner.runLearnLoop (u m)) .learnLoop hm rfl
    (by simp [Node.step, hum, Learner.sendNowInstanceId, Node.queueInLearnLoop])
  refine ⟨t, hasked.trans hnow, (ht n hne).trans (hu n hne), ?_⟩
  simp only [htm, hum, Learner.sendNowInstanceId, Node.queueInLearnLoop, htasks, List.nil_append,
    Learner.runLearnLoop, Node.sendMessage, Node.emit, hid, hw.learnerId]

/-- The exchange after the question: the node that is one instance ahead sends the value, one that
is further ahead sends its instance and, once that is confirmed, all values. -/
theorem System.Runs.answer (hE : E.Calm) (hn : n ∈ nodes) (hm : m ∈ nodes)
    (hid : (s n).nodeId = n ∧ (s m).nodeId = m) {dests : List ℕ} (hdest : m ∈ dests)
    (hsent : .broadcast { type := .askForLearn, nodeId := n, instanceId := (s n).instanceId }
      dests ∈ (s n).trace) (hx : (s n).Listening) (hidle : (s n).learner.isLearning = false)
    (hw : (s m).WF) (htasks : (s m).learnTasks = []) (hserves : s.Serves n m) :
    ∃ t, System.Runs E nodes s t ∧ s.Learned n m ((s m).instanceId - (s n).instanceId) t := by
  have hne := hserves.ne
  have hbehind := hserves.behind
  have hserver := And.intro hserves.receiving hserves.learned
  rcases Nat.eq_or_lt_of_le hbehind with hlast | hfar
  · obtain ⟨s₁, hasked, h₁m, h₁⟩ := System.Runs.deliver (E := E) (s := s) (n := m)
      { type := .askForLearn, nodeId := n, instanceId := (s n).instanceId } hm hsent
      (by simpa [Event.delivers] using hdest)
    obtain ⟨r, hr, hkey, hexec⟩ := hserves.records (s n).instanceId (le_refl _) hbehind
    rw [Learner.onPaxosMessage_askLast hw hserver rfl hlast hr] at h₁m
    have hfrom : (Learner.learnedMessage (s m) r).nodeId = m := hid.2
    obtain ⟨t, htold, htn, ht⟩ := System.Runs.deliver (E := E) (s := s₁)
      (Learner.learnedMessage (s m) r) hn
      (by rw [hfrom, h₁m]; exact List.mem_cons_self) (by simp [Event.delivers])
    obtain ⟨-, hnext, -, happlied⟩ := Learner.onPaxosMessage_learned
      (Learner.learnedMessage (s m) r) hE hx rfl hkey hexec
    rw [h₁ n hne] at htn
    rw [← htn] at hnext happlied
    have hone : (s m).instanceId - (s n).instanceId = 1 := by omega
    rw [hone]
    refine ⟨t, hasked.trans htold, hnext, ?_, ?_⟩
    · rw [ht m hne.symm, h₁m]
      rfl
    · rw [happlied]
      simp [LogManager.loggedValue, hr, Learner.learnedMessage]
  · obtain ⟨s₂, hnow, h₂n, h₂m⟩ := System.Runs.told hE.free hm hne hid.2 hdest hsent hw htasks
      hserver hfar
    -- The learner confirms.
    obtain ⟨s₃, htold, h₃n, h₃⟩ := System.Runs.deliver (E := E) (s := s₂) (n := n)
      { type := .sendNowInstanceId, nodeId := m, instanceId := (s n).instanceId,
        nowInstanceId := (s m).instanceId, minChosenInstanceId := (s m).minChosenId } hn
      (by rw [h₂m]; exact List.mem_cons_self) (by simp [Event.delivers])
    rw [h₂n, Learner.onPaxosMessage_now hx.wf ⟨hx.receiving, hx.learned⟩ hidle rfl rfl hbehind
      hserves.oldest, hid.1] at h₃n
    have h₃m : s₃ m = s₂ m := h₃ m hne.symm
    -- The rest is `ASyncSend`.
    obtain ⟨s₄, hconfirmed, h₄m, h₄⟩ := System.Runs.deliver (E := E) (s := s₃) (n := m)
      { type := .comfirmAskForLearn, nodeId := n, instanceId := (s n).instanceId } hm
      (by rw [h₃n]; exact List.mem_cons_self) (by simp [Event.delivers])
    have h₄n : s₄ n = s₃ n := h₄ n hne
    rw [h₃m, h₂m] at h₄m
    simp only [Instance.onPaxosMessage, Instance.frame, Instance.handle,
      Learner.onComfirmAskForLearn, Node.queueInLearnLoop, Instance.checkLearn,
      hserves.receiving, hserves.learned, hw.learnerId, htasks, List.nil_append,
      Bool.false_eq_true, if_false] at h₄m
    have hend : (s n).instanceId + ((s m).instanceId - (s n).instanceId) = (s m).instanceId := by
      omega
    obtain ⟨t, hserved, ht⟩ := System.Runs.aSyncSend (s := s₄) hE hn hm hne
      ((s m).instanceId - (s n).instanceId) (by rw [h₄m]; exact hid.2)
      (by rw [h₄n, h₃n]; exact ⟨{ hx.wf with }, hx.receiving, hx.learned, hx.machines⟩)
      (by rw [h₄m, h₄n, h₃n]; exact congrArg (fun j => [LearnTask.aSyncSend n _ j]) hend.symm)
      (by rw [h₄m, h₄n, h₃n]; exact fun k h1 h2 => hserves.records k h1 (h2.trans_eq hend))
    have happlied : (s₄ n).applied = (s n).applied := by
      rw [Node.applied, h₄n, h₃n]
      exact appliedValues_cons rfl rfl
    refine ⟨t, hnow.trans (htold.trans (hconfirmed.trans hserved)), ?_, ?_, ?_⟩
    · rw [ht.instanceId, h₄n, h₃n]
    · rw [ht.server, h₄m]
    · rw [ht.applied, happlied, h₄n, h₃n, h₄m]

/-- The server gets through what is queued, and the node that is behind asks. -/
theorem System.Runs.question (hn : n ∈ nodes) (hm : m ∈ nodes) (hne : n ≠ m) (hw : s.WF C)
    (hmember : m ∈ E.newestMembership.getD (s n).memberIds) :
    ∃ t dests l, System.Runs E nodes s t ∧ m ∈ dests ∧
      t n = { s n with
        learner := { (s n).learner with isLearning := false, isReceivingCheckpoint := false }
        trace := .broadcast { type := .askForLearn, nodeId := n,
                              instanceId := (s n).instanceId } dests :: (s n).trace } ∧
      t m = { s m with learnTasks := [], trace := l ++ (s m).trace } := by
  obtain ⟨u, l, hdrain, hum, hu⟩ := System.Runs.drainLearnLoop (E := E) hm s
  have hun : u n = s n := hu n hne
  obtain ⟨t, dests, hask, ht, hdest, htn⟩ := System.Runs.ask (E := E) (s := u) (m := m) hn
    (by rw [hun]; exact (hw n).1) (by rw [hun]; exact hmember)
    (by rw [hun, hw.nodeId n]; exact hne.symm)
  rw [hun, hw.nodeId n] at htn
  exact ⟨t, dests, l, hdrain.trans hask, hdest, htn, (ht m hne.symm).trans hum⟩

/-- The two nodes by themselves, from a state in which the records are there. -/
theorem System.Runs.catchUp (hE : E.Calm) (hn : n ∈ nodes) (hm : m ∈ nodes) (hw : s.WF C)
    (hlearned : (s n).learner.hasLearned = false)
    (hmachines : (s n).machines.Below (s n).instanceId)
    (hmember : m ∈ E.newestMembership.getD (s n).memberIds) (hserves : s.Serves n m) :
    ∃ t, System.Runs E nodes s t ∧ s.Learned n m ((s m).instanceId - (s n).instanceId) t := by
  have hne := hserves.ne
  obtain ⟨s₁, dests, l, hask, hdest, h₁n, h₁m⟩ := System.Runs.question hn hm hne hw hmember
  have hserves₁ : s₁.Serves n m := by
    refine ⟨?_, ?_, ?_, ?_, ?_⟩ <;> simp only [h₁n, h₁m]
    · exact hserves.receiving
    · exact hserves.learned
    · exact hserves.behind
    · exact hserves.oldest
    · exact hserves.records
  obtain ⟨t, hrun, ht⟩ := System.Runs.answer (s := s₁) hE hn hm
    ⟨by rw [h₁n]; exact hw.nodeId n, by rw [h₁m]; exact hw.nodeId m⟩ hdest
    (by rw [h₁n]; exact List.mem_cons_self)
    (by rw [h₁n]; exact ⟨{ (hw n).1 with }, rfl, hlearned, hmachines⟩) (by rw [h₁n])
    (by rw [h₁m]; exact { (hw m).1 with learnTasks := by simp }) (by rw [h₁m]) hserves₁
  have happlied : (s₁ n).applied = (s n).applied := by
    rw [Node.applied, h₁n]
    exact appliedValues_cons rfl rfl
  have hids : (s₁ n).instanceId = (s n).instanceId ∧ (s₁ m).instanceId = (s m).instanceId := by
    rw [h₁n, h₁m]
    exact ⟨rfl, rfl⟩
  rw [hids.1, hids.2] at ht
  refine ⟨t, hask.trans hrun, ?_, ?_, ?_⟩
  · rw [ht.instanceId, hids.1]
  · rw [ht.server, hids.2]
  · rw [ht.applied, happlied, hids.1, h₁m]

end

/-! ## The versions of the machines -/

/-- The machines of a node have executed nothing from its instance on, and those of a checkpoint
nothing after the instance of the checkpoint. -/
structure Node.Versioned (x : Node) : Prop where
  machines : x.machines.Below x.instanceId
  checkpoints : ∀ d ∈ x.checkpoints, d.2.Below (d.1 + 1)

namespace Node.Versioned

variable {R : Rules} {net : PaxosMessage → Prop} {y : Node}

theorem newest (h : x.Versioned) (hid : 1 < x.instanceId) :
    ∀ d ∈ (x.instanceId - 1, x.machines) :: x.checkpoints, d.2.Below (d.1 + 1) := by
  intro d hd
  rcases List.mem_cons.mp hd with rfl | hd
  · rw [Nat.sub_add_cancel hid.le]
    exact h.machines
  · exact h.checkpoints d hd

/-- No action takes the versions of the machines beyond the instance. -/
theorem act (h : x.Versioned) (hact : Act R E net x y) : y.Versioned := by
  cases hact.outerChange with
  | same hsame =>
    refine ⟨?_, ?_⟩
    · rw [hsame.machines, hsame.instanceId]
      exact h.machines
    · rw [hsame.checkpoints]
      exact h.checkpoints
  | executed hl hok => exact ⟨h.machines.execute, h.checkpoints⟩
  | failed hl hok =>
    refine ⟨?_, h.checkpoints⟩
    have hsame : (Instance.execution E x).2 = x.machines := Machines.execute_of_false hok
    simp only [Instance.afterExecute, hsame]
    exact h.machines
  | finishCheckpoint hid hnew hrule =>
    refine ⟨h.machines, fun d hd => h.newest hid d ?_⟩
    unfold MachineManager.finishCheckpoint at hd
    dsimp only at hd
    exact List.mem_of_mem_filter hd
  | gcLoop db k g hrule hframe =>
    rw [hframe]
    exact ⟨h.machines, h.checkpoints⟩
  | _ => exact ⟨h.machines, h.checkpoints⟩

/-- A recovery from such checkpoints keeps the versions below the instance. -/
theorem of_recovered {config : Config} {db : DB} {dirs : List (ℕ × Machines)} {trace : List Event}
    {a : Acceptor} (h : ∀ d ∈ dirs, d.2.Below (d.1 + 1))
    (hrec : Node.Recovered E config db dirs trace a y) : y.Versioned where
  machines := by
    refine hrec.machines (fun j ms => ms.Below j) ?_ fun j ms r ok _ _ hms _ => hms.execute
    rcases MachineManager.recover_cases E config dirs with heq | ⟨d, hd, heq⟩
    · rw [heq]
      exact Machines.below_one _
    · rw [heq]
      refine ⟨(h d hd).membership, ?_⟩
      unfold Machines.recover
      dsimp only
      split_ifs <;> exact (h d hd).master
  checkpoints d hd := by
    rw [hrec.checkpoints] at hd
    exact h d (List.mem_of_mem_filter hd)

end Node.Versioned

section

variable {t : Sys}

theorem Sys.versioned_step {a : Env × Label} (hw : s.WF C) (h : ∀ n, (s n).Versioned)
    (hst : System.step s a = some t) : ∀ n, (t n).Versioned := by
  have hperm : ({} : Policy).Permits s a :=
    Policy.permits_free rfl trivial (fun _ _ => trivial) fun _ _ _ _ => trivial
  rcases System.step_cases hw hperm hst with hchain | ⟨n, dirs, acc, y, hrec, rfl, hwhy⟩
  · refine invariant_of_actions (P := fun s : Sys => ∀ n, (s n).Versioned) ?_ hchain h
    exact fun u v hu huv => huv.forall_node (Q := fun _ x => x.Versioned) hu
      fun n E y _ hact => (hu n).act hact
  · refine Sys.forall_update (Q := fun _ x => x.Versioned) h (.of_recovered ?_ hrec)
    exact hwhy.forall_dirs fun k => (h k).checkpoints

/-- A step with crashes and restarts keeps the versions below the instances as well. -/
theorem Sys.versioned_lifeStep {a : Env × LifeLabel} (hs : s.Ranged C) (h : ∀ n, (s n).Versioned)
    (hst : System.lifeStep s a = some t) : ∀ n, (t n).Versioned := by
  obtain ⟨E, l⟩ := a
  cases l with
  | step l => exact Sys.versioned_step hs.wf h hst
  | crash n ev c =>
    simp only [System.lifeStep, Option.bind_eq_some_iff] at hst
    obtain ⟨u, hu, hst⟩ := hst
    exact Sys.versioned_step (hs.traced.step hs.wf hu).1 (Sys.versioned_step hs.wf h hu) hst
  | crashInClean n j =>
    simp only [System.lifeStep, Option.ite_none_right_eq_some] at hst
    obtain ⟨⟨hid, -⟩, hst⟩ := hst
    have hw : (MachineManager.partlyCleaned j (s n)).WF := { (hs.wf n).1 with }
    refine Sys.versioned_step (hs.wf.update hw rfl) ?_ hst
    refine Sys.forall_update (Q := fun _ x => x.Versioned) h ⟨(h n).machines, fun d hd => ?_⟩
    unfold MachineManager.partlyCleaned at hd
    dsimp only at hd
    exact (h n).newest hid d (List.mem_of_mem_filter hd)

theorem Sys.ranged_versioned
    (hrun : Reaches System.lifeStep (fun s a => (∀ k, a.1.putOk k = true) ∧ keepsRange s a = true)
      (System.init C) s) : s.Ranged C ∧ ∀ n, (s n).Versioned := by
  refine hrun.invariant (P := fun s => s.Ranged C ∧ ∀ n, (s n).Versioned)
    ⟨⟨System.wf_init C, .init C, fun n => .fresh _⟩, fun n => ?_⟩ ?_
  · exact ⟨Machines.below_one _, fun d hd => absurd hd List.not_mem_nil⟩
  · exact fun s t a hs hok hst =>
      ⟨hs.1.lifeStep hok.1 hok.2 hst, Sys.versioned_lifeStep hs.1 hs.2 hst⟩

/-- A node has the records that it has not deleted, under their own keys. -/
theorem Sys.Ranged.records (h : s.Ranged C) (m : ℕ) {codec : Codec} {i : ℕ}
    (hmin : (s m).lowest ≤ i + 1)
    (hvalues : ∀ k, i < k → k < (s m).instanceId →
      codec.executable (LogManager.loggedValue (s m).db k) = true) :
    ∀ k, i + 1 ≤ k → k < (s m).instanceId → ∃ r, (s m).db.get k = some r ∧ r.instanceId = k ∧
      codec.executable r.acceptedValue = true := by
  intro k h1 h2
  have hx := h.ranged m
  obtain ⟨r, hr⟩ := hx.complete k (by omega) (by omega)
  have hv := hvalues k h1 h2
  rw [LogManager.loggedValue, hr] at hv
  exact ⟨r, hr, hx.unbroken.keys k r hr, hv⟩

/-- **A node that is behind catches up.** In every state that is reached as the range of the log is
held for (with crashes at any point, cleaning and checkpoints): a node without a pending value, one
of whose members is ahead of it, handles messages, has no pending value either, has not deleted the
instances in between and has values there that can be executed, comes to the instance of that member
by events of the two alone, having executed the values of the member's log in order, each once,
whatever is queued, pending and in the network. -/
theorem node_catches_up {E : Env} {n m : ℕ}
    (hrun : Reaches System.lifeStep (fun s a => (∀ k, a.1.putOk k = true) ∧ keepsRange s a = true)
      (System.init C) s)
    (hE : E.Calm) (hmember : m ∈ E.newestMembership.getD (s n).memberIds)
    (hn : (s n).learner.hasLearned = false)
    (hm : (s m).learner.isReceivingCheckpoint = false ∧ (s m).learner.hasLearned = false)
    (hbehind : (s n).instanceId < (s m).instanceId) (hmin : (s m).lowest ≤ (s n).instanceId)
    (hvalues : ∀ k, (s n).instanceId ≤ k → k < (s m).instanceId →
      (s n).config.codec.executable (LogManager.loggedValue (s m).db k) = true) :
    ∃ t, System.Runs E [n, m] s t ∧ (t n).instanceId = (s m).instanceId ∧
      (t m).instanceId = (s m).instanceId ∧
      (t n).applied = (s n).applied ++
        (List.range' (s n).instanceId ((s m).instanceId - (s n).instanceId)).map fun k =>
          (k, LogManager.loggedValue (s m).db k) := by
  obtain ⟨hranged, hversioned⟩ := Sys.ranged_versioned hrun
  have hserves : s.Serves n m := by
    obtain ⟨i, hi⟩ : ∃ i, (s n).instanceId = i + 1 :=
      Nat.exists_eq_add_of_le' (hranged.ranged n).positive
    refine ⟨hm.1, hm.2, hbehind, (hranged.ranged m).lowest.trans hmin, ?_⟩
    rw [hi] at hmin hvalues ⊢
    exact hranged.records m hmin hvalues
  obtain ⟨t, ht, hlearned⟩ := System.Runs.catchUp hE (List.mem_cons_self (l := [m]))
    (List.mem_cons_of_mem n List.mem_cons_self) hranged.wf hn (hversioned n).machines hmember
    hserves
  have hid := hlearned.instanceId
  exact ⟨t, ht, by omega, hlearned.server, hlearned.applied⟩

end

/-- After the first choice the second proposal of node 1 is accepted by node 2 as well, which takes
its `ACCEPT` once for the news of the first choice. -/
def secondChosen : List (Env × Label) := nextAccept ++
  ([({}, .node 2 (.paxosMessage secondAccept)), ({}, .node 2 (.paxosMessage secondAccept)),
    ({}, .node 1 (.paxosMessage
      { type := .acceptReply, nodeId := 2, instanceId := 2, proposalId := 1 }))] :
    List (Env × Label))

/-- Node 3, which has heard nothing of two instances, gets them from node 1. -/
theorem node_catches_up_trio : ∃ s t : Sys, System.Runs {} [3, 1] s t ∧ (s 3).applied = [] ∧
    (s 3).instanceId = 1 ∧ (t 3).instanceId = 3 ∧
    (t 3).applied =
      [(1, firstValue), (2, { valueId := 258, machineId := 7, userData := [2] })] := by
  have hend : (runChecked System.lifeStep keepsRange (System.init (.uniform trioMember))
      (secondChosen.map fun a => (a.1, .step a.2))).map (fun s => ((s 3).applied,
        [(s 3).instanceId, (s 1).instanceId, (s 1).lowest],
        [1, 2].map (LogManager.loggedValue (s 1).db),
        decide (1 ∈ (s 3).memberIds) && !(s 3).learner.hasLearned &&
          !(s 1).learner.isReceivingCheckpoint && !(s 1).learner.hasLearned &&
          [1, 2].all fun k =>
            (s 3).config.codec.executable (LogManager.loggedValue (s 1).db k))) =
      some ([], [1, 3, 0], [firstValue, { valueId := 258, machineId := 7, userData := [2] }],
        true) := by
    decide +kernel
  obtain ⟨s, hs, hfields⟩ := Option.map_eq_some_iff.mp hend
  simp only [Prod.mk.injEq, List.cons.injEq, and_true, Bool.and_eq_true, Bool.not_eq_true',
    decide_eq_true_eq] at hfields
  obtain ⟨happlied, ⟨h3, h1, hmin⟩, hlog, ⟨⟨⟨hmember, hn⟩, hr⟩, hl⟩, hexec⟩ := hfields
  have hrun := reaches_of_default (n := 9) rfl hs
  have hvalues : ∀ k, (s 3).instanceId ≤ k → k < (s 1).instanceId →
      (s 3).config.codec.executable (LogManager.loggedValue (s 1).db k) = true := by
    intro k hk hlt
    refine List.all_eq_true.mp hexec k ?_
    have hcases : k = 1 ∨ k = 2 := by omega
    simpa using hcases
  obtain ⟨t, ht, hid, -, happ⟩ := node_catches_up (E := {}) (n := 3) (m := 1) hrun
    ⟨fun _ => rfl, fun _ => rfl, rfl⟩ hmember hn ⟨hr, hl⟩ (by omega) (by omega)
    hvalues
  refine ⟨s, t, ht, happlied, h3, hid.trans h1, ?_⟩
  have hrange : List.range' 1 (3 - 1) = [1, 2] := rfl
  rw [happ, happlied, h3, h1, hrange]
  simp only [List.map_cons, List.map_nil, List.cons.injEq, and_true] at hlog
  simp [hlog.1, hlog.2]

end Skywalker
