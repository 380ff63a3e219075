import Skywalker.Events

/-!
# What an action does to the acceptor, the learner and the log

`StoreChange` sums up the actions as far as the acceptor, the learner, the log and the instance are
concerned: a promise, an accepted value, a value learned from the acceptor or from another node, a
successful execution, a cleaned log, or no change. Invariants about what a node stores split on it.
-/

namespace Skywalker

variable {db : DB} {q r : PaxosInstance} {i : ℕ} {x y : Node} {m : PaxosMessage}

/-- The record that `Acceptor::WriteToDB` writes. -/
def Acceptor.record (a : Acceptor) : PaxosInstance :=
  { instanceId := a.instanceId, promised := a.promisedBallot, accepted := a.acceptedBallot,
    acceptedValue := a.acceptedValue }

/-- The record that `Learner::WriteToDB` writes. -/
def Learner.record (m : PaxosMessage) : PaxosInstance :=
  { instanceId := m.instanceId, promised := m.ballot, accepted := m.ballot,
    acceptedValue := m.value }

/-- The log after a `Put` of a record under its id, which may fail. -/
def DB.write (db : DB) (ok : Bool) (r : PaxosInstance) : DB :=
  if ok then db.put r.instanceId r else db

theorem DB.get_put_cases {j : ℕ} (h : (db.put i r).get j = some q) :
    (j = i ∧ q = r) ∨ db.get j = some q := by
  by_cases hj : j = i
  · subst hj
    rw [DB.get_put_self] at h
    exact Or.inl ⟨rfl, (Option.some.inj h).symm⟩
  · rw [DB.get_put_of_ne _ _ hj] at h
    exact Or.inr h

theorem DB.get_write_cases {ok : Bool} (h : (db.write ok r).get i = some q) :
    (i = r.instanceId ∧ q = r) ∨ db.get i = some q := by
  unfold DB.write at h
  split_ifs at h
  · exact DB.get_put_cases h
  · exact Or.inr h

theorem DB.exists_get_put {j : ℕ} (q : PaxosInstance) (h : db.get j = some r) :
    ∃ r', (db.put i q).get j = some r' := by
  by_cases hj : j = i
  · subst hj
    exact ⟨q, DB.get_put_self ..⟩
  · exact ⟨r, by rwa [DB.get_put_of_ne _ _ hj]⟩

/-- What an action does to the acceptor, the learner, the log and the instance. -/
inductive StoreChange (R : Rules) (E : Env) (net : PaxosMessage → Prop) (x y : Node) : Prop where
  /-- Nothing of these changes. -/
  | same (hacc : y.acceptor = x.acceptor) (hdb : y.db = x.db) (hid : y.instanceId = x.instanceId)
      (hlearned : y.learner.hasLearned = x.learner.hasLearned)
      (hvalue : y.learner.learnedValue = x.learner.learnedValue)
  /-- The acceptor takes a `PREPARE`. -/
  | promised (m : PaxosMessage) (k : ℕ) (hm : Heard net x y .prepare m)
      (hle : x.acceptor.promisedBallot ≤ m.ballot)
      (hkeep : R.keepsLearned → x.learner.hasLearned = true →
        x.acceptor.acceptedValue = x.learner.learnedValue)
      (hacc : y.acceptor = { x.acceptor with promisedBallot := m.ballot })
      (hdb : y.db = x.db.write (E.putOk k) y.acceptor.record)
      (hid : y.instanceId = x.instanceId)
      (hlearned : y.learner.hasLearned = x.learner.hasLearned)
      (hvalue : y.learner.learnedValue = x.learner.learnedValue)
      (htrace : .promised m.instanceId m.ballot ∈ y.trace)
      (hindex : x.trace.length ≤ k ∧ k < y.trace.length)
  /-- The acceptor takes an `ACCEPT`. -/
  | accepted (m : PaxosMessage) (k : ℕ) (hm : Heard net x y .accept m)
      (hle : x.acceptor.promisedBallot ≤ m.ballot)
      (hkeep : R.keepsLearned → x.learner.hasLearned = true → m.value = x.learner.learnedValue)
      (hacc : y.acceptor = { x.acceptor with
        promisedBallot := m.ballot, acceptedBallot := m.ballot, acceptedValue := m.value })
      (hdb : y.db = x.db.write (E.putOk k) y.acceptor.record)
      (hid : y.instanceId = x.instanceId)
      (hlearned : y.learner.hasLearned = x.learner.hasLearned)
      (hvalue : y.learner.learnedValue = x.learner.learnedValue)
      (htrace : .accepted m.instanceId m.ballot m.value ∈ y.trace)
      (hindex : x.trace.length ≤ k ∧ k < y.trace.length)
  /-- The learner takes the acceptor's value. -/
  | learned (m : PaxosMessage) (hm : Announced net x m) (hmid : m.instanceId = x.instanceId)
      (hballot : m.ballot = x.acceptor.acceptedBallot) (hacc : y.acceptor = x.acceptor)
      (hdb : y.db = x.db) (hid : y.instanceId = x.instanceId)
      (hlearned : y.learner.hasLearned = true)
      (hvalue : y.learner.learnedValue = x.acceptor.acceptedValue)
  /-- The learner stores and takes the value of another node. -/
  | learnedValue (m : PaxosMessage) (hm : net m) (htype : m.type = .sendLearnedValue)
      (hmid : m.instanceId = x.instanceId) (hrule : R.learn x m) (hacc : y.acceptor = x.acceptor)
      (hdb : y.db = x.db.put m.instanceId (Learner.record m)) (hid : y.instanceId = x.instanceId)
      (hlearned : y.learner.hasLearned = true) (hvalue : y.learner.learnedValue = m.value)
      (hput : E.putOk x.trace.length = true)
  /-- The learned value is executed. -/
  | executed (hl : x.learner.hasLearned = true) (hok : (Instance.execution E x).1 = true)
      (hy : y = Instance.nextInstance (Instance.afterExecute E x))
      (hacc : y.acceptor = x.acceptor.nextInstance) (hdb : y.db = x.db)
      (hid : y.instanceId = x.instanceId + 1) (hlearned : y.learner.hasLearned = false)
      (hvalue : y.learner.learnedValue = {})
  /-- The next part of `GCLoop` deletes records that are old enough. -/
  | cleaned (hrule : R.clean) (hy : y = LogCleaner.gcLoop E x)
      (hdb : ∀ i r, y.db.get i = some r → x.db.get i = some r)
      (hkept : ∀ i, x.maxChosenId ≤ i → y.db.get i = x.db.get i) (hacc : y.acceptor = x.acceptor)
      (hid : y.instanceId = x.instanceId)
      (hlearned : y.learner.hasLearned = x.learner.hasLearned)
      (hvalue : y.learner.learnedValue = x.learner.learnedValue)

/-- The scan of the log cleaner stops where it starts or below the chosen instances. -/
theorem LogCleaner.scan_le (keep maxChosenId checkpointId n m : ℕ) :
    scan keep maxChosenId checkpointId n m ≤ max m maxChosenId := by
  induction n generalizing m with
  | zero => exact le_max_left _ _
  | succ n ih =>
    unfold scan
    split_ifs with h
    · have hrest := ih (m + 1)
      omega
    · exact le_max_left _ _

section

variable {R : Rules} {E : Env} {net : PaxosMessage → Prop}

/-- What the acceptor does with a `PREPARE`, when the node is otherwise left as it is. -/
theorem StoreChange.of_takePrepare {w : Node} (hm : Heard net x y .prepare m)
    (hkeep : R.keepsLearned → x.learner.hasLearned = true → x.acceptor.promisedBallot ≤ m.ballot →
      x.acceptor.acceptedValue = x.learner.learnedValue)
    (hx : w.acceptor = x.acceptor ∧ w.db = x.db ∧ w.instanceId = x.instanceId ∧
      w.learner = x.learner) (hy : y.acceptor = (Acceptor.takePrepare E m w).2.acceptor ∧
      y.db = (Acceptor.takePrepare E m w).2.db ∧
      y.instanceId = (Acceptor.takePrepare E m w).2.instanceId ∧
      y.learner = (Acceptor.takePrepare E m w).2.learner) (hold : ∃ l, w.trace = l ++ x.trace)
    (htrace : ∃ l, y.trace = l ++ (Acceptor.takePrepare E m w).2.trace) :
    StoreChange R E net x y := by
  obtain ⟨hxa, hxd, hxi, hxl⟩ := hx
  obtain ⟨hya, hyd, hyi, hyl⟩ := hy
  by_cases hle : w.acceptor.promisedBallot ≤ m.ballot
  · have htaken := (Acceptor.takePrepare_of_le (E := E) hle).2.2
    obtain ⟨l, htr⟩ := htrace
    obtain ⟨l', hw'⟩ := hold
    have hlen : y.trace.length = l.length + (w.trace.length + 2) := by
      rw [htr, Acceptor.takePrepare, if_pos hle, List.length_append]
      rfl
    have hlen' : w.trace.length = l'.length + x.trace.length := by rw [hw', List.length_append]
    rw [Acceptor.takePrepare, if_pos hle] at hya hyd hyi hyl
    rw [hxa] at hle
    refine .promised m (w.trace.length + 1) hm hle (fun hk hl => hkeep hk hl hle) (hya.trans ?_)
      (hyd.trans ?_) (hyi.trans hxi) ?_ ?_ (htr ▸ List.mem_append_right l htaken) (by omega)
    · rw [← hxa]
      rfl
    · rw [hya, ← hxd]
      rfl
    · rw [hyl, ← hxl]
      rfl
    · rw [hyl, ← hxl]
      rfl
  · rw [Acceptor.takePrepare_of_not_le hle] at hya hyd hyi hyl
    exact .same (hya.trans hxa) (hyd.trans hxd) (hyi.trans hxi)
      (by rw [hyl, hxl]) (by rw [hyl, hxl])

/-- An `ACCEPT` that the acceptor takes or rejects is one of these changes. -/
theorem StoreChange.of_takeAccept (hm : Heard net x y .accept m)
    (hkeep : R.keepsLearned → x.learner.hasLearned = true → x.acceptor.promisedBallot ≤ m.ballot →
      m.value = x.learner.learnedValue) (hy : y.acceptor = (Acceptor.takeAccept E m x).2.acceptor ∧
      y.db = (Acceptor.takeAccept E m x).2.db ∧
      y.instanceId = (Acceptor.takeAccept E m x).2.instanceId ∧
      y.learner = (Acceptor.takeAccept E m x).2.learner)
    (htrace : ∃ l, y.trace = l ++ (Acceptor.takeAccept E m x).2.trace) :
    StoreChange R E net x y := by
  obtain ⟨hya, hyd, hyi, hyl⟩ := hy
  by_cases hle : x.acceptor.promisedBallot ≤ m.ballot
  · have htaken := (Acceptor.takeAccept_of_le (E := E) hle).2.2
    obtain ⟨l, htr⟩ := htrace
    have hlen : y.trace.length = l.length + (x.trace.length + 2) := by
      rw [htr, Acceptor.takeAccept, if_pos hle, List.length_append]
      rfl
    rw [Acceptor.takeAccept, if_pos hle] at hya hyd hyi hyl
    refine .accepted m (x.trace.length + 1) hm hle (fun hk hl => hkeep hk hl hle) hya
      (hyd.trans ?_) hyi ?_ ?_ (htr ▸ List.mem_append_right l htaken) (by omega)
    · rw [hya]
      rfl
    · rw [hyl]
      rfl
    · rw [hyl]
      rfl
  · rw [Acceptor.takeAccept_of_not_le hle] at hya hyd hyi hyl
    exact .same hya hyd hyi (by rw [hyl]) (by rw [hyl])

/-- The log cleaner keeps the records from the chosen instances on. -/
theorem LogCleaner.gcLoop_get (E : Env) (x : Node) (i : ℕ) (hi : x.maxChosenId ≤ i) :
    (gcLoop E x).db.get i = x.db.get i := by
  have hpart := gcLoop_part E x
  generalize gcLoop E x = y at hpart ⊢
  cases hpart with
  | idle | set | unset => rfl
  | batch m _ hm =>
    rw [DB.get_deleteRange, if_pos]
    have := scan_le x.config.keepLogCount x.maxChosenId (x.oldestCheckpointId + 1) x.maxChosenId
      x.minChosenId
    omega

/-- No part of `GCLoop` adds a record. -/
theorem LogCleaner.get_of_gcLoop (E : Env) (x : Node) (i : ℕ) (r : PaxosInstance)
    (hr : (gcLoop E x).db.get i = some r) : x.db.get i = some r := by
  have hpart := gcLoop_part E x
  generalize gcLoop E x = y at hpart hr
  cases hpart with
  | idle | set | unset => exact hr
  | batch m =>
    rw [DB.get_deleteRange] at hr
    split_ifs at hr
    exact hr

/-- **What an action does to the acceptor, the learner and the log.** -/
theorem Act.storeChange (h : Act R E net x y) (hw : x.WF) :
    StoreChange R E net x y := by
  have hsame : ∀ {z : Node}, z.acceptor = x.acceptor → z.db = x.db → z.instanceId = x.instanceId →
      z.learner = x.learner → StoreChange R E net x z := by
    intro z h1 h2 h3 h4
    exact .same h1 h2 h3 (by rw [h4]) (by rw [h4])
  cases h with
  | quiet h => exact .same h.acceptor h.db h.instanceId h.hasLearned h.learnedValue
  | openRound z v hstart =>
    obtain ⟨-, ha, -, -, -, hl, hdb⟩ := hstart.same
    obtain ⟨p, nt, ts, trace, hframe⟩ := Proposer.openRound_frame v z
    rw [hframe]
    exact hsame ha hdb (Quiet.of_roundStart hstart).instanceId hl
  | beginRound z v hstart hrule hrecv hkeep =>
    -- The node's own `PREPARE` is taken within the call that broadcasts it.
    have hown := hstart.ownPrepare hw
    obtain ⟨hya, hyd, hyi, hyl, hyt⟩ := Proposer.beginRound_take E v z
    obtain ⟨l, htr, -⟩ := Acceptor.takePrepare_trace E
      (Proposer.prepareMessage (Proposer.openRound v z)) (Proposer.openRound v z)
    have hlong : ∃ k, (Proposer.beginRound E v z).trace = k ++ (Proposer.openRound v z).trace := by
      rw [hyt, htr]
      exact ⟨_ :: l, rfl⟩
    obtain ⟨k, hlong⟩ := hlong
    exact StoreChange.of_takePrepare (hown.heard hlong) (fun hk hl _ => hkeep hk hl)
      ⟨hown.acceptor, hown.db, hown.instanceId, hown.learner⟩ ⟨hya, hyd, hyi, hyl⟩
      ⟨[_, _], hown.trace⟩ ⟨[_], hyt⟩
  | propose machineId value context draw =>
    obtain ⟨v, pt, sn, nt, ts, hframe⟩ :=
      Instance.startPropose_frame E machineId value context draw x
    rw [hframe]
    exact hsame rfl rfl rfl rfl
  | passPrepare =>
    obtain ⟨p, nt, ts, trace, hframe⟩ := Proposer.passPrepare_frame x
    rw [hframe]
    exact hsame rfl rfl rfl rfl
  | takePrepare m hnet htype hid hkeep =>
    obtain ⟨e₀, he₀, -⟩ := Acceptor.answer_trace m.nodeId (Acceptor.takePrepare E m x).1
      (Acceptor.takePrepare E m x).2
    refine StoreChange.of_takePrepare ⟨Or.inl hnet, htype, hid⟩ hkeep ⟨rfl, rfl, rfl, rfl⟩ ?_
      ⟨[], rfl⟩ ⟨[e₀], he₀⟩
    obtain ⟨trace, hframe⟩ := Acceptor.answer_frame (Acceptor.takePrepare E m x).2 m.nodeId
      (Acceptor.takePrepare E m x).1
    rw [hframe]
    exact ⟨rfl, rfl, rfl, rfl⟩
  | takeAccept m hm htype hid hkeep =>
    obtain ⟨e₀, he₀, -⟩ := Acceptor.answer_trace m.nodeId (Acceptor.takeAccept E m x).1
      (Acceptor.takeAccept E m x).2
    obtain ⟨l, htr, -⟩ := Acceptor.takeAccept_trace E m x
    refine StoreChange.of_takeAccept ⟨?_, htype, hid⟩ hkeep ?_ ⟨[e₀], he₀⟩
    -- The message came by the network, or is the node's own and in its trace.
    · rcases hm with hnet | ⟨⟨dests, hd⟩, hn⟩
      · exact Or.inl hnet
      · refine Or.inr ⟨hn, dests, ?_⟩
        rw [he₀, htr]
        exact List.mem_cons_of_mem _ (List.mem_append_right _ hd)
    · obtain ⟨trace, hframe⟩ := Acceptor.answer_frame (Acceptor.takeAccept E m x).2 m.nodeId
        (Acceptor.takeAccept E m x).1
      rw [hframe]
      exact ⟨rfl, rfl, rfl, rfl⟩
  | learn m hm hid hballot =>
    exact .learned m hm (hid.trans hw.learnerId) hballot rfl rfl rfl rfl rfl
  | learnValue m hnet htype hid hrule hput =>
    refine .learnedValue m hnet htype (hid.trans hw.learnerId) hrule rfl ?_ rfl rfl rfl hput
    show (x.put E (Learner.record m)).2.db = _
    simp [Node.put, hput, Learner.record]
  | tellFollowers ballot =>
    obtain ⟨trace, hframe⟩ := Learner.broadcastMessageToFollower_frame E ballot x
    rw [hframe]
    exact hsame rfl rfl rfl rfl
  | checkLearn hl =>
    cases hok : (Instance.execution E x).1 with
    | false =>
      rw [Instance.checkLearn_of_false hl hok]
      exact hsame rfl rfl rfl rfl
    | true =>
      rw [Instance.checkLearn_of_true hl hok]
      exact .executed hl hok rfl rfl rfl rfl rfl rfl
  | gcLoop hrule =>
    -- The only action that deletes records.
    have hdb := LogCleaner.get_of_gcLoop E x
    have hkept := LogCleaner.gcLoop_get E x
    obtain ⟨db, m, g, hframe⟩ := LogCleaner.gcLoop_frame E x
    refine .cleaned hrule rfl hdb hkept ?_ ?_ ?_ ?_ <;> rw [hframe]
  | _ => exact hsame rfl rfl rfl rfl

end

end Skywalker
