import Skywalker.Votes

/-!
# Replies and records

An acceptor that takes a ballot notes it, writes its record and answers, in this order and with
nothing in between. `Appended` lists the entries of an action as a whole, where `NewEvent` has them
one by one, so that the entries right before a reply say what the acceptor decided: they are a vote
or a promise and the `Put` of its record, or the acceptor rejected (`Acceptor.Decision`).

`Acceptor::WriteToDB` reports a `Put` that failed, and `OnPrepare` and `OnAccpet` do not look at it.
So a promise or a vote is on disk when it is acknowledged only if the `Put` for this reply
succeeded.
-/

namespace Skywalker

open TransitionSystem

variable {e : Event} {m r : PaxosMessage} {d i n : ℕ} {l l' : List Event} {x y : Node} {db : DB}
  {dirs : List (ℕ × Machines)} {a : Acceptor} {E : Env} {R : Rules} {net : PaxosMessage → Prop}

/-! ## What an action appends -/

/-- Entries that are neither a decision of the acceptor, nor a reply, nor a record on disk, nor the
start of a process. -/
def Event.isPlain : Event → Bool
  | .recovered _ _ => false
  | .promised _ _ => false
  | .accepted _ _ _ => false
  | .put _ ok => !ok
  | .send _ m => m.type ≠ .prepareReply && m.type ≠ .acceptReply
  | .handed m => m.type ≠ .prepareReply && m.type ≠ .acceptReply
  | _ => true

/-- A quiet entry is plain. -/
theorem Event.isPlain_of_isQuiet (h : e.isQuiet = true) : e.isPlain = true := by
  cases e with
  | send d m =>
    simp only [Event.isQuiet, Bool.or_eq_true, decide_eq_true_eq] at h
    rcases h with (h | h) | h <;> simp [Event.isPlain, h]
  | handed m | put r ok => exact h
  | recovered | promised | accepted => cases h
  | _ => rfl

/-- The entries that an action appends, the newest first, with what it does to the log. -/
inductive Appended (net : PaxosMessage → Prop) (x y : Node) : List Event → Prop where
  /-- No decision of the acceptor and no record. The log may be cleaned. -/
  | plain {l : List Event} (hplain : ∀ e ∈ l, e.isPlain = true) (hacc : y.acceptor = x.acceptor ∨
        y.acceptor = x.acceptor.nextInstance)
      (hdb : ∀ i, x.maxChosenId ≤ i → y.db.get i = x.db.get i) : Appended net x y l
  /-- The acceptor takes a `PREPARE`. -/
  | promised {m : PaxosMessage} {e : Event} (pre : List Event) (ok : Bool)
      (hm : Heard net x y .prepare m) (hle : x.acceptor.promisedBallot ≤ m.ballot)
      (hpre : ∀ e ∈ pre, e.isPlain = true) (he : ReplyEvent x m.nodeId (Acceptor.promise m x) e)
      (hacc : y.acceptor = { x.acceptor with promisedBallot := m.ballot })
      (hdb : y.db = x.db.write ok y.acceptor.record) :
      Appended net x y
        (e :: .put y.acceptor.record ok :: .promised m.instanceId m.ballot :: pre)
  /-- The acceptor takes an `ACCEPT`. -/
  | accepted {m : PaxosMessage} {e : Event} (ok : Bool)
      (hm : Heard net x y .accept m) (hle : x.acceptor.promisedBallot ≤ m.ballot)
      (he : ReplyEvent x m.nodeId (Acceptor.replyTo .acceptReply m x) e)
      (hacc : y.acceptor = { x.acceptor with
        promisedBallot := m.ballot, acceptedBallot := m.ballot, acceptedValue := m.value })
      (hdb : y.db = x.db.write ok y.acceptor.record) :
      Appended net x y
        [e, .put y.acceptor.record ok, .accepted m.instanceId m.ballot m.value]
  /-- The acceptor rejects a request and stays as it is. -/
  | rejected {m : PaxosMessage} {type : PaxosMessageType} {e : Event} (pre : List Event)
      (hm : Heard net x y .prepare m ∧ type = .prepareReply ∨
        Heard net x y .accept m ∧ type = .acceptReply)
      (hle : ¬ x.acceptor.promisedBallot ≤ m.ballot) (hpre : ∀ e ∈ pre, e.isPlain = true)
      (he : ReplyEvent x m.nodeId (Acceptor.rejection type m x) e)
      (hacc : y.acceptor = x.acceptor) (hdb : y.db = x.db) : Appended net x y (e :: pre)
  /-- The learner stores the record of another node. -/
  | learned {m : PaxosMessage} (hnet : net m) (htype : m.type = .sendLearnedValue)
      (hid : m.instanceId = x.instanceId) (hacc : y.acceptor = x.acceptor)
      (hdb : y.db = x.db.put m.instanceId (Learner.record m)) :
      Appended net x y [.put (Learner.record m) true]

section

theorem Acceptor.promiseBallot_spec (E : Env) (m : PaxosMessage) (w : Node) :
    ∃ ok, (promiseBallot E m w).acceptor = { w.acceptor with promisedBallot := m.ballot } ∧
      (promiseBallot E m w).db = w.db.write ok (promiseBallot E m w).acceptor.record ∧
      (promiseBallot E m w).trace = .put (promiseBallot E m w).acceptor.record ok ::
        .promised m.instanceId m.ballot :: w.trace :=
  ⟨E.putOk (w.trace.length + 1), rfl, rfl, rfl⟩

theorem Acceptor.acceptBallot_spec (E : Env) (m : PaxosMessage) (w : Node) :
    ∃ ok, (acceptBallot E m w).acceptor = { w.acceptor with
        promisedBallot := m.ballot, acceptedBallot := m.ballot, acceptedValue := m.value } ∧
      (acceptBallot E m w).db = w.db.write ok (acceptBallot E m w).acceptor.record ∧
      (acceptBallot E m w).trace = .put (acceptBallot E m w).acceptor.record ok ::
        .accepted m.instanceId m.ballot m.value :: w.trace :=
  ⟨E.putOk (w.trace.length + 1), rfl, rfl, rfl⟩

theorem Acceptor.answer_db (dest : ℕ) (r : PaxosMessage) (w : Node) :
    (answer dest r w).db = w.db := by
  obtain ⟨trace, hframe⟩ := answer_frame w dest r
  rw [hframe]

/-- The entries of a round up to the node's own reply. -/
theorem Appended.of_beginRound {z : Node} {v : PaxosValue} (hw : x.WF) (hstart : RoundStart x v z) :
    ∃ l, (Proposer.beginRound E v z).trace = l ++ x.trace ∧
      Appended net x (Proposer.beginRound E v z) l := by
  have hown := hstart.ownPrepare hw
  obtain ⟨hya, hyd, -, -, hyt⟩ := Proposer.beginRound_take E v z
  generalize Proposer.beginRound E v z = y at hya hyd hyt ⊢
  generalize Proposer.prepareMessage (Proposer.openRound v z) = m at hown hya hyd hyt
  generalize Proposer.openRound v z = w at hown hya hyd hyt
  have hpre : ∀ e ∈ [Event.handed m, .broadcast m (x.others x.memberIds)], e.isPlain = true := by
    simp [Event.isPlain, hown.type_eq]
  by_cases hle : x.acceptor.promisedBallot ≤ m.ballot
  · -- The node promises itself, and the record and the call follow the broadcast in the trace.
    obtain ⟨ok, hacc, hdb, htrace⟩ := Acceptor.promiseBallot_spec E m w
    rw [Acceptor.takePrepare, if_pos (by rwa [hown.acceptor])] at hya hyd hyt
    dsimp only at hya hyd hyt
    rw [htrace, ← hya, hown.promise_eq] at hyt
    refine ⟨_, ?_, .promised [.handed m, .broadcast m (x.others x.memberIds)] ok
      (hown.heard (l := [_, _, _]) hyt) hle hpre (Or.inl ⟨rfl, hown.sender⟩) ?_ ?_⟩
    · rw [hyt, hown.trace]
      rfl
    · rw [hya, hacc, hown.acceptor]
    · rw [hyd, hdb, hya, hown.db]
  · -- The node rejects its own `PREPARE`: it has promised a higher ballot.
    rw [Acceptor.takePrepare_of_not_le (by rwa [hown.acceptor])] at hya hyd hyt
    rw [hown.rejection_eq] at hyt
    refine ⟨_, ?_, .rejected [.handed m, .broadcast m (x.others x.memberIds)]
      (Or.inl ⟨hown.heard (l := [_]) hyt, rfl⟩) hle hpre (Or.inl ⟨rfl, hown.sender⟩)
      (hya.trans hown.acceptor) (hyd.trans hown.db)⟩
    rw [hyt, hown.trace]
    rfl

/-- The entries of a decision about a `PREPARE` of another node. -/
theorem Appended.of_takePrepare (hnet : net m) (htype : m.type = .prepare)
    (hid : m.instanceId = x.acceptor.instanceId) :
    ∃ l, (Acceptor.answer m.nodeId (Acceptor.takePrepare E m x).1
        (Acceptor.takePrepare E m x).2).trace = l ++ x.trace ∧
      Appended net x (Acceptor.answer m.nodeId (Acceptor.takePrepare E m x).1
        (Acceptor.takePrepare E m x).2) l := by
  have hheard : ∀ y, Heard net x y .prepare m := fun y => ⟨Or.inl hnet, htype, hid⟩
  by_cases hle : x.acceptor.promisedBallot ≤ m.ballot
  · rw [Acceptor.takePrepare, if_pos hle]
    obtain ⟨ok, hacc₁, hdb₁, htrace₁⟩ := Acceptor.promiseBallot_spec E m x
    obtain ⟨e, he, hreply⟩ := Acceptor.answer_trace m.nodeId (Acceptor.promise m x)
      (Acceptor.promiseBallot E m x)
    have hacc := Acceptor.answer_acceptor m.nodeId (Acceptor.promise m x)
      (Acceptor.promiseBallot E m x)
    refine ⟨_, ?_, .promised [] ok (hheard _) hle (by simp) hreply ?_ ?_⟩
    · rw [he, htrace₁, hacc]
      rfl
    · rw [hacc, hacc₁]
    · rw [Acceptor.answer_db, hdb₁, hacc]
  · rw [Acceptor.takePrepare_of_not_le hle]
    obtain ⟨e, he, hreply⟩ :=
      Acceptor.answer_trace m.nodeId (Acceptor.rejection .prepareReply m x) x
    exact ⟨[e], he, .rejected [] (Or.inl ⟨hheard _, rfl⟩) hle (by simp) hreply
      (Acceptor.answer_acceptor ..) (Acceptor.answer_db ..)⟩

/-- The entries of a decision about an `ACCEPT`. -/
theorem Appended.of_takeAccept
    (hm : net m ∨ ((∃ dests, .broadcast m dests ∈ x.trace) ∧ m.nodeId = x.nodeId))
    (htype : m.type = .accept) (hid : m.instanceId = x.acceptor.instanceId) :
    ∃ l, (Acceptor.answer m.nodeId (Acceptor.takeAccept E m x).1
        (Acceptor.takeAccept E m x).2).trace = l ++ x.trace ∧
      Appended net x (Acceptor.answer m.nodeId (Acceptor.takeAccept E m x).1
        (Acceptor.takeAccept E m x).2) l := by
  have hheard : ∀ y l, y.trace = l ++ x.trace → Heard net x y .accept m := by
    intro y l hl
    refine ⟨hm.imp id ?_, htype, hid⟩
    rintro ⟨⟨dests, hd⟩, hn⟩
    exact ⟨hn, dests, by rw [hl]; exact List.mem_append_right l hd⟩
  by_cases hle : x.acceptor.promisedBallot ≤ m.ballot
  · rw [Acceptor.takeAccept, if_pos hle]
    obtain ⟨ok, hacc₁, hdb₁, htrace₁⟩ := Acceptor.acceptBallot_spec E m x
    obtain ⟨e, he, hreply⟩ := Acceptor.answer_trace m.nodeId (Acceptor.replyTo .acceptReply m x)
      (Acceptor.acceptBallot E m x)
    have hacc := Acceptor.answer_acceptor m.nodeId (Acceptor.replyTo .acceptReply m x)
      (Acceptor.acceptBallot E m x)
    rw [htrace₁, ← hacc] at he
    refine ⟨_, he, .accepted ok (hheard _ [_, _, _] he) hle hreply ?_ ?_⟩
    · rw [hacc, hacc₁]
    · rw [Acceptor.answer_db, hdb₁, hacc]
  · rw [Acceptor.takeAccept_of_not_le hle]
    obtain ⟨e, he, hreply⟩ := Acceptor.answer_trace m.nodeId (Acceptor.rejection .acceptReply m x) x
    exact ⟨[e], he, .rejected [] (Or.inr ⟨hheard _ [e] he, rfl⟩) hle (by simp) hreply
      (Acceptor.answer_acceptor ..) (Acceptor.answer_db ..)⟩

/-- **Every action appends entries to the trace in one of these patterns.** -/
theorem Act.appended (h : Act R E net x y) (hw : x.WF) :
    ∃ l, y.trace = l ++ x.trace ∧ Appended net x y l := by
  have hplain : ∀ {l : List Event} {z : Node}, (∀ e ∈ l, e.isPlain = true) →
      z.acceptor = x.acceptor → z.db = x.db → Appended net x z l :=
    fun h hacc hdb => .plain h (Or.inl hacc) fun i _ => by rw [hdb]
  cases h with
  | quiet h =>
    obtain ⟨l, hl, hq⟩ := h.trace
    exact ⟨l, hl, .plain (fun e he => Event.isPlain_of_isQuiet (hq e he)) (Or.inl h.acceptor)
      fun i _ => by rw [h.db]⟩
  | openRound z v hstart =>
    obtain ⟨-, hacc, -, -, -, -, hdb⟩ := hstart.same
    refine ⟨[_, _], Proposer.openRound_trace hstart, .plain ?_ (Or.inl hacc) fun i _ => ?_⟩
    · simp [Event.isPlain, Proposer.prepareMessage]
    · rw [← hdb]
      rfl
  | beginRound z v hstart => exact Appended.of_beginRound hw hstart
  | takePrepare m hnet htype hid => exact Appended.of_takePrepare hnet htype hid
  | takeAccept m hm htype hid => exact Appended.of_takeAccept hm htype hid
  | learnValue m hnet htype hid hrule hput =>
    refine ⟨[.put (Learner.record m) true], ?_,
      .learned hnet htype (hid.trans hw.learnerId) rfl ?_⟩
    · show .put (Learner.record m) (E.putOk x.trace.length) :: x.trace = _
      rw [hput]
      rfl
    · show (x.put E (Learner.record m)).2.db = _
      simp [Node.put, hput, Learner.record]
  | tellFollowers ballot =>
    unfold Learner.broadcastMessageToFollower
    split_ifs
    · exact ⟨[], rfl, hplain (by simp) rfl rfl⟩
    · exact ⟨[_], rfl, hplain (by simp [Event.isPlain]) rfl rfl⟩
  | checkLearn hl =>
    -- An execution forgets what was accepted, but writes nothing and answers nobody.
    have hevents : ∀ e ∈ Instance.executionEvents E x, e.isPlain = true := by
      intro e he
      unfold Instance.executionEvents at he
      split_ifs at he <;>
        simp only [List.mem_cons, List.mem_append, List.not_mem_nil, or_false, false_or] at he
      · rcases he with rfl | rfl <;> rfl
      · rw [he]
        rfl
    refine ⟨_, Instance.checkLearn_trace hl, .plain hevents ?_ fun i _ => ?_⟩
    · cases hok : (Instance.execution E x).1 with
      | false => exact Or.inl (by rw [Instance.checkLearn_of_false hl hok]; rfl)
      | true => exact Or.inr (by rw [Instance.checkLearn_of_true hl hok]; rfl)
    · rw [(Instance.checkLearn_promise E x).1]
  | gcLoop =>
    -- What is deleted is below the maximum that was chosen.
    have hkept := LogCleaner.gcLoop_get E x
    obtain ⟨db, m, g, hframe⟩ := LogCleaner.gcLoop_frame E x
    refine ⟨[], ?_, .plain (by simp) (Or.inl ?_) hkept⟩
    · rw [hframe]
      rfl
    · rw [hframe]
  | setNow => exact ⟨[], rfl, hplain (by simp) rfl rfl⟩
  | propose machineId value context draw =>
    obtain ⟨v, pt, sn, nt, ts, hframe⟩ :=
      Instance.startPropose_frame E machineId value context draw x
    rw [hframe]
    exact ⟨[_], rfl, hplain (by simp [Event.isPlain]) rfl rfl⟩
  | timeout => exact ⟨[_], rfl, hplain (by simp [Event.isPlain]) rfl rfl⟩
  | countPrepare => exact ⟨[], rfl, hplain (by simp) rfl rfl⟩
  | passPrepare => exact ⟨[_, _], rfl, hplain (by simp [Event.isPlain]) rfl rfl⟩
  | directAccept => exact ⟨[_], rfl, hplain (by simp [Event.isPlain]) rfl rfl⟩
  | countAccept => exact ⟨[], rfl, hplain (by simp) rfl rfl⟩
  | passAccept => exact ⟨[_, _], rfl, hplain (by simp [Event.isPlain]) rfl rfl⟩
  | giveUp | learn => exact ⟨[], rfl, hplain (by simp) rfl rfl⟩
  | serve dest i r =>
    refine ⟨[.send dest (Learner.learnedMessage x r)], rfl, hplain ?_ rfl rfl⟩
    simp [Event.isPlain, Learner.learnedMessage]
  | finishCheckpoint => exact ⟨[], rfl, hplain (by simp) rfl rfl⟩

end

/-! ## The record of an instance -/

/-- The record that the process of a node wrote last for an instance, read off its trace. -/
def stored (i : ℕ) : List Event → Option PaxosInstance
  | [] => none
  | e :: older =>
    match e with
    | .recovered _ _ => none
    | .put r true => if r.instanceId = i then some r else stored i older
    | _ => stored i older

theorem stored_cons_of_plain (h : e.isPlain = true) :
    stored i (e :: l) = stored i l := by
  cases e with
  | put r ok =>
    obtain rfl : ok = false := by simpa [Event.isPlain] using h
    rfl
  | recovered => cases h
  | _ => rfl

theorem skip_plain {β : Type*} {f : List Event → β}
    (hf : ∀ e l, e.isPlain = true → f (e :: l) = f l) (h : ∀ e ∈ l, e.isPlain = true) :
    f (l ++ l') = f l' := by
  induction l with
  | nil => rfl
  | cons e l ih =>
    rw [List.cons_append, hf e _ (h e List.mem_cons_self),
      ih fun e' he' => h e' (List.mem_cons_of_mem e he')]

theorem stored_append_of_plain (h : ∀ e ∈ l, e.isPlain = true) :
    stored i (l ++ l') = stored i l' :=
  skip_plain (fun _ _ => stored_cons_of_plain) h

theorem stored_cons_of_reply (h : ReplyEvent x d r e) : stored i (e :: l) = stored i l := by
  rcases h with ⟨rfl, -⟩ | ⟨rfl, -⟩ <;> rfl

/-- The last record that a process wrote for its instance or a later one is the one in the log. -/
structure Node.Files (x : Node) : Prop where
  maxChosen : x.maxChosenId ≤ x.instanceId
  record : ∀ i r, x.instanceId ≤ i → stored i x.trace = some r → x.db.get i = some r

namespace Node.Files

/-- A `Put`, which may fail, and its entry. -/
theorem write {q r : PaxosInstance} {ok : Bool} (h : stored i l = some r → db.get i = some r)
    (hr : stored i (.put q ok :: l) = some r) : (db.write ok q).get i = some r := by
  cases ok with
  | false => exact h hr
  | true =>
    simp only [stored] at hr
    by_cases hid : q.instanceId = i
    · subst hid
      rw [if_pos rfl] at hr
      rw [← Option.some.inj hr]
      exact DB.get_put_self ..
    · rw [if_neg hid] at hr
      exact (DB.get_put_of_ne db q (Ne.symm hid)).trans (h hr)

theorem act (h : x.Files) (hw : x.WF) (hact : Act R E net x y) : y.Files := by
  have hmono := (hact.storeChange hw).mono.2
  obtain ⟨l, htrace, happ⟩ := hact.appended hw
  refine ⟨hact.maxChosenId_le hw h.maxChosen, fun i r hi hr => ?_⟩
  have hold : stored i x.trace = some r → x.db.get i = some r := h.record i r (hmono.trans hi)
  rw [htrace] at hr
  cases happ with
  | plain hplain hacc hdb =>
    rw [stored_append_of_plain hplain] at hr
    rw [hdb i (h.maxChosen.trans (hmono.trans hi))]
    exact hold hr
  | promised pre ok hm hle hpre he hacc hdb =>
    rw [List.cons_append, stored_cons_of_reply he] at hr
    rw [hdb]
    refine write (fun hr => hold ?_) hr
    rw [← stored_append_of_plain hpre]
    exact hr
  | accepted ok hm hle he hacc hdb =>
    rw [List.cons_append, stored_cons_of_reply he] at hr
    rw [hdb]
    exact write hold hr
  | rejected pre hm hle hpre he hacc hdb =>
    rw [List.cons_append, stored_cons_of_reply he, stored_append_of_plain hpre] at hr
    rw [hdb]
    exact hold hr
  | learned hnet htype hid hacc hdb =>
    rw [hdb]
    exact write hold hr

theorem recover {config : Config} {trace : List Event}
    (hrec : Node.Recovered E config db dirs trace a x) : x.Files := by
  obtain ⟨l, htrace, -⟩ := hrec.trace_eq
  refine ⟨hrec.maxChosenId.le, fun i r _ hr => ?_⟩
  rw [htrace] at hr
  cases hr

theorem fresh (config : Config) : (Node.fresh config).Files := by
  refine ⟨le_refl 1, fun i r _ hr => ?_⟩
  cases hr

end Node.Files

/-! ## The decision before a reply -/

/-- Whether an entry is a decision of the acceptor. -/
def Event.isDecision : Event → Bool
  | .promised _ _ => true
  | .accepted _ _ _ => true
  | _ => false

/-- The newest entries of a trace are not a decision of the acceptor, nor the `Put` after one. -/
def Idle (l : List Event) : Prop :=
  (∀ e ∈ l.head?, e.isDecision = false) ∧
    ∀ q ok e, l.take 2 = [.put q ok, e] → e.isDecision = false

theorem Event.isDecision_of_isPlain (h : e.isPlain = true) : e.isDecision = false := by
  cases e with
  | promised | accepted => cases h
  | _ => rfl

/-- An entry that is no decision leaves a trace idle. -/
theorem Idle.cons (h : Idle l) (he : e.isDecision = false) :
    Idle (e :: l) := by
  refine ⟨fun e' he' => ?_, fun q ok e' heq => ?_⟩
  · obtain rfl : e = e' := by simpa using he'
    exact he
  · have hhead : e' ∈ l.head? := by
      cases l with
      | nil => simp at heq
      | cons d l => simpa using (List.cons.inj heq).2
    exact h.1 e' hhead

theorem Idle.append (h : Idle l') (hl : ∀ e ∈ l, e.isPlain = true) :
    Idle (l ++ l') := by
  induction l with
  | nil => exact h
  | cons e l ih =>
    exact (ih fun e' he' => hl e' (List.mem_cons_of_mem e he')).cons
      (Event.isDecision_of_isPlain (hl e List.mem_cons_self))

theorem Idle.of_reply (l : List Event) (h : ReplyEvent x d r e) : Idle (e :: l) := by
  rcases h with ⟨rfl, -⟩ | ⟨rfl, -⟩ <;>
    refine ⟨by simp [Event.isDecision], fun q ok e' heq => ?_⟩ <;> cases l <;> simp at heq

/-- A promise carries the proposal id of the accepted ballot, which is zero when there is none. -/
theorem Acceptor.promise_preAcceptedId (m : PaxosMessage) (x : Node) :
    (promise m x).preAcceptedId = x.acceptor.acceptedBallot.proposalId := by
  unfold promise
  split_ifs with hpos
  · rfl
  · exact (Nat.eq_zero_of_not_pos hpos).symm

/-- What the acceptor did right before it answered `r` to the node `d`. -/
inductive Acceptor.Decision (older : List Event) (d : ℕ) (r : PaxosMessage) : Prop where
  /-- It took a `PREPARE`: it noted the promise and put its record. -/
  | promised (q : PaxosInstance) (ok : Bool) (rest : List Event) (htype : r.type = .prepareReply)
      (hrej : r.rejectedId = 0)
      (holder : older = .put q ok :: .promised r.instanceId ⟨r.proposalId, d⟩ :: rest)
      (hid : q.instanceId = r.instanceId) (hballot : q.promised = ⟨r.proposalId, d⟩)
      (hpre : r.preAcceptedId = q.accepted.proposalId)
  /-- It took an `ACCEPT`: it noted ballot and value and put its record. -/
  | accepted (q : PaxosInstance) (ok : Bool) (rest : List Event) (htype : r.type = .acceptReply)
      (hrej : r.rejectedId = 0)
      (holder : older =
        .put q ok :: .accepted r.instanceId ⟨r.proposalId, d⟩ q.acceptedValue :: rest)
      (hid : q.instanceId = r.instanceId) (hballot : q.accepted = ⟨r.proposalId, d⟩)
  /-- It rejected: there is no decision right before. -/
  | rejected (hrej : r.rejectedId ≠ 0) (hidle : Idle older)

/-- Whether an entry of the node `n` is the reply `r` to the node `d`. -/
def Event.IsReply (n d : ℕ) (r : PaxosMessage) (e : Event) : Prop :=
  (e = .send d r ∨ (d = n ∧ e = .handed r)) ∧ (r.type = .prepareReply ∨ r.type = .acceptReply)

namespace Event.IsReply

theorem not_plain (h : e.IsReply n d r) : e.isPlain = false := by
  obtain ⟨rfl | ⟨-, rfl⟩, htype | htype⟩ := h <;> simp [Event.isPlain, htype]

theorem of_replyEvent {d' : ℕ} {r' : PaxosMessage} (h : e.IsReply n d r) (hn : x.nodeId = n)
    (he : ReplyEvent x d' r' e) : d' = d ∧ r' = r := by
  obtain ⟨h | ⟨hd, h⟩, -⟩ := h <;> rcases he with ⟨rfl, he⟩ | ⟨rfl, he⟩ <;> cases h
  · exact ⟨rfl, rfl⟩
  · exact ⟨by rw [he, hn, hd], rfl⟩

end Event.IsReply

/-- Each reply of the node `n` comes right after the decision that it reports. -/
def Answers (n : ℕ) (trace : List Event) : Prop :=
  AtEach (fun older e => ∀ d r, e.IsReply n d r → Acceptor.Decision older d r) trace

namespace Answers

theorem append (h : Answers n l') (hl : ∀ e ∈ l, ∀ d r, ¬ e.IsReply n d r) :
    Answers n (l ++ l') :=
  AtEach.append h fun e he _ d r hr => absurd hr (hl e he d r)

theorem append_plain (h : Answers n l') (hl : ∀ e ∈ l, e.isPlain = true) :
    Answers n (l ++ l') :=
  h.append fun e he d r hr => by
    have := hr.not_plain
    rw [hl e he] at this
    cases this

theorem put_not_reply (q : PaxosInstance) (ok : Bool) (d : ℕ) (r : PaxosMessage) :
    ¬ (Event.put q ok).IsReply n d r := by
  rintro ⟨h | ⟨-, h⟩, -⟩ <;> cases h

theorem decision_not_reply (he : e.isDecision = true) (d : ℕ) (r : PaxosMessage) :
    ¬ e.IsReply n d r := by
  rintro ⟨rfl | ⟨-, rfl⟩, -⟩ <;> cases he

/-- Every action answers as it decides, when what it hears has a proposal id. -/
theorem act (h : Answers n x.trace) (hidle : Idle x.trace) (hw : x.WF) (hn : x.nodeId = n)
    (hpos : ∀ type m, type = .prepare ∨ type = .accept → Heard net x y type m → 1 ≤ m.proposalId)
    (hact : Act R E net x y) : Answers n y.trace ∧ Idle y.trace := by
  obtain ⟨l, htrace, happ⟩ := hact.appended hw
  rw [htrace]
  cases happ with
  | plain hplain => exact ⟨h.append_plain hplain, hidle.append hplain⟩
  | @promised m e pre ok hm hle hpre he hacc hdb =>
    refine ⟨⟨fun d r hr => ?_, fun d r hr => absurd hr (put_not_reply _ _ d r),
      fun d r hr => absurd hr (decision_not_reply rfl d r), h.append_plain hpre⟩, .of_reply _ he⟩
    obtain ⟨rfl, rfl⟩ := hr.of_replyEvent hn he
    obtain ⟨htype, -, hi, hp, hrej⟩ := Traced.promise_fields m x
    refine .promised y.acceptor.record ok (pre ++ x.trace) htype hrej ?_ ?_ ?_ ?_
    · rw [hi, hp]
      rfl
    · rw [hi, hm.id, hacc]
      rfl
    · rw [hp, hacc]
      rfl
    · rw [hacc]
      exact Acceptor.promise_preAcceptedId m x
  | @accepted m e ok hm hle he hacc hdb =>
    refine ⟨⟨fun d r hr => ?_, fun d r hr => absurd hr (put_not_reply _ _ d r),
      fun d r hr => absurd hr (decision_not_reply rfl d r), h⟩, .of_reply _ he⟩
    obtain ⟨rfl, rfl⟩ := hr.of_replyEvent hn he
    refine .accepted y.acceptor.record ok x.trace rfl rfl ?_ ?_ ?_
    · rw [hacc]
      rfl
    · rw [hacc]
      exact hm.id.symm
    · rw [hacc]
      rfl
  | @rejected m type e pre hm hle hpre he hacc hdb =>
    refine ⟨⟨fun d r hr => ?_, h.append_plain hpre⟩, .of_reply _ he⟩
    obtain ⟨rfl, rfl⟩ := hr.of_replyEvent hn he
    refine .rejected (Traced.rejectedId_ne_zero ?_ hle) (hidle.append hpre)
    rcases hm with ⟨hm, -⟩ | ⟨hm, -⟩
    · exact hpos _ m (Or.inl rfl) hm
    · exact hpos _ m (Or.inr rfl) hm
  | learned =>
    exact ⟨⟨fun d r hr => absurd hr (put_not_reply _ _ d r), h⟩, hidle.cons rfl⟩

theorem recover {config : Config} {trace : List Event} (h : Answers n trace) (hidle : Idle trace)
    (hrec : Node.Recovered E config db dirs trace a x) : Answers n x.trace ∧ Idle x.trace := by
  obtain ⟨l, htrace, hreplay⟩ := hrec.trace_eq
  have hplain : ∀ e ∈ l, e.isPlain = true := by
    intro e he
    obtain ⟨j, r, ok, rfl, -⟩ := hreplay e he
    rfl
  rw [htrace]
  refine ⟨⟨fun d r hr => ?_, h.append_plain hplain⟩, (hidle.append hplain).cons rfl⟩
  obtain ⟨heq | ⟨-, heq⟩, -⟩ := hr <;> cases heq

end Answers

/-! ## The system -/

/-- What holds of the replies and records of a system, in every run. -/
structure Acknowledging (s : Sys) : Prop where
  traced : Traced s
  answers : ∀ n, Answers n (s n).trace
  idle : ∀ n, Idle (s n).trace
  files : ∀ n, (s n).Files

namespace Acknowledging

variable {C : Setup} {P : Policy} {s t : Sys}

theorem micro (h : Acknowledging s) (hw : s.WF C) (hst : Micro P s t) : Acknowledging t := by
  have htraced := h.traced.micro hw hst
  obtain ⟨n, E, -, hact, hother, hgrow, -⟩ := hst.newEvents hw
  have hact' := (h.answers n).act (h.idle n) (hw n).1 (hw.nodeId n)
    (h.traced.heard_pos htraced hgrow (hw.nodeId n)) hact
  refine ⟨htraced, ?_, ?_, ?_⟩
  · exact Sys.forall_of_others (Q := fun k x => Answers k x.trace) hother
      (fun k _ => h.answers k) hact'.1
  · exact Sys.forall_of_others (Q := fun _ x => Idle x.trace) hother (fun k _ => h.idle k) hact'.2
  · exact Sys.forall_of_others (Q := fun _ x => x.Files) hother (fun k _ => h.files k)
      ((h.files n).act (hw n).1 hact)

/-- A recovery keeps the replies and records together. -/
theorem recover (h : Acknowledging s) (hrec : (s n).Restarts E dirs a y) :
    Acknowledging (Function.update s n y) := by
  have hrec' := (h.answers n).recover (h.idle n) hrec
  refine ⟨h.traced.recover hrec.grows.1 hrec.grows.2, ?_, ?_, ?_⟩
  · exact Sys.forall_update (Q := fun k x => Answers k x.trace) h.answers hrec'.1
  · exact Sys.forall_update (Q := fun _ x => Idle x.trace) h.idle hrec'.2
  · exact Sys.forall_update (Q := fun _ x => x.Files) h.files (.recover hrec)

theorem init (C : Setup) : Acknowledging (System.init C) := by
  refine ⟨.init C, fun n => ⟨fun d r hr => ?_, trivial⟩, fun n => ?_, fun n => .fresh _⟩
  · obtain ⟨heq | ⟨-, heq⟩, -⟩ := hr <;> cases heq
  · refine ⟨?_, fun q ok e heq => by simp [System.init, Node.fresh] at heq⟩
    intro e he
    obtain rfl : Event.recovered 1 _ = e := by simpa [System.init, Node.fresh] using he
    rfl

theorem of_run {ok : Sys → Env × Label → Prop} (hrun : Reaches System.step ok (System.init C) s) :
    Acknowledging s := by
  refine (Policy.invariant (P := {}) hrun (.init C) ?_ ?_ ?_).2
  · exact fun s a _ _ _ =>
      Policy.permits_free rfl trivial (fun _ _ => trivial) fun _ _ _ _ => trivial
  · exact fun s t hw h hst => h.micro hw hst
  · exact fun s n E dirs a y _ h _ _ hrec => h.recover hrec

end Acknowledging

/-- **A `Put` that succeeds is on disk when it is acknowledged.** In every run of the system, with
restarts and with any results of `Put`: a reply without a rejected id, for which the acceptor's
`Put` right before it succeeded, is sent when the record of its instance has a promise that is not
below the ballot, or has the ballot and the value that the acceptor took. The record is the one that
the process wrote last, which is the one in the log. -/
theorem acknowledges_stored {C : Setup} {s : Sys}
    (hrun : Reaches System.step (fun _ _ => True) (System.init C) s) (n : ℕ) :
    (∀ newer older e d r, (s n).trace = newer ++ e :: older → e.IsReply n d r → r.rejectedId = 0 →
      (∀ q, older.head? ≠ some (.put q false)) →
      (r.type = .prepareReply → ∃ q, stored r.instanceId older = some q ∧
        ⟨r.proposalId, d⟩ ≤ q.promised) ∧
      (r.type = .acceptReply → ∃ q v rest, stored r.instanceId older = some q ∧
        older = .put q true :: .accepted r.instanceId ⟨r.proposalId, d⟩ v :: rest ∧
        q.accepted = ⟨r.proposalId, d⟩ ∧ q.acceptedValue = v)) ∧
    ∀ i r, (s n).instanceId ≤ i → stored i (s n).trace = some r → (s n).db.get i = some r := by
  have hinv := Acknowledging.of_run hrun
  refine ⟨?_, (hinv.files n).record⟩
  intro newer older e d r hsplit hreply hzero hput
  cases (hinv.answers n).of_split hsplit d r hreply with
  | promised q ok rest htype hrej holder hid hballot hpre =>
    cases ok with
    | false => exact absurd (by rw [holder]; rfl) (hput q)
    | true =>
      refine ⟨fun _ => ⟨q, ?_, hballot.ge⟩, fun h => absurd (htype.symm.trans h) (by decide)⟩
      rw [holder, stored, if_pos hid]
  | accepted q ok rest htype hrej holder hid hballot =>
    cases ok with
    | false => exact absurd (by rw [holder]; rfl) (hput q)
    | true =>
      refine ⟨fun h => absurd (htype.symm.trans h) (by decide), fun _ => ?_⟩
      refine ⟨q, q.acceptedValue, rest, ?_, holder, hballot, rfl⟩
      rw [holder, stored, if_pos hid]
  | rejected hrej => exact absurd hzero hrej

/-- The promise of node 2 to node 1 in the first instance. -/
def firstPromise : PaxosMessage :=
  { type := .prepareReply, nodeId := 2, instanceId := 1, proposalId := 1 }

/-- No `Put` of a trace failed. -/
def noPutFailed (trace : List Event) : Bool :=
  trace.all fun e => match e with
    | .put _ ok => ok
    | _ => true

/-- When the first value of node 1 is chosen, node 2 has stored the promise that it sent. -/
theorem acknowledges_stored_trio : ∃ s newer older q,
    Reaches System.step (fun _ _ => True) (System.init (.uniform trioMember)) s ∧
    (s 2).trace = newer ++ .send 1 firstPromise :: older ∧ stored 1 older = some q ∧
    ⟨1, 1⟩ ≤ q.promised := by
  have hend : (run System.step (System.init (.uniform trioMember)) firstChosen).map
      (fun s => (decide (Event.send 1 firstPromise ∈ (s 2).trace), noPutFailed (s 2).trace)) =
        some (true, true) := by
    decide +kernel
  obtain ⟨s, hs, hfields⟩ := Option.map_eq_some_iff.mp hend
  obtain ⟨hmem, hput⟩ := Prod.mk.inj hfields
  obtain ⟨newer, older, hsplit⟩ := List.append_of_mem (of_decide_eq_true hmem)
  have hrun : Reaches System.step (fun _ _ => True) (System.init (.uniform trioMember)) s :=
    Reaches.of_run firstChosen (fun _ _ _ => trivial) hs
  have hhead : ∀ q, older.head? ≠ some (.put q false) := by
    intro q hq
    have hmem : Event.put q false ∈ (s 2).trace := by
      rw [hsplit]
      exact List.mem_append_right _ (List.mem_cons_of_mem _ (List.mem_of_mem_head? hq))
    exact absurd (List.all_eq_true.mp hput _ hmem) Bool.false_ne_true
  obtain ⟨q, hq, hle⟩ := ((acknowledges_stored hrun 2).1 newer older _ 1 firstPromise hsplit
    ⟨Or.inl rfl, Or.inl rfl⟩ rfl hhead).1 rfl
  exact ⟨s, newer, older, q, hrun, hsplit, hq, hle⟩

/-- Node 1 proposes a value, and the `Put` of node 2 for its `PREPARE` fails. -/
def promiseNotStored : List (Env × Label) :=
  [({}, .node 1 (.propose 7 [1] none 256)),
   ({ putOk := fun _ => false }, .node 2 (.paxosMessage
      { type := .prepare, nodeId := 1, instanceId := 1, proposalId := 1 }))]

/-- **A promise is sent though its record could not be written.** -/
theorem acknowledges_without_record : ∃ s,
    run System.step (System.init (.uniform trioMember)) promiseNotStored = some s ∧
      .send 1 firstPromise ∈ (s 2).trace ∧ firstPromise.rejectedId = 0 ∧
      (s 2).db.get 1 = none := by
  have hend : (run System.step (System.init (.uniform trioMember)) promiseNotStored).map
      (fun s => (decide (Event.send 1 firstPromise ∈ (s 2).trace), (s 2).db.get 1)) =
        some (true, none) := by
    decide +kernel
  obtain ⟨s, hs, hfields⟩ := Option.map_eq_some_iff.mp hend
  obtain ⟨hmem, hget⟩ := Prod.mk.inj hfields
  exact ⟨s, hs, of_decide_eq_true hmem, rfl, hget⟩

end Skywalker
