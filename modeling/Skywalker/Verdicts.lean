import Skywalker.Replies
import Skywalker.Validity

/-!
# What a reply says

Zero means "no" in two fields of a reply: there is no `rejected_id` where the acceptor took the
ballot, and no `pre_accepted_id` in a promise where nothing was accepted. It means the same in the
accepted ballot of an acceptor and of a log record. So a reply says what the acceptor decided only
if no ballot has the proposal id zero, wherever it comes from: a round of a proposer, a log record
that recovery loads, or a record that the learner stored for another node.

`acceptorHolds` reads off a trace whether the acceptor has an accepted value of an instance. It took
one from an `ACCEPT` in this process, or the process loaded a record with one. The accepted ballot
says the same (`Node.Tracks`), since a ballot is zero where there is no value (`Node.Marked`) and
the log cleaner does not reach the record that the next process loads (`Node.Resumes`).
-/

namespace Skywalker

open TransitionSystem

variable {l : List Event} {d i n : ℕ} {x y : Node} {r : PaxosMessage} {e : Event}
  {net : PaxosMessage → Prop} {a : Acceptor} {dirs : List (ℕ × Machines)} {R : Rules} {E : Env}

/-! ## What an acceptor holds -/

/-- The last record of an instance that the processes of a node put in the log. -/
def lastRecord (i : ℕ) : List Event → Option PaxosInstance
  | [] => none
  | e :: older =>
    match e with
    | .put r true => if r.instanceId = i then some r else lastRecord i older
    | _ => lastRecord i older

/-- Whether the acceptor of a node holds an accepted value of an instance: it took one from an
`ACCEPT`, or its process loaded a record of the instance that has one. -/
def acceptorHolds (i : ℕ) : List Event → Bool
  | [] => false
  | e :: older =>
    match e with
    | .accepted j _ _ => decide (j = i) || acceptorHolds i older
    | .recovered j _ =>
      decide (j = i) && (lastRecord i older).any fun r => decide (r.acceptedValue ≠ {})
    | _ => acceptorHolds i older

section

theorem lastRecord_cons_of_plain (e : Event) (l : List Event) (h : e.isPlain = true) :
    lastRecord i (e :: l) = lastRecord i l := by
  cases e with
  | put r ok =>
    obtain rfl : ok = false := by simpa [Event.isPlain] using h
    rfl
  | _ => rfl

theorem lastRecord_append_of_plain {l' : List Event} (h : ∀ e ∈ l, e.isPlain = true) :
    lastRecord i (l ++ l') = lastRecord i l' :=
  skip_plain lastRecord_cons_of_plain h

theorem lastRecord_cons_of_reply (h : ReplyEvent x d r e) (l : List Event) :
    lastRecord i (e :: l) = lastRecord i l := by
  rcases h with ⟨rfl, -⟩ | ⟨rfl, -⟩ <;> rfl

/-- A `Put` that may fail, and its entry. -/
theorem lastRecord_put {db : DB} (h : db.get i = lastRecord i l) (q : PaxosInstance) (ok : Bool) :
    (db.write ok q).get i = lastRecord i (.put q ok :: l) := by
  cases ok with
  | false => exact h
  | true =>
    show (db.put q.instanceId q).get i = if q.instanceId = i then some q else lastRecord i l
    by_cases hid : q.instanceId = i
    · rw [if_pos hid, hid, DB.get_put_self]
    · rw [if_neg hid, DB.get_put_of_ne _ _ (Ne.symm hid), h]

theorem acceptorHolds_cons_of_plain (e : Event) (l : List Event) (h : e.isPlain = true) :
    acceptorHolds i (e :: l) = acceptorHolds i l := by
  cases e with
  | recovered | accepted => cases h
  | _ => rfl

theorem acceptorHolds_append_of_plain {l' : List Event} (h : ∀ e ∈ l, e.isPlain = true) :
    acceptorHolds i (l ++ l') = acceptorHolds i l' :=
  skip_plain acceptorHolds_cons_of_plain h

theorem acceptorHolds_cons_of_reply (h : ReplyEvent x d r e) (l : List Event) :
    acceptorHolds i (e :: l) = acceptorHolds i l := by
  rcases h with ⟨rfl, -⟩ | ⟨rfl, -⟩ <;> rfl

end

/-! ## Where the next process starts -/

/-- The next process starts at no instance that the log cleaner may have reached: there is a record
or a checkpoint that says so. -/
def Node.Resumes (x : Node) : Prop :=
  x.maxChosenId ≤ 1 ∨ (∃ i r, x.maxChosenId ≤ i ∧ x.db.get i = some r) ∨
    ∃ d ∈ x.checkpoints, x.maxChosenId ≤ d.1 + 1

/-- An action loses no record that the log cleaner may not reach. -/
theorem Appended.exists_get (h : Appended net x y l) (hi : x.maxChosenId ≤ i) {r : PaxosInstance}
    (hr : x.db.get i = some r) : ∃ r', y.db.get i = some r' := by
  have hwrite : ∀ ok q, ∃ r', (x.db.write ok q).get i = some r' := by
    intro ok q
    cases ok with
    | false => exact ⟨r, hr⟩
    | true => exact DB.exists_get_put q hr
  cases h with
  | plain _ _ hdb => exact ⟨r, (hdb i hi).trans hr⟩
  | promised _ ok _ _ _ _ _ hdb | accepted ok _ _ _ _ hdb => rw [hdb]; exact hwrite ok _
  | rejected _ _ _ _ _ _ hdb => exact ⟨r, by rw [hdb]; exact hr⟩
  | learned _ _ _ _ hdb => rw [hdb]; exact DB.exists_get_put _ hr

namespace Node.Resumes

/-- Every action keeps the next process ahead of the log cleaner, when a learned value has a
record. -/
theorem act (h : x.Resumes) (hw : x.WF) (hkept : x.Kept)
    (hlearned : x.learner.hasLearned = true → ∃ r, x.db.get x.instanceId = some r)
    (hact : Act R E net x y) : y.Resumes := by
  unfold Node.Resumes
  rcases hact.maxChosenId_cases hw with hmax | ⟨hl, hmax, -, hdb⟩
  · rw [hmax]
    rcases h with hone | ⟨i, r, hi, hr⟩ | ⟨d, hd, hle⟩
    · exact Or.inl hone
    · obtain ⟨l, -, happ⟩ := hact.appended hw
      obtain ⟨r', hr'⟩ := happ.exists_get hi hr
      exact Or.inr (Or.inl ⟨i, r', hi, hr'⟩)
    · rcases hact.checkpoints_eq with hsame | ⟨rfl, -, hnew, -⟩
      · exact Or.inr (Or.inr ⟨d, by rw [hsame]; exact hd, hle⟩)
      · -- The new directory is later than the old one, and stays.
        have hbelow := hkept.below d hd
        refine Or.inr (Or.inr ⟨_, hkept.made_stays hnew hd, ?_⟩)
        show x.maxChosenId ≤ x.instanceId - 1 + 1
        omega
  · obtain ⟨r, hr⟩ := hlearned hl
    exact Or.inr (Or.inl ⟨x.instanceId, r, hmax.le, by rw [hdb]; exact hr⟩)

/-- The next process of the node is not before its newest chosen instance. -/
theorem maxChosenId_le (h : x.Resumes) (hkept : x.Kept) (hrec : x.Restarts E x.checkpoints a y) :
    x.maxChosenId ≤ y.instanceId := by
  have hinst := hrec.instanceId
  rcases h with hone | ⟨i, r, hi, hr⟩ | ⟨d, hd, hle⟩
  · omega
  · have hread := Acceptor.le_of_readFromDB hrec.read hr
    omega
  · have hlatest := (hkept.latest E).1 d hd
    omega

/-- Recovery keeps the next process ahead of the log cleaner. -/
theorem recover (hkept : x.Kept) (hrec : x.Restarts E x.checkpoints a y) : y.Resumes := by
  have hinst := hrec.instanceId
  unfold Node.Resumes
  rw [hrec.maxChosenId]
  rcases le_total a.instanceId ((MachineManager.recover E x.config x.checkpoints).1 + 1) with
    hle | hle
  · rcases MachineManager.recover_fst_mem E x.config x.checkpoints with hzero | ⟨d, hd, heq⟩
    · exact Or.inl (by omega)
    · refine Or.inr (Or.inr ⟨d, ?_, by omega⟩)
      -- There are few enough directories, so that none is deleted.
      have hfew : (x.checkpoints.map Prod.fst).length ≤ x.config.keepCheckpointCount := by
        rw [List.length_map]
        exact hkept.few
      rw [hrec.checkpoints, cleanCheckpoint_of_le hfew]
      simpa using hd
  · rcases Acceptor.readFromDB_spec hrec.read with ⟨rfl, -⟩ | ⟨r, hr, -⟩
    · exact absurd hle (Nat.not_succ_le_zero _)
    · exact Or.inr (Or.inl ⟨a.instanceId, r, by omega, by rw [hrec.db_eq]; exact hr⟩)

theorem fresh (config : Config) : (Node.fresh config).Resumes := Or.inl (le_refl 1)

end Node.Resumes

/-! ## Ballots without a value -/

/-- Where nothing was accepted, there is no value. -/
structure Node.Marked (x : Node) : Prop where
  acceptor : x.acceptor.acceptedBallot.proposalId = 0 → x.acceptor.acceptedValue = {}
  records : ∀ i r, x.db.get i = some r → r.accepted.proposalId = 0 → r.acceptedValue = {}

namespace Node.Marked

/-- The acceptor writes what it has. -/
theorem write (h : x.Marked) {ok : Bool} {r : PaxosInstance}
    (ha : a.acceptedBallot.proposalId = 0 → a.acceptedValue = {})
    (hr : (x.db.write ok a.record).get i = some r) (hzero : r.accepted.proposalId = 0) :
    r.acceptedValue = {} := by
  rcases DB.get_write_cases hr with ⟨-, rfl⟩ | hold
  · exact ha hzero
  · exact h.records i r hold hzero

/-- Every action keeps it so, when what is accepted or stored has a proposal id. -/
theorem act (h : x.Marked) (hw : x.WF)
    (hpos : ∀ type m, type = .prepare ∨ type = .accept → Heard net x y type m → 1 ≤ m.proposalId)
    (hlearned : ∀ m, net m → m.type = .sendLearnedValue → 1 ≤ m.proposalId)
    (hact : Act R E net x y) : y.Marked := by
  cases hact.storeChange hw with
  | same hacc hdb => exact ⟨by rw [hacc]; exact h.acceptor, by rw [hdb]; exact h.records⟩
  | promised m k hm hle hkeep hacc hdb =>
    have hy : y.acceptor.acceptedBallot.proposalId = 0 → y.acceptor.acceptedValue = {} := by
      rw [hacc]
      exact h.acceptor
    exact ⟨hy, fun i r hr => h.write hy (hdb ▸ hr)⟩
  | accepted m k hm hle hkeep hacc hdb =>
    have hm1 := hpos _ m (Or.inr rfl) hm
    have hy : y.acceptor.acceptedBallot.proposalId = 0 → y.acceptor.acceptedValue = {} := by
      rw [hacc]
      exact fun hzero => absurd hm1 (by rw [show m.proposalId = 0 from hzero]; decide)
    exact ⟨hy, fun i r hr => h.write hy (hdb ▸ hr)⟩
  | learned m hm hmid hballot hacc hdb =>
    exact ⟨by rw [hacc]; exact h.acceptor, by rw [hdb]; exact h.records⟩
  | learnedValue m hm htype hmid hrule hacc hdb =>
    refine ⟨by rw [hacc]; exact h.acceptor, fun i r hr hzero => ?_⟩
    rw [hdb] at hr
    rcases DB.get_put_cases hr with ⟨-, rfl⟩ | hold
    · have hm1 := hlearned m hm htype
      exact absurd hm1 (by rw [show m.proposalId = 0 from hzero]; decide)
    · exact h.records i r hold hzero
  | executed hl hok hy hacc hdb =>
    refine ⟨fun _ => ?_, by rw [hdb]; exact h.records⟩
    rw [hacc, Acceptor.nextInstance_eq]
  | cleaned hrule hy hdb hkept hacc =>
    exact ⟨by rw [hacc]; exact h.acceptor, fun i r hr => h.records i r (hdb i r hr)⟩

theorem recover (h : x.Marked) (hrec : x.Restarts E dirs a y) : y.Marked := by
  refine ⟨?_, by rw [hrec.db_eq]; exact h.records⟩
  rcases hrec.acceptor_cases with ⟨r, hr, -, hball, hval⟩ | ⟨-, -, hval⟩
  · rw [hball, hval]
    exact h.records _ r hr
  · exact fun _ => hval

theorem fresh (config : Config) : (Node.fresh config).Marked :=
  ⟨fun _ => rfl, fun i r hr => by cases hr⟩

end Node.Marked

/-! ## The history of the acceptor -/

/-- What a promise of the node `n` reports is what its acceptor holds. -/
def Reporting (n : ℕ) (older : List Event) (e : Event) : Prop :=
  ∀ d r, e.IsReply n d r → r.type = .prepareReply → r.rejectedId = 0 →
    (r.preAcceptedId ≠ 0 ↔ acceptorHolds r.instanceId older = true)

/-- The trace of the node `n` tells what its acceptor and its log have. -/
structure Node.Tracks (n : ℕ) (x : Node) : Prop where
  /-- The records that the log cleaner may not reach. -/
  logged : ∀ i, x.maxChosenId ≤ i → x.db.get i = lastRecord i x.trace
  held : acceptorHolds x.instanceId x.trace = true ↔ x.acceptor.acceptedBallot.proposalId ≠ 0
  ahead : ∀ i, x.instanceId < i → acceptorHolds i x.trace = false
  reports : AtEach (Reporting n) x.trace

namespace Node.Tracks

theorem reporting_of_plain {older : List Event} (he : e.isPlain = true) :
    Reporting n older e := by
  intro d r hr
  have := hr.not_plain
  rw [he] at this
  cases this

/-- What the acceptor holds after entries that say nothing about it. -/
theorem of_same (h : x.Tracks n) (htrace : y.trace = l ++ x.trace)
    (hinst : y.instanceId = x.instanceId)
    (hacc : y.acceptor.acceptedBallot = x.acceptor.acceptedBallot)
    (hl : ∀ i, acceptorHolds i (l ++ x.trace) = acceptorHolds i x.trace)
    (hlogged : ∀ i, y.maxChosenId ≤ i → y.db.get i = lastRecord i (l ++ x.trace))
    (hreports : AtEach (Reporting n) (l ++ x.trace)) : y.Tracks n := by
  refine ⟨?_, ?_, ?_, ?_⟩ <;> rw [htrace]
  · exact hlogged
  · rw [hinst, hl, hacc]
    exact h.held
  · intro i hi
    rw [hl]
    exact h.ahead i (hinst ▸ hi)
  · exact hreports

/-- **Every action keeps the trace telling what the acceptor holds**, when what it hears has a
proposal id. -/
theorem act (h : x.Tracks n) (hw : x.WF) (hn : x.nodeId = n) (hmax : x.maxChosenId ≤ x.instanceId)
    (hpos : ∀ type m, type = .prepare ∨ type = .accept → Heard net x y type m → 1 ≤ m.proposalId)
    (hact : Act R E net x y) : y.Tracks n := by
  have hw' := hact.wf hw
  have hmaxle : x.maxChosenId ≤ y.maxChosenId := by
    rcases hact.maxChosenId_cases hw with heq | ⟨-, heq, -⟩ <;> omega
  have hold : ∀ i, y.maxChosenId ≤ i → x.db.get i = lastRecord i x.trace :=
    fun i hi => h.logged i (hmaxle.trans hi)
  have hinst : y.acceptor.instanceId = x.acceptor.instanceId → y.instanceId = x.instanceId := by
    rw [hw.acceptorId, hw'.acceptorId]
    exact id
  obtain ⟨l, htrace, happ⟩ := hact.appended hw
  cases happ with
  | plain hplain hacc hdb =>
    have hskip : ∀ i, acceptorHolds i (l ++ x.trace) = acceptorHolds i x.trace :=
      fun i => acceptorHolds_append_of_plain hplain
    have hlogged : ∀ i, y.maxChosenId ≤ i → y.db.get i = lastRecord i (l ++ x.trace) := by
      intro i hi
      rw [hdb i (hmaxle.trans hi), hold i hi]
      exact (lastRecord_append_of_plain hplain).symm
    have hreports : AtEach (Reporting n) (l ++ x.trace) :=
      AtEach.append h.reports fun e he _ => reporting_of_plain (hplain e he)
    rcases hacc with hacc | hacc
    · exact h.of_same htrace (hinst (by rw [hacc])) (by rw [hacc]) hskip hlogged hreports
    · -- The node goes on to the next instance, in which nothing was accepted.
      have hnext : y.instanceId = x.instanceId + 1 := by
        rw [← hw'.acceptorId, ← hw.acceptorId, hacc, Acceptor.nextInstance_eq]
      have hnone : y.acceptor.acceptedBallot = {} := by
        rw [hacc, Acceptor.nextInstance_eq]
      refine ⟨by rw [htrace]; exact hlogged, ?_, ?_, by rw [htrace]; exact hreports⟩
      · rw [htrace, hskip, hnext, hnone, h.ahead _ (Nat.lt_succ_self _)]
        simp
      · intro i hi
        rw [htrace, hskip]
        exact h.ahead i (by omega)
  | @promised m e pre ok hm hle hpre he hacc hdb =>
    -- A promise changes neither what is accepted nor, by its record, what a new process loads.
    have hskip : ∀ i, acceptorHolds i (pre ++ x.trace) = acceptorHolds i x.trace :=
      fun i => acceptorHolds_append_of_plain hpre
    refine h.of_same htrace (hinst (by rw [hacc])) (by rw [hacc]) (fun i => ?_) (fun i hi => ?_) ?_
    · rw [List.cons_append, acceptorHolds_cons_of_reply he]
      exact hskip i
    · rw [List.cons_append, lastRecord_cons_of_reply he, hdb]
      refine lastRecord_put (l := .promised m.instanceId m.ballot :: (pre ++ x.trace)) ?_ _ ok
      exact (hold i hi).trans (lastRecord_append_of_plain hpre).symm
    · refine ⟨?_, fun d r hr => absurd hr (Answers.put_not_reply _ _ d r),
        fun d r hr => absurd hr (Answers.decision_not_reply rfl d r),
        AtEach.append h.reports fun e he _ => reporting_of_plain (hpre e he)⟩
      intro d r hr _ _
      obtain ⟨rfl, rfl⟩ := hr.of_replyEvent hn he
      rw [Acceptor.promise_preAcceptedId, (Traced.promise_fields m x).2.2.1, hm.id, hw.acceptorId,
        ← h.held, ← hskip]
      rfl
  | @accepted m e ok hm hle he hacc hdb =>
    -- The acceptor holds a value from here on, as the ballot of an `ACCEPT` is not zero.
    have hid : m.instanceId = x.instanceId := hm.id.trans hw.acceptorId
    have hyid : y.instanceId = x.instanceId := hinst (by rw [hacc])
    have hholds : ∀ i, acceptorHolds i y.trace =
        (decide (m.instanceId = i) || acceptorHolds i x.trace) := by
      intro i
      rw [htrace, List.cons_append, acceptorHolds_cons_of_reply he]
      rfl
    refine ⟨fun i hi => ?_, ?_, fun i hi => ?_, ?_⟩
    · rw [htrace, List.cons_append, lastRecord_cons_of_reply he, hdb]
      exact lastRecord_put (l := .accepted m.instanceId m.ballot m.value :: x.trace) (hold i hi) _
        ok
    · have hm1 := hpos _ m (Or.inr rfl) hm
      rw [hholds, hyid, hacc, decide_eq_true hid]
      simp only [Bool.true_or, true_iff]
      exact Nat.ne_of_gt hm1
    · rw [hholds, h.ahead i (hyid ▸ hi), Bool.or_false, decide_eq_false_iff_not]
      omega
    · rw [htrace]
      refine ⟨?_, fun d r hr => absurd hr (Answers.put_not_reply _ _ d r),
        fun d r hr => absurd hr (Answers.decision_not_reply rfl d r), h.reports⟩
      intro d r hr htype
      obtain ⟨rfl, rfl⟩ := hr.of_replyEvent hn he
      cases htype
  | @rejected m type e pre hm hle hpre he hacc hdb =>
    refine h.of_same htrace (hinst (by rw [hacc])) (by rw [hacc]) (fun i => ?_) (fun i hi => ?_) ?_
    · rw [List.cons_append, acceptorHolds_cons_of_reply he]
      exact acceptorHolds_append_of_plain hpre
    · rw [List.cons_append, lastRecord_cons_of_reply he, hdb, hold i hi]
      exact (lastRecord_append_of_plain hpre).symm
    · -- A rejection names a ballot, so that it is no promise.
      refine ⟨?_, AtEach.append h.reports fun e he _ => reporting_of_plain (hpre e he)⟩
      intro d r hr _ hrej
      obtain ⟨rfl, rfl⟩ := hr.of_replyEvent hn he
      have hm1 : 1 ≤ m.proposalId := by
        rcases hm with ⟨hm, -⟩ | ⟨hm, -⟩
        · exact hpos _ m (Or.inl rfl) hm
        · exact hpos _ m (Or.inr rfl) hm
      exact absurd hrej (Traced.rejectedId_ne_zero hm1 hle)
  | @learned m hnet htype hid hacc hdb =>
    refine h.of_same htrace (hinst (by rw [hacc])) (by rw [hacc]) (fun i => rfl) (fun i hi => ?_) ?_
    · rw [hdb]
      exact lastRecord_put (hold i hi) (Learner.record m) true
    · exact ⟨fun d r hr => absurd hr (Answers.put_not_reply _ _ d r), h.reports⟩

/-- **A new process holds what the last record has**, when the log cleaner has not reached it and a
record has a ballot where it has a value. -/
theorem recover (h : x.Tracks n) (hle : x.maxChosenId ≤ y.instanceId)
    (hmarked : ∀ i r, x.db.get i = some r → (r.accepted.proposalId ≠ 0 ↔ r.acceptedValue ≠ {}))
    (hrec : x.Restarts E dirs a y) : y.Tracks n := by
  obtain ⟨l, htrace, hreplay⟩ := hrec.trace_eq
  have hplain : ∀ e ∈ l, e.isPlain = true := by
    intro e he
    obtain ⟨j, r, ok, rfl, -⟩ := hreplay e he
    rfl
  have hlast : ∀ i, lastRecord i (l ++ x.trace) = lastRecord i x.trace :=
    fun i => lastRecord_append_of_plain hplain
  have hholds : ∀ i, acceptorHolds i y.trace = (decide (y.instanceId = i) &&
      (lastRecord i x.trace).any fun r => decide (r.acceptedValue ≠ {})) := by
    intro i
    rw [htrace, ← hlast i]
    rfl
  refine ⟨?_, ?_, ?_, ?_⟩
  · intro i hi
    rw [hrec.maxChosenId] at hi
    rw [hrec.db_eq, htrace, h.logged i (hle.trans hi)]
    exact (hlast i).symm
  · -- The acceptor loads the record of its instance, which is the last one in the trace.
    rw [hholds, ← h.logged _ hle, decide_eq_true rfl, Bool.true_and]
    rcases hrec.acceptor_cases with ⟨r, hr, -, hball, -⟩ | ⟨hnone, hball, -⟩
    · rw [hr, hball, Option.any_some, decide_eq_true_iff]
      exact (hmarked _ r hr).symm
    · rw [hnone, hball]
      simp
  · intro i hi
    rw [hholds, decide_eq_false (Nat.ne_of_lt hi), Bool.false_and]
  · rw [htrace]
    refine ⟨?_, AtEach.append h.reports fun e he _ => reporting_of_plain (hplain e he)⟩
    rintro d r ⟨heq | ⟨-, heq⟩, -⟩ <;> cases heq

theorem fresh (config : Config) : (Node.fresh config).Tracks n := by
  refine ⟨fun i _ => rfl, ?_, fun i hi => ?_, ?_, trivial⟩
  · show acceptorHolds 1 [.recovered 1 _] = true ↔ (0 : ℕ) ≠ 0
    simp [acceptorHolds, lastRecord]
  · show acceptorHolds i [.recovered 1 _] = false
    simp [acceptorHolds, lastRecord]
  · rintro d r ⟨heq | ⟨-, heq⟩, -⟩ <;> cases heq

end Node.Tracks

/-! ## What is served has a ballot -/

/-- The `SEND_LEARNED_VALUE`s of a node name a proposal id. -/
def Node.Taught (x : Node) : Prop :=
  ∀ e ∈ x.trace, ∀ m, ((∃ dest, e = .send dest m) ∨ ∃ dests, e = .broadcast m dests) →
    m.type = .sendLearnedValue → 1 ≤ m.proposalId

/-- Every action keeps it so, when the messages from which the node learns and the records of the
instances that it left have one. -/
theorem Node.Taught.act (h : x.Taught) (hw : x.WF)
    (hrecords : ∀ i r, i < x.instanceId → x.db.get i = some r → r.accepted.proposalId ≠ 0)
    (hballot : ∀ ballot, TaughtBy net x ballot → 1 ≤ ballot.proposalId) (hact : Act R E net x y) :
    y.Taught := by
  intro e he m hm htype
  rcases hact.mem_trace hw he with hold | hnew
  · exact h e hold m hm htype
  · rcases hnew.learned_cases hm htype with ⟨i, r, hget, hid, rfl⟩ | ⟨-, ballot, hb, rfl⟩
    · exact Nat.one_le_iff_ne_zero.mpr (hrecords i r hid hget)
    · exact hballot ballot hb

/-! ## The system -/

/-- What makes zero mean "no" in a system. -/
structure Verdicts (s : Sys) : Prop where
  resumes : ∀ n, (s n).Resumes
  marked : ∀ n, (s n).Marked
  tracks : ∀ n, (s n).Tracks n
  taught : ∀ n, (s n).Taught

namespace Verdicts

variable {C : Setup} {s t : Sys}

/-- The empty value has no id. -/
theorem ne_default_of_valid {v : PaxosValue} (h : s.Valid v) : v ≠ {} := by
  rintro rfl
  exact absurd h.2 (Nat.lt_irrefl 0)

theorem record_iff (h : Verdicts s) (hv : Validity s) (n i : ℕ) (r : PaxosInstance)
    (hr : (s n).db.get i = some r) : r.accepted.proposalId ≠ 0 ↔ r.acceptedValue ≠ {} := by
  constructor
  · intro hne
    exact ne_default_of_valid (((hv.values n).records i r hr).ok (Nat.pos_of_ne_zero hne))
  · exact fun hne hzero => hne ((h.marked n).records i r hr hzero)

theorem learned_pos (h : Verdicts s) {m : PaxosMessage} (hm : s.inFlight n m = true)
    (htype : m.type = .sendLearnedValue) : 1 ≤ m.proposalId := by
  rcases Traced.of_inFlight hm with hsend | ⟨dests, hsend, -⟩
  · exact h.taught m.nodeId _ hsend m (Or.inl ⟨_, rfl⟩) htype
  · exact h.taught m.nodeId _ hsend m (Or.inr ⟨_, rfl⟩) htype

/-- Every action keeps the verdicts on all replies. -/
theorem micro (h : Verdicts s) (hv : Validity s) (hw : s.WF C) (hst : Micro .validity s t) :
    Verdicts t := by
  have ht := hv.traced.micro hw hst
  obtain ⟨n, E, henv, hact, hother, hgrow, -⟩ := hst.newEvents hw
  have hpos := hv.traced.heard_pos ht hgrow (hw.nodeId n)
  have hlearned : ∀ m, s.inFlight n m = true → m.type = .sendLearnedValue → 1 ≤ m.proposalId :=
    fun m => h.learned_pos
  refine ⟨?_, ?_, ?_, ?_⟩
  · refine Sys.forall_of_others (Q := fun _ x => x.Resumes) hother (fun k _ => h.resumes k) ?_
    refine (h.resumes n).act (hw n).1 (hv.kept n) (fun hl => ?_) hact
    obtain ⟨-, r, hr, -⟩ := (hv.learned n).learner hl
    exact ⟨r, hr⟩
  · exact Sys.forall_of_others (Q := fun _ x => x.Marked) hother (fun k _ => h.marked k)
      ((h.marked n).act (hw n).1 hpos hlearned hact)
  · exact Sys.forall_of_others (Q := fun k x => x.Tracks k) hother (fun k _ => h.tracks k)
      ((h.tracks n).act (hw n).1 (hw.nodeId n) (hv.stores n).maxChosen hpos hact)
  · refine Sys.forall_of_others (Q := fun _ x => x.Taught) hother (fun k _ => h.taught k) ?_
    refine (h.taught n).act (hw n).1 ?_ ?_ hact
    · intro i r hi hr
      exact (h.record_iff hv n i r hr).mpr
        (ne_default_of_valid ((hv.learned n).records i r hi hr))
    · rintro ballot ⟨m, hm | ⟨hm, htype⟩, rfl⟩
      · exact hv.traced.announced_pos hm
      · exact hlearned m hm htype

/-- A restart keeps the verdicts on all replies. -/
theorem recover (h : Verdicts s) (hv : Validity s) (hrec : (s n).Restarts E (s n).checkpoints a y) :
    Verdicts (Function.update s n y) := by
  have hle := (h.resumes n).maxChosenId_le (hv.kept n) hrec
  refine ⟨?_, ?_, ?_, ?_⟩
  · exact Sys.forall_update (Q := fun _ x => x.Resumes) h.resumes (.recover (hv.kept n) hrec)
  · exact Sys.forall_update (Q := fun _ x => x.Marked) h.marked ((h.marked n).recover hrec)
  · exact Sys.forall_update (Q := fun k x => x.Tracks k) h.tracks
      ((h.tracks n).recover hle (h.record_iff hv n) hrec)
  · refine Sys.forall_update (Q := fun _ x => x.Taught) h.taught ?_
    intro e he m hm
    refine h.taught n e (hrec.mem_old he ?_) m hm
    rcases hm with ⟨_, rfl⟩ | ⟨_, rfl⟩ <;> rfl

theorem init (C : Setup) : Verdicts (System.init C) := by
  refine ⟨fun n => .fresh _, fun n => .fresh _, fun n => .fresh _, ?_⟩
  intro n e he m hm
  rw [List.mem_singleton.mp he] at hm
  rcases hm with ⟨_, hm⟩ | ⟨_, hm⟩ <;> cases hm

end Verdicts

/-! ## Reading a reply -/

/-- The acceptor took the ballot that the reply `r` to the node `d` answers: right before, it noted
its decision and put its record. -/
def TookBallot (older : List Event) (d : ℕ) (r : PaxosMessage) : Prop :=
  ∃ q ok rest, (r.type = .prepareReply ∧
      older = .put q ok :: .promised r.instanceId ⟨r.proposalId, d⟩ :: rest) ∨
    (r.type = .acceptReply ∧
      ∃ v, older = .put q ok :: .accepted r.instanceId ⟨r.proposalId, d⟩ v :: rest)

/-- A reply names no rejected id where the acceptor took the ballot. -/
theorem Acceptor.Decision.rejectedId_iff {older : List Event} (h : Acceptor.Decision older d r) :
    r.rejectedId = 0 ↔ TookBallot older d r := by
  cases h with
  | promised q ok rest htype hrej holder =>
    exact ⟨fun _ => ⟨q, ok, rest, Or.inl ⟨htype, holder⟩⟩, fun _ => hrej⟩
  | accepted q ok rest htype hrej holder =>
    exact ⟨fun _ => ⟨q, ok, rest, Or.inr ⟨htype, _, holder⟩⟩, fun _ => hrej⟩
  | rejected hrej hidle =>
    refine ⟨fun hzero => absurd hzero hrej, ?_⟩
    rintro ⟨q, ok, rest, ⟨-, rfl⟩ | ⟨-, v, rfl⟩⟩
    · exact absurd (hidle.2 q ok _ rfl) (by simp [Event.isDecision])
    · exact absurd (hidle.2 q ok _ rfl) (by simp [Event.isDecision])

/-- **Promise and rejection are not confused.** In every run in which writes and `Execute` succeed
and no checkpoint of another node is installed: a reply names no rejected id if and only if the
acceptor took the ballot, and a promise names an accepted ballot if and only if the acceptor holds
an accepted value of the instance. So the proposer that handles the reply counts it as a promise or
vote, or as a rejection, as the acceptor decided; it does not take a promise for a rejection when it
goes on to its next id; and it adopts no value from an acceptor that holds none. -/
theorem reply_says_decision {C : Setup} {s : Sys}
    (hrun : Reaches System.step (fun s a => (∀ k, a.1.putOk k = true) ∧ ValidAt s a = true)
      (System.init C) s) {n d : ℕ} {newer older : List Event} {e : Event} {r : PaxosMessage}
    (hsplit : (s n).trace = newer ++ e :: older) (hreply : e.IsReply n d r) :
    (r.rejectedId = 0 ↔ TookBallot older d r) ∧
    (r.type = .prepareReply → TookBallot older d r →
      (r.preAcceptedId ≠ 0 ↔ acceptorHolds r.instanceId older = true)) ∧
    (∀ c : Counter,
      (TookBallot older d r → c.add r = { c with
        receivedNodes := insert r.nodeId c.receivedNodes
        promisorsOrAcceptors := insert r.nodeId c.promisorsOrAcceptors }) ∧
      (¬ TookBallot older d r → c.add r = { c with
        receivedNodes := insert r.nodeId c.receivedNodes
        rejectors := insert r.nodeId c.rejectors })) ∧
    (TookBallot older d r → ∀ k, Proposer.setMaxProposalId r (s k) = s k) ∧
    (r.type = .prepareReply → acceptorHolds r.instanceId older = false → ∀ p : Proposer,
      p.countPrepareReply r = { p with counter := p.counter.add r }) := by
  obtain ⟨hw, hv, hinv⟩ := Policy.validity_invariant hrun (Verdicts.init C)
    (fun s t hw hv h hst => h.micro hv hw hst) fun s n E a y _ hv h hrec => h.recover hv hrec
  have hiff := ((Acknowledging.of_run hrun).answers n |>.of_split hsplit d r hreply).rejectedId_iff
  have hholds : r.type = .prepareReply → r.rejectedId = 0 →
      (r.preAcceptedId ≠ 0 ↔ acceptorHolds r.instanceId older = true) :=
    (hinv.tracks n).reports.of_split hsplit d r hreply
  refine ⟨hiff, fun htype htook => hholds htype (hiff.mpr htook), fun c => ⟨fun htook => ?_,
    fun htook => ?_⟩, fun htook k => ?_, fun htype hnone p => ?_⟩
  · rw [Counter.add, if_pos (hiff.mpr htook)]
  · rw [Counter.add, if_neg (mt hiff.mp htook)]
  · have hpos := (hw k).1.proposalId
    have hlow : decide ((s k).proposer.proposalId ≤ 0) = false := decide_eq_false (by omega)
    rw [Proposer.setMaxProposalId, hiff.mpr htook, hlow, Bool.or_false, Nat.max_zero]
  · unfold Proposer.countPrepareReply
    refine if_neg fun hboth => ?_
    obtain ⟨hrej, hlt⟩ := hboth
    -- Without an accepted value, the reply has the ballot of an unset field.
    have hzero : r.preAcceptedId = 0 := by
      by_contra hne
      exact absurd ((hholds htype hrej).mp hne) (by rw [hnone]; simp)
    have hcarries := (hv.values n).trace e (by rw [hsplit]; simp)
    have hnode : r.preAcceptedNodeId = 0 := by
      obtain ⟨rfl | ⟨-, rfl⟩, -⟩ := hreply
      · exact (hcarries.2 htype).node hzero
      · exact (hcarries htype).node hzero
    have hpre : r.preAccepted = {} := by
      rw [PaxosMessage.preAccepted, hzero, hnode]
    rw [hpre] at hlt
    exact absurd (BallotNumber.zero_le _) (not_le.mpr hlt)

/-- Node 2 takes the `ACCEPT` of node 1 and restarts. Then node 3 proposes, and its `PREPARE`
reaches node 2. -/
def preparedAfterRestart : List (Env × Label) := firstAccept ++
  ([({}, .node 2 (.paxosMessage { type := .accept, nodeId := 1, instanceId := 1, proposalId := 1,
                                  value := firstValue })),
    ({}, .restart 2),
    ({}, .node 3 (.propose 7 [2] none 256)),
    ({}, .node 2 (.paxosMessage
      { type := .prepare, nodeId := 3, instanceId := 1, proposalId := 1 }))] : List (Env × Label))

/-- The promise of node 2 to node 3. -/
def loadedPromise : PaxosMessage :=
  { type := .prepareReply, nodeId := 2, instanceId := 1, proposalId := 1, preAcceptedId := 1
    preAcceptedNodeId := 1, value := firstValue }

/-- Node 2 promises, and reports the value that it loaded. -/
theorem reply_says_decision_trio : ∃ s older,
    Reaches System.step (fun s a => (∀ k, a.1.putOk k = true) ∧ ValidAt s a = true)
      (System.init (.uniform trioMember)) s ∧
    (s 2).trace = .send 3 loadedPromise :: older ∧ TookBallot older 3 loadedPromise ∧
    acceptorHolds 1 older = true := by
  have hend : (runChecked System.step ValidAt (System.init (.uniform trioMember))
      preparedAfterRestart).map (fun s => (s 2).trace.head?) =
        some (some (.send 3 loadedPromise)) := by
    decide +kernel
  obtain ⟨s, hs, hhead⟩ := Option.map_eq_some_iff.mp hend
  obtain ⟨older, hsplit⟩ := List.head?_eq_some_iff.mp hhead
  have hrun := reaches_of_default (n := 7) rfl hs
  have hreply : (Event.send 3 loadedPromise).IsReply 2 3 loadedPromise := ⟨Or.inl rfl, Or.inl rfl⟩
  have hnewest : (s 2).trace = [] ++ .send 3 loadedPromise :: older := hsplit
  obtain ⟨hiff, hpre, -⟩ := reply_says_decision hrun hnewest hreply
  have htook := hiff.mp rfl
  exact ⟨s, older, hrun, hsplit, htook, (hpre rfl htook).mp (by decide)⟩

end Skywalker
