import Skywalker.Transfer

/-!
# The window of the checkpoint sender

`Transfer` has what `CheckReceive` returns as an input. Here it is taken apart: the thread of
`SendCheckpoint` sends fragments and waits in `CheckReceive`, and the thread of the network calls
`OnComfirmReceive`, in any order and with any messages, lost and repeated ones included. The
fragments that there are to send are those of `Transfer`.

`CheckReceive` ignores a time-out, and after a refusal only the files of one machine are left out,
so that the sender goes on in both cases (`send_window_exceeded`). Where waits time out and
confirmations have `flag` false only when `CheckReceive` makes the sender stop, it sends nothing
after them, and it is at most seventeen messages ahead all the time (`send_window`).
-/

namespace Skywalker

open TransitionSystem

/-- A file as `SendFile` reads it: its fragments, and whether the end is found and not an error. -/
structure FilePlan where
  /-- The fragments in the order in which they are sent. -/
  fragments : List (List UInt8)
  /-- No call fails after them. -/
  ended : Bool := true

/-- The plan of a file. -/
def FileSource.plan (f : FileSource) : FilePlan :=
  if f.opened then
    let r := CheckpointSender.sendPasses { f with comfirmed := fun _ => true }
      (f.content.length + 1) 0
    ⟨r.2, r.1⟩
  else ⟨[], false⟩

/-- Where the thread of `SendCheckpoint` is. -/
inductive SendPhase where
  /-- The thread is outside of `CheckReceive`. -/
  | sending
  /-- At the test of its loop. -/
  | checking
  /-- The thread is in `wait_for` and has released the mutex. -/
  | waiting
deriving DecidableEq, Repr

/-- The state of a session after `BeginToSend`. -/
structure SendWindow where
  /-- `receiver_node_id_`: the node that the checkpoint is sent to. -/
  receiverNodeId : ℕ
  /-- `sequence_id_`: the number of the next message. -/
  sequenceId : ℕ := 1
  /-- `ack_sequence_id_`: the number that the next confirmation must have. -/
  ackSequenceId : ℕ := 0
  /-- `flag_`: the flag of the last confirmation that counted. -/
  flag : Bool := true
  /-- Where the thread of the sender is. -/
  phase : SendPhase := .sending
  /-- What is left of the file that is sent. -/
  file : FilePlan := ⟨[], true⟩
  /-- The files of the machine after it. -/
  files : List FilePlan := []
  /-- The machines after it, and `none` where `GetCheckpoint` fails. -/
  machines : List (Option (List FilePlan))
  /-- A wait has timed out. -/
  timedOut : Bool := false
  /-- A confirmation that counted had `flag` false. -/
  refused : Bool := false

/-- What the two threads do. -/
inductive SendEvent where
  /-- The next fragment is sent, with `sequence_id_++`. -/
  | send
  /-- `CheckReceive` finds the window full and starts to wait. -/
  | wait
  /-- The wait ends, and the condition is tested again. -/
  | wake
  /-- Its wait times out, and it returns. -/
  | timeout
  /-- It does not wait any more, and returns. -/
  | pass
  /-- `SendFile` or the loop over the files returns, and the next file or machine is up. -/
  | next
  /-- `OnComfirmReceive` runs with a confirmation. -/
  | comfirm (nodeId sequenceId : ℕ) (flag : Bool)
deriving DecidableEq, Repr

namespace SendWindow

/-- The session after `BeginToSend`, before the first fragment. -/
def start (receiverNodeId : ℕ) (src : SendSource) : SendWindow where
  receiverNodeId
  machines := src.machines.map fun m =>
    (MachineManager.getCheckpoint src.instanceId m).map fun files => files.map FileSource.plan

/-- The condition of the loop of `CheckReceive`. -/
def mustWait (s : SendWindow) : Bool := s.flag && decide (s.ackSequenceId + 16 < s.sequenceId)

/-- The rest of the machine is left out. -/
def skipMachine (s : SendWindow) : SendWindow := { s with file := ⟨[], true⟩, files := [] }

/-- `CheckReceive` returns `flag_`, and a failure ends the loops over the fragments and the
files. -/
def checkReceive (s : SendWindow) : SendWindow :=
  if s.flag then { s with phase := .sending } else skipMachine { s with phase := .sending }

/-- The end of a file: the next file, or the next machine after the last one or a failure. -/
def nextFile (s : SendWindow) : Option SendWindow :=
  if s.file.ended then
    match s.files, s.machines with
    | f :: l, _ => some { s with file := f, files := l }
    | [], some l :: ms => some { s with files := l, machines := ms }
    | [], none :: _ => some { s with machines := [] }
    | [], [] => none
  else some s.skipMachine

/-- `OnComfirmReceive` counts a confirmation of the receiver that has the expected number. -/
def onComfirmReceive (nodeId sequenceId : ℕ) (flag : Bool) (s : SendWindow) : SendWindow :=
  if nodeId = s.receiverNodeId ∧ sequenceId = s.ackSequenceId then
    { s with
      ackSequenceId := s.ackSequenceId + 1
      flag := flag
      refused := s.refused || !flag }
  else s

/-- A step of one of the threads. -/
def step (s : SendWindow) : SendEvent → Option SendWindow
  | .send =>
    match s.phase, s.file.fragments with
    | .sending, _ :: rest =>
      some { s with
        sequenceId := s.sequenceId + 1
        phase := .checking
        file := { s.file with fragments := rest } }
    | _, _ => none
  | .wait => if s.phase = .checking ∧ s.mustWait then some { s with phase := .waiting } else none
  | .wake => if s.phase = .waiting then some { s with phase := .checking } else none
  | .timeout =>
    if s.phase = .waiting then some (checkReceive { s with timedOut := true }) else none
  | .pass => if s.phase = .checking ∧ !s.mustWait then some s.checkReceive else none
  | .next => if s.phase = .sending ∧ s.file.fragments.isEmpty then s.nextFile else none
  | .comfirm nodeId sequenceId flag => some (s.onComfirmReceive nodeId sequenceId flag)

/-! ## What is left to send -/

/-- The loop over the files sends a fragment. It ends at the first file that fails. -/
def filesSend : List FilePlan → Bool
  | [] => false
  | f :: l => !f.fragments.isEmpty || (f.ended && filesSend l)

/-- The loop over the machines sends a fragment. It ends where `GetCheckpoint` fails. -/
def machinesSend : List (Option (List FilePlan)) → Bool
  | [] => false
  | none :: _ => false
  | some l :: ms => filesSend l || machinesSend ms

/-- The sender has a fragment left to send, if no confirmation stops it. -/
def sends (s : SendWindow) : Bool :=
  !s.file.fragments.isEmpty || (s.file.ended && filesSend s.files) || machinesSend s.machines

/-- Nothing will be sent once the sender is out of `CheckReceive`: nothing is left to send, or
`CheckReceive` is to return false and no later machine has a fragment. -/
def stopping (s : SendWindow) : Bool :=
  !s.sends || (!s.flag && decide (s.phase ≠ .sending) && !machinesSend s.machines)

/-- A time-out and a confirmation with `flag` false, and a confirmation that counts after one of
them, leave the sender to stop. -/
def settles (s : SendWindow) : SendEvent → Bool
  | .timeout => s.stopping
  | .comfirm nodeId sequenceId flag =>
    let t := s.onComfirmReceive nodeId sequenceId flag
    !(t.timedOut || t.refused) || t.stopping
  | _ => true

/-! ## The window -/

/-- The bound, by the phase of the sender as long as all went well, and what holds after a wait that
timed out and a confirmation that refused. -/
structure Windowed (s : SendWindow) : Prop where
  sent : s.sequenceId ≤ s.ackSequenceId + 17
  flag : s.timedOut = false → s.refused = false → s.flag = true
  checked : s.timedOut = false → s.refused = false → s.phase = .sending →
    s.sequenceId ≤ s.ackSequenceId + 16
  stopped : s.timedOut = true ∨ s.refused = true → s.stopping = true

variable {s t : SendWindow}

/-- What is left to send does not depend on where the loops are. -/
theorem nextFile_sends (hfragments : s.file.fragments = []) (h : s.nextFile = some t) :
    t.sends = s.sends := by
  unfold nextFile at h
  unfold sends
  rw [hfragments]
  split_ifs at h with hended
  · rw [hended]
    split at h
    case h_1 f l hfiles =>
      obtain rfl := Option.some.inj h
      rw [hfiles]
      simp [filesSend]
    case h_2 l ms hfiles hmachines =>
      obtain rfl := Option.some.inj h
      rw [hfiles, hmachines]
      simp [filesSend, machinesSend, hfragments, hended]
    case h_3 ms hfiles hmachines =>
      obtain rfl := Option.some.inj h
      rw [hfiles, hmachines]
      simp [filesSend, machinesSend, hfragments]
    case h_4 => cases h
  · obtain rfl := Option.some.inj h
    simp [skipMachine, filesSend, hended]

/-- `CheckReceive` leaves the numbers of the window and its ends alone. -/
theorem checkReceive_window (s : SendWindow) :
    s.checkReceive.sequenceId = s.sequenceId ∧ s.checkReceive.ackSequenceId = s.ackSequenceId ∧
      s.checkReceive.timedOut = s.timedOut ∧ s.checkReceive.refused = s.refused := by
  unfold checkReceive
  split_ifs
  · exact ⟨rfl, rfl, rfl, rfl⟩
  · exact ⟨rfl, rfl, rfl, rfl⟩

/-- A sender that is to stop has nothing left to send when `CheckReceive` returns. -/
theorem sends_checkReceive (h : s.stopping = true) : s.checkReceive.sends = false := by
  unfold checkReceive
  rw [stopping, Bool.or_eq_true, Bool.and_eq_true, Bool.and_eq_true] at h
  split_ifs with hflag
  · rcases h with h | ⟨⟨h, -⟩, -⟩
    · exact Bool.not_eq_true' _ ▸ h
    · simp [hflag] at h
  · have hmachines : machinesSend s.machines = false := by
      rcases h with h | ⟨-, h⟩
      · simp only [sends, Bool.not_eq_true', Bool.or_eq_false_iff] at h
        exact h.2
      · simpa using h
    simp [skipMachine, sends, filesSend, hmachines]

/-- The fields of the window, which the plan of the session does not touch. -/
theorem Windowed.congr (h : s.Windowed) (hflag : t.flag = s.flag)
    (hsequenceId : t.sequenceId = s.sequenceId) (hack : t.ackSequenceId = s.ackSequenceId)
    (hphase : t.phase = .sending → s.phase = .sending) (htimedOut : t.timedOut = s.timedOut)
    (hrefused : t.refused = s.refused) (hstopping : s.stopping = true → t.stopping = true) :
    t.Windowed := by
  refine ⟨?_, ?_, ?_, ?_⟩
  · rw [hsequenceId, hack]
    exact h.sent
  · rw [htimedOut, hrefused, hflag]
    exact h.flag
  · rw [htimedOut, hrefused, hsequenceId, hack]
    exact fun ht hr hp => h.checked ht hr (hphase hp)
  · rw [htimedOut, hrefused]
    exact fun hbad => hstopping (h.stopped hbad)

/-- `nextFile` leaves the numbers of the window, its phase and its flags alone. -/
theorem nextFile_window (h : s.nextFile = some t) :
    t.flag = s.flag ∧ t.sequenceId = s.sequenceId ∧ t.ackSequenceId = s.ackSequenceId ∧
      t.phase = s.phase ∧ t.timedOut = s.timedOut ∧ t.refused = s.refused := by
  unfold nextFile at h
  split_ifs at h with hended
  · split at h <;> cases h <;> exact ⟨rfl, rfl, rfl, rfl, rfl, rfl⟩
  · cases h
    exact ⟨rfl, rfl, rfl, rfl, rfl, rfl⟩

theorem sends_of_stopping (h : s.stopping = true) (hphase : s.phase = .sending) :
    s.sends = false := by
  simpa [stopping, hphase] using h

theorem Windowed.no_send (h : s.Windowed) (hbad : s.timedOut = true ∨ s.refused = true) :
    s.step .send = none := by
  simp only [SendWindow.step]
  split
  · rename_i rest hphase hfragments
    have hnone := sends_of_stopping (h.stopped hbad) hphase
    simp [sends, hfragments] at hnone
  · rfl

/-- One step of a session keeps the window. -/
theorem Windowed.step (h : s.Windowed) {e : SendEvent} (hsettles : s.settles e = true)
    (hstep : s.step e = some t) : t.Windowed := by
  cases e with
  | send =>
    -- After a bad wait or a refusal the sender has nothing to send: neither has happened.
    have hgood : s.timedOut = false ∧ s.refused = false := by
      by_contra hbad
      rw [h.no_send (by simpa [Classical.or_iff_not_imp_left] using hbad)] at hstep
      cases hstep
    simp only [SendWindow.step] at hstep
    split at hstep
    · rename_i rest hphase hfragments
      obtain rfl := Option.some.inj hstep
      refine ⟨Nat.succ_le_succ (h.checked hgood.1 hgood.2 hphase), fun _ _ => ?_,
        fun _ _ hp => absurd hp nofun, ?_⟩
      · exact h.flag hgood.1 hgood.2
      · simp [hgood.1, hgood.2]
    · cases hstep
  | wait =>
    obtain ⟨⟨hphase, -⟩, heq⟩ := Option.ite_none_right_eq_some.mp hstep
    obtain rfl := Option.some.inj heq
    refine h.congr rfl rfl rfl (fun hp => absurd hp nofun) rfl rfl fun hstop => ?_
    simpa [stopping, sends, hphase] using hstop
  | wake =>
    obtain ⟨hphase, heq⟩ := Option.ite_none_right_eq_some.mp hstep
    obtain rfl := Option.some.inj heq
    refine h.congr rfl rfl rfl (fun hp => absurd hp nofun) rfl rfl fun hstop => ?_
    simpa [stopping, sends, hphase] using hstop
  | timeout =>
    obtain ⟨-, heq⟩ := Option.ite_none_right_eq_some.mp hstep
    obtain rfl := Option.some.inj heq
    -- A wait that times out leaves the window as it is and ends the sending, by the assumption.
    obtain ⟨hseq, hack, htimedOut, -⟩ := checkReceive_window { s with timedOut := true }
    refine ⟨?_, fun ht => ?_, fun ht => ?_, fun _ => ?_⟩
    · rw [hseq, hack]
      exact h.sent
    · rw [htimedOut] at ht
      cases ht
    · rw [htimedOut] at ht
      cases ht
    · have hnone := sends_checkReceive (s := { s with timedOut := true }) hsettles
      rw [stopping, hnone]
      rfl
  | pass =>
    obtain ⟨⟨-, hroom⟩, heq⟩ := Option.ite_none_right_eq_some.mp hstep
    obtain rfl := Option.some.inj heq
    obtain ⟨hseq, hack, htimedOut, hrefused⟩ := checkReceive_window s
    refine ⟨?_, fun ht hr => ?_, fun ht hr _ => ?_, fun hbad => ?_⟩
    · rw [hseq, hack]
      exact h.sent
    · have hflag := h.flag (htimedOut ▸ ht) (hrefused ▸ hr)
      simp [checkReceive, hflag]
    -- The wait ended because there is room, as the flag is still set.
    · have hflag := h.flag (htimedOut ▸ ht) (hrefused ▸ hr)
      rw [hseq, hack]
      simpa [mustWait, hflag] using hroom
    · rw [htimedOut, hrefused] at hbad
      rw [stopping, sends_checkReceive (h.stopped hbad)]
      rfl
  | next =>
    obtain ⟨⟨hphase, hempty⟩, heq⟩ := Option.ite_none_right_eq_some.mp hstep
    obtain ⟨hflag, hseq, hack, hphase', htimedOut, hrefused⟩ := nextFile_window heq
    refine h.congr hflag hseq hack (fun hp => hphase' ▸ hp) htimedOut hrefused fun hstop => ?_
    rw [stopping, nextFile_sends (List.isEmpty_iff.mp hempty) heq,
      sends_of_stopping hstop hphase]
    rfl
  | comfirm nodeId sequenceId flag =>
    obtain rfl := Option.some.inj hstep
    -- A confirmation that counts moves the acknowledged id up by one, and with it both bounds.
    have hstopped : (s.onComfirmReceive nodeId sequenceId flag).timedOut = true ∨
        (s.onComfirmReceive nodeId sequenceId flag).refused = true →
        (s.onComfirmReceive nodeId sequenceId flag).stopping = true := by
      intro hbad
      simp only [settles, Bool.or_eq_true, Bool.not_eq_true', Bool.or_eq_false_iff] at hsettles
      refine hsettles.resolve_left fun hgood => ?_
      simp [hgood.1, hgood.2] at hbad
    unfold onComfirmReceive at hstopped ⊢
    split_ifs at hstopped ⊢ with hcounts
    · refine ⟨?_, fun ht hr => ?_, fun ht hr hp => ?_, hstopped⟩
      · exact Nat.le_trans h.sent (Nat.add_le_add_right (Nat.le_succ _) 17)
      · simpa using (Bool.or_eq_false_iff.mp hr).2
      · have hold := h.checked ht (Bool.or_eq_false_iff.mp hr).1 hp
        exact Nat.le_trans hold (Nat.add_le_add_right (Nat.le_succ _) 16)
    · exact h

/-- **The sender respects its window.** In every run of a session in which waits time out, and
confirmations with `flag` false count, only where they leave the sender to stop: it is at most
seventeen messages ahead of the confirmations, and once a wait has timed out or a confirmation has
refused, it does not send. -/
theorem send_window {receiverNodeId : ℕ} {src : SendSource}
    (hrun : Reaches SendWindow.step (fun s e => s.settles e = true) (start receiverNodeId src) s) :
    s.sequenceId ≤ s.ackSequenceId + 17 ∧
      (s.timedOut = true ∨ s.refused = true → ∀ t, s.step .send ≠ some t) := by
  have hwindowed : s.Windowed := by
    refine hrun.invariant (P := Windowed) ?_ fun s t e hs hok hstep => hs.step hok hstep
    refine ⟨Nat.le_add_left 1 16, fun _ _ => rfl, fun _ _ _ => Nat.le_add_left 1 15, ?_⟩
    simp [start]
  refine ⟨hwindowed.sent, fun hbad t hsend => ?_⟩
  rw [hwindowed.no_send hbad] at hsend
  cases hsend

/-- Files of one byte each, on one machine. -/
def smallFiles (count : ℕ) : MachineSource where
  machineId := 3
  files := some ((List.range count).map fun i => { name := toString i, content := [0] })

/-- Two files, a confirmation of the first messages that comes twice, and a refusal of the first
file that `CheckReceive` sees after the second one. -/
theorem send_window_two_files : ∃ s : SendWindow, s.sequenceId = 3 ∧ s.ackSequenceId = 2 ∧
    s.refused = true ∧ s.sequenceId ≤ s.ackSequenceId + 17 ∧ ∀ t, s.step .send ≠ some t := by
  have hrun : (runChecked SendWindow.step (fun s e => s.settles e)
      (start 2 { instanceId := 1, machines := [smallFiles 3] })
      [.next, .next, .send, .comfirm 2 0 true, .pass, .comfirm 2 0 true, .next, .send,
        .comfirm 2 1 false, .pass]).map
      (fun s => (s.sequenceId, s.ackSequenceId, s.refused)) = some (3, 2, true) := by
    decide +kernel
  obtain ⟨s, hs, htuple⟩ := Option.map_eq_some_iff.mp hrun
  simp only [Prod.mk.injEq] at htuple
  obtain ⟨hseq, hack, hrefused⟩ := htuple
  have hwindow := send_window (Reaches.of_runChecked _ (fun _ _ _ hok => hok) hs)
  exact ⟨s, hseq, hack, hrefused, hwindow.1, hwindow.2 (.inr hrefused)⟩

/-- Sixteen fragments without a confirmation, and the wait after the last one times out. -/
def silentRun : List SendEvent :=
  .next :: (List.replicate 15 [.next, .send, .pass]).flatten ++ [.next, .send, .wait, .timeout]

/-- The file of the first machine is refused. -/
def refusedRun : List SendEvent :=
  [.next, .next, .send, .comfirm 2 0 true, .comfirm 2 1 false, .pass]

/-- After a wait that timed out the sender sends another fragment, and is eighteen messages ahead.
After a refusal it sends a fragment of the next machine. -/
theorem send_window_exceeded :
    (run SendWindow.step (start 2 { instanceId := 1, machines := [smallFiles 17] })
      (silentRun ++ [.next, .send])).map
        (fun s => (s.sequenceId, s.ackSequenceId, s.timedOut)) = some (18, 0, true) ∧
    (run SendWindow.step (start 2 { instanceId := 1, machines := [smallFiles 1, smallFiles 1] })
      refusedRun).map (fun s => (s.sequenceId, s.refused)) = some (2, true) ∧
    (run SendWindow.step (start 2 { instanceId := 1, machines := [smallFiles 1, smallFiles 1] })
      (refusedRun ++ [.next, .next, .send])).map (fun s => (s.sequenceId, s.refused)) =
        some (3, true) := by
  decide +kernel

end SendWindow

end Skywalker
