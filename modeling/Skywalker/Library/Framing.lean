import Mathlib.Data.List.Basic
import Mathlib.Data.List.Infix
import Mathlib.Logic.Relation

/-!
# Frames in a stream

A sender writes the frames of its messages one after another. A receiver gets the stream in arrivals
that are cut anywhere, keeps what it has not used in a buffer, and takes frames off the front of the
buffer as long as there are any. `drain` is this loop after one arrival and `receive` is a sequence
of arrivals.

`Reads` says what the receiver has to make of a whole frame and of a part of one. Then the cuts do
not matter: after every prefix of the stream, the receiver has the messages whose frames are
complete and the part of the next frame in its buffer (`Reads.receive_cut`).
-/

namespace Framing

variable {α β : Type*}

/-! ## The receiver -/

/-- What the receiver finds at the front of its buffer. -/
inductive Outcome (α β : Type*) where
  /-- Not yet a whole frame. -/
  | wait
  /-- A frame that it cannot read. -/
  | fail
  /-- A message, and the buffer after its frame. -/
  | item (a : α) (rest : List β)

/-- What the loop of the receiver ends with. -/
structure Drained (α β : Type*) where
  /-- The messages that were handed on, in order. -/
  items : List α
  /-- What is left of the buffer. -/
  rest : List β
  /-- Whether it ended at a frame that it could not read. -/
  failed : Bool

/-- The loop of the receiver, `none` where it does not end in the given number of passes. -/
def drain (next : List β → Outcome α β) : ℕ → List β → Option (Drained α β)
  | 0, _ => none
  | n + 1, buf =>
    match next buf with
    | .wait => some ⟨[], buf, false⟩
    | .fail => some ⟨[], buf, true⟩
    | .item a rest => (drain next n rest).map fun r => { r with items := a :: r.items }

/-- Arrivals one after another, with the loop after each. -/
def receive (next : List β → Outcome α β) (passes : ℕ) :
    List β → List (List β) → Option (List α × List β)
  | buf, [] => some ([], buf)
  | buf, chunk :: more =>
    (drain next passes (buf ++ chunk)).bind fun r =>
      (receive next passes r.rest more).map fun q => (r.items ++ q.1, q.2)

/-- The buffers at the start of the passes of a loop. -/
def Passes (next : List β → Outcome α β) : List β → List β → Prop :=
  Relation.ReflTransGen fun buf rest => ∃ a, next buf = .item a rest

variable {next : List β → Outcome α β}

/-- A loop that ended has the same end when it may take more passes. -/
theorem drain_mono {n m : ℕ} (hle : n ≤ m) {buf : List β} {r : Drained α β}
    (h : drain next n buf = some r) : drain next m buf = some r := by
  induction n generalizing m buf r with
  | zero => cases h
  | succ n ih =>
    obtain ⟨m, rfl⟩ : ∃ k, m = k + 1 := ⟨m - 1, by omega⟩
    simp only [drain] at h ⊢
    cases hnext : next buf with
    | wait => rwa [hnext] at h
    | fail => rwa [hnext] at h
    | item a rest =>
      rw [hnext] at h
      obtain ⟨q, hq, rfl⟩ := Option.map_eq_some_iff.mp h
      have hrest : drain next m rest = some q := ih (by omega) hq
      simp only [hrest, Option.map_some]

/-- **A loop whose passes shorten the buffer ends.** -/
theorem exists_drain {buf : List β}
    (hshrink : ∀ b a rest, Passes next buf b → next b = .item a rest → rest.length < b.length) :
    ∃ r, drain next (buf.length + 1) buf = some r := by
  -- Induction on the length of the buffer, which bounds the number of passes.
  induction hlen : buf.length using Nat.strong_induction_on generalizing buf with
  | _ len ih =>
    simp only [drain]
    cases hnext : next buf with
    | wait | fail => exact ⟨_, rfl⟩
    | item a rest =>
      have hlt : rest.length < len := hlen ▸ hshrink buf a rest .refl hnext
      obtain ⟨r, hr⟩ := ih rest.length hlt
        (fun b c rest' hb => hshrink b c rest' (.head ⟨a, hnext⟩ hb)) rfl
      refine ⟨{ r with items := a :: r.items }, ?_⟩
      simp only [drain_mono (by omega : rest.length + 1 ≤ len) hr, Option.map_some]

/-! ## The sender -/

/-- The stream of the messages. -/
def stream (encode : α → List β) (msgs : List α) : List β := (msgs.map encode).flatten

/-- A prefix of the stream: the frames of `done`, and a part of the next frame. -/
structure Cut (encode : α → List β) (msgs : List α) (bytes : List β) (done left : List α)
    (part : List β) : Prop where
  msgs_eq : msgs = done ++ left
  bytes_eq : bytes = stream encode done ++ part
  part_starts : part <+: stream encode left
  /-- The next frame is not complete. -/
  short : ∀ a ∈ left.head?, part.length < (encode a).length

variable {encode : α → List β}

/-- Every prefix of the stream is cut in one place. -/
theorem exists_cut {msgs : List α} {bytes : List β} (h : bytes <+: stream encode msgs) :
    ∃ done left part, Cut encode msgs bytes done left part := by
  induction msgs generalizing bytes with
  | nil => exact ⟨[], [], bytes, rfl, rfl, h, by simp⟩
  | cons a msgs ih =>
    have hstream : stream encode (a :: msgs) = encode a ++ stream encode msgs := rfl
    rcases Nat.lt_or_ge bytes.length (encode a).length with hlt | hge
    · refine ⟨[], a :: msgs, bytes, rfl, rfl, h, ?_⟩
      intro b hb
      obtain rfl : a = b := by simpa using hb
      exact hlt
    · -- The first frame is complete, and the rest is a prefix of the other frames.
      have hfirst : encode a <+: bytes :=
        List.prefix_of_prefix_length_le (hstream ▸ List.prefix_append _ _) h hge
      obtain ⟨rest, rfl⟩ := hfirst
      rw [hstream, List.prefix_append_right_inj] at h
      obtain ⟨done, left, part, hcut⟩ := ih h
      refine ⟨a :: done, left, part, ?_, ?_, hcut.part_starts, hcut.short⟩
      · rw [hcut.msgs_eq, List.cons_append]
      · rw [hcut.bytes_eq, ← List.append_assoc]
        rfl

/-- In the whole stream every frame is complete. -/
theorem Cut.complete {msgs done left : List α} {part : List β}
    (h : Cut encode msgs (stream encode msgs) done left part) : done = msgs ∧ part = [] := by
  obtain ⟨rfl, hbytes, -, hshort⟩ := h
  have hpart : part = stream encode left := by
    simp only [stream, List.map_append, List.flatten_append, List.append_cancel_left_eq] at hbytes
    exact hbytes.symm
  cases left with
  | nil => exact ⟨(List.append_nil done).symm, hpart⟩
  | cons a left =>
    have hlt := hshort a rfl
    have hge : (encode a).length ≤ part.length := by
      rw [hpart]
      exact (List.prefix_append (encode a) (stream encode left)).length_le
    omega

/-- A cut of a stream stays one when a message is appended. -/
theorem Cut.push {msgs done left : List α} {bytes part : List β}
    (h : Cut encode msgs bytes done left part) {a : α} (hpos : 0 < (encode a).length) :
    Cut encode (msgs ++ [a]) bytes done (left ++ [a]) part where
  msgs_eq := by rw [h.msgs_eq, List.append_assoc]
  bytes_eq := h.bytes_eq
  part_starts := by
    have hstream : stream encode (left ++ [a]) = stream encode left ++ encode a := by
      simp [stream]
    rw [hstream]
    exact h.part_starts.trans (List.prefix_append _ _)
  short b hb := by
    cases left with
    | nil =>
      have hnil : part = [] := List.prefix_nil.mp h.part_starts
      obtain rfl := Option.some.inj hb
      rw [hnil]
      exact hpos
    | cons c left => exact h.short b hb

/-- There are no more messages than bytes. -/
theorem length_le_length_stream {msgs : List α} (h : ∀ a ∈ msgs, 0 < (encode a).length) :
    msgs.length ≤ (stream encode msgs).length := by
  induction msgs with
  | nil => exact Nat.le_refl _
  | cons a msgs ih =>
    have hstream : stream encode (a :: msgs) = encode a ++ stream encode msgs := rfl
    have hfirst := h a List.mem_cons_self
    have hrest := ih fun b hb => h b (List.mem_cons_of_mem a hb)
    rw [hstream, List.length_cons, List.length_append]
    omega

/-! ## Both -/

/-- The receiver reads the frames of messages that satisfy `Ok`. -/
structure Reads (next : List β → Outcome α β) (encode : α → List β) (Ok : α → Prop) : Prop where
  empty : next [] = .wait
  whole : ∀ a, Ok a → ∀ rest, next (encode a ++ rest) = .item a rest
  part : ∀ a, Ok a → ∀ p, p <+: encode a → p.length < (encode a).length → next p = .wait

namespace Reads

variable {Ok : α → Prop} {msgs done left : List α} {bytes part : List β}

/-- The receiver waits for the rest of a frame. -/
theorem wait_of_cut (h : Reads next encode Ok) (hok : ∀ a ∈ left, Ok a)
    (hpref : part <+: stream encode left)
    (hshort : ∀ a ∈ left.head?, part.length < (encode a).length) : next part = .wait := by
  cases left with
  | nil =>
    have hnil : part = [] := List.prefix_nil.mp hpref
    rw [hnil]
    exact h.empty
  | cons a left =>
    have hlt := hshort a rfl
    refine h.part a (hok a List.mem_cons_self) part ?_ hlt
    exact List.prefix_of_prefix_length_le hpref (List.prefix_append _ _) hlt.le

/-- The loop takes the complete frames off the buffer. -/
theorem drain_of_cut (h : Reads next encode Ok) (hcut : Cut encode msgs bytes done left part)
    (hok : ∀ a ∈ msgs, Ok a) : drain next (done.length + 1) bytes = some ⟨done, part, false⟩ := by
  obtain ⟨rfl, rfl, hpref, hshort⟩ := hcut
  have hwait : next part = .wait :=
    h.wait_of_cut (fun a ha => hok a (List.mem_append_right _ ha)) hpref hshort
  induction done with
  | nil =>
    have hbuf : stream encode [] ++ part = part := rfl
    rw [hbuf]
    simp only [drain, hwait]
  | cons a done ih =>
    have hbuf : stream encode (a :: done) ++ part = encode a ++ (stream encode done ++ part) :=
      List.append_assoc ..
    have hrest := ih fun b hb => hok b (List.mem_cons_of_mem a hb)
    rw [hbuf, List.length_cons, drain, h.whole a (hok a List.mem_cons_self)]
    simp only [hrest, Option.map_some]

/-- One arrival more: the loop takes off the frames that it completes. -/
theorem drain_more (h : Reads next encode Ok) (hcut : Cut encode msgs bytes done left part)
    (hok : ∀ a ∈ msgs, Ok a) {chunk : List β} (hpref : bytes ++ chunk <+: stream encode msgs) :
    ∃ more left' part', Cut encode msgs (bytes ++ chunk) (done ++ more) left' part' ∧
      stream encode more ++ part' = part ++ chunk ∧
      drain next (more.length + 1) (part ++ chunk) = some ⟨more, part', false⟩ := by
  obtain ⟨rfl, rfl, -, -⟩ := hcut
  have hsplit : stream encode (done ++ left) = stream encode done ++ stream encode left := by
    simp [stream]
  rw [hsplit, List.append_assoc, List.prefix_append_right_inj] at hpref
  obtain ⟨more, left', part', hmore⟩ := exists_cut hpref
  have hdrain := h.drain_of_cut hmore fun a ha => hok a (List.mem_append_right _ ha)
  obtain ⟨rfl, hbytes, hstarts, hshort⟩ := hmore
  refine ⟨more, left', part', ⟨?_, ?_, hstarts, hshort⟩, hbytes.symm, hdrain⟩
  · rw [List.append_assoc]
  · rw [List.append_assoc, hbytes]
    simp [stream]

/-- **After every prefix of the stream, in whatever arrivals, the receiver has exactly the messages
whose frames are complete.** It starts with a part of a frame in its buffer. -/
theorem receive_cut (h : Reads next encode Ok) {buf : List β} {arrivals : List (List β)}
    (hok : ∀ a ∈ msgs, Ok a) (hpref : buf ++ arrivals.flatten <+: stream encode msgs)
    (hshort : ∀ a ∈ msgs.head?, buf.length < (encode a).length) :
    ∃ done left part, Cut encode msgs (buf ++ arrivals.flatten) done left part ∧
      ∃ passes, ∀ n, passes ≤ n → receive next n buf arrivals = some (done, part) := by
  induction arrivals generalizing buf msgs with
  | nil =>
    rw [List.flatten_nil, List.append_nil] at hpref ⊢
    exact ⟨[], msgs, buf, ⟨rfl, rfl, hpref, hshort⟩, 0, fun n _ => rfl⟩
  | cons chunk more ih =>
    rw [List.flatten_cons, ← List.append_assoc] at hpref ⊢
    -- What the loop leaves of this arrival is a part of a frame again.
    obtain ⟨done, left, part, hcut⟩ :=
      exists_cut ((List.prefix_append (buf ++ chunk) more.flatten).trans hpref)
    have hdrain := h.drain_of_cut hcut hok
    obtain ⟨rfl, hbytes, -, hshort'⟩ := hcut
    have hrest : part ++ more.flatten <+: stream encode left := by
      have hsplit : stream encode (done ++ left) = stream encode done ++ stream encode left := by
        simp [stream]
      rwa [hbytes, hsplit, List.append_assoc, List.prefix_append_right_inj] at hpref
    obtain ⟨done', left', part', hcut', passes, hreceive⟩ :=
      ih (fun a ha => hok a (List.mem_append_right _ ha)) hrest hshort'
    refine ⟨done ++ done', left', part', ⟨?_, ?_, hcut'.part_starts, hcut'.short⟩,
      max (done.length + 1) passes, fun n hn => ?_⟩
    · rw [hcut'.msgs_eq, List.append_assoc]
    · rw [hbytes, List.append_assoc, hcut'.bytes_eq]
      simp [stream]
    · simp only [receive, drain_mono (by omega : done.length + 1 ≤ n) hdrain, Option.bind_some,
        hreceive n (by omega), Option.map_some]

end Reads

end Framing
