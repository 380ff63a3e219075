import Mathlib.Tactic.NormNum
import Skywalker.Library.Framing

/-!
# Frames between nodes

`network/network.cc` puts a `Content` on a connection as a frame: four bytes with the size of the
frame, header included, and the bytes of protobuf. `OnMessage` is called after each arrival, on a
buffer with all the bytes that it has not retrieved yet.

Protobuf is a parameter, since its code is not in the repository. `ParseFromArray` gets a pointer
into the buffer and an `int`, so that it is a function of the bytes from the pointer on and of the
length, and the model says nothing about what it does outside of the range. The fixed-width integers
of `util/coding.h` are little-endian.

What `OnMessage` gives the callback does not depend on how the stream is cut into arrivals
(`onMessage_receives`). The size is compared with the readable bytes only, and not with the size of
the header: a frame that declares less than four bytes has `ParseFromArray` called with a negative
length, and one that declares none is never retrieved (`onMessage_zeros_loops`).
-/

namespace Skywalker

variable {buf bytes : List UInt8} {size : UInt32}

/-- `PutFixed32` on an empty string. -/
def putFixed32 (value : UInt32) : List UInt8 :=
  [.ofNat value.toNat, .ofNat (value.toNat / 2 ^ 8), .ofNat (value.toNat / 2 ^ 16),
    .ofNat (value.toNat / 2 ^ 24)]

/-- `DecodeFixed32`, which reads four bytes. -/
def decodeFixed32 : List UInt8 → UInt32
  | a :: b :: c :: d :: _ =>
    .ofNat (a.toNat + 2 ^ 8 * b.toNat + 2 ^ 16 * c.toNat + 2 ^ 24 * d.toNat)
  | _ => 0

@[simp]
theorem length_putFixed32 (value : UInt32) : (putFixed32 value).length = 4 := rfl

theorem decodeFixed32_putFixed32 (value : UInt32) (rest : List UInt8) :
    decodeFixed32 (putFixed32 value ++ rest) = value := by
  apply UInt32.toNat_inj.mp
  have hlt : value.toNat < 2 ^ 32 := value.toNat_lt
  simp only [putFixed32, List.cons_append, decodeFixed32, UInt8.toNat_ofNat', UInt32.toNat_ofNat']
  omega

/-- The functions of protobuf on a `Content`. -/
structure Protobuf (Content : Type*) where
  /-- The number of bytes that the message takes. -/
  byteSizeLong : Content → ℕ
  /-- The bytes, `none` if the message cannot be serialised. -/
  appendToString : Content → Option (List UInt8)
  /-- Parsing the given number of bytes from a pointer on, `none` for false. -/
  parseFromArray : List UInt8 → Int32 → Option Content

variable {Content : Type*} (p : Protobuf Content)

/-- Parsing gives back each content that could be serialised. -/
structure Protobuf.RoundTrips : Prop where
  length_eq : ∀ content bytes, p.appendToString content = some bytes →
    bytes.length = p.byteSizeLong content
  parse_eq : ∀ content bytes, p.appendToString content = some bytes → ∀ (rest : List UInt8)
    (n : Int32), n.toInt = bytes.length → p.parseFromArray (bytes ++ rest) n = some content

namespace Network

/-- The constant `Network::kHeaderSize`. -/
def kHeaderSize : UInt32 := 4

/-- `Network::SerializeToString`: whether it succeeds, and the string. -/
def serializeToString (content : Content) : Bool × List UInt8 :=
  let size := kHeaderSize + UInt32.ofNat (p.byteSizeLong content)
  match p.appendToString content with
  | some bytes => (true, putFixed32 size ++ bytes)
  | none => (false, [])

/-- The frame of a message. -/
def frame (content : Content) : List UInt8 := (serializeToString p content).2

/-- The two tests of a pass of the loop: the size that the frame at the front declares, if the whole
frame is readable. -/
def frameSize (buf : List UInt8) : Option UInt32 :=
  if kHeaderSize.toNat ≤ buf.length then
    let size := decodeFixed32 buf
    if size.toNat ≤ buf.length then some size else none
  else none

/-- The length for `ParseFromArray`: an unsigned difference that becomes an `int`. -/
def parseLength (size : UInt32) : Int32 := (size - kHeaderSize).toInt32

/-- A pass of the loop of `Network::OnMessage`. -/
def pass (buf : List UInt8) : Framing.Outcome Content UInt8 :=
  match frameSize buf with
  | none => .wait
  | some size =>
    match p.parseFromArray (buf.drop kHeaderSize.toNat) (parseLength size) with
    | some content => .item content (buf.drop size.toNat)
    | none => .fail

/-- `Network::OnMessage`: the messages for the callback, the buffer after it, and whether it shut
the connection down. `none` if the loop does not end in the given number of passes. -/
def onMessage (passes : ℕ) (buf : List UInt8) : Option (Framing.Drained Content UInt8) :=
  Framing.drain (pass p) passes buf

/-- `Network::OnMessage` after each of the arrivals: the messages for the callback and the
buffer. -/
def onArrivals (passes : ℕ) (arrivals : List (List UInt8)) : Option (List Content × List UInt8) :=
  Framing.receive (pass p) passes [] arrivals

@[simp]
theorem toNat_kHeaderSize : kHeaderSize.toNat = 4 := rfl

/-- A complete frame is in the buffer, and so is its header. -/
theorem frameSize_eq_some (h : frameSize buf = some size) :
    4 ≤ buf.length ∧ size.toNat ≤ buf.length := by
  unfold frameSize at h
  split at h
  case isTrue hheader =>
    dsimp only at h
    split at h
    case isTrue hsize =>
      cases h
      exact ⟨hheader, hsize⟩
    case isFalse => cases h
  case isFalse => cases h

/-- The length as an integer. The unsigned difference wraps below the header, and the narrowing
takes that back; from `2^31` on the narrowing makes it negative. -/
theorem toInt_parseLength (size : UInt32) :
    (parseLength size).toInt =
      if size.toNat < 2 ^ 31 + 4 then (size.toNat : ℤ) - 4 else (size.toNat : ℤ) - 4 - 2 ^ 32 := by
  have hlt : size.toNat < 2 ^ 32 := size.toNat_lt
  have hsub : (size - kHeaderSize).toNat = (2 ^ 32 - 4 + size.toNat) % 2 ^ 32 :=
    UInt32.toNat_sub size kHeaderSize
  have hint : (parseLength size).toInt = (size - kHeaderSize).toBitVec.toInt := rfl
  rw [hint, BitVec.toInt_eq_toNat_cond, UInt32.toNat_toBitVec, hsub]
  split_ifs <;> omega

/-- The length is in the range of the buffer exactly when the frame declares at least its header and
less than `2^31` bytes more. -/
theorem parseLength_in_range_iff (h : frameSize buf = some size) :
    (0 ≤ (parseLength size).toInt ∧ (parseLength size).toInt ≤ (buf.length : ℤ) - 4) ↔
      4 ≤ size.toNat ∧ size.toNat < 2 ^ 31 + 4 := by
  have hbuf := (frameSize_eq_some h).2
  have hlt : size.toNat < 2 ^ 32 := size.toNat_lt
  rw [toInt_parseLength]
  split_ifs <;> omega

theorem pass_eq_item {p : Protobuf Content} {rest : List UInt8} {content : Content}
    (h : pass p buf = .item content rest) :
    ∃ size, frameSize buf = some size ∧ rest = buf.drop size.toNat := by
  unfold pass at h
  split at h
  case h_1 => cases h
  case h_2 size hsize =>
    split at h
    case h_1 => cases h; exact ⟨size, hsize, rfl⟩
    case h_2 => cases h

/-! ## Arbitrary bytes -/

/-- **`OnMessage` is safe where every frame declares at least its header.** The condition is on the
frames that its passes look at, and protobuf may do anything: the loop ends, each length for
`ParseFromArray` is in the buffer, and each pass that goes on has retrieved the header. -/
theorem onMessage_safe (p : Protobuf Content) (buf : List UInt8)
    (hsizes : ∀ b, Framing.Passes (pass p) buf b → ∀ size, frameSize b = some size →
      4 ≤ size.toNat ∧ size.toNat < 2 ^ 31 + 4) :
    (∃ r, onMessage p (buf.length + 1) buf = some r) ∧
      ∀ b, Framing.Passes (pass p) buf b →
        (∀ size, frameSize b = some size →
          0 ≤ (parseLength size).toInt ∧ (parseLength size).toInt ≤ (b.length : ℤ) - 4) ∧
        ∀ content rest, pass p b = .item content rest → rest.length + 4 ≤ b.length := by
  have hconsumes : ∀ b, Framing.Passes (pass p) buf b → ∀ content rest,
      pass p b = .item content rest → rest.length + 4 ≤ b.length := by
    intro b hb content rest hitem
    obtain ⟨size, hsize, rfl⟩ := pass_eq_item hitem
    have hbuf := frameSize_eq_some hsize
    have hheader := hsizes b hb size hsize
    rw [List.length_drop]
    omega
  refine ⟨Framing.exists_drain fun b content rest hb hitem => ?_, fun b hb => ⟨?_, hconsumes b hb⟩⟩
  · have := hconsumes b hb content rest hitem
    omega
  · intro size hsize
    exact (parseLength_in_range_iff hsize).mpr (hsizes b hb size hsize)

/-- A parser that accepts every range. -/
def lenient : Protobuf Unit where
  byteSizeLong _ := 0
  appendToString _ := some []
  parseFromArray _ _ := some ()

/-- **Four zero bytes are a frame that `OnMessage` never retrieves.** It calls `ParseFromArray` with
the length `-4`, and a parser that returns true makes the loop go on with the same buffer. -/
theorem onMessage_zeros_loops :
    frameSize [0, 0, 0, 0] = some 0 ∧ (parseLength 0).toInt = -4 ∧
      ∀ passes, onMessage lenient passes [0, 0, 0, 0] = none := by
  refine ⟨by decide, by decide, fun passes => ?_⟩
  have hpass : pass lenient [0, 0, 0, 0] = .item () [0, 0, 0, 0] := rfl
  induction passes with
  | zero => rfl
  | succ n ih =>
    rw [onMessage] at ih
    simp only [onMessage, Framing.drain, hpass, ih, Option.map_none]

/-! ## The stream of a sender -/

variable {p : Protobuf Content}

theorem frame_eq {content : Content} (h : p.appendToString content = some bytes) :
    frame p content = putFixed32 (kHeaderSize + .ofNat (p.byteSizeLong content)) ++ bytes := by
  simp only [frame, serializeToString, h]

theorem toNat_size {n : ℕ} (h : n < 2 ^ 31 - 4) : (kHeaderSize + UInt32.ofNat n).toNat = n + 4 := by
  rw [UInt32.toNat_add, UInt32.toNat_ofNat', toNat_kHeaderSize]
  omega

/-- Less than a frame is not complete: not its header, or less than the header declares. -/
theorem frameSize_of_part {part : List UInt8} (hsize : size.toNat = bytes.length + 4)
    (hpref : part <+: putFixed32 size ++ bytes) (hlt : part.length < bytes.length + 4) :
    frameSize part = none := by
  unfold frameSize
  rw [toNat_kHeaderSize]
  split
  case isTrue hheader =>
    have hhead : putFixed32 size <+: part :=
      List.prefix_of_prefix_length_le (List.prefix_append _ _) hpref hheader
    obtain ⟨rest, rfl⟩ := hhead
    rw [decodeFixed32_putFixed32]
    exact if_neg (by omega)
  case isFalse => rfl

theorem frameSize_append (hsize : size.toNat = bytes.length + 4) (rest : List UInt8) :
    frameSize (putFixed32 size ++ bytes ++ rest) = some size := by
  unfold frameSize
  rw [List.append_assoc, decodeFixed32_putFixed32]
  simp only [List.length_append, length_putFixed32, toNat_kHeaderSize]
  rw [if_pos (by omega), if_pos (by omega)]

/-- `OnMessage` reads the frames of `SerializeToString`. -/
theorem reads (hp : p.RoundTrips) : Framing.Reads (pass p) (frame p) fun content =>
    ∃ bytes, p.appendToString content = some bytes ∧ bytes.length < 2 ^ 31 - 4 where
  empty := rfl
  whole := by
    rintro content ⟨bytes, happend, hlt⟩ rest
    have hlen := hp.length_eq content bytes happend
    have hsize := toNat_size hlt
    rw [frame_eq happend, ← hlen]
    simp only [pass, frameSize_append hsize]
    have hbody : (putFixed32 (kHeaderSize + .ofNat bytes.length) ++ bytes ++ rest).drop
        kHeaderSize.toNat = bytes ++ rest := rfl
    have hint : (parseLength (kHeaderSize + .ofNat bytes.length)).toInt = bytes.length := by
      rw [toInt_parseLength, hsize, if_pos (by omega)]
      omega
    rw [hbody, hp.parse_eq content bytes happend rest _ hint]
    have hdrop : (putFixed32 (kHeaderSize + .ofNat bytes.length) ++ bytes ++ rest).drop
        (kHeaderSize + UInt32.ofNat bytes.length).toNat = rest := by
      apply List.drop_left'
      rw [hsize, List.length_append, length_putFixed32, Nat.add_comm]
    simp only [hdrop]
  part := by
    rintro content ⟨bytes, happend, hlt⟩ part hpref hshort
    rw [frame_eq happend, ← hp.length_eq content bytes happend] at hpref hshort
    rw [List.length_append, length_putFixed32, Nat.add_comm] at hshort
    simp only [pass, frameSize_of_part (toNat_size hlt) hpref hshort]

/-- **What the callback gets does not depend on the cuts.** After every prefix of the frames of the
messages, in whatever arrivals, it got exactly the messages whose frames are complete, in order, and
a part of the next frame is in the buffer; after all of the frames it got all of the messages, and
the buffer is empty. -/
theorem onMessage_receives (hp : p.RoundTrips) (msgs : List Content)
    (hmsgs : ∀ content ∈ msgs, ∃ bytes, p.appendToString content = some bytes ∧
      bytes.length < 2 ^ 31 - 4) (arrivals : List (List UInt8)) :
    (arrivals.flatten <+: (msgs.map (frame p)).flatten →
      ∃ done left part, msgs = done ++ left ∧
        arrivals.flatten = (done.map (frame p)).flatten ++ part ∧
        (∀ content ∈ left.head?, part.length < (frame p content).length) ∧
        ∃ enough, ∀ passes, enough ≤ passes → onArrivals p passes arrivals = some (done, part)) ∧
    (arrivals.flatten = (msgs.map (frame p)).flatten →
      ∃ enough, ∀ passes, enough ≤ passes → onArrivals p passes arrivals = some (msgs, [])) := by
  have hreads := reads hp
  have hshort : ∀ content ∈ msgs.head?, ([] : List UInt8).length < (frame p content).length := by
    intro content hcontent
    obtain ⟨bytes, happend, -⟩ := hmsgs content (List.mem_of_mem_head? hcontent)
    rw [frame_eq happend, List.length_append, length_putFixed32, List.length_nil]
    omega
  have hcuts : arrivals.flatten <+: (msgs.map (frame p)).flatten → ∃ done left part,
      Framing.Cut (frame p) msgs ([] ++ arrivals.flatten) done left part ∧
        ∃ enough, ∀ passes, enough ≤ passes → onArrivals p passes arrivals = some (done, part) :=
    fun hpref => hreads.receive_cut hmsgs hpref hshort
  constructor
  · intro hpref
    obtain ⟨done, left, part, hcut, hreceive⟩ := hcuts hpref
    exact ⟨done, left, part, hcut.msgs_eq, hcut.bytes_eq, hcut.short, hreceive⟩
  · intro hall
    obtain ⟨done, left, part, hcut, enough, hreceive⟩ := hcuts (hall ▸ List.prefix_refl _)
    rw [List.nil_append, hall] at hcut
    obtain ⟨rfl, rfl⟩ := hcut.complete
    exact ⟨enough, hreceive⟩

end Network

end Skywalker
