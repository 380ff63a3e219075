import Skywalker.Network
import Mathlib.Data.List.Basic

/-!
# The file of a machine's checkpoint

`StateMachine::WriteCheckpoint` and `ReadCheckpoint` of `machine/state_machine.cc`, with the file
functions of `util/file.cc` that they use. A file has the group, the instance, the message and the
checksum of all that. The checksum and protobuf are parameters.

The length for the parser is a `size_t` that becomes an `int`: of a file above 4 GiB only the rest
modulo 4 GiB is parsed (`readCheckpoint_large`). `checkpointFile_spec` says for which strings this
matters: what was written is read, and nothing else is accepted than what has this form, just if the
string fails the checks or is shorter than 2 GiB.
-/

namespace Skywalker

/-! ## Files -/

/-- A file, with the results of the calls that read it. -/
structure StoredFile where
  /-- The bytes that the reads return, one after the other. -/
  content : List UInt8
  /-- Whether `NewSequentialFile` succeeds. -/
  opened : Bool := true
  /-- The call of `Read` that fails, by its number. -/
  readFails : ℕ → Bool := fun _ => false

/-- The constant `kBufferSize` of `ReadFileToString`. -/
def kReadBufferSize : ℕ := 8192

/-- The loop of `ReadFileToString` from the call `i` of `Read` on, with the bytes left in the file
and the string so far. -/
def readPasses (readFails : ℕ → Bool) : ℕ → ℕ → List UInt8 → List UInt8 → Option (List UInt8)
  | 0, _, _, _ => none
  | n + 1, i, left, data =>
    if readFails i then none
    else
      let fragment := left.take kReadBufferSize
      let data := data ++ fragment
      if fragment.isEmpty then some data
      else readPasses readFails n (i + 1) (left.drop kReadBufferSize) data

/-- `ReadFileToString`. A file has at most as many fragments as bytes, and one more call finds its
end. -/
def readFileToString (f : StoredFile) : Option (List UInt8) :=
  if f.opened then readPasses f.readFails (f.content.length + 1) 0 f.content [] else none

/-- The results of the calls that write a file. -/
structure WriteEnv where
  /-- Whether `NewWritableFile` succeeds. -/
  opened : Bool := true
  /-- Whether `Append` succeeds for the bytes. -/
  appended : Bool := true
  /-- Whether `Sync` succeeds after it. -/
  synced : Bool := true
  /-- Whether `Close` succeeds at the end. -/
  closed : Bool := true

/-- `WriteStringToFileSync`: the file, `none` for an error, after which there is no file. -/
def writeStringToFileSync (E : WriteEnv) (data : List UInt8) : Option StoredFile :=
  if E.opened && E.appended && E.synced && E.closed then some { content := data } else none

/-! ## Fixed-width integers -/

/-- `PutFixed64` on an empty string: the lower half, and the upper half. -/
def putFixed64 (value : UInt64) : List UInt8 :=
  putFixed32 (.ofNat value.toNat) ++ putFixed32 (.ofNat (value.toNat / 2 ^ 32))

/-- `DecodeFixed64`, which reads eight bytes. -/
def decodeFixed64 (bytes : List UInt8) : UInt64 :=
  .ofNat ((decodeFixed32 bytes).toNat + 2 ^ 32 * (decodeFixed32 (bytes.drop 4)).toNat)

/-- Four bytes are those of the number that they decode to. -/
theorem putFixed32_decodeFixed32 {bytes : List UInt8} (hlength : bytes.length = 4)
    (rest : List UInt8) : putFixed32 (decodeFixed32 (bytes ++ rest)) = bytes := by
  obtain ⟨a, b, c, d, rfl⟩ := List.length_eq_four.mp hlength
  have ha := a.toNat_lt
  have hb := b.toNat_lt
  have hc := c.toNat_lt
  have hd := d.toNat_lt
  simp only [List.cons_append, decodeFixed32, putFixed32, List.cons.injEq, and_true,
    ← UInt8.toNat_inj, UInt8.toNat_ofNat', UInt32.toNat_ofNat']
  omega

@[simp]
theorem length_putFixed64 (value : UInt64) : (putFixed64 value).length = 8 := rfl

theorem decodeFixed64_putFixed64 (value : UInt64) (rest : List UInt8) :
    decodeFixed64 (putFixed64 value ++ rest) = value := by
  have hlow : decodeFixed32 (putFixed64 value ++ rest) = .ofNat value.toNat := by
    rw [putFixed64, List.append_assoc, decodeFixed32_putFixed32]
  have hhigh : decodeFixed32 ((putFixed64 value ++ rest).drop 4) =
      .ofNat (value.toNat / 2 ^ 32) := by
    rw [putFixed64, List.append_assoc, List.drop_left' (length_putFixed32 _),
      decodeFixed32_putFixed32]
  apply UInt64.toNat_inj.mp
  have hlt : value.toNat < 2 ^ 64 := value.toNat_lt
  rw [decodeFixed64, hlow, hhigh]
  simp only [UInt64.toNat_ofNat', UInt32.toNat_ofNat']
  omega

theorem putFixed64_decodeFixed64 {bytes : List UInt8} (hlength : bytes.length = 8)
    (rest : List UInt8) : putFixed64 (decodeFixed64 (bytes ++ rest)) = bytes := by
  have htake4 : (bytes.take 4).length = 4 := by rw [List.length_take, hlength]; rfl
  have hdrop4 : (bytes.drop 4).length = 4 := by rw [List.length_drop, hlength]
  have hlow := putFixed32_decodeFixed32 htake4 (bytes.drop 4 ++ rest)
  have hhigh := putFixed32_decodeFixed32 hdrop4 rest
  rw [← List.append_assoc, List.take_append_drop] at hlow
  have hdrop : (bytes ++ rest).drop 4 = bytes.drop 4 ++ rest :=
    List.drop_append_of_le_length (by omega)
  unfold decodeFixed64
  rw [hdrop]
  generalize decodeFixed32 (bytes ++ rest) = low at hlow ⊢
  generalize decodeFixed32 (bytes.drop 4 ++ rest) = high at hhigh ⊢
  -- The two halves do not overlap.
  have hl := low.toNat_lt
  have hh := high.toNat_lt
  have hlow' : UInt32.ofNat (UInt64.ofNat (low.toNat + 2 ^ 32 * high.toNat)).toNat = low := by
    apply UInt32.toNat_inj.mp
    simp only [UInt64.toNat_ofNat', UInt32.toNat_ofNat']
    omega
  have hhigh' : UInt32.ofNat ((UInt64.ofNat (low.toNat + 2 ^ 32 * high.toNat)).toNat / 2 ^ 32) =
      high := by
    apply UInt32.toNat_inj.mp
    simp only [UInt64.toNat_ofNat', UInt32.toNat_ofNat']
    omega
  rw [putFixed64, hlow', hhigh', hlow, hhigh, List.take_append_drop]

/-! ## The format -/

namespace StateMachine

/-- `kHeaderSize` of `state_machine.cc`, with the checksum at the end. -/
def kHeaderSize : ℕ := 16

variable {M : Type*} (p : Protobuf M) (crc32c : List UInt8 → UInt32)

/-- `Checksum` compares the last four bytes with the checksum of those before them. -/
def checksum (data : List UInt8) : Bool :=
  decide (kHeaderSize ≤ data.length) &&
    decodeFixed32 (data.drop (data.length - 4)) == crc32c (data.take (data.length - 4))

/-- The length that the parser gets: `static_cast<int>(data.size()) - kHeaderSize`. -/
def parseLength (size : ℕ) : Int32 := Int32.ofNat size - 16

/-- The difference of two `int`s in `parseLength` is below the smallest one, which is undefined
behaviour. -/
def lengthOverflows (size : ℕ) : Bool := decide ((Int32.ofNat size).toInt - 16 < -2 ^ 31)

/-- The checks of `ReadCheckpoint` before it calls the parser. -/
def passesChecks (groupId : UInt32) (instanceId : UInt64) (data : List UInt8) : Bool :=
  checksum crc32c data && decodeFixed32 data == groupId &&
    decodeFixed64 (data.drop 4) == instanceId

/-- `StateMachine::ReadCheckpoint`: the message, `none` for false. -/
def readCheckpoint (groupId : UInt32) (instanceId : UInt64) (f : StoredFile) : Option M :=
  match readFileToString f with
  | none => none
  | some data =>
    if checksum crc32c data then
      let gid := decodeFixed32 data
      let iid := decodeFixed64 (data.drop 4)
      if gid ≠ groupId ∨ iid ≠ instanceId then none
      else p.parseFromArray (data.drop 12) (parseLength data.length)
    else none

/-- `StateMachine::WriteCheckpoint`. The result of `AppendToString` is not looked at; a message that
cannot be serialised is left out. -/
def writeCheckpoint (E : WriteEnv) (groupId : UInt32) (instanceId : UInt64) (message : M) :
    Option StoredFile :=
  let data := putFixed32 groupId
  let data := data ++ putFixed64 instanceId
  let data := data ++ (p.appendToString message).getD []
  let crc := crc32c data
  writeStringToFileSync E (data ++ putFixed32 crc)

/-- The form of a checkpoint file. -/
def framed (groupId : UInt32) (instanceId : UInt64) (payload : List UInt8) : List UInt8 :=
  putFixed32 groupId ++ putFixed64 instanceId ++ payload ++
    putFixed32 (crc32c (putFixed32 groupId ++ putFixed64 instanceId ++ payload))

/-! ## Reading what was written -/

variable {p : Protobuf M} {crc32c : List UInt8 → UInt32} {groupId : UInt32} {instanceId : UInt64}
  {parse : List UInt8 → Option M}

/-- The loop finds the end of the file, however its length relates to the size of the buffer. -/
theorem readPasses_eq {readFails : ℕ → Bool} (hread : ∀ i, readFails i = false) (n i : ℕ)
    (left data : List UInt8) (hn : left.length < n) :
    readPasses readFails n i left data = some (data ++ left) := by
  induction n generalizing i left data with
  | zero => exact absurd hn (Nat.not_lt_zero _)
  | succ n ih =>
    rw [readPasses, hread i]
    cases left with
    | nil => rfl
    | cons b l =>
      have hrest : ((b :: l).drop kReadBufferSize).length < n := by
        rw [List.length_drop, kReadBufferSize]
        rw [List.length_cons] at hn ⊢
        omega
      have hnext := ih (i + 1) ((b :: l).drop kReadBufferSize)
        (data ++ (b :: l).take kReadBufferSize) hrest
      rw [List.append_assoc, List.take_append_drop] at hnext
      exact hnext

theorem readFileToString_content (content : List UInt8) :
    readFileToString { content := content } = some content :=
  readPasses_eq (fun _ => rfl) _ 0 content [] (Nat.lt_succ_self _)

theorem length_framed (payload : List UInt8) :
    (framed crc32c groupId instanceId payload).length = payload.length + kHeaderSize := by
  simp only [framed, List.length_append, length_putFixed32, length_putFixed64, kHeaderSize]
  omega

/-- A string that has the form passes the checks for its ids. -/
theorem passesChecks_framed (payload : List UInt8) :
    passesChecks crc32c groupId instanceId (framed crc32c groupId instanceId payload) = true := by
  have hlength : (framed crc32c groupId instanceId payload).length = _ := length_framed payload
  have hchecksum : checksum crc32c (framed crc32c groupId instanceId payload) = true := by
    rw [kHeaderSize] at hlength
    rw [checksum, decide_eq_true (by rw [hlength]; exact Nat.le_add_left _ _), Bool.true_and]
    unfold framed at hlength ⊢
    generalize putFixed32 groupId ++ putFixed64 instanceId ++ payload = body at hlength ⊢
    -- The last four bytes are the checksum of the others.
    have hfour : (body ++ putFixed32 (crc32c body)).length - 4 = body.length := by
      rw [List.length_append, length_putFixed32, Nat.add_sub_cancel]
    have hcrc := decodeFixed32_putFixed32 (crc32c body) []
    rw [List.append_nil] at hcrc
    rw [hfour, List.drop_left, List.take_left, hcrc]
    exact beq_self_eq_true _
  have hgid : decodeFixed32 (framed crc32c groupId instanceId payload) = groupId := by
    rw [framed, List.append_assoc, List.append_assoc, decodeFixed32_putFixed32]
  have hiid : decodeFixed64 ((framed crc32c groupId instanceId payload).drop 4) = instanceId := by
    rw [framed, List.append_assoc, List.append_assoc, List.drop_left' (length_putFixed32 _),
      decodeFixed64_putFixed64]
  simp [passesChecks, hchecksum, hgid, hiid]

/-- A file that fails one of the checks is rejected, and of one that passes them the parser gets
what comes after the ids. -/
theorem readCheckpoint_eq (data : List UInt8) :
    readCheckpoint p crc32c groupId instanceId { content := data } =
      if passesChecks crc32c groupId instanceId data then
        p.parseFromArray (data.drop 12) (parseLength data.length)
      else none := by
  simp only [readCheckpoint, readFileToString_content, passesChecks]
  by_cases hchecksum : checksum crc32c data = true
  · by_cases hgid : decodeFixed32 data = groupId <;>
      by_cases hiid : decodeFixed64 (data.drop 4) = instanceId <;> simp [hchecksum, hgid, hiid]
  · simp [hchecksum]

/-- Of a file that has the form, the parser gets what comes after the ids. -/
theorem readCheckpoint_framed (payload : List UInt8) :
    readCheckpoint p crc32c groupId instanceId
        { content := framed crc32c groupId instanceId payload } =
      p.parseFromArray (payload ++ putFixed32
        (crc32c (putFixed32 groupId ++ putFixed64 instanceId ++ payload)))
        (parseLength (payload.length + kHeaderSize)) := by
  have hdrop : (framed crc32c groupId instanceId payload).drop 12 = payload ++
      putFixed32 (crc32c (putFixed32 groupId ++ putFixed64 instanceId ++ payload)) := by
    rw [framed, List.append_assoc, List.drop_left' (by simp)]
  rw [readCheckpoint_eq, passesChecks_framed, if_pos rfl, hdrop, length_framed]

/-- A string that passes the checks has the form of a checkpoint file with the ids. -/
theorem framed_of_passesChecks {data : List UInt8}
    (hpasses : passesChecks crc32c groupId instanceId data = true) :
    data = framed crc32c groupId instanceId ((data.drop 12).take (data.length - kHeaderSize)) := by
  simp only [passesChecks, Bool.and_eq_true, beq_iff_eq] at hpasses
  obtain ⟨⟨hchecksum, hgid⟩, hiid⟩ := hpasses
  obtain ⟨hle, hcrc⟩ := Bool.and_eq_true_iff.mp hchecksum
  have hle : 16 ≤ data.length := of_decide_eq_true hle
  have hcrc := beq_iff_eq.mp hcrc
  have hg : putFixed32 groupId = data.take 4 := by
    have hfour : (data.take 4).length = 4 := by rw [List.length_take]; omega
    have h := putFixed32_decodeFixed32 hfour (data.drop 4)
    rwa [List.take_append_drop, hgid] at h
  have hi : putFixed64 instanceId = (data.drop 4).take 8 := by
    have height : ((data.drop 4).take 8).length = 8 := by
      rw [List.length_take, List.length_drop]
      omega
    have h := putFixed64_decodeFixed64 height ((data.drop 4).drop 8)
    rwa [List.take_append_drop, hiid] at h
  have hc : putFixed32 (crc32c (data.take (data.length - 4))) = data.drop (data.length - 4) := by
    have hfour : (data.drop (data.length - 4)).length = 4 := by rw [List.length_drop]; omega
    have h := putFixed32_decodeFixed32 hfour []
    rwa [List.append_nil, hcrc] at h
  have hbody : data.take (data.length - 4) =
      data.take 4 ++ (data.drop 4).take 8 ++ (data.drop 12).take (data.length - kHeaderSize) := by
    have hsum : data.length - 4 = 4 + (8 + (data.length - kHeaderSize)) := by
      simp only [kHeaderSize]
      omega
    rw [hsum, List.take_add, List.take_add, List.drop_drop, List.append_assoc]
  rw [framed, hg, hi, ← hbody, hc, List.take_append_drop]

end StateMachine

/-- What the format asks of protobuf: `ParseFromArray` with a length reads as many bytes, by a
parser of whole strings that undoes serialising. -/
structure Protobuf.Parses {M : Type*} (p : Protobuf M) (parse : List UInt8 → Option M) : Prop where
  /-- Only the bytes of the length are read. -/
  reads : ∀ (bytes rest : List UInt8) (n : Int32), n.toInt = bytes.length →
    p.parseFromArray (bytes ++ rest) n = parse bytes
  /-- What was serialised is parsed. -/
  undoes : ∀ message bytes, p.appendToString message = some bytes → parse bytes = some message

namespace StateMachine

variable {M : Type*} {p : Protobuf M} {crc32c : List UInt8 → UInt32} {groupId : UInt32}
  {instanceId : UInt64} {parse : List UInt8 → Option M}

/-- The length for the parser is the one of the payload, as long as it is an `int`. -/
theorem toInt_parseLength {size : ℕ} (hle : kHeaderSize ≤ size) (hlt : size < 2 ^ 31) :
    (parseLength size).toInt = (size - kHeaderSize : ℕ) := by
  have h16 : (16 : Int32).toInt = 16 := by decide
  rw [kHeaderSize] at hle ⊢
  rw [parseLength, Int32.toInt_sub, Int32.toInt_ofNat_of_lt hlt, h16, Int.bmod_eq_of_le]
  · omega
  · omega
  · omega

/-- A file below 2 GiB that has the form is accepted just if the parser accepts the payload. -/
theorem readCheckpoint_framed_of_lt (hp : p.Parses parse) {payload : List UInt8}
    (hlt : payload.length + kHeaderSize < 2 ^ 31) :
    readCheckpoint p crc32c groupId instanceId
      { content := framed crc32c groupId instanceId payload } = parse payload := by
  rw [readCheckpoint_framed]
  refine hp.reads payload _ _ ?_
  rw [toInt_parseLength (Nat.le_add_left _ _) hlt, Nat.add_sub_cancel]

/-- What `WriteCheckpoint` writes of a message has the form, with the bytes of the message. -/
theorem writeCheckpoint_eq_some {E : WriteEnv} {message : M} {bytes data : List UInt8}
    (hbytes : p.appendToString message = some bytes)
    (h : writeCheckpoint p crc32c E groupId instanceId message = some { content := data }) :
    data = framed crc32c groupId instanceId bytes := by
  simp only [writeCheckpoint, writeStringToFileSync, hbytes, Option.getD_some,
    Option.ite_none_right_eq_some, Option.some.injEq, StoredFile.mk.injEq, and_true] at h
  exact h.2.symm

/-- A protobuf type with one message, whose bytes are given. Its parser accepts just these bytes. -/
def onlyMessage (bytes : List UInt8) : Protobuf Unit where
  byteSizeLong _ := bytes.length
  appendToString _ := some bytes
  parseFromArray memory n :=
    if n.toInt = bytes.length ∧ memory.take bytes.length = bytes then some () else none

theorem onlyMessage_parses (bytes : List UInt8) :
    (onlyMessage bytes).Parses fun s => if s = bytes then some () else none where
  reads s rest n hn := by
    have hsame : n.toInt = bytes.length ∧ (s ++ rest).take bytes.length = bytes ↔ s = bytes := by
      constructor
      · rintro ⟨hlength, htake⟩
        have hlength : s.length = bytes.length := by omega
        rwa [← hlength, List.take_left] at htake
      · rintro rfl
        exact ⟨hn, List.take_left⟩
    simp only [onlyMessage, hsame]
  undoes message s hs := by
    obtain rfl := Option.some.inj hs
    exact if_pos rfl

/-- From 2 GiB on, the length for the parser is not the one of the payload, if it is defined. -/
theorem toInt_parseLength_ne {size : ℕ} (hle : 2 ^ 31 ≤ size)
    (hdefined : lengthOverflows size = false) :
    (parseLength size).toInt ≠ (size - kHeaderSize : ℕ) := by
  have h16 : (16 : Int32).toInt = 16 := by decide
  have hlow := of_decide_eq_false hdefined
  have hhigh : (Int32.ofNat size).toInt < 2 ^ 31 := Int32.toInt_lt _
  rw [parseLength, Int32.toInt_sub, h16, Int.bmod_eq_of_le (by omega) (by omega), kHeaderSize]
  omega

/-- **The format of a checkpoint file**, for a string of any length. The string fails the checks or
is shorter than 2 GiB just if the length for the parser is defined where it is computed, and, for
every protobuf whose parsing undoes serialising: a message is read from the string with the ids that
it was written with, and the string is accepted just if it has the form of a checkpoint with these
ids and a payload that the parser accepts. -/
theorem checkpointFile_spec (crc32c : List UInt8 → UInt32) (groupId : UInt32) (instanceId : UInt64)
    (data : List UInt8) :
    (passesChecks crc32c groupId instanceId data = true → data.length < 2 ^ 31) ↔
      (passesChecks crc32c groupId instanceId data = true →
        lengthOverflows data.length = false) ∧
      ∀ (M : Type) (p : Protobuf M) (parse : List UInt8 → Option M), p.Parses parse →
        (∀ E message bytes, p.appendToString message = some bytes →
          writeCheckpoint p crc32c E groupId instanceId message = some { content := data } →
          readCheckpoint p crc32c groupId instanceId { content := data } = some message) ∧
        ∀ message, readCheckpoint p crc32c groupId instanceId { content := data } = some message ↔
          ∃ payload, data = framed crc32c groupId instanceId payload ∧
            parse payload = some message := by
  constructor
  · intro hshort
    refine ⟨fun hpasses => ?_, fun M p parse hp => ⟨?_, fun message => ⟨fun hread => ?_, ?_⟩⟩⟩
    · refine decide_eq_false ?_
      rw [Int32.toInt_ofNat_of_lt (hshort hpasses)]
      omega
    · intro E message bytes hbytes hwrite
      obtain rfl := writeCheckpoint_eq_some hbytes hwrite
      have hlt := hshort (passesChecks_framed bytes)
      rw [length_framed] at hlt
      exact (readCheckpoint_framed_of_lt hp hlt).trans (hp.undoes message bytes hbytes)
    · have hpasses : passesChecks crc32c groupId instanceId data = true := by
        rw [readCheckpoint_eq, Option.ite_none_right_eq_some] at hread
        exact hread.1
      obtain ⟨payload, rfl⟩ : ∃ payload, data = framed crc32c groupId instanceId payload :=
        ⟨_, framed_of_passesChecks hpasses⟩
      have hlt := hshort hpasses
      rw [length_framed] at hlt
      exact ⟨payload, rfl, (readCheckpoint_framed_of_lt hp hlt).symm.trans hread⟩
    · rintro ⟨payload, rfl, hparse⟩
      have hlt := hshort (passesChecks_framed payload)
      rw [length_framed] at hlt
      exact (readCheckpoint_framed_of_lt hp hlt).trans hparse
  · rintro ⟨hdefined, hformat⟩ hpasses
    by_contra hlong
    obtain ⟨payload, rfl⟩ : ∃ payload, data = framed crc32c groupId instanceId payload :=
      ⟨_, framed_of_passesChecks hpasses⟩
    -- The file was written for a message that is not read back.
    have hread :=
      (hformat Unit (onlyMessage payload) _ (onlyMessage_parses payload)).1 {} () payload rfl rfl
    have hne := toInt_parseLength_ne (Nat.le_of_not_lt hlong) (hdefined hpasses)
    rw [length_framed, Nat.add_sub_cancel] at hne
    rw [readCheckpoint_framed] at hread
    simp only [onlyMessage, hne, false_and, if_false, reduceCtorEq] at hread

/-! ## Files above 4 GiB -/

/-- Messages without a field, of which the parser accepts the empty string only. -/
def emptyMessage : Protobuf Unit where
  byteSizeLong _ := 0
  appendToString _ := some []
  parseFromArray _ n := if n = 0 then some () else none

/-- The parser of such messages. -/
def parseEmpty (bytes : List UInt8) : Option Unit := if bytes.length = 0 then some () else none

theorem emptyMessage_parses : emptyMessage.Parses parseEmpty where
  reads bytes rest n hn := by
    have hzero : n = 0 ↔ bytes.length = 0 := by
      rw [← Int32.toInt_inj, hn, Int32.toInt_zero]
      exact Int.natCast_eq_zero
    simp only [emptyMessage, parseEmpty, hzero]
  undoes message bytes hbytes := by
    obtain rfl := Option.some.inj hbytes
    rfl

/-- Of a file with a payload of 4 GiB nothing is parsed. It is accepted as an empty message, though
the parser does not accept its payload. -/
theorem readCheckpoint_large : emptyMessage.Parses parseEmpty ∧
    ∃ data : List UInt8, data.length = 2 ^ 32 + 16 ∧
    readCheckpoint emptyMessage (fun _ => 0) 1 2 { content := data } = some () ∧
    ¬∃ payload, data = framed (fun _ => 0) 1 2 payload ∧ parseEmpty payload = some () := by
  obtain ⟨zeros, hzeros⟩ : ∃ bytes : List UInt8, bytes.length = 2 ^ 32 :=
    ⟨List.replicate (2 ^ 32) 0, List.length_replicate⟩
  refine ⟨emptyMessage_parses, framed (fun _ => 0) 1 2 zeros, ?_, ?_, ?_⟩
  · rw [length_framed, hzeros, kHeaderSize]
  · have hlength : parseLength (2 ^ 32 + kHeaderSize) = 0 := by decide
    rw [readCheckpoint_framed, hzeros, hlength]
    rfl
  · rintro ⟨payload, heq, hparse⟩
    -- The payload is as long as the one that was framed.
    have hsame := congrArg List.length heq
    rw [length_framed, length_framed, hzeros] at hsame
    have hempty : payload.length = 0 := by
      unfold parseEmpty at hparse
      split_ifs at hparse with hzero
      exact hzero
    omega

end StateMachine

end Skywalker
