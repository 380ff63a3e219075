import Mathlib.Data.List.Basic
import Mathlib.Data.Nat.Basic
import Mathlib.Tactic.NormNum

/-!
# The wire format of protocol buffers

A message of proto3 is a sequence of fields, each a number with a value. Numbers are written in base
128, and strings and embedded messages with their length. A message type is the list of its fields
(`Schema`), and each field says which values a message writes and how a value that was read is
merged into a message. A field that has its default is not written, so that reading starts from the
message with all defaults.

`Schema.parse_serialize` is the round trip for any schema whose fields, taken one after the other,
turn the default message into the one that was written (`Schema.Copies`). The lemmas about the kinds
of fields are the steps of such a chain.

Groups, fields that are not declared and values of fixed width are read as far as it takes to skip
them.
-/

namespace WireFormat

/-! ## Reading numbers and fields -/

/-- A number in base 128, low digits first, of at most `n` bytes, and what follows it. -/
def readVarint : ℕ → List UInt8 → Option (ℕ × List UInt8)
  | 0, _ => none
  | _ + 1, [] => none
  | n + 1, b :: l =>
    if b.toNat < 128 then some (b.toNat, l)
    else (readVarint n l).map fun r => (b.toNat - 128 + 128 * r.1, r.2)

/-- The value of a field. The numbers of fixed width belong to no field of the messages here. -/
inductive WireValue where
  | varint (number : ℕ)
  | bytes (content : List UInt8)
  | fixed
deriving DecidableEq

/-- The first `n` bytes, if there are as many. -/
def readBytes (n : ℕ) (l : List UInt8) : Option (List UInt8 × List UInt8) :=
  if n ≤ l.length then some (l.take n, l.drop n) else none

/-- A value of a wire type. Groups, which proto3 does not write, are not read. -/
def readValue (wireType : ℕ) (l : List UInt8) : Option (WireValue × List UInt8) :=
  match wireType with
  | 0 => (readVarint 10 l).map fun r => (.varint (r.1 % 2 ^ 64), r.2)
  | 1 => (readBytes 8 l).map fun r => (.fixed, r.2)
  | 2 => (readVarint 10 l).bind fun r => (readBytes r.1 r.2).map fun q => (.bytes q.1, q.2)
  | 5 => (readBytes 4 l).map fun r => (.fixed, r.2)
  | _ => none

/-- The fields of a message with their numbers. Each takes a byte at least, so that the length of
the string is enough for `n`. -/
def readFields : ℕ → List UInt8 → Option (List (ℕ × WireValue))
  | _, [] => some []
  | 0, _ :: _ => none
  | n + 1, b :: l =>
    (readVarint 10 (b :: l)).bind fun tag =>
      if tag.1 / 8 = 0 then none
      else (readValue (tag.1 % 8) tag.2).bind fun value =>
        (readFields n value.2).map fun fields => (tag.1 / 8, value.1) :: fields

/-- The numbers of a packed field. -/
def readVarints : ℕ → List UInt8 → Option (List ℕ)
  | _, [] => some []
  | 0, _ :: _ => none
  | n + 1, b :: l =>
    (readVarint 10 (b :: l)).bind fun r =>
      (readVarints n r.2).map fun numbers => r.1 :: numbers

/-! ## Writing numbers and fields -/

/-- A number in base 128, low digits first, in at most `n` bytes. All bytes but the last have the
high bit set. -/
def writeVarint : ℕ → ℕ → List UInt8
  | 0, _ => []
  | n + 1, number =>
    if number < 128 then [.ofNat number]
    else .ofNat (number % 128 + 128) :: writeVarint n (number / 128)

/-- The wire type of a value. -/
def WireValue.wireType : WireValue → ℕ
  | .varint _ => 0
  | .bytes _ => 2
  | .fixed => 1

/-- The bytes of a value after its tag. No message here has a field of fixed width. -/
def WireValue.write : WireValue → List UInt8
  | .varint number => writeVarint 10 number
  | .bytes content => writeVarint 10 content.length ++ content
  | .fixed => []

/-- The values that fields of the messages here have. -/
def WireValue.InRange : WireValue → Prop
  | .varint number => number < 2 ^ 64
  | .bytes _ => True
  | .fixed => False

/-- A field with its tag. -/
def writeField (field : ℕ × WireValue) : List UInt8 :=
  writeVarint 10 (field.1 * 8 + field.2.wireType) ++ field.2.write

/-- The fields of a message, one after the other. -/
def writeFields (fields : List (ℕ × WireValue)) : List UInt8 := fields.flatMap writeField

/-- What was written is read back, and what follows it is left. -/
theorem readVarint_writeVarint {n number : ℕ} (h : number < 128 ^ (n + 1)) (rest : List UInt8) :
    readVarint (n + 1) (writeVarint (n + 1) number ++ rest) = some (number, rest) := by
  induction n generalizing number with
  | zero =>
    have hlast : number < 128 := by simpa using h
    have hbyte : (UInt8.ofNat number).toNat = number := by
      rw [UInt8.toNat_ofNat']
      omega
    rw [writeVarint, if_pos hlast, List.singleton_append, readVarint, hbyte, if_pos hlast]
  | succ n ih =>
    rw [writeVarint]
    split
    case isTrue hlast =>
      have hbyte : (UInt8.ofNat number).toNat = number := by
        rw [UInt8.toNat_ofNat']
        omega
      rw [List.singleton_append, readVarint, hbyte, if_pos hlast]
    case isFalse hmore =>
      have hbyte : (UInt8.ofNat (number % 128 + 128)).toNat = number % 128 + 128 := by
        rw [UInt8.toNat_ofNat']
        omega
      have hdiv : number / 128 < 128 ^ (n + 1) := by
        rw [Nat.div_lt_iff_lt_mul (by decide), ← Nat.pow_succ]
        exact h
      rw [List.cons_append, readVarint, hbyte, if_neg (by omega), ih hdiv, Option.map_some]
      congr 2
      omega

theorem readVarint_ten {number : ℕ} (h : number < 2 ^ 70) (rest : List UInt8) :
    readVarint 10 (writeVarint 10 number ++ rest) = some (number, rest) :=
  readVarint_writeVarint (n := 9) h rest

theorem writeVarint_ten_ne_nil (number : ℕ) : writeVarint 10 number ≠ [] := by
  rw [writeVarint]
  split <;> simp

/-- A value is read back under its wire type. -/
theorem readValue_write {value : WireValue} (h : value.InRange)
    (hlength : value.write.length < 2 ^ 31) (rest : List UInt8) :
    readValue value.wireType (value.write ++ rest) = some (value, rest) := by
  cases value with
  | varint number =>
    change number < 2 ^ 64 at h
    simp only [WireValue.wireType, WireValue.write, readValue]
    rw [readVarint_ten (by omega), Option.map_some, Nat.mod_eq_of_lt h]
  | bytes content =>
    rw [WireValue.write, List.length_append] at hlength
    simp only [WireValue.wireType, WireValue.write, readValue]
    rw [List.append_assoc, readVarint_ten (by omega)]
    simp [readBytes]
  | fixed => exact absurd h id

/-- Reading takes the first field off. -/
theorem readFields_writeField {field : ℕ × WireValue} (hpos : 1 ≤ field.1)
    (hlt : field.1 < 2 ^ 29) (h : field.2.InRange) (hlength : field.2.write.length < 2 ^ 31) (n : ℕ)
    (rest : List UInt8) : readFields (n + 1) (writeField field ++ rest) =
      (readFields n rest).map fun fields => field :: fields := by
  obtain ⟨number, value⟩ := field
  dsimp only at hpos hlt h hlength
  have htype : value.wireType < 8 := by cases value <;> simp [WireValue.wireType]
  have htag : readVarint 10 (writeField (number, value) ++ rest) =
      some (number * 8 + value.wireType, value.write ++ rest) := by
    rw [writeField, List.append_assoc]
    exact readVarint_ten (by dsimp only; omega) _
  obtain ⟨b, l, hbytes⟩ : ∃ b l, writeField (number, value) ++ rest = b :: l := by
    refine List.exists_cons_of_ne_nil ?_
    simp [writeField, writeVarint_ten_ne_nil]
  have hnumber : (number * 8 + value.wireType) / 8 = number := by omega
  have hwire : (number * 8 + value.wireType) % 8 = value.wireType := by omega
  rw [hbytes] at htag ⊢
  rw [readFields, htag, Option.bind_some]
  simp only [hnumber, hwire]
  rw [if_neg (by omega), readValue_write h hlength, Option.bind_some]

theorem writeFields_cons (field : ℕ × WireValue) (fields : List (ℕ × WireValue)) :
    writeFields (field :: fields) = writeField field ++ writeFields fields :=
  List.flatMap_cons

/-- **The fields of a message are read back.** -/
theorem readFields_writeFields {fields : List (ℕ × WireValue)}
    (h : ∀ field ∈ fields, 1 ≤ field.1 ∧ field.1 < 2 ^ 29 ∧ field.2.InRange)
    (hlength : (writeFields fields).length < 2 ^ 31) {n : ℕ} (hn : fields.length ≤ n) :
    readFields n (writeFields fields) = some fields := by
  induction fields generalizing n with
  | nil => cases n <;> rfl
  | cons field fields ih =>
    obtain ⟨n, rfl⟩ : ∃ k, n = k + 1 := Nat.exists_eq_add_one.mpr (by
      rw [List.length_cons] at hn
      omega)
    obtain ⟨hpos, hlt, hrange⟩ := h field List.mem_cons_self
    rw [writeFields_cons] at hlength ⊢
    simp only [List.length_append, writeField] at hlength
    rw [readFields_writeField hpos hlt hrange (by omega),
      ih (fun f hf => h f (List.mem_cons_of_mem _ hf)) (by omega) (Nat.le_of_succ_le_succ hn)]
    rfl

theorem length_le_length_writeFields (fields : List (ℕ × WireValue)) :
    fields.length ≤ (writeFields fields).length := by
  induction fields with
  | nil => exact Nat.zero_le _
  | cons field fields ih =>
    have hpos : 0 < (writeVarint 10 (field.1 * 8 + field.2.wireType)).length :=
      List.length_pos_iff.mpr (writeVarint_ten_ne_nil _)
    simp only [writeFields_cons, List.length_append, List.length_cons, writeField]
    omega

/-- A string in a field is not longer than the message. -/
theorem length_le_of_mem_bytes {fields : List (ℕ × WireValue)} {number : ℕ} {content : List UInt8}
    (h : (number, WireValue.bytes content) ∈ fields) :
    content.length ≤ (writeFields fields).length := by
  induction fields with
  | nil => cases h
  | cons field fields ih =>
    rw [writeFields_cons, List.length_append]
    rcases List.mem_cons.mp h with rfl | hmem
    · simp only [writeField, WireValue.write, List.length_append]
      omega
    · have := ih hmem
      omega

/-! ## Message types -/

/-- A field of a message type. -/
structure WireField (M : Type*) where
  /-- Its number in the declaration. -/
  number : ℕ
  /-- The values that a message has in it, none for its default. -/
  write : M → List WireValue
  /-- How a value that was read changes a message, `none` if it is not valid. -/
  merge : M → WireValue → Option M

/-- A message type: its fields in the order of their numbers, in which they are written. -/
abbrev Schema (M : Type*) := List (WireField M)

namespace Schema

variable {M : Type*}

/-- The fields that a message writes. -/
def fields (schema : Schema M) (m : M) : List (ℕ × WireValue) :=
  schema.flatMap fun f => (f.write m).map (Prod.mk f.number)

/-- `SerializeAsString`: the fields one after the other, in the order of the schema. -/
def serialize (schema : Schema M) (m : M) : List UInt8 := writeFields (schema.fields m)

/-- A field that was read. A number that is not declared is skipped. -/
def mergeField (schema : Schema M) (m : M) (field : ℕ × WireValue) : Option M :=
  match schema.find? fun f => f.number = field.1 with
  | some f => f.merge m field.2
  | none => some m

/-- `MergeFromString` into a message, which is `ParseFromString` for the default one. -/
def mergeFrom (schema : Schema M) (m : M) (bytes : List UInt8) : Option M :=
  (readFields bytes.length bytes).bind fun fields => fields.foldlM schema.mergeField m

end Schema

namespace WireField

variable {M : Type*}

/-- What the message `m` writes in the field can be written, and turns `s` into `t`. -/
def Copies (f : WireField M) (m s t : M) : Prop :=
  (∀ value ∈ f.write m, value.InRange) ∧ (f.write m).foldlM f.merge s = some t

/-- A field of type `uint64`, which is left out when it is zero. -/
def uint64 (number : ℕ) (get : M → ℕ) (set : M → ℕ → M) : WireField M where
  number := number
  write m := if get m = 0 then [] else [.varint (get m)]
  merge m
    | .varint n => some (set m n)
    | _ => some m

/-- A `uint32`, or an enumeration, of which the lower half of a number is kept. -/
def uint32 (number : ℕ) (get : M → ℕ) (set : M → ℕ → M) : WireField M :=
  uint64 number get fun m n => set m (n % 2 ^ 32)

/-- A field of type `bool`, which is left out when it is false. -/
def bool (number : ℕ) (get : M → Bool) (set : M → Bool → M) : WireField M :=
  uint64 number (fun m => (get m).toNat) fun m n => set m (n != 0)

/-- `ZigZagEncode32` on the 32 bits of an `int`: small negative numbers become small ones. -/
def zigZagEncode32 (n : ℕ) : ℕ := if n < 2 ^ 31 then 2 * n else 2 * (2 ^ 32 - n) - 1

/-- `ZigZagDecode32`, to the 32 bits of an `int`. -/
def zigZagDecode32 (n : ℕ) : ℕ := if n % 2 = 0 then n / 2 else 2 ^ 32 - (n + 1) / 2

/-- A `sint32`, as the 32 bits of the `int`. -/
def sint32 (number : ℕ) (get : M → ℕ) (set : M → ℕ → M) : WireField M :=
  uint32 number (fun m => zigZagEncode32 (get m)) fun m n => set m (zigZagDecode32 n)

/-- A field of type `bytes`, which is left out when it is empty. -/
def bytes (number : ℕ) (get : M → List UInt8) (set : M → List UInt8 → M) : WireField M where
  number := number
  write m := if get m = [] then [] else [.bytes (get m)]
  merge m
    | .bytes content => some (set m content)
    | _ => some m

/-- The bytes of a string. -/
def utf8 (s : String) : List UInt8 := s.toUTF8.data.toList

/-- A `string`, which is valid UTF-8. -/
def string (number : ℕ) (get : M → String) (set : M → String → M) : WireField M where
  number := number
  write m := if get m = "" then [] else [.bytes (utf8 (get m))]
  merge m
    | .bytes content => (String.fromUTF8? ⟨content.toArray⟩).map fun s => set m s
    | _ => some m

/-- An embedded message, `none` if it is not set. One that is read is merged into the one that is
there. -/
def message {N : Type*} (number : ℕ) (schema : Schema N) (default : N) (get : M → Option N)
    (set : M → N → M) : WireField M where
  number := number
  write m := ((get m).map fun sub => WireValue.bytes (schema.serialize sub)).toList
  merge m
    | .bytes content => (schema.mergeFrom ((get m).getD default) content).map fun sub => set m sub
    | _ => some m

/-- A list of embedded messages. -/
def messages {N : Type*} (number : ℕ) (schema : Schema N) (default : N) (get : M → List N)
    (push : M → N → M) : WireField M where
  number := number
  write m := (get m).map fun sub => .bytes (schema.serialize sub)
  merge m
    | .bytes content => (schema.mergeFrom default content).map fun sub => push m sub
    | _ => some m

/-- A list of an enumeration, which is packed into one string; one number alone is also read. -/
def enums (number : ℕ) (get : M → List ℕ) (push : M → ℕ → M) : WireField M where
  number := number
  write m := if get m = [] then [] else [.bytes ((get m).flatMap (writeVarint 10))]
  merge m
    | .varint n => some (push m n)
    | .bytes content => (readVarints content.length content).map fun l => l.foldl push m
    | .fixed => some m

section Copies

variable {m s t : M} {number : ℕ}

/-- A number is set, and zero, which is not written, is there already. -/
theorem uint64_copies {get : M → ℕ} {set : M → ℕ → M} (hlt : get m < 2 ^ 64)
    (hset : set s (get m) = t) (hzero : get m = 0 → s = t) :
    (uint64 number get set).Copies m s t := by
  unfold Copies
  simp only [uint64]
  split
  case isTrue h => exact ⟨by simp, congrArg some (hzero h)⟩
  case isFalse => exact ⟨by simpa [WireValue.InRange] using hlt, congrArg some hset⟩

theorem uint32_copies {get : M → ℕ} {set : M → ℕ → M} (hlt : get m < 2 ^ 32)
    (hset : set s (get m) = t) (hzero : get m = 0 → s = t) :
    (uint32 number get set).Copies m s t := by
  refine uint64_copies (by omega) ?_ hzero
  rw [Nat.mod_eq_of_lt hlt]
  exact hset

theorem bool_copies {get : M → Bool} {set : M → Bool → M} (hset : set s (get m) = t)
    (hfalse : get m = false → s = t) : (bool number get set).Copies m s t := by
  have hlt : (get m).toNat < 2 ^ 64 := Nat.lt_of_lt_of_le (Bool.toNat_lt _) (by decide)
  refine uint64_copies hlt ?_ fun h => hfalse (by simpa using h)
  rw [← hset]
  cases get m <;> rfl

theorem zigZagEncode32_lt {n : ℕ} (h : n < 2 ^ 32) : zigZagEncode32 n < 2 ^ 32 := by
  unfold zigZagEncode32
  split <;> omega

theorem zigZagDecode32_zigZagEncode32 {n : ℕ} (h : n < 2 ^ 32) :
    zigZagDecode32 (zigZagEncode32 n) = n := by
  unfold zigZagDecode32 zigZagEncode32
  split <;> split <;> omega

theorem sint32_copies {get : M → ℕ} {set : M → ℕ → M} (hlt : get m < 2 ^ 32)
    (hset : set s (get m) = t) (hzero : get m = 0 → s = t) :
    (sint32 number get set).Copies m s t := by
  refine uint32_copies (zigZagEncode32_lt hlt) ?_ fun h => hzero ?_
  · rw [zigZagDecode32_zigZagEncode32 hlt]
    exact hset
  · rw [← zigZagDecode32_zigZagEncode32 hlt, h]
    rfl

theorem bytes_copies {get : M → List UInt8} {set : M → List UInt8 → M}
    (hset : set s (get m) = t) (hnil : get m = [] → s = t) :
    (bytes number get set).Copies m s t := by
  unfold Copies
  simp only [bytes]
  split
  case isTrue h => exact ⟨by simp, congrArg some (hnil h)⟩
  case isFalse => exact ⟨by simp [WireValue.InRange], congrArg some hset⟩

theorem fromUTF8_utf8 (s : String) : String.fromUTF8? ⟨(utf8 s).toArray⟩ = some s := by
  have hbytes : (⟨(utf8 s).toArray⟩ : ByteArray) = s.toUTF8 := by simp [utf8]
  rw [hbytes, String.toUTF8_eq_toByteArray, String.fromUTF8?, dif_pos s.isValidUTF8]
  rfl

theorem string_copies {get : M → String} {set : M → String → M} (hset : set s (get m) = t)
    (hempty : get m = "" → s = t) : (string number get set).Copies m s t := by
  unfold Copies
  simp only [string]
  split
  case isTrue h => exact ⟨by simp, congrArg some (hempty h)⟩
  case isFalse =>
    refine ⟨by simp [WireValue.InRange], ?_⟩
    simp only [List.foldlM_cons, List.foldlM_nil, fromUTF8_utf8, Option.map_some, hset]
    rfl

/-- An embedded message is set if its own fields can be copied. -/
theorem message_copies {N : Type*} {schema : Schema N} {default : N} {get : M → Option N}
    {set : M → N → M} (hnone : get m = none → s = t)
    (hsome : ∀ sub, get m = some sub → (get s).getD default = default ∧ set s sub = t ∧
      schema.mergeFrom default (schema.serialize sub) = some sub) :
    (message number schema default get set).Copies m s t := by
  unfold Copies
  simp only [message]
  cases hget : get m with
  | none => exact ⟨by simp, congrArg some (hnone hget)⟩
  | some sub =>
    obtain ⟨hfirst, hset, hsub⟩ := hsome sub hget
    refine ⟨by simp [WireValue.InRange], ?_⟩
    simp only [Option.map_some, Option.toList_some, List.foldlM_cons, List.foldlM_nil,
      hfirst, hsub, hset]
    rfl

/-- The messages of a list are appended one by one. -/
theorem messages_copies {N : Type*} {schema : Schema N} {default : N} {get : M → List N}
    {push : M → N → M} (hpush : (get m).foldl push s = t)
    (hsub : ∀ sub ∈ get m, schema.mergeFrom default (schema.serialize sub) = some sub) :
    (messages number schema default get push).Copies m s t := by
  unfold Copies
  simp only [messages]
  generalize get m = l at hpush hsub
  refine ⟨fun value hvalue => ?_, ?_⟩
  · obtain ⟨sub, -, rfl⟩ := List.mem_map.mp hvalue
    trivial
  · induction l generalizing s with
    | nil => exact congrArg some hpush
    | cons sub l ih =>
      have hfirst := hsub sub List.mem_cons_self
      simp only [List.map_cons, List.foldlM_cons, hfirst, Option.map_some]
      exact ih hpush fun sub' h => hsub sub' (List.mem_cons_of_mem _ h)

/-- Packed numbers are read back. -/
theorem readVarints_writeVarints {l : List ℕ} (h : ∀ k ∈ l, k < 2 ^ 32) {n : ℕ}
    (hn : l.length ≤ n) : readVarints n (l.flatMap (writeVarint 10)) = some l := by
  induction l generalizing n with
  | nil => cases n <;> rfl
  | cons k l ih =>
    obtain ⟨n, rfl⟩ : ∃ j, n = j + 1 := Nat.exists_eq_add_one.mpr (by
      rw [List.length_cons] at hn
      omega)
    have hk : k < 2 ^ 70 := Nat.lt_trans (h k List.mem_cons_self) (by decide)
    have hfirst := readVarint_ten hk (l.flatMap (writeVarint 10))
    have hrest := ih (fun j hj => h j (List.mem_cons_of_mem _ hj)) (Nat.le_of_succ_le_succ hn)
    rw [List.flatMap_cons]
    obtain ⟨b, bytes, hbytes⟩ := List.exists_cons_of_ne_nil (List.append_ne_nil_of_left_ne_nil
      (writeVarint_ten_ne_nil k) (l.flatMap (writeVarint 10)))
    rw [hbytes] at hfirst ⊢
    rw [readVarints, hfirst, Option.bind_some]
    simp only [hrest, Option.map_some]

theorem length_le_length_writeVarints (l : List ℕ) :
    l.length ≤ (l.flatMap (writeVarint 10)).length := by
  induction l with
  | nil => exact Nat.zero_le _
  | cons k l ih =>
    have hpos : 0 < (writeVarint 10 k).length := List.length_pos_iff.mpr (writeVarint_ten_ne_nil k)
    rw [List.flatMap_cons, List.length_append, List.length_cons]
    omega

theorem enums_copies {get : M → List ℕ} {push : M → ℕ → M} (hlt : ∀ k ∈ get m, k < 2 ^ 32)
    (hpush : (get m).foldl push s = t) : (enums number get push).Copies m s t := by
  unfold Copies
  simp only [enums]
  split
  case isTrue h =>
    rw [h] at hpush
    exact ⟨by simp, congrArg some hpush⟩
  case isFalse =>
    refine ⟨by simp [WireValue.InRange], ?_⟩
    have hread := readVarints_writeVarints hlt (length_le_length_writeVarints (get m))
    simp only [List.foldlM_cons, List.foldlM_nil, hread, Option.map_some, hpush]
    rfl

end Copies

end WireField

namespace Schema

variable {M : Type*} {schema : Schema M} {m : M}

/-- The fields of a list, one after the other, turn the first message into the last one. -/
inductive Copies (m : M) : Schema M → M → M → Prop where
  | nil (s : M) : Copies m [] s s
  | cons {f : WireField M} {l : Schema M} {s t u : M} (hf : f.Copies m s t) (hl : Copies m l t u) :
      Copies m (f :: l) s u

/-- A field of the schema is found under its number. -/
theorem mergeField_of_mem (hnodup : (schema.map WireField.number).Nodup) {f : WireField M}
    (hf : f ∈ schema) (s : M) (value : WireValue) :
    schema.mergeField s (f.number, value) = f.merge s value := by
  have hfind : schema.find? (fun g => g.number = f.number) = some f := by
    induction schema with
    | nil => cases hf
    | cons g l ih =>
      rw [List.map_cons, List.nodup_cons] at hnodup
      rcases List.mem_cons.mp hf with rfl | hmem
      · exact List.find?_cons_of_pos (by simp)
      · have hne : g.number ≠ f.number := fun heq =>
          hnodup.1 (heq ▸ List.mem_map_of_mem hmem)
        rw [List.find?_cons_of_neg (by simpa using hne)]
        exact ih hnodup.2 hmem
  simp only [mergeField, hfind]

/-- Merging the fields of `m` is the chain of the fields. -/
theorem foldlM_mergeField (hnodup : (schema.map WireField.number).Nodup) {l : Schema M}
    (hl : ∀ f ∈ l, f ∈ schema) {s t : M} (h : l.Copies m s t) :
    (l.fields m).foldlM schema.mergeField s = some t := by
  induction h with
  | nil s => rfl
  | @cons f l s t u hf hrest ih =>
    have hmem := hl f List.mem_cons_self
    have hfield : ((f.write m).map (Prod.mk f.number)).foldlM schema.mergeField s =
        (f.write m).foldlM f.merge s := by
      rw [List.foldlM_map]
      congr
      funext s value
      exact mergeField_of_mem hnodup hmem s value
    rw [fields, List.flatMap_cons, List.foldlM_append, hfield, hf.2]
    exact ih fun g hg => hl g (List.mem_cons_of_mem _ hg)

theorem Copies.inRange {l : Schema M} {s t : M} (h : Copies m l s t) :
    ∀ f ∈ l, ∀ value ∈ f.write m, value.InRange := by
  induction h with
  | nil s => simp
  | cons hf hrest ih => exact List.forall_mem_cons.mpr ⟨hf.1, ih⟩

/-- What `protoc` asks of the numbers of the fields: none is used twice, and each fits into a
tag. -/
def Declared (schema : Schema M) : Prop :=
  (schema.map WireField.number).Nodup ∧
    ∀ number ∈ schema.map WireField.number, 1 ≤ number ∧ number < 2 ^ 29

instance (schema : Schema M) : Decidable schema.Declared :=
  inferInstanceAs (Decidable (_ ∧ _))

/-- **A message is read back**, with all its fields, if they can be copied one after the other from
the default message. -/
theorem parse_serialize {default : M} (hdeclared : schema.Declared)
    (hlength : (schema.serialize m).length < 2 ^ 31) (h : Copies m schema default m) :
    schema.mergeFrom default (schema.serialize m) = some m := by
  have hfields : ∀ field ∈ schema.fields m,
      1 ≤ field.1 ∧ field.1 < 2 ^ 29 ∧ field.2.InRange := by
    intro field hfield
    obtain ⟨f, hf, hmem⟩ := List.mem_flatMap.mp hfield
    obtain ⟨value, hvalue, rfl⟩ := List.mem_map.mp hmem
    have hnumber := hdeclared.2 f.number (List.mem_map_of_mem hf)
    exact ⟨hnumber.1, hnumber.2, h.inRange f hf value hvalue⟩
  have hread := readFields_writeFields hfields hlength
    (length_le_length_writeFields (schema.fields m))
  rw [mergeFrom, serialize, hread, Option.bind_some]
  exact foldlM_mergeField hdeclared.1 (fun f hf => hf) h

/-- The bytes of a string that a field writes are not more than those of the message. -/
theorem length_le_of_write {f : WireField M} (hf : f ∈ schema) {content : List UInt8}
    (h : WireValue.bytes content ∈ f.write m) :
    content.length ≤ (schema.serialize m).length :=
  length_le_of_mem_bytes (List.mem_flatMap.mpr ⟨f, hf, List.mem_map_of_mem h⟩)

end Schema

/-! ## How long a number is -/

open WireField

/-- A number takes no more bytes than it may. -/
theorem length_writeVarint_le (n number : ℕ) : (writeVarint n number).length ≤ n := by
  induction n generalizing number with
  | zero => exact Nat.le_refl _
  | succ n ih =>
    rw [writeVarint]
    split
    case isTrue => simp
    case isFalse =>
      rw [List.length_cons]
      exact Nat.succ_le_succ (ih _)

/-- A number takes at most twenty bytes with its tag. -/
theorem length_uint64_le {M : Type*} (number : ℕ) (get : M → ℕ) (set : M → ℕ → M) (m : M) :
    (writeFields (((uint64 number get set).write m).map (Prod.mk number))).length ≤ 20 := by
  simp only [uint64]
  split
  case isTrue => exact Nat.zero_le _
  case isFalse =>
    have htag := length_writeVarint_le 10 (number * 8 + 0)
    have hvalue := length_writeVarint_le 10 (get m)
    simp only [writeFields, writeField, WireValue.write, WireValue.wireType, List.map_cons,
      List.map_nil, List.flatMap_cons, List.flatMap_nil, List.length_append, List.append_nil]
    omega

end WireFormat
