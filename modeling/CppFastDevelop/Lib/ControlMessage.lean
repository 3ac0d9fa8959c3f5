import CppFastDevelop.Lib.Words

/-!
# CppFastDevelop.Lib.ControlMessage

Ancillary data of a socket message on a 64-bit Linux: a sequence of control
messages in one buffer, each a `cmsghdr` (an 8-byte length that counts the
header too, a level and a type of 4 bytes) and its payload, padded to a
multiple of 8 bytes.  `encode` lays one message out, `parse` is the kernel's
walk over a buffer, which fails where a header's length is too small or
reaches beyond the buffer.  `parse_encode_append` walks over one message and
`parse_encode_append_zeros` says when zero bytes behind a message are taken
for one more header.
-/

namespace ControlMessage

open Words

/-- One control message. -/
structure Message where
  level : Int32
  type : Int32
  data : List UInt8
  deriving DecidableEq, Repr

/-! ## sizes -/

/-- `sizeof(struct cmsghdr)`. -/
def sizeofHeader : Nat := 16

/-- `CMSG_ALIGN`. -/
def align (len : Nat) : Nat := (len + 7) / 8 * 8

/-- `CMSG_SPACE`. -/
def space (n : Nat) : Nat := align n + align sizeofHeader

/-- `CMSG_LEN`. -/
def len (n : Nat) : Nat := align sizeofHeader + n

theorem le_align (len : Nat) : len ≤ align len := by unfold align; omega

theorem len_eq (n : Nat) : len n = 16 + n := rfl

theorem align_len (n : Nat) : align (len n) = space n := by
  simp only [align, len, space, sizeofHeader]
  omega

/-! ## layout -/

/-- A header with the length, level and type given. -/
def encodeHeader (len : Nat) (level type : Int32) : List UInt8 :=
  encodeLE 8 len ++ encodeInt32 level ++ encodeInt32 type

namespace Message

/-- The message's bytes, without padding. -/
def encode (m : Message) : List UInt8 :=
  encodeHeader (len m.data.length) m.level m.type ++ m.data

end Message

/-- `cmsg_len` of a header. -/
def headerLen (header : List UInt8) : Nat := decodeLE (header.take 8)

/-- `cmsg_level` of a header. -/
def headerLevel (header : List UInt8) : Int32 := decodeInt32 ((header.drop 8).take 4)

/-- `cmsg_type` of a header. -/
def headerType (header : List UInt8) : Int32 := decodeInt32 ((header.drop 12).take 4)

@[simp] theorem length_encodeHeader (len : Nat) (level type : Int32) :
    (encodeHeader len level type).length = 16 := by
  simp [encodeHeader]

@[simp] theorem length_encode (m : Message) : m.encode.length = len m.data.length := by
  simp [Message.encode, len_eq]

theorem headerLen_encodeHeader_append {len : Nat} (h : len < 2 ^ 64) (level type : Int32)
    (rest : List UInt8) : headerLen (encodeHeader len level type ++ rest) = len := by
  have htake : (encodeHeader len level type ++ rest).take 8 = encodeLE 8 len := by
    simp [encodeHeader, List.append_assoc]
  rw [headerLen, htake, decodeLE_encodeLE (by simpa using h)]

@[simp] theorem headerLevel_encodeHeader_append (len : Nat) (level type : Int32)
    (rest : List UInt8) : headerLevel (encodeHeader len level type ++ rest) = level := by
  simp [headerLevel, encodeHeader]

@[simp] theorem headerType_encodeHeader_append (len : Nat) (level type : Int32)
    (rest : List UInt8) : headerType (encodeHeader len level type ++ rest) = type := by
  have hdrop : (encodeHeader len level type ++ rest).drop 12 = encodeInt32 type ++ rest := by
    rw [encodeHeader, List.append_assoc, List.drop_left' (by simp)]
  simp [headerType, hdrop]

/-! ## the kernel's walk -/

/-- The control messages in a buffer: none where a whole header does not fit
any more, an error where a header's length is less than a header or more
than what is left. -/
def parse (buf : List UInt8) : Option (List Message) :=
  if buf.length < sizeofHeader then some []
  else
    let len := headerLen buf
    if len < sizeofHeader ∨ buf.length < len then none
    else
      (parse (buf.drop (align len))).map fun ms =>
        ⟨headerLevel buf, headerType buf, (buf.take len).drop sizeofHeader⟩ :: ms
  termination_by buf.length
  decreasing_by
    have hle := le_align (headerLen buf)
    simp only [List.length_drop, sizeofHeader] at *
    omega

/-- Fewer bytes than a header are not looked at. -/
theorem parse_of_length_lt {buf : List UInt8} (h : buf.length < sizeofHeader) :
    parse buf = some [] := by
  rw [parse, if_pos h]

/-- Zero bytes are a header of length zero, which is refused. -/
theorem parse_zeros {n : Nat} (h : sizeofHeader ≤ n) : parse (List.replicate n 0) = none := by
  have hlen : headerLen (List.replicate n 0) = 0 := by
    have htake : (List.replicate n (0 : UInt8)).take 8 = List.replicate 8 0 := by
      rw [List.take_replicate, Nat.min_eq_left (by unfold sizeofHeader at h; omega)]
    rw [headerLen, htake]
    rfl
  rw [parse, if_neg (by simpa using h)]
  simp [hlen, sizeofHeader]

/-- The walk goes over one message and its padding. -/
theorem parse_encode_append {m : Message} (h : len m.data.length < 2 ^ 64)
    (rest : List UInt8) :
    parse (m.encode ++ rest) =
      (parse (rest.drop (space m.data.length - len m.data.length))).map (m :: ·) := by
  have hlen : headerLen (m.encode ++ rest) = len m.data.length := by
    rw [Message.encode, List.append_assoc, headerLen_encodeHeader_append h]
  have hge : sizeofHeader ≤ len m.data.length := by
    rw [len_eq]
    exact Nat.le_add_right _ _
  have hfits : ¬ (m.encode ++ rest).length < len m.data.length := by simp
  have hdrop : (m.encode ++ rest).drop (align (len m.data.length)) =
      rest.drop (space m.data.length - len m.data.length) := by
    rw [align_len, List.drop_append, length_encode, List.drop_eq_nil_of_le, List.nil_append]
    rw [length_encode, ← align_len]
    exact le_align _
  have hdata : ((m.encode ++ rest).take (len m.data.length)).drop sizeofHeader = m.data := by
    rw [← length_encode, List.take_left, Message.encode, List.drop_left']
    exact length_encodeHeader _ _ _
  rw [parse, if_neg (by simp only [List.length_append, length_encode]; omega)]
  simp only [hlen, hdrop, hdata]
  rw [if_neg (by omega), Message.encode, List.append_assoc, headerLevel_encodeHeader_append,
    headerType_encodeHeader_append]

/-- Zero bytes behind the last message: they are passed over when less than
a header is left behind its padding, and refused otherwise. -/
theorem parse_encode_append_zeros {m : Message} (h : len m.data.length < 2 ^ 64) (n : Nat) :
    parse (m.encode ++ List.replicate n 0) =
      if len m.data.length + n < space m.data.length + sizeofHeader then some [m] else none := by
  have hle : len m.data.length ≤ space m.data.length := align_len m.data.length ▸ le_align _
  rw [parse_encode_append h, List.drop_replicate]
  split
  · rw [parse_of_length_lt (by rw [List.length_replicate]; unfold sizeofHeader at *; omega)]
    rfl
  · rw [parse_zeros (by omega)]
    rfl

end ControlMessage
