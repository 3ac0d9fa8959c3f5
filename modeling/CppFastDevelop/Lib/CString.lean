import Mathlib.Algebra.GroupWithZero.Nat

/-!
# CppFastDevelop.Lib.CString

Text and memory as C programs handle them: what `snprintf` makes of a
conversion, `strlen`, and reads and writes of a block of memory at an
offset.  An access that leaves the block has no defined result, so it is
`none`.
-/

namespace CString

/-! ## text -/

def ofString (s : String) : List UInt8 := s.toList.map Char.toUInt8

/-- `%u`. -/
def unsigned (n : Nat) : List UInt8 := (Nat.toDigits 10 n).map Char.toUInt8

/-- A field of at least the given width. -/
def padLeft (width : Nat) (c : Char) (s : List UInt8) : List UInt8 :=
  List.replicate (width - s.length) c.toUInt8 ++ s

/-- `%d`. -/
def signed (n : Int) : List UInt8 :=
  if n < 0 then '-'.toUInt8 :: unsigned n.natAbs else unsigned n.natAbs

/-- `%0wd`: the zeros come after the sign. -/
def signedZeros (width : Nat) (n : Int) : List UInt8 :=
  if n < 0 then '-'.toUInt8 :: padLeft (width - 1) '0' (unsigned n.natAbs)
  else padLeft width '0' (unsigned n.natAbs)

/-- What `snprintf` stores of a text; it returns the length of the whole
text. -/
def snprintf (size : Nat) (text : List UInt8) : List UInt8 :=
  if size = 0 then [] else text.take (size - 1) ++ [0]

/-- `strlen` of a string that starts where the block does. -/
def strlen (s : List UInt8) : Option Nat := s.findIdx? (· == 0)

@[simp] theorem length_ofString (s : String) : (ofString s).length = s.toList.length := by
  simp [ofString]

theorem length_snprintf {size : Nat} (h : size ≠ 0) (text : List UInt8) :
    (snprintf size text).length = min (size - 1) text.length + 1 := by
  simp [snprintf, h]

/-- A text that fits is stored with its terminator. -/
theorem snprintf_of_lt {size : Nat} {text : List UInt8} (h : text.length < size) :
    snprintf size text = text ++ [0] := by
  rw [snprintf, if_neg (by omega), List.take_of_length_le (by omega)]

/-- A number below `10 ^ k` has at most `k` digits. -/
theorem length_unsigned_le {n k : Nat} (h : n < 10 ^ k) (hk : 0 < k) :
    (unsigned n).length ≤ k := by
  rw [unsigned, List.length_map]
  exact (Nat.length_toDigits_le_iff (by decide) hk).mpr h

theorem length_unsigned_pos (n : Nat) : 0 < (unsigned n).length := by
  rw [unsigned, List.length_map]
  exact Nat.length_toDigits_pos

theorem length_signed_le {n : Int} {k : Nat} (h : n.natAbs < 10 ^ k) (hk : 0 < k) :
    (signed n).length ≤ k + 1 := by
  have hle := length_unsigned_le h hk
  unfold signed
  split
  · rw [List.length_cons]; omega
  · omega

theorem length_signed_pos (n : Int) : 0 < (signed n).length := by
  unfold signed
  split
  · exact Nat.succ_pos _
  · exact length_unsigned_pos _

theorem length_padLeft {width : Nat} {c : Char} {s : List UInt8} (h : s.length ≤ width) :
    (padLeft width c s).length = width := by
  simp only [padLeft, List.length_append, List.length_replicate]
  omega

/-! ## memory -/

/-- Read `n` bytes at an offset. -/
def load (block : List UInt8) (off : Int) (n : Nat) : Option (List UInt8) :=
  if 0 ≤ off ∧ off.toNat + n ≤ block.length then some ((block.drop off.toNat).take n) else none

theorem load_front {block bytes : List UInt8} {n : Nat} :
    load block 0 n = some bytes ↔ n ≤ block.length ∧ block.take n = bytes := by
  simp [load]

theorem length_of_load {block bytes : List UInt8} {off : Int} {n : Nat}
    (h : load block off n = some bytes) : bytes.length = n := by
  unfold load at h
  split at h
  · next hin =>
      cases h
      rw [List.length_take, List.length_drop]
      omega
  · cases h

/-- Write bytes at an offset. -/
def store (block : List UInt8) (off : Int) (bytes : List UInt8) : Option (List UInt8) :=
  if 0 ≤ off ∧ off.toNat + bytes.length ≤ block.length then
    some (block.take off.toNat ++ bytes ++ block.drop (off.toNat + bytes.length))
  else none

/-- A write that is defined stays in the block and does not change its
length. -/
theorem store_eq_some {block block' bytes : List UInt8} {off : Int}
    (h : store block off bytes = some block') :
    0 ≤ off ∧ off + bytes.length ≤ block.length ∧ block'.length = block.length := by
  unfold store at h
  split at h
  · next hin =>
      cases h
      refine ⟨hin.1, by omega, ?_⟩
      simp only [List.length_append, List.length_take, List.length_drop]
      omega
  · cases h

/-- What was just written is read back. -/
theorem load_of_store {block block' bytes : List UInt8} {off : Int} {n : Nat}
    (h : store block off bytes = some block') (hn : n ≤ bytes.length) :
    load block' off n = some (bytes.take n) := by
  obtain ⟨hpos, hle, hlen⟩ := store_eq_some h
  unfold store at h
  rw [if_pos ⟨hpos, by omega⟩] at h
  cases h
  have htake : (block.take off.toNat).length = off.toNat := by rw [List.length_take]; omega
  rw [load, if_pos ⟨hpos, by rw [hlen]; omega⟩, List.append_assoc, List.drop_append_of_le_length
    (by omega), List.drop_eq_nil_of_le (by omega), List.nil_append,
    List.take_append_of_le_length hn]

/-- A write is defined where it stays in the block. -/
theorem exists_store (block bytes : List UInt8) (off : Nat)
    (h : off + bytes.length ≤ block.length) :
    ∃ block', store block off bytes = some block' ∧ block'.length = block.length := by
  cases hstore : store block off bytes with
  | none => simp [store, h] at hstore
  | some block' => exact ⟨block', rfl, (store_eq_some hstore).2.2⟩

/-- The block up to the end of a write. -/
theorem take_of_store {block block' bytes : List UInt8} {off : Nat}
    (h : store block off bytes = some block') :
    block'.take (off + bytes.length) = block.take off ++ bytes := by
  unfold store at h
  split at h
  · next hin =>
      cases h
      rw [Int.toNat_natCast, List.take_left']
      rw [List.length_append, List.length_take]
      omega
  · cases h

theorem store_front {block bytes : List UInt8} (h : bytes.length ≤ block.length) :
    store block 0 bytes = some (bytes ++ block.drop bytes.length) := by
  simp [store, h]

/-- The bytes of a block after a write. -/
theorem getElem?_of_store {block block' bytes : List UInt8} {off : Int}
    (h : store block off bytes = some block') (i : Nat) :
    block'[i]? =
      if off ≤ i ∧ i < off + bytes.length then bytes[i - off.toNat]? else block[i]? := by
  obtain ⟨hpos, hle, -⟩ := store_eq_some h
  unfold store at h
  rw [if_pos ⟨hpos, by omega⟩] at h
  cases h
  have hfront : (block.take off.toNat).length = off.toNat := by rw [List.length_take]; omega
  by_cases hbefore : i < off.toNat
  · rw [if_neg (by omega), List.append_assoc, List.getElem?_append_left (by omega),
      List.getElem?_take_of_lt hbefore]
  · rw [List.append_assoc, List.getElem?_append_right (by omega), hfront]
    by_cases hin : i < off.toNat + bytes.length
    · rw [if_pos (by omega), List.getElem?_append_left (by omega)]
    · rw [if_neg (by omega), List.getElem?_append_right (by omega), List.getElem?_drop]
      congr 1
      omega

/-! ## strings -/

/-- The string that starts where the block does. -/
def cstr (block : List UInt8) : Option (List UInt8) := (strlen block).map block.take

theorem strlen_append {chars : List UInt8} (h : 0 ∉ chars) (rest : List UInt8) :
    strlen (chars ++ 0 :: rest) = some chars.length := by
  induction chars with
  | nil => rfl
  | cons c cs ih =>
      have hc : c ≠ 0 := fun hc => h (hc ▸ List.mem_cons_self)
      have hcs : 0 ∉ cs := fun hcs => h (List.mem_cons_of_mem c hcs)
      have hlen := ih hcs
      rw [strlen] at hlen
      rw [strlen, List.cons_append, List.findIdx?_cons, if_neg (by simp [hc]), hlen]
      rfl

theorem cstr_append {chars : List UInt8} (h : 0 ∉ chars) (rest : List UInt8) :
    cstr (chars ++ 0 :: rest) = some chars := by
  rw [cstr, strlen_append h, Option.map_some, List.take_left]

/-- A block without a terminator has no string. -/
theorem cstr_eq_none {block : List UInt8} (h : 0 ∉ block) : cstr block = none := by
  have hnone : strlen block = none := by
    rw [strlen, List.findIdx?_eq_none_iff]
    intro c hc
    have hne : c ≠ 0 := fun hzero => h (hzero ▸ hc)
    simp [hne]
  rw [cstr, hnone, Option.map_none]

/-- A block that starts with a text and its terminator. -/
theorem cstr_of_take {block chars : List UInt8} (h : 0 ∉ chars)
    (htake : block.take (chars.length + 1) = chars ++ [0]) : cstr block = some chars := by
  have hblock := List.take_append_drop (chars.length + 1) block
  rw [htake, List.append_assoc] at hblock
  rw [← hblock]
  exact cstr_append h _

/-- What `strlen` has measured. -/
theorem exists_of_strlen {block : List UInt8} {n : Nat} (h : strlen block = some n) :
    ∃ rest, block = block.take n ++ 0 :: rest ∧ 0 ∉ block.take n ∧ (block.take n).length = n := by
  rw [strlen, List.findIdx?_eq_some_iff_getElem] at h
  obtain ⟨hlt, hzero, hbefore⟩ := h
  have hlen : (block.take n).length = n := by
    rw [List.length_take]
    omega
  have hat : block[n] = 0 := by simpa using hzero
  refine ⟨block.drop (n + 1), ?_, ?_, hlen⟩
  · rw [← hat, List.getElem_cons_drop, List.take_append_drop]
  · intro hmem
    obtain ⟨k, hk, hkeq⟩ := List.getElem_of_mem hmem
    have hnonzero := hbefore k (by omega)
    rw [List.getElem_take] at hkeq
    simp [hkeq] at hnonzero

theorem zero_notMem_of_cstr {block chars : List UInt8} (h : cstr block = some chars) :
    0 ∉ chars := by
  obtain ⟨n, hn, rfl⟩ := Option.map_eq_some_iff.mp h
  obtain ⟨_, _, hzero, _⟩ := exists_of_strlen hn
  exact hzero

/-- What ends a string. -/
theorem getElem?_of_cstr {block chars : List UInt8} (h : cstr block = some chars) :
    block[chars.length]? = some 0 := by
  obtain ⟨n, hn, rfl⟩ := Option.map_eq_some_iff.mp h
  obtain ⟨rest, hblock, -, hlen⟩ := exists_of_strlen hn
  rw [hlen, hblock, List.getElem?_append_right (Nat.le_of_eq hlen), hlen, Nat.sub_self]
  rfl

end CString
