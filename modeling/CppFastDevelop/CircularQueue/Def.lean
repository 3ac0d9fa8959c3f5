import CppFastDevelop.Exception
import CppFastDevelop.Lib.Exec
import CppFastDevelop.Lib.Words
import CppFastDevelop.Lib.RingBuffer

/-!
# CppFastDevelop.CircularQueue.Def

The shared memory of a circular queue (`cl_queue_def.hpp`): the `QMeta`
block, the element region behind it, and the header that precedes every
payload, with its object representation.

Layouts are those of an LP64 target with glibc: `sizeof(ElementHeader)` is
24 (one case byte, three extension bytes, four bytes of padding, two 8-byte
words) and `sizeof(QMeta)` is 168 (the mutex takes 40 bytes and the
condition variable 48).  `elementBegin` sits right behind `status`, at
offset 164, so the last four bytes of the `QMeta` object are the first four
bytes of the region.

Operations on the memory also record every copy they make and every
unsigned subtraction they perform, so that safety is a statement about what
the code did and not an assumption of the model.
-/

namespace CppFastDevelop

open RingBuffer Words

/-! ## sizes -/

/-- `HeaderSize()`, i.e. `sizeof(ElementHeader)`. -/
def headerSize : UInt64 := 24

/-- `MetaSize()`, i.e. `sizeof(QMeta)`. -/
def metaSize : UInt64 := 168

/-- Bytes of the element region that lie inside the `QMeta` object. -/
def metaOverlap : Nat := 4

@[simp] theorem toNat_headerSize : headerSize.toNat = 24 := rfl

@[simp] theorem toNat_metaSize : metaSize.toNat = 168 := rfl

/-! ## the metadata block -/

/-- `QStatus`. -/
inductive QStatus
  | Q_NOMAL
  | Q_STOP2PUT
  | Q_STOP2PUTANDGET
  deriving DecidableEq, Repr

/-- `QMeta`, without the mutex and the condition variable, whose state is
the business of the threads using them. -/
structure QMeta where
  magic : List UInt8
  version : List UInt8
  /-- Also named "over".  Not including `QMeta`. -/
  qTotalSize : UInt64
  qLeftSize : UInt64
  elementCount : UInt64
  headIndex : UInt64
  tailIndex : UInt64
  serialNO : UInt64
  operationTime : Int64
  operationPid : Int32
  extention : List UInt8
  status : QStatus
  deriving DecidableEq, Repr

/-! ## the element header -/

/-- `ElementHeader`, padding bytes included: the header is copied as an
object, so whatever the padding holds is stored too. -/
structure ElementHeader where
  writeCase : UInt8
  extention : Vector UInt8 3
  padding : Vector UInt8 4
  bodyLen : UInt64
  operationTime : Int64
  deriving DecidableEq

namespace ElementHeader

/-- The 24 bytes of the object. -/
def toBytes (h : ElementHeader) : List UInt8 :=
  h.writeCase :: h.extention.toList ++ h.padding.toList ++ encodeLE 8 h.bodyLen.toNat ++
    encodeLE 8 h.operationTime.toUInt64.toNat

/-- The object 24 bytes represent. -/
def ofBytes (bs : List UInt8) : ElementHeader where
  writeCase := bs.getD 0 0
  extention := #v[bs.getD 1 0, bs.getD 2 0, bs.getD 3 0]
  padding := #v[bs.getD 4 0, bs.getD 5 0, bs.getD 6 0, bs.getD 7 0]
  bodyLen := UInt64.ofNat (decodeLE ((bs.drop 8).take 8))
  operationTime := (UInt64.ofNat (decodeLE ((bs.drop 16).take 8))).toInt64

/-- A header takes 24 bytes. -/
@[simp] theorem length_toBytes (h : ElementHeader) : h.toBytes.length = 24 := by
  simp [toBytes]

/-- Eight bytes hold a 64-bit number. -/
private theorem ofNat_decodeLE_encodeLE (x : UInt64) :
    UInt64.ofNat (decodeLE (encodeLE 8 x.toNat)) = x := by
  rw [decodeLE_encodeLE (by simpa using x.toNat_lt), UInt64.ofNat_toNat]

/-- A header is recovered from its object representation. -/
@[simp] theorem ofBytes_toBytes (h : ElementHeader) : ofBytes h.toBytes = h := by
  obtain ⟨wc, ⟨⟨ext⟩, hext⟩, ⟨⟨pad⟩, hpad⟩, len, time⟩ := h
  match ext, hext, pad, hpad with
  | [e1, e2, e3], _, [p1, p2, p3, p4], _ =>
      have hlen := ofNat_decodeLE_encodeLE len
      have htime : (UInt64.ofNat (decodeLE (encodeLE 8 time.toUInt64.toNat))).toInt64 = time := by
        rw [ofNat_decodeLE_encodeLE, Int64.toInt64_toUInt64]
      have htake (n : Nat) : (encodeLE 8 n).take 8 = encodeLE 8 n :=
        List.take_of_length_le (by simp)
      simp [ofBytes, toBytes, htake, hlen, htime, -UInt64.toInt64_ofNat']

end ElementHeader

/-! ## memory, strings and the record of accesses -/

/-- The byte at each position of a buffer. -/
abbrev Mem := Nat → UInt8

/-- The buffer holding a byte string. -/
def Mem.ofList (bs : List UInt8) : Mem := fun i => bs.getD i 0

/-- Memory made of bytes gives the bytes back. -/
@[simp] theorem slice_ofList (bs : List UInt8) : slice (Mem.ofList bs) 0 bs.length = bs := by
  apply List.ext_getElem
  · simp
  · intro i h _
    simp only [length_slice] at h
    simp [slice, Mem.ofList, h]

/-- A `std::string`. -/
structure Str where
  size : Nat
  chars : Mem

/-- The characters of a string. -/
def Str.toList (s : Str) : List UInt8 := slice s.chars 0 s.size

/-- `std::string::resize(n, '0')`. -/
def Str.resize (s : Str) (n : Nat) : Str where
  size := n
  chars := fun i => if i < s.size then s.chars i else 48

@[simp] theorem Str.size_resize (s : Str) (n : Nat) : (s.resize n).size = n := rfl

/-- The buffers a copy reads from and writes to. -/
inductive Place
  | region
  | header
  | payload
  | data
  deriving DecidableEq, Repr

/-- A position in a buffer of known capacity. -/
structure Span where
  place : Place
  cap : Nat
  off : Nat
  deriving DecidableEq, Repr

/-- A `cf_memcpy` of `len` bytes, or an unsigned subtraction `a - b`. -/
inductive Access
  | copy (dst src : Span) (len : Nat)
  | sub (a b : UInt64)
  deriving DecidableEq, Repr

/-- A copy stays inside both of its buffers; a subtraction does not wrap. -/
def Access.Safe : Access → Prop
  | .copy dst src len => dst.off + len ≤ dst.cap ∧ src.off + len ≤ src.cap
  | .sub a b => b.toNat ≤ a.toNat

@[simp] theorem Access.safe_copy (dst src : Span) (len : Nat) :
    (Access.copy dst src len).Safe ↔ dst.off + len ≤ dst.cap ∧ src.off + len ≤ src.cap := Iff.rfl

@[simp] theorem Access.safe_sub (a b : UInt64) : (Access.sub a b).Safe ↔ b.toNat ≤ a.toNat :=
  Iff.rfl

/-- Every access of a record is safe. -/
def AllSafe (as : List Access) : Prop := ∀ a ∈ as, a.Safe

@[simp] theorem allSafe_nil : AllSafe [] := by simp [AllSafe]

@[simp] theorem allSafe_cons (a : Access) (as : List Access) :
    AllSafe (a :: as) ↔ a.Safe ∧ AllSafe as := by
  simp [AllSafe]

@[simp] theorem allSafe_append (as bs : List Access) :
    AllSafe (as ++ bs) ↔ AllSafe as ∧ AllSafe bs := by
  simp [AllSafe, or_imp, forall_and]

/-! ## the state of an operation -/

/-- The shared memory, the caller's output string and the accesses made so
far. -/
structure Shm where
  pMeta : QMeta
  pQueue : Mem
  data : Str
  accesses : List Access := []

/-- A member function: it works on the memory and may throw. -/
abbrev Op := EStateM BaseException Shm

/-- What a call reads from its surroundings: clock, process id, whether
`/proc/<pid>/` of the last operation's process is accessible, and the
indeterminate bytes of the `ElementHeader` on the stack. -/
structure Environment where
  headerTime : Int64
  operationTime : Int64
  pid : Int32
  procAccessible : Bool
  padding : Vector UInt8 4
  stack : Mem

end CppFastDevelop
