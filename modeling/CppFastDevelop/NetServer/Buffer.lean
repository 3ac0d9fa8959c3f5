import CppFastDevelop.Lib.Chain
import CppFastDevelop.NetServer.Network
import Mathlib.Algebra.GroupWithZero.Nat

/-!
# CppFastDevelop.NetServer.Buffer

The read and write buffers and their pools (`cl_buffer.hpp`,
`cl_buffer.cpp`).  `ReadBuffer` and `WriteBuffer` have the same fields;
`_already` counts the bytes of `_buf` that the socket has given or taken.

A buffer that was asked to move at least one byte is `Good`; moving bytes
keeps it so and moves no byte twice, which is what `Lib.Chain` needs of the
buffers in a chain.
-/

namespace CppFastDevelop

/-! ## buffers -/

/-- The fields of `ReadBuffer` and of `WriteBuffer`.  `id` tells one object
from another. -/
structure Buffer where
  id : Nat
  buf : List UInt8
  total : UInt32
  already : UInt32
  deriving DecidableEq, Repr

abbrev ReadBuffer := Buffer

abbrev WriteBuffer := Buffer

namespace Buffer

def clear (b : Buffer) : Buffer := { b with buf := [], total := 0, already := 0 }

/-- `_buf.resize(total)`. -/
def resize (buf : List UInt8) (total : Nat) : List UInt8 :=
  buf.take total ++ List.replicate (total - buf.length) 0

def getLeft (b : Buffer) : Except BaseException UInt32 :=
  if b.already < b.total then .ok (b.total - b.already)
  else .error ⟨.valueError, "_total\x7b%u\x7d<=_already\x7b%u\x7d !",
    [b.total.toNat, b.already.toNat]⟩

/-- Thrown when a size is set on a buffer that has one. -/
def totalNotZero (total : UInt32) : BaseException :=
  ⟨.valueError, "_total\x7b%u\x7d!=0 !", [total.toNat]⟩

/-- Thrown when a buffer without bytes is asked whether it is complete. -/
def totalZero : BaseException := ⟨.valueError, "0==_total !", []⟩

/-- `_already +=rdn`, where `rdn` is a `cf_int`. -/
def advance (already : UInt32) (alreadyDone : Nat) : UInt32 :=
  already + (Int32.ofNat alreadyDone).toUInt32

end Buffer

namespace ReadBuffer

def sizeDefault : Nat := 700

def setTotal (rb : ReadBuffer) (total : UInt32) : Except BaseException ReadBuffer :=
  if rb.total ≠ 0 then .error (Buffer.totalNotZero rb.total)
  else .ok { rb with
    buf := if rb.total < total then Buffer.resize rb.buf total.toNat else rb.buf
    total := total }

def isComplete (rb : ReadBuffer) : Except BaseException Bool :=
  if rb.total = 0 then .error Buffer.totalZero else .ok (rb.total == rb.already)

/-- The bytes are stored before `_already` is advanced; a throw from the
socket leaves them stored but not counted. -/
def read (rb : ReadBuffer) (kernel : List RecvResult) :
    Chain.Attempt BaseException ReadBuffer (List RecvResult) UInt8 :=
  match rb.getLeft with
  | .error e => ⟨rb, [], false, some e, kernel⟩
  | .ok left =>
    let r := recvSegmentAsync left.toNat (-1) kernel
    let buf := rb.buf.take rb.already.toNat ++ r.received ++
      rb.buf.drop (rb.already.toNat + r.received.length)
    match r.failure with
    | some e => ⟨{ rb with buf := buf }, r.received, false, some e, r.rest⟩
    | none =>
      ⟨{ rb with buf := buf, already := Buffer.advance rb.already r.received.length },
        r.received, r.peerClosedWhenRead, none, r.rest⟩

end ReadBuffer

namespace WriteBuffer

def sizeDefault : Nat := 1300

/-- `memcpy` takes the first `total` bytes at `buffer`. -/
def setBuffer (wb : WriteBuffer) (buffer : List UInt8) (total : UInt32) :
    Except BaseException WriteBuffer :=
  if wb.total ≠ 0 then .error (Buffer.totalNotZero wb.total)
  else
    let buf := if wb.total < total then Buffer.resize wb.buf total.toNat else wb.buf
    .ok { wb with
      buf := buffer.take total.toNat ++ buf.drop (buffer.take total.toNat).length
      total := total }

/-- Unlike that of `ReadBuffer` this looks at the size of `_buf`. -/
def isComplete (wb : WriteBuffer) : Except BaseException Bool :=
  if wb.buf.length = 0 then .error Buffer.totalZero else .ok (wb.total == wb.already)

def write (wb : WriteBuffer) (kernel : List SendResult) :
    Chain.Attempt BaseException WriteBuffer (List SendResult) UInt8 :=
  match wb.getLeft with
  | .error e => ⟨wb, [], false, some e, kernel⟩
  | .ok left =>
    let r := sendSegmentAsync left.toNat (-1) kernel
    let sent := (wb.buf.drop wb.already.toNat).take r.alreadyDone
    match r.failure with
    | some e => ⟨wb, sent, false, some e, r.rest⟩
    | none =>
      ⟨{ wb with already := Buffer.advance wb.already r.alreadyDone }, sent, false, none, r.rest⟩

end WriteBuffer

/-! ## pools -/

/-- `BufferPool`, with the number of buffers it has allocated. -/
structure BufferPool where
  free : List Buffer
  maxAllocCnt : Nat
  deriving DecidableEq, Repr

namespace BufferPool

def poolsizeDefault : Nat := 512

/-- `AllocOne`: the constructors fill `_buf` with `size` zeros. -/
def allocOne (size id : Nat) : Buffer := ⟨id, List.replicate size 0, 0, 0⟩

/-- The constructor. -/
def create (size poolsize : Nat) : BufferPool :=
  ⟨(List.range poolsize).map (allocOne size), poolsize⟩

def getFromPool (p : BufferPool) (size : Nat) : Buffer × BufferPool :=
  match p.free with
  | [] => (allocOne size p.maxAllocCnt, { p with maxAllocCnt := p.maxAllocCnt + 1 })
  | rb :: free => (rb, { p with free := free })

def putIntoPool (p : BufferPool) (rb : Buffer) : BufferPool := { p with free := p.free ++ [rb] }

end BufferPool

/-! ## buffers in a chain -/

namespace Buffer

/-- A buffer that was asked to move at least one byte. -/
structure Good (b : Buffer) : Prop where
  length_buf : b.buf.length = b.total.toNat
  already_le : b.already.toNat ≤ b.total.toNat
  total_pos : 0 < b.total.toNat

/-- The bytes moved so far. -/
def progress (b : Buffer) : List UInt8 := b.buf.take b.already.toNat

/-- The bytes to move. -/
def size (b : Buffer) : Nat := b.total.toNat

/-- A buffer that still has bytes to move. -/
abbrev Unfinished : Buffer → Prop := Chain.Unfinished Good progress size

/-- A buffer all of whose bytes have been moved. -/
abbrev Finished : Buffer → Prop := Chain.Finished Good progress size

/-- A chain of buffers between two passes. -/
abbrev Underway : List Buffer → Prop := Chain.Underway Good progress size

/-- The progress of a good buffer is as long as its `_already` says. -/
theorem length_progress {b : Buffer} (h : b.Good) : b.progress.length = b.already.toNat := by
  have hle := h.already_le
  rw [progress, List.length_take, h.length_buf]
  omega

/-- A finished buffer has nothing to come: its progress is the whole of it. -/
theorem progress_of_finished {b : Buffer} (h : b.Finished) : b.progress = b.buf := by
  have hlen := length_progress h.good
  have heq := h.eq
  rw [progress, List.take_of_length_le]
  rw [h.good.length_buf]
  simp only [size] at heq
  omega

/-- The 32-bit counter does not wrap while the sum fits. -/
theorem advance_toNat {already : UInt32} {n : Nat} (h : already.toNat + n < 2 ^ 32) :
    (advance already n).toNat = already.toNat + n := by
  have hn : ((Int32.ofNat n).toUInt32).toNat = n := by
    rw [← UInt32.toNat_toBitVec]
    show (BitVec.ofNat 32 n).toNat = n
    rw [BitVec.toNat_ofNat]
    omega
  rw [advance, UInt32.toNat_add, hn]
  omega

/-- What is left to move, where there is something. -/
theorem getLeft_of_unfinished {b : Buffer} (h : b.Unfinished) :
    b.getLeft = .ok (b.total - b.already) ∧
      (b.total - b.already).toNat = b.total.toNat - b.already.toNat := by
  have hlt := h.lt
  rw [length_progress h.good, size] at hlt
  constructor
  · rw [getLeft, if_pos (UInt32.lt_iff_toNat_lt.mpr hlt)]
  · exact UInt32.toNat_sub_of_le _ _ (UInt32.le_iff_toNat_le.mpr (by omega))

/-- Something is left to move where `GetLeft` does not throw. -/
theorem toNat_of_getLeft {b : Buffer} {left : UInt32} (h : b.getLeft = .ok left) :
    b.already.toNat < b.total.toNat ∧ left.toNat = b.total.toNat - b.already.toNat := by
  unfold getLeft at h
  split at h
  · next hlt =>
      cases h
      exact ⟨UInt32.lt_iff_toNat_lt.mp hlt, UInt32.toNat_sub_of_le _ _ (UInt32.le_of_lt hlt)⟩
  · cases h

/-- Comparing the two counters decides whether every byte has been moved. -/
theorem isComplete_eq {b : Buffer} (h : b.Good) :
    (b.total == b.already) = decide (b.progress.length = b.size) := by
  rw [length_progress h, size, Bool.eq_iff_iff, beq_iff_eq, decide_eq_true_iff,
    ← UInt32.toNat_inj]
  exact eq_comm

end Buffer

/-- Storing `bytes` behind the bytes counted so far. -/
theorem take_store (buf bytes : List UInt8) {already : Nat}
    (h : already + bytes.length ≤ buf.length) :
    (buf.take already ++ bytes ++ buf.drop (already + bytes.length)).take
        (already + bytes.length) = buf.take already ++ bytes ∧
      (buf.take already ++ bytes ++ buf.drop (already + bytes.length)).length = buf.length := by
  constructor
  · rw [List.take_left']
    simp only [List.length_append, List.length_take]
    omega
  · simp only [List.length_append, List.length_take, List.length_drop]
    omega

namespace ReadBuffer

open Buffer

/-- A read does not change what was asked for. -/
theorem total_read (rb : ReadBuffer) (kernel : List RecvResult) :
    (read rb kernel).buffer.total = rb.total := by
  unfold read
  split
  · rfl
  · simp only
    split <;> rfl

/-- What a read of an unfinished buffer does. -/
structure ReadSpec (rb : ReadBuffer) (a : Chain.Attempt BaseException ReadBuffer
    (List RecvResult) UInt8) : Prop where
  moved_le : rb.already.toNat + a.moved.length ≤ rb.total.toNat
  ended_lt : a.ended = true → rb.already.toNat + a.moved.length < rb.total.toNat
  buf_eq : a.buffer.buf = rb.buf.take rb.already.toNat ++ a.moved ++
    rb.buf.drop (rb.already.toNat + a.moved.length)
  already_eq : a.buffer.already.toNat =
    if a.failure = none then rb.already.toNat + a.moved.length else rb.already.toNat

/-- What one `ReadBuffer::Read` does to an unfinished buffer, for every answer of the kernel. -/
theorem read_spec {rb : ReadBuffer} (h : rb.Unfinished) (kernel : List RecvResult) :
    ReadSpec rb (read rb kernel) := by
  obtain ⟨hleft, hnat⟩ := getLeft_of_unfinished h
  obtain ⟨hle, hclosed⟩ := received_recvSegmentAsync (rb.total - rb.already).toNat (-1) kernel
  have hbound := h.good.already_le
  have hlt := rb.total.toNat_lt
  rw [hnat] at hle hclosed
  simp only [read, hleft, hnat]
  cases hfail : (recvSegmentAsync (rb.total.toNat - rb.already.toNat) (-1) kernel).failure with
  | none =>
      refine ⟨by dsimp only; omega, fun hend => ?_, rfl, ?_⟩
      · have hless := hclosed hend
        dsimp only
        omega
      · rw [if_pos rfl]
        exact advance_toNat (by omega)
  | some e => exact ⟨by dsimp only; omega, by simp, rfl, rfl⟩

/-- Reading moves the bytes of a chain's buffers. -/
theorem moves : Chain.Moves Good progress size read isComplete where
  good rb kernel h := by
    have hspec := read_spec h kernel
    have hlen := h.good.length_buf
    have hle := hspec.moved_le
    refine ⟨?_, ?_, ?_⟩
    · rw [hspec.buf_eq, total_read, (take_store rb.buf _ (by omega)).2, hlen]
    · rw [total_read, hspec.already_eq]
      split <;> omega
    · rw [total_read]; exact h.good.total_pos
  progress_eq rb kernel h hok := by
    have hspec := read_spec h kernel
    have hlen := h.good.length_buf
    have hle := hspec.moved_le
    rw [progress, hspec.buf_eq, hspec.already_eq, if_pos hok,
      (take_store rb.buf _ (by omega)).1, progress]
  size_eq rb kernel := by
    rw [size, total_read, size]
  moved_le rb kernel h := by
    rw [length_progress h.good]
    exact (read_spec h kernel).moved_le
  ended_lt rb kernel h hended := by
    rw [length_progress h.good]
    exact (read_spec h kernel).ended_lt hended
  isComplete_eq rb h := by
    have htotal : rb.total ≠ 0 := fun hzero => by
      have hpos := h.total_pos
      rw [hzero] at hpos
      exact absurd hpos (by decide)
    rw [isComplete, if_neg htotal, Buffer.isComplete_eq h]

/-- Only what is read without an error is counted. -/
theorem staysOpen : Chain.StaysOpen read isComplete where
  failed rb kernel e hopen hfail := by
    unfold read at hfail ⊢
    cases hleft : rb.getLeft with
    | error e' => simpa only [hleft] using hopen
    | ok left =>
        cases hrecv : (recvSegmentAsync left.toNat (-1) kernel).failure with
        | some e' => simpa [hleft, hrecv, isComplete] using hopen
        | none => simp [hleft, hrecv] at hfail
  ended rb kernel hfail hended := by
    unfold read at hfail hended ⊢
    cases hleft : rb.getLeft with
    | error e => simp [hleft] at hfail
    | ok left =>
        cases hrecv : (recvSegmentAsync left.toNat (-1) kernel).failure with
        | some e => simp [hleft, hrecv] at hfail
        | none =>
            simp only [hleft, hrecv] at hended ⊢
            have hshort := (received_recvSegmentAsync left.toNat (-1) kernel).2 hended
            obtain ⟨hlt, hnat⟩ := toNat_of_getLeft hleft
            have hmax := rb.total.toNat_lt
            have hcount := advance_toNat (show rb.already.toNat +
              (recvSegmentAsync left.toNat (-1) kernel).received.length < 2 ^ 32 by omega)
            have hne : rb.total ≠ advance rb.already
                (recvSegmentAsync left.toNat (-1) kernel).received.length := by
              rw [ne_eq, ← UInt32.toNat_inj, hcount]
              omega
            unfold isComplete
            split <;> simp [hne]

/-- A buffer that was just asked to read is not complete. -/
theorem isComplete_setTotal_clear {rb rb' : ReadBuffer} {total : UInt32}
    (h : setTotal rb.clear total = .ok rb') : isComplete rb' ≠ .ok true := by
  rw [setTotal, if_neg (by simp [clear])] at h
  cases h
  by_cases htotal : total = 0
  · simp [isComplete, htotal]
  · simp [isComplete, htotal, clear]

/-- A buffer that was just asked to read `total` bytes. -/
theorem setTotal_clear (rb : ReadBuffer) {total : UInt32} (h : 1 ≤ total.toNat) :
    ∃ rb' : ReadBuffer, setTotal rb.clear total = .ok rb' ∧ rb'.total = total ∧
      rb'.progress = [] ∧ rb'.Unfinished := by
  have hpos : (0 : UInt32) < total := UInt32.lt_iff_toNat_lt.mpr h
  refine ⟨{ rb.clear with buf := resize [] total.toNat, total := total }, ?_, rfl, ?_, ?_, ?_⟩
  · rw [setTotal, if_neg (by simp [clear])]
    simp [clear, hpos]
  · rfl
  · exact ⟨by simp [resize], Nat.zero_le _, h⟩
  · exact h

end ReadBuffer

namespace WriteBuffer

open Buffer

/-- A write changes nothing but `_already`. -/
theorem write_buffer (wb : WriteBuffer) (kernel : List SendResult) :
    (write wb kernel).buffer.buf = wb.buf ∧ (write wb kernel).buffer.total = wb.total := by
  unfold write
  split
  · exact ⟨rfl, rfl⟩
  · simp only
    split <;> exact ⟨rfl, rfl⟩

/-- A write never sees the other side end. -/
theorem ended_write (wb : WriteBuffer) (kernel : List SendResult) :
    (write wb kernel).ended = false := by
  unfold write
  split
  · rfl
  · simp only
    split <;> rfl

/-- What a write of an unfinished buffer does. -/
structure WriteSpec (wb : WriteBuffer) (a : Chain.Attempt BaseException WriteBuffer
    (List SendResult) UInt8) : Prop where
  moved_le : wb.already.toNat + a.moved.length ≤ wb.total.toNat
  moved_eq : a.moved = (wb.buf.drop wb.already.toNat).take a.moved.length
  already_eq : a.buffer.already.toNat =
    if a.failure = none then wb.already.toNat + a.moved.length else wb.already.toNat

/-- What one `WriteBuffer::Write` does to an unfinished buffer, for every answer of the kernel. -/
theorem write_spec {wb : WriteBuffer} (h : wb.Unfinished) (kernel : List SendResult) :
    WriteSpec wb (write wb kernel) := by
  obtain ⟨hleft, hnat⟩ := getLeft_of_unfinished h
  have hle := alreadyDone_sendSegmentAsync_le (wb.total - wb.already).toNat (-1) kernel
  have hbound := h.good.already_le
  have hlt := wb.total.toNat_lt
  rw [hnat] at hle
  simp only [write, hleft, hnat]
  have hmoved : ((wb.buf.drop wb.already.toNat).take
      (sendSegmentAsync (wb.total.toNat - wb.already.toNat) (-1) kernel).alreadyDone).length =
      (sendSegmentAsync (wb.total.toNat - wb.already.toNat) (-1) kernel).alreadyDone := by
    rw [List.length_take, List.length_drop, h.good.length_buf]
    omega
  cases hfail : (sendSegmentAsync (wb.total.toNat - wb.already.toNat) (-1) kernel).failure with
  | none =>
      refine ⟨by dsimp only; omega, by dsimp only; rw [hmoved], ?_⟩
      dsimp only
      rw [if_pos rfl, hmoved]
      exact advance_toNat (by omega)
  | some e => exact ⟨by dsimp only; omega, by dsimp only; rw [hmoved], rfl⟩

/-- Writing moves the bytes of a chain's buffers. -/
theorem moves : Chain.Moves Good progress size write isComplete where
  good wb kernel h := by
    have hspec := write_spec h kernel
    obtain ⟨hbuf, htotal⟩ := write_buffer wb kernel
    have hle := hspec.moved_le
    refine ⟨?_, ?_, ?_⟩
    · rw [hbuf, htotal, h.good.length_buf]
    · rw [htotal, hspec.already_eq]
      split <;> omega
    · rw [htotal]; exact h.good.total_pos
  progress_eq wb kernel h hok := by
    have hspec := write_spec h kernel
    rw [progress, (write_buffer wb kernel).1, hspec.already_eq, if_pos hok, List.take_add,
      ← hspec.moved_eq, progress]
  size_eq wb kernel := by
    rw [size, (write_buffer wb kernel).2, size]
  moved_le wb kernel h := by
    rw [length_progress h.good]
    exact (write_spec h kernel).moved_le
  ended_lt wb kernel _ hended := by
    rw [ended_write] at hended
    cases hended
  isComplete_eq wb h := by
    have hbuf : wb.buf.length ≠ 0 := by
      rw [h.length_buf]
      exact Nat.pos_iff_ne_zero.mp h.total_pos
    rw [isComplete, if_neg hbuf, Buffer.isComplete_eq h]

/-- Only what is written without an error is counted. -/
theorem staysOpen : Chain.StaysOpen write isComplete where
  failed wb kernel e hopen hfail := by
    unfold write at hfail ⊢
    cases hleft : wb.getLeft with
    | error e' => simpa only [hleft] using hopen
    | ok left =>
        cases hsend : (sendSegmentAsync left.toNat (-1) kernel).failure with
        | some e' => simpa [hleft, hsend] using hopen
        | none => simp [hleft, hsend] at hfail
  ended wb kernel _ hended := by
    rw [ended_write] at hended
    cases hended

/-- A write buffer that calls itself complete has a length and has been sent to its end. -/
theorem isComplete_eq_true {wb : WriteBuffer} (h : isComplete wb = .ok true) :
    wb.buf.length ≠ 0 ∧ wb.total = wb.already := by
  unfold isComplete at h
  split at h
  · cases h
  · next hbuf => exact ⟨hbuf, by simpa using h⟩

/-- A buffer that was just given bytes to write is not complete. -/
theorem isComplete_setBuffer_clear {wb wb' : WriteBuffer} {buffer : List UInt8} {total : UInt32}
    (h : setBuffer wb.clear buffer total = .ok wb') : isComplete wb' ≠ .ok true := by
  rw [setBuffer, if_neg (by simp [clear])] at h
  cases h
  intro hfull
  obtain ⟨hbuf, htotal⟩ := isComplete_eq_true hfull
  simp only [clear] at hbuf htotal
  subst htotal
  simp at hbuf

/-- A buffer that was just given `total` bytes to write. -/
theorem setBuffer_clear (wb : WriteBuffer) {buffer : List UInt8} {total : UInt32}
    (h : 1 ≤ total.toNat) (hlen : total.toNat ≤ buffer.length) :
    ∃ wb' : WriteBuffer, setBuffer wb.clear buffer total = .ok wb' ∧
      wb'.buf = buffer.take total.toNat ∧ wb'.progress = [] ∧ wb'.Unfinished := by
  have hpos : (0 : UInt32) < total := UInt32.lt_iff_toNat_lt.mpr h
  have htake : (buffer.take total.toNat).length = total.toNat := by
    rw [List.length_take]
    omega
  refine ⟨{ wb.clear with buf := buffer.take total.toNat, total := total }, ?_, rfl, ?_, ?_, ?_⟩
  · rw [setBuffer, if_neg (by simp [clear])]
    simp [clear, hpos, htake, resize]
  · rfl
  · exact ⟨htake, Nat.zero_le _, h⟩
  · exact h

end WriteBuffer

end CppFastDevelop
