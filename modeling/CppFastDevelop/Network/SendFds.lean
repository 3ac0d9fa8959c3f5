import CppFastDevelop.Exception
import CppFastDevelop.Lib.ControlMessage

/-!
# CppFastDevelop.Network.SendFds

Passing descriptors over a Unix domain socket (`cf_network.cpp`): `SendFds`
and `RecvFds`.  Both take a control buffer of one of three sizes, for 1, 16
or 128 descriptors; `SendFds` fills in the header for the descriptors it
has and leaves the rest of the buffer zero.  What the kernel makes of the
zero bytes decides for which numbers of descriptors the message is sent at
all (`delivers_iff`).
-/

namespace CppFastDevelop

open Words ControlMessage

/-! ## the functions -/

/-- `SEND_FDS_SUMMAX_SMALL`. -/
def sendFdsSummaxSmall : Nat := 16

/-- `SEND_FDS_SUMMAX_LARGE`. -/
def sendFdsSummaxLarge : Nat := 128

/-- `SOL_SOCKET`. -/
def solSocket : Int32 := 1

/-- `SCM_RIGHTS`. -/
def scmRights : Int32 := 1

/-- Thrown by both functions, with the same text. -/
def fdarraylenTooLarge (fdarraylen : Nat) : BaseException :=
  { className := .valueError, format := "fdarraylen{%llu} is too large !", args := [fdarraylen] }

/-- The size both functions give to `control_un`. -/
def sizeofControlUn (fdarraylen : Nat) : Except BaseException Nat :=
  if fdarraylen = 1 then .ok (space (4 * 1))
  else if fdarraylen ≤ sendFdsSummaxSmall then .ok (space (4 * sendFdsSummaxSmall))
  else if fdarraylen ≤ sendFdsSummaxLarge then .ok (space (4 * sendFdsSummaxLarge))
  else .error (fdarraylenTooLarge fdarraylen)

/-- Write `bytes` into a buffer at `pos`. -/
def store (buf : List UInt8) (pos : Nat) (bytes : List UInt8) : List UInt8 :=
  buf.take pos ++ bytes ++ buf.drop (pos + bytes.length)

/-- The loop that writes the descriptors. -/
def storeFds : List UInt8 → Nat → List Int32 → List UInt8
  | buf, _, [] => buf
  | buf, pos, fd :: fds => storeFds (store buf pos (encodeInt32 fd)) (pos + 4) fds

/-- The control buffer of `SendFds`. -/
def controlUn (sendfdarray : List Int32) : Except BaseException (List UInt8) := do
  let size ← sizeofControlUn sendfdarray.length
  let header := encodeHeader (len (4 * sendfdarray.length)) solSocket scmRights
  return storeFds (store (List.replicate size 0) 0 header) sizeofHeader sendfdarray

/-- A message under way: the descriptors and the number of data bytes. -/
structure FdMessage where
  descriptors : List Int32
  bytes : Nat
  deriving DecidableEq, Repr

/-- The descriptors of the `SCM_RIGHTS` messages. -/
def rightsOf (ms : List Message) : List Int32 :=
  ms.flatMap fun m =>
    if m.level = solSocket ∧ m.type = scmRights then decodeInts (m.data.length / 4) m.data else []

/-- `sendmsg` walks over the control buffer; one that it refuses is
answered -1 and nothing is sent. -/
def sendmsg (control : List UInt8) (bytes : Nat) : Int × Option FdMessage :=
  match parse control with
  | none => (-1, none)
  | some ms => (bytes, some ⟨rightsOf ms, bytes⟩)

def sendFds (sendfdarray : List Int32) (dataExtraBytes : Nat) :
    Except BaseException (Int × Option FdMessage) := do
  let control ← controlUn sendfdarray
  return sendmsg control dataExtraBytes

/-- `recvmsg` with room for all of the data and for `controllen` bytes of
control messages: the number of data bytes and the control bytes written.
Descriptors without room are dropped.  A descriptor stands for the file it refers to, so it is
the same on both sides. -/
def recvmsg (m : FdMessage) (controllen : Nat) : Int × List UInt8 :=
  let fds := m.descriptors.take ((controllen - sizeofHeader) / 4)
  (m.bytes, if fds = [] then [] else (⟨solSocket, scmRights, encodeInts fds⟩ : Message).encode)

/-- `RecvFds`: its result and the array it leaves behind. -/
def recvFds (fdarraylen : Nat) (recvfdarray : List Int32) (recvmsg : Nat → Int × List UInt8) :
    Except BaseException (Int × List Int32) := do
  let size ← sizeofControlUn fdarraylen
  let (n, control) := recvmsg size
  if n ≤ 0 then return (n, recvfdarray)
  if sizeofHeader ≤ control.length ∧ headerLen control = len (4 * fdarraylen) then
    if headerLevel control ≠ solSocket then return (-1, recvfdarray)
    if headerType control ≠ scmRights then return (-2, recvfdarray)
    return (n, decodeInts fdarraylen (control.drop sizeofHeader) ++ recvfdarray.drop fdarraylen)
  return (n, recvfdarray.set 0 (-1))

/-! ## the control buffer -/

/-- Writing over the part of a buffer between `done` and `rest`. -/
theorem store_append (done old rest bytes : List UInt8) (h : old.length = bytes.length) :
    store (done ++ (old ++ rest)) done.length bytes = done ++ (bytes ++ rest) := by
  simp [store, ← h, List.drop_append]

/-- The descriptors are written one behind the other over zero bytes. -/
theorem storeFds_zeros (done : List UInt8) (fds : List Int32) (n : Nat) :
    storeFds (done ++ List.replicate (4 * fds.length + n) 0) done.length fds =
      done ++ (encodeInts fds ++ List.replicate n 0) := by
  induction fds generalizing done with
  | nil => simp [storeFds]
  | cons fd fds ih =>
      have hzeros : List.replicate (4 * (fd :: fds).length + n) (0 : UInt8) =
          List.replicate 4 0 ++ List.replicate (4 * fds.length + n) 0 := by
        rw [List.replicate_append_replicate, List.length_cons]
        congr 1
        omega
      have hnext := ih (done ++ encodeInt32 fd)
      rw [storeFds, hzeros, store_append _ _ _ _ (by simp), ← List.append_assoc]
      simpa using hnext

/-- The message `SendFds` means to send. -/
def rightsMessage (fds : List Int32) : Message := ⟨solSocket, scmRights, encodeInts fds⟩

/-- The three sizes. -/
theorem sizeofControlUn_eq_ok {n size : Nat} :
    sizeofControlUn n = .ok size ↔
      n = 1 ∧ size = 24 ∨ n ≠ 1 ∧ n ≤ 16 ∧ size = 80 ∨ 16 < n ∧ n ≤ 128 ∧ size = 528 := by
  have hsingle : space (4 * 1) = 24 := rfl
  have hsmall : space (4 * sendFdsSummaxSmall) = 80 := rfl
  have hlarge : space (4 * sendFdsSummaxLarge) = 528 := rfl
  rw [sizeofControlUn, hsingle, hsmall, hlarge, sendFdsSummaxSmall, sendFdsSummaxLarge]
  split
  · simp only [Except.ok.injEq]
    omega
  · split
    · simp only [Except.ok.injEq]
      omega
    · split
      · simp only [Except.ok.injEq]
        omega
      · simp only [reduceCtorEq, false_iff]
        omega

/-- The size taken has room for the descriptors. -/
theorem len_le_of_sizeofControlUn {n size : Nat} (h : sizeofControlUn n = .ok size) :
    len (4 * n) ≤ size := by
  have hcases := sizeofControlUn_eq_ok.mp h
  rw [len_eq]
  omega

/-- The buffer is the message meant, and zero bytes up to the size taken. -/
theorem controlUn_of_size {fds : List Int32} {size : Nat}
    (h : sizeofControlUn fds.length = .ok size) :
    controlUn fds =
      .ok ((rightsMessage fds).encode ++ List.replicate (size - len (4 * fds.length)) 0) := by
  have hle := len_le_of_sizeofControlUn h
  rw [len_eq] at hle
  obtain ⟨n, rfl⟩ := Nat.exists_eq_add_of_le hle
  have hzeros : List.replicate (16 + 4 * fds.length + n) (0 : UInt8) =
      List.replicate 16 0 ++ List.replicate (4 * fds.length + n) 0 := by
    rw [List.replicate_append_replicate, Nat.add_assoc]
  have hheader := store_append [] (List.replicate 16 0) (List.replicate (4 * fds.length + n) 0)
    (encodeHeader (len (4 * fds.length)) solSocket scmRights) (by simp)
  have hfds := storeFds_zeros (encodeHeader (len (4 * fds.length)) solSocket scmRights) fds n
  simp only [List.nil_append, List.length_nil, length_encodeHeader] at hheader hfds
  simp only [controlUn, h, hzeros, hheader, sizeofHeader, hfds, bind, Except.bind, pure,
    Except.pure]
  simp [rightsMessage, Message.encode, len_eq]

/-- The kernel's walk over the buffer: the zero bytes behind the message are
one more header when there is room for one. -/
theorem parse_controlUn {fds : List Int32} {size : Nat}
    (h : sizeofControlUn fds.length = .ok size) :
    parse ((rightsMessage fds).encode ++ List.replicate (size - len (4 * fds.length)) 0) =
      if size < space (4 * fds.length) + sizeofHeader then some [rightsMessage fds] else none := by
  have hle := len_le_of_sizeofControlUn h
  have hsize := sizeofControlUn_eq_ok.mp h
  have hlength : (rightsMessage fds).data.length = 4 * fds.length := length_encodeInts fds
  rw [parse_encode_append_zeros, hlength, Nat.add_sub_cancel' hle]
  rw [hlength]
  omega

/-- Where there is no room for one more header. -/
theorem size_lt_space_iff {n size : Nat} (h : sizeofControlUn n = .ok size) :
    size < space (4 * n) + sizeofHeader ↔
      n = 1 ∨ 13 ≤ n ∧ n ≤ 16 ∨ 125 ≤ n ∧ n ≤ 128 := by
  have hcases := sizeofControlUn_eq_ok.mp h
  simp only [space, align, sizeofHeader]
  omega

/-! ## sending -/

@[simp] theorem rightsOf_rightsMessage (fds : List Int32) : rightsOf [rightsMessage fds] = fds := by
  have hints := decodeInts_encodeInts_append fds []
  rw [List.append_nil] at hints
  simp [rightsOf, rightsMessage, hints]

/-- `SendFds` sends its descriptors where the walk ends behind them, and
nothing where it goes on. -/
theorem sendFds_of_size {fds : List Int32} {size : Nat} (dataExtraBytes : Nat)
    (h : sizeofControlUn fds.length = .ok size) :
    sendFds fds dataExtraBytes =
      if size < space (4 * fds.length) + sizeofHeader
      then .ok (dataExtraBytes, some ⟨fds, dataExtraBytes⟩) else .ok (-1, none) := by
  simp only [sendFds, controlUn_of_size h, bind, Except.bind, pure, Except.pure, sendmsg,
    parse_controlUn h]
  by_cases hlt : size < space (4 * fds.length) + sizeofHeader
  · simp [if_pos hlt]
  · simp [if_neg hlt]

/-! ## receiving -/

/-- A message without data bytes leaves the array as it is. -/
theorem recvFds_of_bytes_eq_zero {fds recvfdarray : List Int32} {n size : Nat}
    (h : sizeofControlUn n = .ok size) :
    recvFds n recvfdarray (recvmsg ⟨fds, 0⟩) = .ok (0, recvfdarray) := by
  simp [recvFds, h, recvmsg, bind, Except.bind, pure, Except.pure]

/-- `RecvFds` for as many descriptors as were sent stores them all. -/
theorem recvFds_recvmsg {fds recvfdarray : List Int32} {bytes size : Nat} (hbytes : 0 < bytes)
    (hfds : fds ≠ []) (h : sizeofControlUn fds.length = .ok size)
    (hlength : recvfdarray.length = fds.length) :
    recvFds fds.length recvfdarray (recvmsg ⟨fds, bytes⟩) = .ok (bytes, fds) := by
  have hle := len_le_of_sizeofControlUn h
  have hsize := sizeofControlUn_eq_ok.mp h
  have htake : fds.take ((size - sizeofHeader) / 4) = fds := by
    apply List.take_of_length_le
    rw [len_eq] at hle
    simp only [sizeofHeader]
    omega
  have hlen : len (4 * fds.length) < 2 ^ 64 := by omega
  have hdata : (encodeHeader (len (4 * fds.length)) solSocket scmRights ++
      encodeInts fds).drop sizeofHeader = encodeInts fds :=
    List.drop_left' (length_encodeHeader _ _ _)
  have hints := decodeInts_encodeInts_append fds []
  rw [List.append_nil] at hints
  have hheader : sizeofHeader ≤ 16 + 4 * fds.length := Nat.le_add_right _ _
  have hnot : bytes ≠ 0 := by omega
  have hdrop : recvfdarray.drop fds.length = [] := by simp [← hlength]
  simp [recvFds, h, recvmsg, bind, Except.bind, pure, Except.pure, htake, hfds, hnot,
    Message.encode, headerLen_encodeHeader_append hlen, hheader, hdata, hints, hdrop]

/-! ## the whole way -/

/-- What `SendFds` and `RecvFds` are for: the buffer is one `SCM_RIGHTS`
message with the descriptors in order, it is sent, and `RecvFds` for the
same number leaves the same descriptors in the receiver's array. -/
def Delivers (fds : List Int32) (dataExtraBytes : Nat) : Prop :=
  ∃ control m, controlUn fds = .ok control ∧
    parse control = some [⟨solSocket, scmRights, encodeInts fds⟩] ∧
    sendFds fds dataExtraBytes = .ok (dataExtraBytes, some m) ∧
    ∀ recvfdarray, recvfdarray.length = fds.length →
      recvFds fds.length recvfdarray (recvmsg m) = .ok (dataExtraBytes, fds)

/-- The numbers of descriptors behind which no header fits into the buffer. -/
def FillsBuffer (n : Nat) : Prop := n = 1 ∨ 13 ≤ n ∧ n ≤ 16 ∨ 125 ≤ n ∧ n ≤ 128

instance (n : Nat) : Decidable (FillsBuffer n) :=
  inferInstanceAs (Decidable (n = 1 ∨ 13 ≤ n ∧ n ≤ 16 ∨ 125 ≤ n ∧ n ≤ 128))

/-- Descriptors arrive exactly where they fill the buffer up and a byte of
data travels with them. -/
theorem delivers_iff (fds : List Int32) (dataExtraBytes : Nat) :
    Delivers fds dataExtraBytes ↔ FillsBuffer fds.length ∧ 0 < dataExtraBytes := by
  constructor
  · rintro ⟨control, m, hcontrol, hparse, hsend, hrecv⟩
    cases hsize : sizeofControlUn fds.length with
    | error e => simp [controlUn, hsize, bind, Except.bind] at hcontrol
    | ok size =>
        rw [controlUn_of_size hsize, Except.ok.injEq] at hcontrol
        rw [← hcontrol, parse_controlUn hsize] at hparse
        by_cases hlt : size < space (4 * fds.length) + sizeofHeader
        · have hfills := (size_lt_space_iff hsize).mp hlt
          refine ⟨hfills, Nat.pos_of_ne_zero ?_⟩
          rintro rfl
          rw [sendFds_of_size 0 hsize, if_pos hlt] at hsend
          cases hsend
          -- an array of other descriptors stays as it is
          have hother := hrecv (fds.map (· + 1)) (by simp)
          rw [recvFds_of_bytes_eq_zero hsize] at hother
          cases fds with
          | nil => simp at hfills
          | cons fd fds =>
              simp only [Except.ok.injEq, Prod.mk.injEq, List.map_cons, List.cons.injEq] at hother
              have hne : fd + 1 ≠ fd := by simp
              exact hne hother.2.1
        · simp [if_neg hlt] at hparse
  · rintro ⟨hfills, hbytes⟩
    have hsome : ∃ size, sizeofControlUn fds.length = .ok size := by
      simp only [sizeofControlUn_eq_ok]
      rcases hfills with h | ⟨h, h'⟩ | ⟨h, h'⟩
      · exact ⟨24, .inl ⟨h, rfl⟩⟩
      · exact ⟨80, .inr (.inl ⟨by omega, h', rfl⟩)⟩
      · exact ⟨528, .inr (.inr ⟨by omega, h', rfl⟩)⟩
    obtain ⟨size, hsize⟩ := hsome
    have hlt := (size_lt_space_iff hsize).mpr hfills
    have hfds : fds ≠ [] := by
      rintro rfl
      simp [FillsBuffer] at hfills
    refine ⟨_, ⟨fds, dataExtraBytes⟩, controlUn_of_size hsize, ?_, ?_, ?_⟩
    · rw [parse_controlUn hsize, if_pos hlt, rightsMessage]
    · rw [sendFds_of_size dataExtraBytes hsize, if_pos hlt]
    · exact fun recvfdarray hlength => recvFds_recvmsg hbytes hfds hsize hlength

/-- Two descriptors are refused by the kernel, like every number that leaves
room for a header behind them. -/
theorem not_delivers_pair :
    sendFds [3, 4] 1 = .ok (-1, none) ∧ ¬ Delivers [3, 4] 1 := by
  have hsize : sizeofControlUn [(3 : Int32), 4].length = .ok 80 := rfl
  have hlt : ¬ 80 < space (4 * [(3 : Int32), 4].length) + sizeofHeader := by decide
  have hsend : sendFds [3, 4] 1 = .ok (-1, none) := by
    rw [sendFds_of_size 1 hsize, if_neg hlt]
  refine ⟨hsend, ?_⟩
  rintro ⟨_, m, _, _, h, _⟩
  rw [hsend] at h
  cases h

end CppFastDevelop
