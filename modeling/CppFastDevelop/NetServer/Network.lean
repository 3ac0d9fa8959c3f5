import CppFastDevelop.Exception

/-!
# CppFastDevelop.NetServer.Network

Moving bytes over a non-blocking socket (`cf_network.cpp`):
`SendSegmentAsync` and `RecvSegmentAsync`.  What the kernel answers is a
list of results, one for each call; when the list is used up the kernel
answers `EAGAIN`.
-/

namespace CppFastDevelop

/-! ## the kernel's answers -/

/-- What one `send` answers: a count of bytes taken, `EAGAIN`, or another
error. -/
inductive SendResult
  | accepted (n : Nat)
  | again
  | failed
  deriving DecidableEq, Repr

/-- What one `recv` answers: bytes (none at the end of the stream),
`EAGAIN`, or another error. -/
inductive RecvResult
  | data (bytes : List UInt8)
  | again
  | failed
  deriving DecidableEq, Repr

/-- Thrown by both functions, with the same text. -/
def writeFailed : BaseException :=
  { className := .syscallExecuteError, format := "Failed to execute cf_write !" }

/-! ## the functions -/

/-- The length asked for in one call. -/
def lenLeft (totalLen alreadyDone : Nat) (segsize : Int) : Nat :=
  let lenLeft := totalLen - alreadyDone
  if 0 < segsize ∧ segsize < lenLeft then segsize.toNat else lenLeft

/-- How a `SendSegmentAsync` ended: the bytes sent by then, the exception if
it threw, and the answers not yet given. -/
structure SendOutcome where
  alreadyDone : Nat
  failure : Option BaseException
  rest : List SendResult
  deriving DecidableEq, Repr

/-- The loop of `SendSegmentAsync`.  The kernel takes no more than it is
offered. -/
def sendLoop (totalLen : Nat) (segsize : Int) : List SendResult → Nat → SendOutcome
  | [], alreadyDone => ⟨alreadyDone, none, []⟩
  | r :: rs, alreadyDone =>
    if alreadyDone < totalLen then
      match r with
      | .again => ⟨alreadyDone, none, rs⟩
      | .failed => ⟨alreadyDone, some writeFailed, rs⟩
      | .accepted len =>
        sendLoop totalLen segsize rs (alreadyDone + min len (lenLeft totalLen alreadyDone segsize))
    else ⟨alreadyDone, none, r :: rs⟩

def sendSegmentAsync (totalLen : Nat) (segsize : Int) (kernel : List SendResult) : SendOutcome :=
  if totalLen = 0 then ⟨0, none, kernel⟩ else sendLoop totalLen segsize kernel 0

/-- How a `RecvSegmentAsync` ended: the bytes in `buf` by then,
`peerClosedWhenRead`, the exception if it threw, and the answers not yet
given. -/
structure RecvOutcome where
  received : List UInt8
  peerClosedWhenRead : Bool
  failure : Option BaseException
  rest : List RecvResult
  deriving DecidableEq, Repr

/-- The loop of `RecvSegmentAsync`.  The kernel gives no more than it is
asked for. -/
def recvLoop (totalLen : Nat) (segsize : Int) : List RecvResult → List UInt8 → RecvOutcome
  | [], received => ⟨received, false, none, []⟩
  | r :: rs, received =>
    if received.length < totalLen then
      match r with
      | .again => ⟨received, false, none, rs⟩
      | .failed => ⟨received, false, some writeFailed, rs⟩
      | .data bytes =>
        let bytes := bytes.take (lenLeft totalLen received.length segsize)
        if bytes.length = 0 then ⟨received, true, none, rs⟩
        else recvLoop totalLen segsize rs (received ++ bytes)
    else ⟨received, false, none, r :: rs⟩

def recvSegmentAsync (totalLen : Nat) (segsize : Int) (kernel : List RecvResult) : RecvOutcome :=
  if totalLen = 0 then ⟨[], false, none, kernel⟩ else recvLoop totalLen segsize kernel []

/-! ## what they move -/

/-- A segment is never longer than what is left. -/
theorem lenLeft_le (totalLen alreadyDone : Nat) (segsize : Int) :
    lenLeft totalLen alreadyDone segsize ≤ totalLen - alreadyDone := by
  simp only [lenLeft]
  split <;> omega

/-- `SendSegmentAsync` never sends more than `totalLen`. -/
theorem alreadyDone_sendLoop_le {totalLen alreadyDone : Nat} (segsize : Int)
    (kernel : List SendResult) (h : alreadyDone ≤ totalLen) :
    (sendLoop totalLen segsize kernel alreadyDone).alreadyDone ≤ totalLen := by
  induction kernel generalizing alreadyDone with
  | nil => exact h
  | cons r rs ih =>
      unfold sendLoop
      split
      · cases r with
        | again => exact h
        | failed => exact h
        | accepted len =>
            apply ih
            have hle := lenLeft_le totalLen alreadyDone segsize
            omega
      · exact h

/-- No more is sent than there is to send. -/
theorem alreadyDone_sendSegmentAsync_le (totalLen : Nat) (segsize : Int)
    (kernel : List SendResult) :
    (sendSegmentAsync totalLen segsize kernel).alreadyDone ≤ totalLen := by
  unfold sendSegmentAsync
  split
  · exact Nat.zero_le _
  · exact alreadyDone_sendLoop_le segsize kernel (Nat.zero_le _)

/-- `RecvSegmentAsync` never stores more than `totalLen` bytes, and sees the
end of the stream only with bytes still missing. -/
theorem received_recvLoop {totalLen : Nat} {received : List UInt8} (segsize : Int)
    (kernel : List RecvResult) (h : received.length ≤ totalLen) :
    (recvLoop totalLen segsize kernel received).received.length ≤ totalLen ∧
      ((recvLoop totalLen segsize kernel received).peerClosedWhenRead = true →
        (recvLoop totalLen segsize kernel received).received.length < totalLen) := by
  induction kernel generalizing received with
  | nil => exact ⟨h, by simp [recvLoop]⟩
  | cons r rs ih =>
      unfold recvLoop
      split
      · next hlt =>
          cases r with
          | again => exact ⟨h, by simp⟩
          | failed => exact ⟨h, by simp⟩
          | data bytes =>
              simp only
              split
              · exact ⟨h, fun _ => hlt⟩
              · apply ih
                have hle := lenLeft_le totalLen received.length segsize
                simp only [List.length_append, List.length_take]
                omega
      · exact ⟨h, by simp⟩

/-- No more is received than was asked for, and less where the peer closed. -/
theorem received_recvSegmentAsync (totalLen : Nat) (segsize : Int) (kernel : List RecvResult) :
    (recvSegmentAsync totalLen segsize kernel).received.length ≤ totalLen ∧
      ((recvSegmentAsync totalLen segsize kernel).peerClosedWhenRead = true →
        (recvSegmentAsync totalLen segsize kernel).received.length < totalLen) := by
  unfold recvSegmentAsync
  split
  · exact ⟨Nat.zero_le _, by simp⟩
  · exact received_recvLoop segsize kernel (Nat.zero_le _)

end CppFastDevelop
