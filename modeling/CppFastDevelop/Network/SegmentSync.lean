import CppFastDevelop.Lib.Machine
import CppFastDevelop.NetServer.Network
import Mathlib.Algebra.GroupWithZero.Nat

/-!
# CppFastDevelop.Network.SegmentSync

Moving bytes over a socket within a time limit (`cf_network.cpp`):
`SendSegmentSync` and `RecvSegmentSync`.  One step is one iteration of the
loop, from the first reading of the clock to the test of what is left of
`timeoutMilliSeconds`; its label is what the clock, `poll` and `write` or
`read` answer.  The test of the time left comes before the test of the
bytes moved, so the last chunk may be reported as a time-out
(`segmentSync_right_iff`).
-/

namespace CppFastDevelop

open Machine

/-! ## the clock -/

/-- A reading of `gettimeofday`. -/
structure TimeVal where
  seconds : UInt64
  useconds : UInt32
  lt : useconds.toNat < 1000000
  deriving DecidableEq, Repr

namespace TimeVal

/-- The reading in microseconds. -/
def microseconds (t : TimeVal) : Nat := t.seconds.toNat * 1000000 + t.useconds.toNat

/-- The number both functions take for the reading in milliseconds. -/
def milliseconds (t : TimeVal) : UInt64 := t.seconds * 1000 + (t.useconds % 1000).toUInt64

end TimeVal

/-- `timeoutMilliSeconds -= (end-begin)`: the difference is unsigned and of
64 bits, the result is cut down to 32. -/
def charge (timeoutMilliSeconds : Int32) (beginTime endTime : TimeVal) : Int32 :=
  (timeoutMilliSeconds.toInt64.toUInt64 -
    (endTime.milliseconds - beginTime.milliseconds)).toUInt32.toInt32

/-! ## one iteration -/

/-- How far a call is: in its loop, or ended. -/
inductive SyncStatus
  | running
  | returned (result : Bool)
  | threw (e : BaseException)
  deriving DecidableEq, Repr

/-- Thrown by `IOWaitting`. -/
def pollFailed : BaseException :=
  { className := .syscallExecuteError, format := "Failed to execute cf_poll !" }

/-- The end of the loop's body, and the test at its top. -/
def afterChunk (totalLen hasDone : Nat) (timeoutMilliSeconds : Int32) : SyncStatus :=
  if timeoutMilliSeconds ≤ 0 then .returned false
  else if hasDone < totalLen then .running
  else .returned true

/-- A call of `SendSegmentSync`. -/
structure SendSync where
  hasDone : Nat
  timeoutMilliSeconds : Int32
  status : SyncStatus
  deriving DecidableEq, Repr

/-- What the clock, `poll` and `write` answer in one iteration.  No number
stands for -1, an error. -/
structure SendRound where
  beginTime : TimeVal
  poll : Option Nat
  len : Option Nat
  endTime : TimeVal
  deriving DecidableEq, Repr

/-- `SendSegmentSync` up to its loop. -/
def sendSegmentSync (totalLen hasDone : Nat) (timeoutMilliSeconds : Int32) : SendSync :=
  if totalLen = 0 then ⟨hasDone, timeoutMilliSeconds, .returned true⟩
  else ⟨0, timeoutMilliSeconds, .running⟩

/-- One iteration of its loop.  The kernel takes no more than it is offered. -/
def sendStep (totalLen : Nat) (segsize : Int) (s : SendSync) (r : SendRound) : Option SendSync :=
  match s.status with
  | .running =>
    match r.poll with
    | none => some { s with status := .threw pollFailed }
    | some 0 => some { s with status := .returned false }
    | some (_ + 1) =>
      match r.len with
      | none => some { s with status := .threw writeFailed }
      | some len =>
        let hasDone := s.hasDone + min len (lenLeft totalLen s.hasDone segsize)
        let timeout := charge s.timeoutMilliSeconds r.beginTime r.endTime
        some ⟨hasDone, timeout, afterChunk totalLen hasDone timeout⟩
  | _ => none

/-- A call of `RecvSegmentSync`. -/
structure RecvSync where
  hasDone : Nat
  received : List UInt8
  peerClosedWhenRead : Bool
  timeoutMilliSeconds : Int32
  status : SyncStatus
  deriving DecidableEq, Repr

/-- What the clock, `poll` and `read` answer in one iteration.  No bytes in
a successful `read` are the end of the stream. -/
structure RecvRound where
  beginTime : TimeVal
  poll : Option Nat
  bytes : Option (List UInt8)
  endTime : TimeVal
  deriving DecidableEq, Repr

/-- `RecvSegmentSync` up to its loop. -/
def recvSegmentSync (totalLen hasDone : Nat) (peerClosedWhenRead : Bool)
    (timeoutMilliSeconds : Int32) : RecvSync :=
  if totalLen = 0 then ⟨hasDone, [], peerClosedWhenRead, timeoutMilliSeconds, .returned true⟩
  else ⟨0, [], false, timeoutMilliSeconds, .running⟩

/-- One iteration of its loop.  The kernel gives no more than it is asked for. -/
def recvStep (totalLen : Nat) (segsize : Int) (s : RecvSync) (r : RecvRound) : Option RecvSync :=
  match s.status with
  | .running =>
    match r.poll with
    | none => some { s with status := .threw pollFailed }
    | some 0 => some { s with status := .returned false }
    | some (_ + 1) =>
      match r.bytes with
      | none => some { s with status := .threw writeFailed }
      | some bytes =>
        let bytes := bytes.take (lenLeft totalLen s.hasDone segsize)
        let received := s.received ++ bytes
        if bytes.length = 0 then
          some { s with peerClosedWhenRead := true, status := .returned true }
        else
          let hasDone := s.hasDone + bytes.length
          let timeout := charge s.timeoutMilliSeconds r.beginTime r.endTime
          some ⟨hasDone, received, s.peerClosedWhenRead, timeout,
            afterChunk totalLen hasDone timeout⟩
  | _ => none

/-! ## what an iteration does -/

/-- The bytes an iteration moves, if it comes to moving any. -/
def SendRound.chunk (totalLen : Nat) (segsize : Int) (s : SendSync) (r : SendRound) : Option Nat :=
  match r.poll, r.len with
  | some (_ + 1), some len => some (min len (lenLeft totalLen s.hasDone segsize))
  | _, _ => none

/-- The bytes an iteration moves; none at the end of the stream. -/
def RecvRound.chunk (totalLen : Nat) (segsize : Int) (s : RecvSync) (r : RecvRound) : Option Nat :=
  match r.poll, r.bytes with
  | some (_ + 1), some bytes =>
    let bytes := bytes.take (lenLeft totalLen s.hasDone segsize)
    if bytes.length = 0 then none else some bytes.length
  | _, _ => none

/-- An iteration moves a chunk and goes on with the time left, or ends the
call with the bytes and the time as they were. -/
theorem sendStep_cases {totalLen : Nat} {segsize : Int} {s t : SendSync} {r : SendRound}
    (h : sendStep totalLen segsize s r = some t) :
    s.status = .running ∧
      ((∃ len timeout, r.chunk totalLen segsize s = some len ∧
          timeout = charge s.timeoutMilliSeconds r.beginTime r.endTime ∧
          t = ⟨s.hasDone + len, timeout, afterChunk totalLen (s.hasDone + len) timeout⟩) ∨
        r.chunk totalLen segsize s = none ∧ t.status ≠ .running ∧
          t.status ≠ .returned true ∧ t.hasDone = s.hasDone ∧
          t.timeoutMilliSeconds = s.timeoutMilliSeconds) := by
  obtain ⟨hasDone, timeout, status⟩ := s
  obtain ⟨b, poll, len, e⟩ := r
  cases status with
  | returned result => cases h
  | threw e => cases h
  | running =>
      refine ⟨rfl, ?_⟩
      rcases poll with _ | _ | n
      · cases h; right; simp [SendRound.chunk]
      · cases h; right; simp [SendRound.chunk]
      · cases len with
        | none => cases h; right; simp [SendRound.chunk]
        | some len => cases h; left; exact ⟨_, _, rfl, rfl, rfl⟩

/-- The same, or the stream ends. -/
theorem recvStep_cases {totalLen : Nat} {segsize : Int} {s t : RecvSync} {r : RecvRound}
    (h : recvStep totalLen segsize s r = some t) :
    s.status = .running ∧
      ((∃ len timeout received, r.chunk totalLen segsize s = some len ∧
          timeout = charge s.timeoutMilliSeconds r.beginTime r.endTime ∧
          t = ⟨s.hasDone + len, received, s.peerClosedWhenRead, timeout,
            afterChunk totalLen (s.hasDone + len) timeout⟩) ∨
        r.chunk totalLen segsize s = none ∧ t.status ≠ .running ∧
          (t.status ≠ .returned true ∧ t.peerClosedWhenRead = s.peerClosedWhenRead ∨
            t.status = .returned true ∧ t.peerClosedWhenRead = true) ∧
          t.hasDone = s.hasDone ∧ t.timeoutMilliSeconds = s.timeoutMilliSeconds) := by
  obtain ⟨hasDone, received, closed, timeout, status⟩ := s
  obtain ⟨b, poll, bytes, e⟩ := r
  cases status with
  | returned result => cases h
  | threw e => cases h
  | running =>
      refine ⟨rfl, ?_⟩
      rcases poll with _ | _ | n
      · cases h; right; simp [RecvRound.chunk]
      · cases h; right; simp [RecvRound.chunk]
      · cases bytes with
        | none => cases h; right; simp [RecvRound.chunk]
        | some bytes =>
            simp only [recvStep] at h
            split at h
            · next hempty => cases h; right; simp [RecvRound.chunk, hempty]
            · next hbytes =>
                cases h
                left
                exact ⟨_, _, _, by simp only [RecvRound.chunk, if_neg hbytes], rfl, rfl⟩

/-- No chunk is longer than what is missing. -/
theorem SendRound.chunk_le {totalLen : Nat} {segsize : Int} {s : SendSync} {r : SendRound}
    {len : Nat} (h : r.chunk totalLen segsize s = some len) : len ≤ totalLen - s.hasDone := by
  have hle := lenLeft_le totalLen s.hasDone segsize
  unfold chunk at h
  split at h
  · cases h; omega
  · cases h

theorem RecvRound.chunk_le {totalLen : Nat} {segsize : Int} {s : RecvSync} {r : RecvRound}
    {len : Nat} (h : r.chunk totalLen segsize s = some len) : len ≤ totalLen - s.hasDone := by
  have hle := lenLeft_le totalLen s.hasDone segsize
  simp only [chunk] at h
  split at h
  · split at h
    · cases h
    · cases h
      simp only [List.length_take]
      omega
  · cases h

/-- An iteration takes nothing back, and moves no more than there is. -/
theorem sendStep_hasDone_le {totalLen : Nat} {segsize : Int} {s t : SendSync} {r : SendRound}
    (h : sendStep totalLen segsize s r = some t) (hle : s.hasDone ≤ totalLen) :
    s.hasDone ≤ t.hasDone ∧ t.hasDone ≤ totalLen := by
  obtain ⟨-, ⟨len, timeout, hchunk, -, rfl⟩ | ⟨-, -, -, hdone, -⟩⟩ := sendStep_cases h
  · have hlen := SendRound.chunk_le hchunk
    dsimp only
    omega
  · omega

/-- After a chunk there is more to move, or the call returns. -/
theorem hasDone_lt_of_afterChunk {totalLen hasDone : Nat} {timeout : Int32}
    (h : ∀ b, afterChunk totalLen hasDone timeout ≠ .returned b) : hasDone < totalLen := by
  unfold afterChunk at h
  split at h
  · exact absurd rfl (h false)
  · split at h
    · next hlt => exact hlt
    · exact absurd rfl (h true)

/-- A call that has not returned is not through. -/
theorem sendStep_unfinished {totalLen : Nat} {segsize : Int} {s t : SendSync} {r : SendRound}
    (h : sendStep totalLen segsize s r = some t) (hlt : s.hasDone < totalLen)
    (hret : ∀ b, t.status ≠ .returned b) : t.hasDone < totalLen := by
  obtain ⟨-, ⟨len, timeout, -, -, rfl⟩ | ⟨-, -, -, hdone, -⟩⟩ := sendStep_cases h
  · exact hasDone_lt_of_afterChunk hret
  · rwa [hdone]

theorem recvStep_unfinished {totalLen : Nat} {segsize : Int} {s t : RecvSync} {r : RecvRound}
    (h : recvStep totalLen segsize s r = some t) (hlt : s.hasDone < totalLen)
    (hret : ∀ b, t.status ≠ .returned b) : t.hasDone < totalLen := by
  obtain ⟨-, ⟨len, timeout, received, -, -, rfl⟩ | ⟨-, -, -, hdone, -⟩⟩ := recvStep_cases h
  · exact hasDone_lt_of_afterChunk hret
  · rwa [hdone]

/-- An iteration puts what it reads behind what was read. -/
theorem recvStep_received {totalLen : Nat} {segsize : Int} {s t : RecvSync} {r : RecvRound}
    (h : recvStep totalLen segsize s r = some t) :
    ∃ bytes, t.received = s.received ++ bytes ∧ t.hasDone = s.hasDone + bytes.length ∧
      bytes.length ≤ totalLen - s.hasDone := by
  have hle := lenLeft_le totalLen s.hasDone segsize
  have hsame : ∃ bytes : List UInt8, s.received = s.received ++ bytes ∧
      s.hasDone = s.hasDone + bytes.length ∧ bytes.length ≤ totalLen - s.hasDone := ⟨[], by simp⟩
  unfold recvStep at h
  split at h
  · split at h
    · cases h; exact hsame
    · cases h; exact hsame
    · split at h
      · cases h; exact hsame
      · next bytes _ =>
          dsimp only at h
          split at h
          · cases h; exact hsame
          · cases h
            refine ⟨bytes.take (lenLeft totalLen s.hasDone segsize), rfl, rfl, ?_⟩
            rw [List.length_take]
            omega
  · cases h

/-! ## the result -/

/-- A result is right: success where all bytes were moved or the peer has
closed, a time-out otherwise. -/
def RightResult (totalLen hasDone : Nat) (closed : Bool) (status : SyncStatus) : Prop :=
  ∀ result, status = .returned result → (result = true ↔ hasDone = totalLen ∨ closed = true)

/-- After a chunk the result is right unless the last byte leaves no time. -/
theorem rightResult_afterChunk {totalLen hasDone : Nat} (timeout : Int32)
    (h : hasDone ≤ totalLen) :
    RightResult totalLen hasDone false (afterChunk totalLen hasDone timeout) ↔
      (hasDone = totalLen → 0 < timeout) := by
  simp only [RightResult, afterChunk]
  by_cases htime : timeout ≤ 0
  · have hnot : ¬ 0 < timeout := Int32.not_lt.mpr htime
    simp [htime, hnot]
  · have hpos : 0 < timeout := Int32.not_le.mp htime
    by_cases hdone : hasDone < totalLen
    · simp [htime, hdone, hpos]
    · have heq : hasDone = totalLen := by omega
      simp [htime, hpos, heq]

/-- The chunk that completes the bytes leaves some time. -/
def SendRound.EndsInTime (totalLen : Nat) (segsize : Int) (s : SendSync) (r : SendRound) : Prop :=
  ∀ len, r.chunk totalLen segsize s = some len → s.hasDone + len = totalLen →
    0 < charge s.timeoutMilliSeconds r.beginTime r.endTime

def RecvRound.EndsInTime (totalLen : Nat) (segsize : Int) (s : RecvSync) (r : RecvRound) : Prop :=
  ∀ len, r.chunk totalLen segsize s = some len → s.hasDone + len = totalLen →
    0 < charge s.timeoutMilliSeconds r.beginTime r.endTime

/-- In its loop a call has bytes to send. -/
theorem sendStep_hasDone_lt {totalLen : Nat} {segsize : Int} {s t : SendSync} {r : SendRound}
    (h : sendStep totalLen segsize s r = some t) :
    t.status = .running → t.hasDone < totalLen := by
  obtain ⟨-, ⟨len, timeout, hchunk, -, rfl⟩ | ⟨-, hnot, -⟩⟩ := sendStep_cases h
  · simp only [afterChunk]
    split
    · simp
    · split
      · next hlt => exact fun _ => hlt
      · simp
  · exact fun ht => absurd ht hnot

theorem sendStep_rightResult_iff {totalLen : Nat} {segsize : Int} {s t : SendSync} {r : SendRound}
    (h : sendStep totalLen segsize s r = some t)
    (hs : s.status = .running → s.hasDone < totalLen) :
    RightResult totalLen t.hasDone false t.status ↔ r.EndsInTime totalLen segsize s := by
  obtain ⟨hrunning, ⟨len, timeout, hchunk, htimeout, rfl⟩ | ⟨hchunk, -, hnot, hdone, -⟩⟩ :=
    sendStep_cases h
  · have hle := SendRound.chunk_le hchunk
    have hlt := hs hrunning
    have htotal : s.hasDone + len ≤ totalLen := by omega
    rw [rightResult_afterChunk timeout htotal]
    simp [SendRound.EndsInTime, hchunk, htimeout]
  · have hlt := hs hrunning
    rw [← hdone] at hlt
    constructor
    · intro _ len hsome
      rw [hchunk] at hsome
      cases hsome
    · intro _ result hresult
      cases result with
      | true => exact absurd hresult hnot
      | false => simp; omega

/-- In its loop a call has bytes to receive, and has not seen the end of the
stream. -/
theorem recvStep_hasDone_lt {totalLen : Nat} {segsize : Int} {s t : RecvSync} {r : RecvRound}
    (h : recvStep totalLen segsize s r = some t)
    (hs : s.status = .running → s.hasDone < totalLen ∧ s.peerClosedWhenRead = false) :
    t.status = .running → t.hasDone < totalLen ∧ t.peerClosedWhenRead = false := by
  obtain ⟨hrunning, ⟨len, timeout, received, hchunk, -, rfl⟩ | ⟨-, hnot, -⟩⟩ := recvStep_cases h
  · simp only [afterChunk]
    split
    · simp
    · split
      · next hlt => exact fun _ => ⟨hlt, (hs hrunning).2⟩
      · simp
  · exact fun ht => absurd ht hnot

theorem recvStep_rightResult_iff {totalLen : Nat} {segsize : Int} {s t : RecvSync} {r : RecvRound}
    (h : recvStep totalLen segsize s r = some t)
    (hs : s.status = .running → s.hasDone < totalLen ∧ s.peerClosedWhenRead = false) :
    RightResult totalLen t.hasDone t.peerClosedWhenRead t.status ↔
      r.EndsInTime totalLen segsize s := by
  obtain ⟨hrunning, ⟨len, timeout, received, hchunk, htimeout, rfl⟩ |
    ⟨hchunk, -, hclosed, hdone, -⟩⟩ := recvStep_cases h
  · have hle := RecvRound.chunk_le hchunk
    obtain ⟨hlt, hopen⟩ := hs hrunning
    have htotal : s.hasDone + len ≤ totalLen := by omega
    rw [hopen, rightResult_afterChunk timeout htotal]
    simp [RecvRound.EndsInTime, hchunk, htimeout]
  · obtain ⟨hlt, hopen⟩ := hs hrunning
    rw [← hdone] at hlt
    constructor
    · intro _ len hsome
      rw [hchunk] at hsome
      cases hsome
    · intro _ result hresult
      rcases hclosed with ⟨hnot, hsame⟩ | ⟨htrue, hclosed⟩
      · cases result with
        | true => exact absurd hresult hnot
        | false => simp [hsame, hopen]; omega
      · rw [htrue] at hresult
        cases hresult
        simp [hclosed]

/-- A call reports what it did, whatever the clock and the kernel answer,
exactly if the iteration that completes the bytes leaves some of the time
given. -/
theorem segmentSync_right_iff {totalLen : Nat} (h : 0 < totalLen) (segsize : Int)
    (hasDone : Nat) (closed : Bool) (timeoutMilliSeconds : Int32) :
    (∀ rounds : List SendRound,
      (∀ rs, rs <+: rounds → ∀ t, run (sendStep totalLen segsize)
          (sendSegmentSync totalLen hasDone timeoutMilliSeconds) rs = some t →
        RightResult totalLen t.hasDone false t.status) ↔
      Along (sendStep totalLen segsize) (fun s r => r.EndsInTime totalLen segsize s)
        (sendSegmentSync totalLen hasDone timeoutMilliSeconds) rounds) ∧
    (∀ rounds : List RecvRound,
      (∀ rs, rs <+: rounds → ∀ t, run (recvStep totalLen segsize)
          (recvSegmentSync totalLen hasDone closed timeoutMilliSeconds) rs = some t →
        RightResult totalLen t.hasDone t.peerClosedWhenRead t.status) ↔
      Along (recvStep totalLen segsize) (fun s r => r.EndsInTime totalLen segsize s)
        (recvSegmentSync totalLen hasDone closed timeoutMilliSeconds) rounds) := by
  have hne : totalLen ≠ 0 := by omega
  rw [sendSegmentSync, recvSegmentSync, if_neg hne, if_neg hne]
  constructor
  · intro rounds
    apply forall_reached_iff_along
      (I := fun s : SendSync => RightResult totalLen s.hasDone false s.status)
      (J := fun s : SendSync => s.status = .running → s.hasDone < totalLen)
    · exact fun s r t ht _ => sendStep_hasDone_lt ht
    · exact fun s r t ht hs _ => sendStep_rightResult_iff ht hs
    · exact fun _ => h
    · simp [RightResult]
  · intro rounds
    apply forall_reached_iff_along
      (I := fun s : RecvSync => RightResult totalLen s.hasDone s.peerClosedWhenRead s.status)
      (J := fun s : RecvSync =>
        s.status = .running → s.hasDone < totalLen ∧ s.peerClosedWhenRead = false)
    · exact fun s r t => recvStep_hasDone_lt
    · exact fun s r t ht hs _ => recvStep_rightResult_iff ht hs
    · exact fun _ => ⟨h, rfl⟩
    · simp [RightResult]

/-- The clock at its start. -/
def TimeVal.zero : TimeVal := ⟨0, 0, by decide⟩

/-- A call with a second to spend that sends its byte at once is right. -/
theorem segmentSync_right_second : ∃ t,
    run (sendStep 1 (-1)) (sendSegmentSync 1 0 1000) [⟨.zero, some 1, some 1, .zero⟩] = some t ∧
      RightResult 1 t.hasDone false t.status := by
  have hright := (segmentSync_right_iff (by decide : 0 < 1) (-1) 0 false 1000).1
    [⟨.zero, some 1, some 1, .zero⟩]
  refine ⟨_, rfl, hright.mpr ?_ _ (List.prefix_refl _) _ rfl⟩
  refine fun u _ => ⟨fun len _ _ => ?_, trivial⟩
  decide

/-- Without a limit a call that moves its only byte at once reports a
time-out. -/
theorem not_right_noLimit :
    (run (sendStep 1 (-1)) (sendSegmentSync 1 0 (-1)) [⟨.zero, some 1, some 1, .zero⟩] =
        some ⟨1, -1, .returned false⟩ ∧
      ¬ RightResult 1 1 false (.returned false)) ∧
    (run (recvStep 1 (-1)) (recvSegmentSync 1 0 false (-1)) [⟨.zero, some 1, some [7], .zero⟩] =
        some ⟨1, [7], false, -1, .returned false⟩ ∧
      ¬ RightResult 1 1 false (.returned false)) := by
  have hwrong : ¬ RightResult 1 1 false (.returned false) := by simp [RightResult]
  exact ⟨⟨by decide, hwrong⟩, by decide, hwrong⟩

end CppFastDevelop
