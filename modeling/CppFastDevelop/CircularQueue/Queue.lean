import CppFastDevelop.CircularQueue.Operation

/-!
# CppFastDevelop.CircularQueue.Queue

`CircularQueue` (`cl_circular_queue.hpp`, `cl_circular_queue.cpp`).  A call
runs under the queue's mutex from `LockGuard` to the end of its block; only
`_cond->Wait` gives the mutex up in between.  A call is therefore cut at
`Wait`: `timedPut` and `timedGet` run from the start of the call to its end
or to the first `Wait`, `timedPutWake` and `timedGetWake` from the return
of a `Wait` to the end or to the next one.  Each returns `none` when the
call is over and its local variables when it is in `Wait`.

`Signal` and `Broadcast`, issued after the mutex is released, touch the
condition variable only and belong to the model of the threads.
-/

namespace CppFastDevelop

open Exec

/-- What a caller hands to `Put`.  The bytes lie in the same address space as
the queue's memory, which is bigger than a header, so their number and a
header's size add up without wrapping. -/
structure Payload where
  bytes : List UInt8
  length_lt : bytes.length + 24 < 2 ^ 64

namespace Payload

/-- The argument `size`. -/
def size (p : Payload) : UInt64 := UInt64.ofNat p.bytes.length

/-- The argument `pData`. -/
def pData (p : Payload) : Mem := Mem.ofList p.bytes

/-- The size told of a payload is the length of its bytes. -/
@[simp] theorem toNat_size (p : Payload) : p.size.toNat = p.bytes.length :=
  Words.toNat_ofNat_of_lt (by have := p.length_lt; omega)

end Payload

/-- A handle: `_qMetaOp`, `_elementOp` and `_cond` all point into the shared
memory, so a handle has nothing of its own but the flag it was created with. -/
structure CircularQueue where
  creator : Bool
  deriving DecidableEq, Repr

/-- Local variables of `TimedPut` inside `_cond->Wait`; `timed` tells the two
wait loops apart. -/
structure PutWait where
  pData : Mem
  size : UInt64
  elementSize : UInt64
  timed : Bool
  timeoutMilliseconds : Int32
  start : Int64

/-- Local variables of `TimedGet` inside `_cond->Wait`. -/
structure GetWait where
  timed : Bool
  timeoutMilliseconds : Int32
  start : Int64
  deriving DecidableEq, Repr

namespace CircularQueue

open QMetaOp

/-- The constructor.  Without `creator` the memory is taken as it is. -/
def construct (creator : Bool) (memSize : UInt64) : Op CircularQueue := do
  if creator then QMetaOp.create memSize
  return ⟨creator⟩

/-- Reads the last operation's process id and looks it up under `/proc`; the
branch for a dead owner is empty. -/
def checkProcessAndRestoreLock (env : Environment) : Op Unit := do
  let pid := (← getMeta).operationPid
  if pid ≤ 0 then return
  else if !env.procAccessible then return -- Lock owner dead!
  else return

/-! ## what a call throws -/

def timeoutInfo : BaseException := ⟨.timeoutInfo, "Time out of _cond->Wait !", []⟩

def putStopped : BaseException :=
  ⟨.stopPutException, "_qMetaOp->IsStopPut() || _qMetaOp->IsStopPutAndGet() !", []⟩

def getStopped : BaseException :=
  ⟨.stopPutAndGetException, "_qMetaOp->IsStopPutAndGet() !", []⟩

def putTooSmall (elementSize qTotalSize : UInt64) : BaseException :=
  ⟨.sizeTooSmallException,
    "elementSize >_qMetaOp->TotalSize() ,elementSize =%ld ,qTotalSize =%ld !",
    [elementSize.toNat, qTotalSize.toNat]⟩

def putFull : BaseException :=
  ⟨.queueFullException, "Queue is full, elementSize > leftSize !", []⟩

def getEmpty : BaseException := ⟨.queueFullException, "Queue is full, 0==elementCount !", []⟩

/-! ## stopping -/

/-- Takes and releases the mutex; `Broadcast` follows. -/
def stopPut (_self : CircularQueue) (env : Environment) : Op Unit :=
  checkProcessAndRestoreLock env

/-- Takes and releases the mutex; `Broadcast` follows. -/
def stopPutAndGet (_self : CircularQueue) (env : Environment) : Op Unit :=
  checkProcessAndRestoreLock env

/-! ## putting -/

/-- The end of `TimedPut`, behind its wait loops. -/
def timedPutFinish (f : PutWait) (env : Environment) : Op Unit := do
  let m ← getMeta
  throwIf (isStopPut m ∨ isStopPutAndGet m) putStopped
  throwIf (f.elementSize > m.qLeftSize) ⟨.valueError, "elementSize > leftSize wait !", []⟩
  ElementOp.write f.pData f.size env

/-- One evaluation of the loop condition of either wait loop of `TimedPut`. -/
def timedPutLoop (f : PutWait) (env : Environment) : Op (Option PutWait) := do
  let m ← getMeta
  if (isStopPut m = false ∨ isStopPutAndGet m = false) ∧ f.elementSize > m.qLeftSize then do
    throwIf (f.timed ∧ f.timeoutMilliseconds ≤ 0) timeoutInfo
    return some f
  else do
    timedPutFinish f env
    return none

/-- `TimedPut`, from its start; `start` is the clock at the timed loop. -/
def timedPut (_self : CircularQueue) (pData : Mem) (size : UInt64)
    (timeoutMilliseconds : Int32) (start : Int64) (env : Environment) : Op (Option PutWait) := do
  checkProcessAndRestoreLock env
  let m ← getMeta
  throwIf (isStopPut m ∨ isStopPutAndGet m) putStopped
  let elementSize := size + headerSize
  throwIf (elementSize > m.qTotalSize) (putTooSmall elementSize m.qTotalSize)
  let f : PutWait :=
    ⟨pData, size, elementSize, decide (0 < timeoutMilliseconds), timeoutMilliseconds, start⟩
  if elementSize > m.qLeftSize then do
    throwIf (timeoutMilliseconds = 0) putFull
    timedPutLoop f env
  else do
    timedPutFinish f env
    return none

/-- `TimedPut` after `Wait`: `signalled` is what the timed `Wait` returned,
`now` the clock after it.  The remaining time is an `int`. -/
def timedPutWake (f : PutWait) (signalled : Bool) (now : Int64) (env : Environment) :
    Op (Option PutWait) :=
  if f.timed then do
    throwIf (!signalled) timeoutInfo
    timedPutLoop
      { f with timeoutMilliseconds := f.timeoutMilliseconds - (now - f.start).toInt32 } env
  else timedPutLoop f env

def put (self : CircularQueue) (pData : Mem) (size : UInt64) (env : Environment) :
    Op (Option PutWait) :=
  timedPut self pData size (-1) 0 env

def tryPut (self : CircularQueue) (pData : Mem) (size : UInt64) (env : Environment) :
    Op (Option PutWait) :=
  timedPut self pData size 0 0 env

/-! ## getting -/

/-- The end of `TimedGet`, behind its wait loops. -/
def timedGetFinish (env : Environment) : Op Unit := do
  let m ← getMeta
  throwIf (isStopPutAndGet m) getStopped
  throwIf (0 = m.elementCount) ⟨.valueError, "0==elementCount before Read() !", []⟩
  ElementOp.read env

/-- One evaluation of the loop condition of either wait loop of `TimedGet`. -/
def timedGetLoop (f : GetWait) (env : Environment) : Op (Option GetWait) := do
  let m ← getMeta
  if isStopPutAndGet m = false ∧ 0 = m.elementCount then do
    throwIf (f.timed ∧ f.timeoutMilliseconds ≤ 0) timeoutInfo
    return some f
  else do
    timedGetFinish env
    return none

/-- `TimedGet`, from its start; `start` is the clock at the timed loop. -/
def timedGet (_self : CircularQueue) (timeoutMilliseconds : Int32) (start : Int64)
    (env : Environment) : Op (Option GetWait) := do
  checkProcessAndRestoreLock env
  let m ← getMeta
  throwIf (isStopPutAndGet m) getStopped
  if 0 = m.elementCount then do
    throwIf (timeoutMilliseconds = 0) getEmpty
    timedGetLoop ⟨decide (0 < timeoutMilliseconds), timeoutMilliseconds, start⟩ env
  else do
    timedGetFinish env
    return none

/-- `TimedGet` after `Wait`. -/
def timedGetWake (f : GetWait) (signalled : Bool) (now : Int64) (env : Environment) :
    Op (Option GetWait) :=
  if f.timed then do
    throwIf (!signalled) timeoutInfo
    timedGetLoop
      { f with timeoutMilliseconds := f.timeoutMilliseconds - (now - f.start).toInt32 } env
  else timedGetLoop f env

def get (self : CircularQueue) (env : Environment) : Op (Option GetWait) :=
  timedGet self (-1) 0 env

def tryGet (self : CircularQueue) (env : Environment) : Op (Option GetWait) :=
  timedGet self 0 0 env

end CircularQueue

end CppFastDevelop
