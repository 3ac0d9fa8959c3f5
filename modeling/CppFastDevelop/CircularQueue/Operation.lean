import CppFastDevelop.CircularQueue.Def

/-!
# CppFastDevelop.CircularQueue.Operation

`QMetaOp` and `ElementOp` (`cl_queue_operation.hpp`, `cl_queue_operation.cpp`):
creation of the queue, the stop flags, and the element writer and reader
with their five routes each.  The routes carry the numbers the source gives
them in its `route` comments.

Indices are `cf_uint64`: every `+` and `-` below wraps.  Pointer arithmetic
on `_pQueue` is arithmetic on the position in the element region.
-/

namespace CppFastDevelop

open RingBuffer Exec

/-! ## access to the shared memory -/

/-- The metadata block. -/
def getMeta : Op QMeta := do return (← get).pMeta

def modifyMeta (f : QMeta → QMeta) : Op Unit := modify fun w => { w with pMeta := f w.pMeta }

/-- An unsigned subtraction, recorded. -/
def sub (a b : UInt64) : Op UInt64 := do
  modify fun w => { w with accesses := w.accesses ++ [.sub a b] }
  return a - b

/-- `cf_memcpy(_pQueue + pos, p + off, n)`. -/
def copyToQueue (pos : UInt64) (src : Place) (cap : Nat) (p : Mem) (off n : UInt64) : Op Unit :=
  modify fun w => { w with
    pQueue := copy w.pQueue pos.toNat p off.toNat n.toNat
    accesses := w.accesses ++
      [.copy ⟨.region, w.pMeta.qTotalSize.toNat, pos.toNat⟩ ⟨src, cap, off.toNat⟩ n.toNat] }

/-- `cf_memcpy(ph + off, _pQueue + pos, n)`, `ph` the local header. -/
def copyToHeader (ph : Mem) (off pos n : UInt64) : Op Mem := do
  modify fun w => { w with
    accesses := w.accesses ++
      [.copy ⟨.header, 24, off.toNat⟩ ⟨.region, w.pMeta.qTotalSize.toNat, pos.toNat⟩ n.toNat] }
  return copy ph off.toNat (← get).pQueue pos.toNat n.toNat

/-- `data.resize(size, '0')`. -/
def resizeData (size : UInt64) : Op Unit :=
  modify fun w => { w with data := w.data.resize size.toNat }

/-- `cf_memcpy(&(data[0]) + off, _pQueue + pos, n)`. -/
def copyToData (off pos n : UInt64) : Op Unit :=
  modify fun w => { w with
    data := { w.data with chars := copy w.data.chars off.toNat w.pQueue pos.toNat n.toNat }
    accesses := w.accesses ++
      [.copy ⟨.data, w.data.size, off.toNat⟩ ⟨.region, w.pMeta.qTotalSize.toNat, pos.toNat⟩
        n.toNat] }

def setHeadIndex (i : UInt64) : Op Unit := modifyMeta fun m => { m with headIndex := i }

def setTailIndex (i : UInt64) : Op Unit := modifyMeta fun m => { m with tailIndex := i }

/-- The object 24 bytes of a header buffer represent. -/
def headerOf (ph : Mem) : ElementHeader := .ofBytes (slice ph 0 24)

private def valueError (format : String) (args : List UInt64 := []) : BaseException :=
  ⟨.valueError, format, args.map fun a => (a.toNat : Int)⟩

/-! ## QMetaOp -/

namespace QMetaOp

/-- The constructor with `creator == true`.  `memset` clears the whole
`QMeta` object, the first bytes of the region with it. -/
def create (memSize : UInt64) : Op Unit := do
  throwIf (memSize ≤ metaSize + headerSize)
    ⟨.sizeTooSmallException, "memSize\x7b%ld\x7d<=MetaSize()\x7b%ld\x7d+HeaderSize()\x7b%ld\x7d !",
      [memSize.toNat, metaSize.toNat, headerSize.toNat]⟩
  modify fun w => { w with
    pMeta := {
      magic := [48, 67, 70, 68]
      version := [48, 48, 48, 49]
      qTotalSize := memSize - metaSize
      qLeftSize := memSize - metaSize
      elementCount := 0
      headIndex := 0
      tailIndex := 0
      serialNO := 0
      operationTime := -1
      operationPid := 0
      extention := [0, 0, 0, 0]
      status := .Q_NOMAL }
    pQueue := fun i => if i < metaOverlap then 0 else w.pQueue i }

def stopPut : Op Unit := modifyMeta fun m => { m with status := .Q_STOP2PUT }

def stopPutAndGet : Op Unit := modifyMeta fun m => { m with status := .Q_STOP2PUTANDGET }

def isStopPut (m : QMeta) : Bool := m.status = .Q_STOP2PUT

def isStopPutAndGet (m : QMeta) : Bool := m.status = .Q_STOP2PUTANDGET

end QMetaOp

/-! ## ElementOp -/

namespace ElementOp

inductive EQueueScene
  | scene1 -- head > tail
  | scene2 -- head < tail
  | scene3 -- head == tail, count == 0
  | scene4 -- head == tail, count != 0
  deriving DecidableEq, Repr

inductive EWriteCase
  | case1 -- over-head > sizeof(Element), write all of the element
  | case2 -- over-head = sizeof(Element), write all of the element
  | case3 -- over-head < sizeof(ElementHeader), only write some header
  | case4 -- over-head > sizeof(ElementHeader) && < sizeof(Element), only write some body
  | case5 -- over-head = sizeof(ElementHeader), only write the header
  deriving DecidableEq, Repr

/-- The value of the enumerator, as stored in `ElementHeader::writeCase`. -/
def EWriteCase.toByte : EWriteCase → UInt8
  | .case1 => 1
  | .case2 => 2
  | .case3 => 3
  | .case4 => 4
  | .case5 => 5

def queueScene : Op EQueueScene := do
  let m ← getMeta
  if m.headIndex > m.tailIndex then return .scene1
  else if m.headIndex < m.tailIndex then return .scene2
  else if 0 = m.elementCount then return .scene3
  else if 0 ≠ m.elementCount then return .scene4
  else throw (valueError "eQueueScene error ! ")

def queueWriteCase (bodySize : UInt64) : Op EWriteCase := do
  let m ← getMeta
  throwIf (m.qTotalSize < m.headIndex + 1)
    (valueError "_pMeta->qTotalSize\x7b%ld\x7d < _pMeta->headIndex\x7b%ld\x7d+1 !"
      [m.qTotalSize, m.headIndex])
  if m.qTotalSize > m.headIndex + headerSize + bodySize then return .case1
  else if m.qTotalSize = m.headIndex + headerSize + bodySize then return .case2
  else if m.qTotalSize < m.headIndex + headerSize then return .case3
  else if m.qTotalSize > m.headIndex + headerSize ∧
      m.qTotalSize < m.headIndex + headerSize + bodySize then return .case4
  else if m.qTotalSize = m.headIndex + headerSize then return .case5
  else throw (valueError "eWriteCase error !")

/-- `qTotalSize < headIndex + 1`, checked on entry to and exit from `read`
and `write`. -/
def checkHeadIndex : Op Unit := do
  let m ← getMeta
  throwIf (m.qTotalSize < m.headIndex + 1)
    (valueError "_pMeta->qTotalSize\x7b%lu\x7d < _pMeta->headIndex\x7b%lu\x7d+1 "
      [m.qTotalSize, m.headIndex])

/-! ### write -/

/-- Header and body at `headIndex`. -/
def writeRoute1 (cs : EWriteCase) (ph pData : Mem) (size : UInt64) : Op Unit := do
  let m ← getMeta
  copyToQueue m.headIndex .header 24 ph 0 headerSize
  copyToQueue (m.headIndex + headerSize) .payload size.toNat pData 0 size
  if cs = .case1 then setHeadIndex (m.headIndex + (size + headerSize)) else setHeadIndex 0

/-- The header is split over the end of the region. -/
def writeRoute2 (ph pData : Mem) (size : UInt64) : Op Unit := do
  let m ← getMeta
  let size0 ← sub m.qTotalSize m.headIndex
  let size1 ← sub headerSize size0
  copyToQueue m.headIndex .header 24 ph 0 size0
  copyToQueue 0 .header 24 ph size0 size1
  copyToQueue size1 .payload size.toNat pData 0 size
  setHeadIndex (size + size1)

/-- The body is split over the end of the region. -/
def writeRoute3 (ph pData : Mem) (size : UInt64) : Op Unit := do
  let m ← getMeta
  copyToQueue m.headIndex .header 24 ph 0 headerSize
  let rest ← sub m.qTotalSize m.headIndex
  let size0 ← sub rest headerSize
  let size1 ← sub size size0
  copyToQueue (m.headIndex + headerSize) .payload size.toNat pData 0 size0
  copyToQueue 0 .payload size.toNat pData size0 size1
  setHeadIndex size1

/-- The header ends flush with the region, the body starts at its beginning. -/
def writeRoute4 (ph pData : Mem) (size : UInt64) : Op Unit := do
  let m ← getMeta
  copyToQueue m.headIndex .header 24 ph 0 headerSize
  copyToQueue 0 .payload size.toNat pData 0 size
  setHeadIndex size

/-- Header and body between `headIndex` and `tailIndex`. -/
def writeRoute5 (ph pData : Mem) (size : UInt64) : Op Unit := do
  let m ← getMeta
  copyToQueue m.headIndex .header 24 ph 0 headerSize
  copyToQueue (m.headIndex + headerSize) .payload size.toNat pData 0 size
  setHeadIndex (m.headIndex + (headerSize + size))

/-- The choice of a route.  The source's last `else` of the inner chain has
no counterpart: an `eWriteCase` has no sixth value. -/
def writeRoutes (scene : EQueueScene) (cs : EWriteCase) (ph pData : Mem) (size : UInt64) :
    Op Unit :=
  match scene with
  | .scene1 | .scene3 =>
    match cs with
    | .case1 | .case2 => writeRoute1 cs ph pData size
    | .case3 => writeRoute2 ph pData size
    | .case4 => writeRoute3 ph pData size
    | .case5 => writeRoute4 ph pData size
  | .scene2 => do
    let m ← getMeta
    throwIf (m.tailIndex < m.headIndex + headerSize + size)
      (valueError " _pMeta->tailIndex\x7b%lu\x7d < _pMeta->headIndex\x7b%lu\x7d+sizeof(h)\x7b%lu\x7d+size\x7b%lu\x7d "
        [m.tailIndex, m.headIndex, headerSize, size])
    writeRoute5 ph pData size
  | .scene4 => throw (valueError "write QueueScene error ! scene=%d" [4])

/-- The header `write` builds for a body of `size` bytes. -/
def writeHeader (cs : EWriteCase) (size : UInt64) (env : Environment) : ElementHeader where
  writeCase := cs.toByte
  extention := #v[48, 48, 48]
  padding := env.padding
  bodyLen := size
  operationTime := env.headerTime

/-- The bookkeeping behind every write route. -/
def finishWrite (size : UInt64) (env : Environment) : Op Unit := do
  let left ← sub (← getMeta).qLeftSize (headerSize + size)
  modifyMeta fun m => { m with
    qLeftSize := left
    elementCount := m.elementCount + 1
    serialNO := m.serialNO + 1
    operationTime := env.operationTime
    operationPid := env.pid
    extention := [0, 0, 0, 0] }
  checkHeadIndex

def write (pData : Mem) (size : UInt64) (env : Environment) : Op Unit := do
  throwIf (0 = size) (valueError "0==size !")
  checkHeadIndex
  let scene ← queueScene
  let cs ← queueWriteCase size
  let ph := Mem.ofList (writeHeader cs size env).toBytes
  writeRoutes scene cs ph pData size
  finishWrite size env

/-! ### read -/

private def zeroBodyLen : BaseException := valueError " 0==h.bodyLen !"

/-- The element lies between `tailIndex` and `headIndex`. -/
def readRoute1 (ph : Mem) : Op UInt64 := do
  let m ← getMeta
  throwIf (m.headIndex < m.tailIndex + headerSize)
    (valueError "_pMeta->headIndex\x7b%lu\x7d< _pMeta->tailIndex\x7b%lu\x7d+sizeof(h)\x7b%lu\x7d"
      [m.headIndex, m.tailIndex, headerSize])
  let h := headerOf (← copyToHeader ph 0 m.tailIndex headerSize)
  throwIf (0 = h.bodyLen) zeroBodyLen
  throwIf (m.headIndex < m.tailIndex + headerSize + h.bodyLen)
    (valueError "_pMeta->headIndex\x7b%lu\x7d < _pMeta->tailIndex\x7b%lu\x7d+sizeof(h)\x7b%lu\x7d+h.bodyLen\x7b%lu\x7d"
      [m.headIndex, m.tailIndex, headerSize, h.bodyLen])
  resizeData h.bodyLen
  copyToData 0 (m.tailIndex + headerSize) h.bodyLen
  setTailIndex (m.tailIndex + (headerSize + h.bodyLen))
  return h.bodyLen

/-- The element was written in one piece. -/
def readRoute2 (cs : UInt8) (ph : Mem) : Op UInt64 := do
  let m ← getMeta
  let h := headerOf (← copyToHeader ph 0 m.tailIndex headerSize)
  throwIf (0 = h.bodyLen) zeroBodyLen
  throwIf (m.qTotalSize < m.tailIndex + headerSize + h.bodyLen)
    (valueError " _pMeta->qTotalSize\x7b%lu\x7d < _pMeta->tailIndex\x7b%lu\x7d+sizeof(h)\x7b%lu\x7d+h.bodyLen\x7b%lu\x7d"
      [m.qTotalSize, m.tailIndex, headerSize, h.bodyLen])
  resizeData h.bodyLen
  copyToData 0 (m.tailIndex + headerSize) h.bodyLen
  if cs = 1 then setTailIndex (m.tailIndex + (headerSize + h.bodyLen)) else setTailIndex 0
  return h.bodyLen

/-- The header was split over the end of the region. -/
def readRoute3 (ph : Mem) : Op UInt64 := do
  let m ← getMeta
  let size0 ← sub m.qTotalSize m.tailIndex
  let size1 ← sub headerSize size0
  let ph ← copyToHeader ph 0 m.tailIndex size0
  let h := headerOf (← copyToHeader ph size0 0 size1)
  throwIf (0 = h.bodyLen) zeroBodyLen
  throwIf (m.headIndex - 0 < size1 + h.bodyLen)
    (valueError " _pMeta->headIndex\x7b%lu\x7d-0 < size1\x7b%lu\x7d+h.bodyLen\x7b%lu\x7d"
      [m.headIndex, size1, h.bodyLen])
  resizeData h.bodyLen
  copyToData 0 size1 h.bodyLen
  setTailIndex (size1 + h.bodyLen)
  return h.bodyLen

/-- The body was split over the end of the region. -/
def readRoute4 (ph : Mem) : Op UInt64 := do
  let m ← getMeta
  let h := headerOf (← copyToHeader ph 0 m.tailIndex headerSize)
  throwIf (0 = h.bodyLen) zeroBodyLen
  throwIf (m.qTotalSize < m.tailIndex + headerSize + 1)
    (valueError " _pMeta->qTotalSize\x7b%lu\x7d < _pMeta->tailIndex\x7b%lu\x7d+sizeof(h)\x7b%lu\x7d+1 "
      [m.qTotalSize, m.tailIndex, headerSize])
  resizeData h.bodyLen
  let rest ← sub m.qTotalSize m.tailIndex
  let size0 ← sub rest headerSize
  let size1 ← sub h.bodyLen size0
  copyToData 0 (m.tailIndex + headerSize) size0
  copyToData size0 0 size1
  setTailIndex size1
  return h.bodyLen

/-- The header ended flush with the region. -/
def readRoute5 (ph : Mem) : Op UInt64 := do
  let m ← getMeta
  throwIf (m.qTotalSize ≠ m.tailIndex + headerSize)
    (valueError "_pMeta->qTotalSize\x7b%lu\x7d != _pMeta->tailIndex\x7b%lu\x7d+sizeof(h)\x7b%lu\x7d "
      [m.qTotalSize, m.tailIndex, headerSize])
  let h := headerOf (← copyToHeader ph 0 m.tailIndex headerSize)
  throwIf (0 = h.bodyLen) zeroBodyLen
  resizeData h.bodyLen
  copyToData 0 0 h.bodyLen
  setTailIndex h.bodyLen
  return h.bodyLen

/-- The choice of a route by the case byte stored in the element. -/
def readCase (ph : Mem) : Op UInt64 := do
  let m ← getMeta
  throwIf (m.qTotalSize < m.tailIndex + 1)
    (valueError " _pMeta->qTotalSize\x7b%lu\x7d < _pMeta->tailIndex\x7b%lu\x7d+1"
      [m.qTotalSize, m.tailIndex])
  let ph ← copyToHeader ph 0 m.tailIndex 1
  let cs := (headerOf ph).writeCase
  if cs = 1 ∨ cs = 2 then readRoute2 cs ph
  else if cs = 3 then readRoute3 ph
  else if cs = 4 then readRoute4 ph
  else if cs = 5 then readRoute5 ph
  else throw (valueError "read QueueWriteCase error ! cs=%d" [cs.toUInt64])

/-- The choice of a route. -/
def readRoutes (scene : EQueueScene) (ph : Mem) : Op UInt64 :=
  match scene with
  | .scene1 => readRoute1 ph
  | .scene2 | .scene4 => readCase ph
  | .scene3 => throw (valueError "read QueueScene error ! scene=%d" [3])

/-- The bookkeeping behind every read route. -/
def finishRead (size : UInt64) (env : Environment) : Op Unit := do
  let count ← sub (← getMeta).elementCount 1
  modifyMeta fun m => { m with
    qLeftSize := m.qLeftSize + (headerSize + size)
    elementCount := count
    serialNO := m.serialNO + 1
    operationTime := env.operationTime
    operationPid := env.pid
    extention := [0, 0, 0, 0] }
  checkHeadIndex

def read (env : Environment) : Op Unit := do
  let scene ← queueScene
  checkHeadIndex
  let size ← readRoutes scene env.stack
  finishRead size env

end ElementOp

end CppFastDevelop
