import CppFastDevelop.Exception
import CppFastDevelop.Lib.CString
import Mathlib.Algebra.GroupWithZero.Nat
import Mathlib.Algebra.Group.Int.Defs

/-!
# CppFastDevelop.Log.LogCache

`cl::log::LogCache` (`cl_log_commons.hpp`, `cl_log_cache.hpp`,
`cl_log_cache.cpp`): log records are put together in the slots of
`_destBuf`, one after the other, and written to the file when the slots are
used up.  The message is in the slot before `Write` is called: `GetBuf`
points into the slot behind the place of the prefix.

What the code does with pointers into a slot is done with offsets here.  An
access out of its slot, or to a slot that is not there, has no defined
behaviour, and what leads to one is `none`.
-/

namespace CppFastDevelop

open CString

/-! ## commons -/

/-- `CLLEVEL`; `COUNT` counts them. -/
inductive CLLEVEL
  | TRACE
  | DEBUG
  | INFO
  | WARN
  | ERROR
  | FATAL
  deriving DecidableEq, Repr

/-- The value of the enumerator. -/
def CLLEVEL.value : CLLEVEL → Nat
  | .TRACE => 0
  | .DEBUG => 1
  | .INFO => 2
  | .WARN => 3
  | .ERROR => 4
  | .FATAL => 5

def logcacheLevelName : CLLEVEL → List UInt8
  | .TRACE => ofString "TRACE"
  | .DEBUG => ofString "DEBUG"
  | .INFO => ofString " INFO"
  | .WARN => ofString " WARN"
  | .ERROR => ofString "ERROR"
  | .FATAL => ofString "FATAL"

def CL_LOG_MAX_MSG_LEN : Nat := 8192

def CL_LOG_PREFIX_LEN : Nat := 33

def CL_LOG_SUFFIX_LEN : Nat := 200

/-! ## data -/

/-- What `gmtime_r` makes of a time; the fields are those of `struct tm`. -/
structure Tm where
  tm_year : Int
  tm_mon : Int
  tm_mday : Int
  tm_hour : Int
  tm_min : Int
  tm_sec : Int
  deriving DecidableEq, Repr

/-- What `gettimeofday` stores, and what `gmtime_r` makes of it. -/
structure Timeval where
  tv_sec : Int
  tv_usec : Nat
  gmt : Tm
  deriving DecidableEq, Repr

/-- The arguments of `Write`.  A name is the memory at its pointer. -/
structure LogCall where
  level : CLLEVEL
  len : UInt64
  fileName : List UInt8
  lineNum : UInt64
  funcName : List UInt8
  pid : Int
  tid : UInt64
  deriving DecidableEq, Repr

/-- `LogCache`.  `sent` only watches: the bytes `write` has taken. -/
structure LogCache where
  fd : Int
  level : CLLEVEL
  lastTimeCache : List UInt8
  destBuf : List (List UInt8)
  idx : List Int
  currentLoop : Int
  lastSeconds : Int
  lastPid : Int
  lastTid : UInt64
  pidtidCache : List UInt8
  sent : List UInt8
  deriving DecidableEq, Repr

namespace LogCache

/-- The constructor.  It leaves the 19 bytes of `_lastTimeCache` as they
are. -/
def construct (lastTimeCache : List UInt8) : LogCache where
  fd := -1
  level := .TRACE
  lastTimeCache := lastTimeCache
  destBuf := []
  idx := []
  currentLoop := 0
  lastSeconds := 0
  lastPid := 0
  lastTid := 0
  pidtidCache := []
  sent := []

def allocBuf (max_msg_len max_loop : Nat) (l : LogCache) : LogCache :=
  { l with
    destBuf := l.destBuf ++ List.replicate max_loop (List.replicate max_msg_len 0)
    idx := l.idx ++ List.replicate max_loop 0 }

def openFailed : BaseException := ⟨.syscallExecuteError, "Failed to execute cf_open !", []⟩

/-- `Init` with what `cf_open` returned. -/
def init (fd : Int) (max_msg_len max_loop : Nat) (l : LogCache) : Except BaseException LogCache :=
  if fd = -1 then .error openFailed else .ok (allocBuf max_msg_len max_loop { l with fd := fd })

def setLevel (level : CLLEVEL) (l : LogCache) : LogCache := { l with level := level }

/-! ## the slots -/

/-- `&(_destBuf[i][0])`. -/
def slot (l : LogCache) (i : Int) : Option (List UInt8) :=
  if 0 ≤ i then l.destBuf[i.toNat]? else none

/-- What is written of slot `i`. -/
def record (l : LogCache) (i : Int) : Option (List UInt8) := do
  let slot ← l.slot i
  let idx ← l.idx[i.toNat]?
  if 0 ≤ idx then load slot 0 idx.toNat else none

/-- The bytes of the first `n` turns of the loop of `Flush`. -/
def flushLoop (l : LogCache) : Nat → Option (List UInt8)
  | 0 => some []
  | n + 1 => do
    let bytes ← flushLoop l n
    let record ← l.record n
    some (bytes ++ record)

/-- `write` takes all it is given. -/
def flush (l : LogCache) : Option LogCache :=
  if l.currentLoop = 0 then some l
  else do
    let bytes ← l.flushLoop l.currentLoop.toNat
    some { l with sent := l.sent ++ bytes, currentLoop := 0 }

/-- The destructor, which may close the file then. -/
def destroy (l : LogCache) : Option LogCache := l.flush

def getBufLen : Nat := CL_LOG_MAX_MSG_LEN - CL_LOG_PREFIX_LEN

/-- The caller writes behind the pointer that `GetBuf` returns. -/
def fillBuf (l : LogCache) (off : Nat) (bytes : List UInt8) : Option LogCache := do
  let slot ← l.slot l.currentLoop
  let slot ← store slot (CL_LOG_PREFIX_LEN + off) bytes
  some { l with destBuf := l.destBuf.set l.currentLoop.toNat slot }

/-! ## Write -/

/-- The slot being written, and its `_idx`. -/
structure Cursor where
  slot : List UInt8
  idx : Int

namespace Cursor

/-- Write bytes at `p+idx`. -/
def put (c : Cursor) (bytes : List UInt8) : Option Cursor := do
  let slot ← store c.slot c.idx bytes
  some { c with slot := slot }

/-- `idx +=n`. -/
def advance (c : Cursor) (n : Int) : Cursor := { c with idx := c.idx + n }

end Cursor

/-- The text of `_lastTimeCache`. -/
def timeText (gmt : Tm) : List UInt8 :=
  padLeft 4 ' ' (signed (gmt.tm_year + 1900)) ++ signedZeros 2 (gmt.tm_mon + 1) ++
    signedZeros 2 gmt.tm_mday ++ ofString " " ++ signedZeros 2 gmt.tm_hour ++ ofString ":" ++
    signedZeros 2 gmt.tm_min ++ ofString ":" ++ signedZeros 2 gmt.tm_sec ++ ofString "."

/-- `_lastSeconds` is never set. -/
def timeCache (l : LogCache) (tv : Timeval) : Option (List UInt8) :=
  if tv.tv_sec ≠ l.lastSeconds then store l.lastTimeCache 0 (snprintf 19 (timeText tv.gmt))
  else some l.lastTimeCache

/-- "Write prefix." -/
def writePrefix (lastTimeCache : List UInt8) (tv : Timeval) (level : CLLEVEL)
    (slot : List UInt8) : Option Cursor := do
  let time ← load lastTimeCache 0 18
  let c ← (Cursor.mk slot 0).put time
  let c := c.advance 18
  let text := signedZeros 6 tv.tv_usec ++ ofString " " ++
    padLeft 6 ' ' (logcacheLevelName level) ++ ofString " "
  let c ← c.put (snprintf 15 text)
  let c := c.advance text.length
  let c ← c.put (ofString " ")
  some (c.advance 1)

/-- The text of `_pidtidCache`. -/
def pidtidText (pid : Int) (tid : UInt64) : List UInt8 :=
  ofString " [pid:" ++ signed pid ++ ofString " tid:" ++ unsigned (tid.toNat % 2 ^ 32) ++
    ofString "  "

/-- The process and the thread, from the cache if they are those of the last
call. -/
def writePidtid (l : LogCache) (call : LogCall) (c : Cursor) : Option (LogCache × Cursor) :=
  if call.pid = l.lastPid ∧ call.tid = l.lastTid then do
    let c ← c.put l.pidtidCache
    some (l, c.advance (l.pidtidCache.length - 1))
  else do
    let text := pidtidText call.pid call.tid
    let c ← c.put (snprintf CL_LOG_SUFFIX_LEN text)
    let cached ← load c.slot c.idx text.length
    some ({ l with pidtidCache := cached, lastPid := call.pid, lastTid := call.tid },
      c.advance (text.length - 1))

/-- A name: 128 bytes are copied, whatever its length. -/
def writeName (name : List UInt8) (c : Cursor) : Option Cursor := do
  let bytes ← load name 0 128
  let c ← c.put bytes
  let n ← strlen name
  some (c.advance n)

/-- "Write suffix.", where there is room for it.  The message stays where it
is. -/
def writeSuffix (l : LogCache) (call : LogCall) (c : Cursor) : Option (LogCache × Cursor) := do
  let c := { c with idx := (c.idx + call.len.toNat).bmod (2 ^ 32) }
  let (l, c) ← writePidtid l call c
  let c ← writeName call.fileName c
  let c ← c.put (ofString ":")
  let c := c.advance 1
  let text := signed ((call.lineNum.toNat : Int).bmod (2 ^ 32)) ++ ofString " "
  let c ← c.put (snprintf 6 text)
  let c := c.advance text.length
  let c ← writeName call.funcName c
  let c ← c.put (ofString "]\n")
  some (l, c.advance 2)

/-- Where there is no room the record takes the whole slot. -/
def writeTruncated (c : Cursor) : Option Cursor := do
  let c ← Cursor.put ⟨c.slot, CL_LOG_MAX_MSG_LEN - 1⟩ (ofString "\n")
  some (c.advance 1)

/-- The test is made in `size_t`. -/
def HasRoom (idx : Int) (len : UInt64) : Prop :=
  (idx + len.toNat + CL_LOG_SUFFIX_LEN) % 2 ^ 64 < CL_LOG_MAX_MSG_LEN

instance (idx : Int) (len : UInt64) : Decidable (HasRoom idx len) :=
  inferInstanceAs (Decidable ((idx + len.toNat + CL_LOG_SUFFIX_LEN) % 2 ^ 64 < CL_LOG_MAX_MSG_LEN))

/-- The record of a call, put together in the current slot. -/
def compose (l : LogCache) (tv : Timeval) (call : LogCall) : Option (LogCache × Cursor) := do
  let slot ← l.slot l.currentLoop
  let lastTimeCache ← l.timeCache tv
  let l := { l with lastTimeCache := lastTimeCache }
  let c ← writePrefix lastTimeCache tv call.level slot
  if HasRoom c.idx call.len then writeSuffix l call c
  else do
    let c ← writeTruncated c
    some (l, c)

/-- The current slot is done. -/
def finish (l : LogCache) (c : Cursor) : Option LogCache :=
  let l := { l with
    destBuf := l.destBuf.set l.currentLoop.toNat c.slot
    idx := l.idx.set l.currentLoop.toNat c.idx
    currentLoop := l.currentLoop + 1 }
  if l.currentLoop = l.destBuf.length then l.flush else some l

def clockFailed : BaseException :=
  ⟨.syscallExecuteError, "Failed to execute gettimeofday !", []⟩

/-- `Write`; `tv` is what the clock says, if it does. -/
def write (l : LogCache) (tv : Option Timeval) (call : LogCall) :
    Option (Except BaseException LogCache) :=
  if call.level.value < l.level.value then some (.ok l)
  else match tv with
    | none => some (.error clockFailed)
    | some tv => do
      let (l, c) ← l.compose tv call
      let l ← l.finish c
      some (.ok l)

end LogCache

end CppFastDevelop
