import CppFastDevelop.Lib.Columns
import CppFastDevelop.Log.LogCache

/-!
# CppFastDevelop.Log.LogNonCache

`cl::log::LogNonCache` (`cl_log.hpp`): every record is put together in
`_destBuf`, in columns of fixed widths, and written to the file at once.
`Write` and `WriteVerbose` differ in their columns.

A record is defined exactly if it fits `_destBuf` (`compose_eq_some_iff`); no
length of a name and no number is too large for its column.
-/

namespace CppFastDevelop

open CString Columns
open LogCache (Cursor)

/-! ## data -/

/-- `LEVEL`; `COUNT` counts them. -/
inductive LEVEL
  | DEBUG
  | INFO
  | NOTICE
  | WARN
  | ERROR
  | CRIT
  | FATAL
  deriving DecidableEq, Repr

/-- The value of the enumerator. -/
def LEVEL.value : LEVEL → Nat
  | .DEBUG => 0
  | .INFO => 1
  | .NOTICE => 2
  | .WARN => 3
  | .ERROR => 4
  | .CRIT => 5
  | .FATAL => 6

def LEVELNAME : LEVEL → List UInt8
  | .DEBUG => ofString "D"
  | .INFO => ofString "I"
  | .NOTICE => ofString "N"
  | .WARN => ofString "W"
  | .ERROR => ofString "E"
  | .CRIT => ofString "C"
  | .FATAL => ofString "F"

def MAX_MSG_LEN : Nat := 8192

/-- The arguments of `Write`, which are also the first ones of
`WriteVerbose`.  A text is the memory at its pointer. -/
structure LogMessage where
  level : LEVEL
  buf : List UInt8
  len : UInt64
  fileName : List UInt8
  lineNum : UInt64
  deriving DecidableEq, Repr

/-- What `write` answers: it takes all it is given, or fewer bytes, or
fails. -/
inductive WriteAnswer
  | all
  | short (n : Nat)
  | failed
  deriving DecidableEq, Repr

namespace WriteAnswer

/-- The bytes that reach the file. -/
def taken (bytes : List UInt8) : WriteAnswer → List UInt8
  | .all => bytes
  | .short n => bytes.take n
  | .failed => []

def result (bytes : List UInt8) : WriteAnswer → Int
  | .failed => -1
  | a => (a.taken bytes).length

end WriteAnswer

/-- `LogNonCache`.  `sent` only watches: the bytes `write` has taken. -/
structure LogNonCache where
  level : LEVEL
  lastSeconds : Int
  lastTimeCache : List UInt8
  destBuf : List UInt8
  idx : Int
  sent : List UInt8
  deriving DecidableEq, Repr

namespace LogNonCache

/-- The constructor.  The arrays and `_idx` are left as they are. -/
def construct (lastTimeCache destBuf : List UInt8) (idx : Int) : LogNonCache where
  level := .NOTICE
  lastSeconds := 0
  lastTimeCache := lastTimeCache
  destBuf := destBuf
  idx := idx
  sent := []

def setLevel (level : LEVEL) (l : LogNonCache) : LogNonCache := { l with level := level }

/-! ## Write and WriteVerbose -/

/-- The text of `_lastTimeCache`. -/
def timeText (gmt : Tm) : List UInt8 :=
  padLeft 4 ' ' (signed (gmt.tm_year + 1900)) ++ signedZeros 2 (gmt.tm_mon + 1) ++
    signedZeros 2 gmt.tm_mday ++ ofString " " ++ signedZeros 2 gmt.tm_hour ++ ofString ":" ++
    signedZeros 2 gmt.tm_min ++ ofString ":" ++ signedZeros 2 gmt.tm_sec

/-- `_lastSeconds` is never set. -/
def timeCache (l : LogNonCache) (tv : Timeval) : Option (List UInt8) :=
  if tv.tv_sec ≠ l.lastSeconds then store l.lastTimeCache 0 (snprintf 18 (timeText tv.gmt))
  else some l.lastTimeCache

/-- What `Write` prints behind the time. -/
def writeColumns (m : LogMessage) (tv : Timeval) (name : List UInt8) : List Column :=
  [⟨5, ofString "." ++ signedZeros 3 tv.tv_usec⟩,
    ⟨3, ofString " " ++ LEVELNAME m.level⟩,
    ⟨32, ofString " " ++ name ++ ofString ":"⟩,
    ⟨6, signedZeros 4 ((m.lineNum.toNat : Int).bmod (2 ^ 32)) ++ ofString " "⟩]

/-- What `WriteVerbose` does. -/
def writeVerboseColumns (pid : Int) (tid : UInt64) (m : LogMessage) (tv : Timeval)
    (name : List UInt8) : List Column :=
  [⟨5, ofString "." ++ signedZeros 3 tv.tv_usec⟩,
    ⟨3, ofString " " ++ LEVELNAME m.level⟩,
    ⟨16, ofString " p" ++ signed pid⟩,
    ⟨16, ofString " t" ++ unsigned (tid.toNat % 2 ^ 32)⟩,
    ⟨32, name ++ ofString ":"⟩,
    ⟨6, signedZeros 4 ((m.lineNum.toNat : Int).bmod (2 ^ 32)) ++ ofString " "⟩]

/-- `cf_snprintf(_destBuf+_idx,width,..)` and `_idx +=width`, for one column
after the other. -/
def printColumns : List Column → Cursor → Option Cursor
  | [], c => some c
  | column :: columns, c => do
    let c ← c.put (snprintf column.width column.text)
    printColumns columns (c.advance column.width)

/-- `cf_memcpy(_destBuf+_idx,..)`, and `_idx` behind it. -/
def copy (bytes : List UInt8) (c : Cursor) : Option Cursor := do
  let c ← c.put bytes
  some (c.advance bytes.length)

/-- The record in `_destBuf`. -/
def compose (l : LogNonCache) (columns : List UInt8 → List Column) (m : LogMessage)
    (tv : Timeval) : Option LogNonCache := do
  let lastTimeCache ← l.timeCache tv
  let time ← load lastTimeCache 0 17
  let c ← copy time ⟨List.replicate MAX_MSG_LEN 0, 0⟩
  let name ← cstr m.fileName
  let c ← printColumns (columns name) c
  let message ← load m.buf 0 m.len.toNat
  let c ← copy message c
  let c ← copy (ofString "\n") c
  some { l with lastTimeCache := lastTimeCache, destBuf := c.slot, idx := c.idx }

/-- `write( _fd,_destBuf,_idx )`. -/
def send (l : LogNonCache) (answer : WriteAnswer) : Option (LogNonCache × Int) := do
  let bytes ← load l.destBuf 0 l.idx.toNat
  some ({ l with sent := l.sent ++ answer.taken bytes }, answer.result bytes)

/-- What is done under the mutex. -/
def record (l : LogNonCache) (columns : List UInt8 → List Column) (m : LogMessage)
    (tv : Timeval) (answer : WriteAnswer) : Option (LogNonCache × Int) := do
  let l ← l.compose columns m tv
  l.send answer

/-- The level is too low: nothing is written. -/
def Ignores (l : LogNonCache) (m : LogMessage) : Prop := m.level.value < l.level.value

instance (l : LogNonCache) (m : LogMessage) : Decidable (l.Ignores m) :=
  inferInstanceAs (Decidable (m.level.value < l.level.value))

/-- Both functions; `tv` is what the clock says, if it does. -/
def writeWith (l : LogNonCache) (columns : Timeval → List UInt8 → List Column) (m : LogMessage)
    (tv : Option Timeval) (answer : WriteAnswer) :
    Option (Except BaseException (LogNonCache × Int)) :=
  if l.Ignores m then some (.ok (l, 0))
  else match tv with
    | none => some (.error LogCache.clockFailed)
    | some tv => do
      let r ← l.record (columns tv) m tv answer
      some (.ok r)

def write (l : LogNonCache) (m : LogMessage) : Option Timeval → WriteAnswer →
    Option (Except BaseException (LogNonCache × Int)) :=
  l.writeWith (writeColumns m) m

def writeVerbose (l : LogNonCache) (m : LogMessage) (pid : Int) (tid : UInt64) :
    Option Timeval → WriteAnswer → Option (Except BaseException (LogNonCache × Int)) :=
  l.writeWith (writeVerboseColumns pid tid m) m

/-! ## the record -/

/-- `_destBuf` and `_idx` while only the front has been written. -/
def front (bytes : List UInt8) : Cursor := ⟨page MAX_MSG_LEN bytes, bytes.length⟩

/-- The cursor goes on behind what was copied. -/
theorem advance_front (bytes more : List UInt8) :
    (Cursor.mk (page MAX_MSG_LEN (bytes ++ more)) bytes.length).advance more.length =
      front (bytes ++ more) := by
  simp only [Cursor.advance, front, List.length_append, Int.natCast_add]

/-- What is copied is put behind what is there, as long as it fits. -/
theorem copy_front {bytes more : List UInt8} (h : bytes.length + more.length ≤ MAX_MSG_LEN) :
    copy more (front bytes) = some (front (bytes ++ more)) := by
  rw [← advance_front]
  simp only [copy, Cursor.put, front, store_page h, Option.bind_eq_bind, Option.bind_some]

/-- A copy that leaves `_destBuf`. -/
theorem copy_front_eq_none {bytes more : List UInt8} (hbytes : bytes.length ≤ MAX_MSG_LEN)
    (h : MAX_MSG_LEN < bytes.length + more.length) : copy more (front bytes) = none := by
  simp only [copy, Cursor.put, front, store_page_eq_none hbytes h, Option.bind_eq_bind,
    Option.bind_none]

/-- The message and the end of the line, if there is room for both. -/
theorem copy_message {bytes : List UInt8} (h : bytes.length ≤ MAX_MSG_LEN)
    (message : List UInt8) :
    ((copy message (front bytes)).bind fun c => copy (ofString "\n") c) =
      if bytes.length + message.length < MAX_MSG_LEN then
        some (front (bytes ++ message ++ [newline])) else none := by
  have hend : ofString "\n" = [newline] := by decide
  by_cases hmessage : bytes.length + message.length ≤ MAX_MSG_LEN
  · have hlen : (bytes ++ message).length = bytes.length + message.length := List.length_append
    rw [copy_front hmessage, Option.bind_some, hend]
    split
    · exact copy_front (by rw [hlen, List.length_singleton]; omega)
    · exact copy_front_eq_none (by omega) (by rw [hlen, List.length_singleton]; omega)
  · rw [copy_front_eq_none h (by omega), Option.bind_none, if_neg (by omega)]

/-- The columns are side by side, whatever their texts. -/
theorem printColumns_front {cs : List Column} (hpos : ∀ c ∈ cs, 0 < c.width)
    {bytes : List UInt8} (h : bytes.length + (widths cs).sum ≤ MAX_MSG_LEN) :
    printColumns cs (front bytes) = some (front (bytes ++ row cs)) := by
  induction cs generalizing bytes with
  | nil => rw [printColumns, row, List.map_nil, List.flatten_nil, List.append_nil]
  | cons c cs ih =>
      have hwidth := hpos c List.mem_cons_self
      have hsum : (widths (c :: cs)).sum = c.width + (widths cs).sum := by
        rw [widths, List.map_cons, List.sum_cons, widths]
      have hshown := c.length_shown_le
      have hstored : (snprintf c.width c.text).length ≤ c.width := by
        rw [length_snprintf (by omega)]
        omega
      have hput : (front bytes).put (snprintf c.width c.text) =
          some ⟨page MAX_MSG_LEN (bytes ++ c.bytes), bytes.length⟩ := by
        simp only [Cursor.put, front, store_page (show bytes.length +
          (snprintf c.width c.text).length ≤ MAX_MSG_LEN by omega), Option.bind_eq_bind,
          Option.bind_some, Column.page_snprintf hwidth (show bytes.length + c.width ≤ MAX_MSG_LEN
            by omega)]
      have hadvance := advance_front bytes c.bytes
      rw [c.length_bytes] at hadvance
      have hfits : (bytes ++ c.bytes).length + (widths cs).sum ≤ MAX_MSG_LEN := by
        rw [List.length_append, c.length_bytes]
        omega
      have hrest := ih (fun d hd => hpos d (List.mem_cons_of_mem c hd)) hfits
      simp only [printColumns, hput, Option.bind_eq_bind, Option.bind_some, hadvance, hrest, row,
        List.map_cons, List.flatten_cons, List.append_assoc]

/-- A year has four characters at least. -/
theorem length_timeText (gmt : Tm) : 17 ≤ (timeText gmt).length := by
  have hzeros (n : Int) : 2 ≤ (signedZeros 2 n).length := by
    unfold signedZeros
    split <;> simp only [padLeft, List.length_cons, List.length_append, List.length_replicate] <;>
      omega
  have hyear (s : List UInt8) : 4 ≤ (padLeft 4 ' ' s).length := by
    simp only [padLeft, List.length_append, List.length_replicate]
    omega
  have hblank (c : String) : (ofString c).length = c.toList.length := length_ofString c
  have hyear := hyear (signed (gmt.tm_year + 1900))
  have hmon := hzeros (gmt.tm_mon + 1)
  have hmday := hzeros gmt.tm_mday
  have hhour := hzeros gmt.tm_hour
  have hmin := hzeros gmt.tm_min
  have hsec := hzeros gmt.tm_sec
  simp only [timeText, List.length_append, hblank, String.reduceToList, List.length_cons,
    List.length_nil]
  omega

/-- The first column: 17 characters, without a terminator. -/
def timeShown (gmt : Tm) : List UInt8 := (timeText gmt).take 17

/-- A time shown takes 17 bytes. -/
theorem length_timeShown (gmt : Tm) : (timeShown gmt).length = 17 := by
  have h := length_timeText gmt
  rw [timeShown, List.length_take]
  omega

/-- The time is printed anew for every record but those of second 0. -/
theorem timeCache_eq {l : LogNonCache} {tv : Timeval} (hcache : l.lastTimeCache.length = 18)
    (hsec : tv.tv_sec ≠ l.lastSeconds) : l.timeCache tv = some (timeShown tv.gmt ++ [0]) := by
  have hprinted : snprintf 18 (timeText tv.gmt) = timeShown tv.gmt ++ [0] := rfl
  rw [timeCache, if_pos hsec, hprinted, store_front, List.drop_eq_nil_of_le, List.append_nil] <;>
    simp only [List.length_append, length_timeShown, List.length_cons, List.length_nil] <;> omega

/-- Whatever the clock says, there is a text of the same length. -/
theorem exists_timeCache {l : LogNonCache} (hcache : l.lastTimeCache.length = 18) (tv : Timeval) :
    ∃ time, l.timeCache tv = some time ∧ time.length = 18 := by
  by_cases hsec : tv.tv_sec = l.lastSeconds
  · exact ⟨_, if_neg (not_not_intro hsec), hcache⟩
  · refine ⟨_, timeCache_eq hcache hsec, ?_⟩
    rw [List.length_append, length_timeShown, List.length_singleton]

/-- The first 17 bytes of the cached time can be read. -/
theorem load_time {time : List UInt8} (h : time.length = 18) :
    load time 0 17 = some (time.take 17) := load_front.mpr ⟨by omega, rfl⟩

/-- The line of a record, with the text of `_lastTimeCache`. -/
def line (time : List UInt8) (columns : List Column) (message : List UInt8) : List UInt8 :=
  time.take 17 ++ row columns ++ message

/-- The length of a line is that of its time, its columns and its message. -/
theorem length_line {time : List UInt8} (h : time.length = 18) (columns : List Column)
    (message : List UInt8) :
    (line time columns message).length = 17 + (widths columns).sum + message.length := by
  rw [line, List.length_append, List.length_append, length_row, List.length_take]
  omega

/-- `_destBuf` and `_idx` when the record is done. -/
def composed (l : LogNonCache) (time : List UInt8) (columns : List Column)
    (message : List UInt8) : LogNonCache where
  level := l.level
  lastSeconds := l.lastSeconds
  lastTimeCache := time
  destBuf := page MAX_MSG_LEN (line time columns message ++ [newline])
  idx := (line time columns message ++ [newline]).length
  sent := l.sent

/-- The same with what `write` makes of it. -/
def recorded (l : LogNonCache) (time : List UInt8) (columns : List Column)
    (message : List UInt8) (answer : WriteAnswer) : LogNonCache :=
  { l.composed time columns message with
    sent := l.sent ++ answer.taken (line time columns message ++ [newline]) }

section Recorded

variable (l : LogNonCache) (time : List UInt8) (columns : List Column) (message : List UInt8)
  (answer : WriteAnswer)

theorem lastSeconds_recorded :
    (l.recorded time columns message answer).lastSeconds = l.lastSeconds := by
  simp only [recorded, composed]

theorem lastTimeCache_recorded :
    (l.recorded time columns message answer).lastTimeCache = time := by
  simp only [recorded, composed]

theorem sent_recorded : (l.recorded time columns message answer).sent =
    l.sent ++ answer.taken (line time columns message ++ [newline]) := by
  simp only [recorded]

end Recorded

section Record

variable {l : LogNonCache} {columns : List UInt8 → List Column} {m : LogMessage} {tv : Timeval}
  {time : List UInt8} (htime : l.timeCache tv = some time) (hlen : time.length = 18)

include hlen

/-- A line that fits is sent with its newline, and the answer of `write` is returned. -/
theorem send_composed {columns : List Column} {message : List UInt8} (answer : WriteAnswer)
    (hfits : 17 + (widths columns).sum + message.length < MAX_MSG_LEN) :
    (l.composed time columns message).send answer =
      some (l.recorded time columns message answer,
        answer.result (line time columns message ++ [newline])) := by
  have hline : (line time columns message ++ [newline]).length ≤ MAX_MSG_LEN := by
    rw [List.length_append, length_line hlen, List.length_singleton]
    omega
  simp only [send, composed, Int.toNat_natCast, load_page hline, Option.bind_eq_bind,
    Option.bind_some, recorded]

variable (hpos : ∀ name, ∀ c ∈ columns name, 0 < c.width)
  (hwidths : ∀ name, 17 + (widths (columns name)).sum ≤ MAX_MSG_LEN)

include htime hpos hwidths

/-- A record is defined exactly if it fits `_destBuf`. -/
theorem compose_eq_some_iff {l' : LogNonCache} :
    l.compose columns m tv = some l' ↔ ∃ name message, cstr m.fileName = some name ∧
      load m.buf 0 m.len.toNat = some message ∧
      17 + (widths (columns name)).sum + message.length < MAX_MSG_LEN ∧
      l' = l.composed time (columns name) message := by
  have hblank : (⟨List.replicate MAX_MSG_LEN 0, 0⟩ : Cursor) = front [] := by
    rw [front, page_nil, List.length_nil, Int.natCast_zero]
  have hmax : MAX_MSG_LEN = 8192 := rfl
  have hshown : (time.take 17).length = 17 := by rw [List.length_take]; omega
  have hcopy : copy (time.take 17) (front []) = some (front ([] ++ time.take 17)) :=
    copy_front (by rw [List.length_nil]; omega)
  rw [List.nil_append] at hcopy
  simp only [compose, htime, load_time hlen, hblank, hcopy, Option.bind_eq_bind, Option.bind_some]
  cases hname : cstr m.fileName with
  | none => simp
  | some name =>
      have hfits : (time.take 17).length + (widths (columns name)).sum ≤ MAX_MSG_LEN := by
        rw [hshown]
        exact hwidths name
      have hcolumns := printColumns_front (hpos name) hfits
      simp only [Option.bind_some, hcolumns]
      cases hmessage : load m.buf 0 m.len.toNat with
      | none => simp
      | some message =>
          have hrow : (time.take 17 ++ row (columns name)).length =
              17 + (widths (columns name)).sum := by
            rw [List.length_append, hshown, length_row]
          simp only [Option.bind_some, Option.some.injEq, exists_eq_left', exists_and_left]
          rw [← Option.bind_assoc, copy_message (by rw [hrow]; exact hwidths name), hrow]
          split
          · next hfits => simp only [Option.bind_some, Option.some.injEq, hfits, true_and, eq_comm,
              composed, line, front]
          · next hlong => simp [hlong]

/-- A record that fits goes to the file as one line; nothing else is
defined. -/
theorem record_eq_some_iff {answer : WriteAnswer} {r : LogNonCache × Int} :
    l.record columns m tv answer = some r ↔ ∃ name message, cstr m.fileName = some name ∧
      load m.buf 0 m.len.toNat = some message ∧
      17 + (widths (columns name)).sum + message.length < MAX_MSG_LEN ∧
      r = (l.recorded time (columns name) message answer,
        answer.result (line time (columns name) message ++ [newline])) := by
  rw [record, Option.bind_eq_bind, Option.bind_eq_some_iff]
  constructor
  · rintro ⟨l', hcompose, hsend⟩
    obtain ⟨name, message, hname, hmessage, hfits, rfl⟩ :=
      (compose_eq_some_iff htime hlen hpos hwidths).mp hcompose
    rw [send_composed hlen answer hfits] at hsend
    exact ⟨name, message, hname, hmessage, hfits, (Option.some.inj hsend).symm⟩
  · rintro ⟨name, message, hname, hmessage, hfits, rfl⟩
    exact ⟨_, (compose_eq_some_iff htime hlen hpos hwidths).mpr
      ⟨name, message, hname, hmessage, hfits, rfl⟩, send_composed hlen answer hfits⟩

end Record

end LogNonCache

end CppFastDevelop
