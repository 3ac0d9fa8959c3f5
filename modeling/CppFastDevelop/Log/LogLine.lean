import CppFastDevelop.Log.LogNonCache

/-!
# CppFastDevelop.Log.LogLine

A line of the log, and what is read from it.  `LogRequest.tells` is what a call
has to say, as far as there is room for it: the columns are narrow, so only
the first digits of the microseconds and of a long line number are shown, and
of the thread's number the lower half.  `readLine` reads a line column by
column, and gives just that back (`readLine_line`).
-/

namespace CppFastDevelop

open CString Columns

/-! ## calls -/

inductive LogRequest
  | write (m : LogMessage)
  | writeVerbose (m : LogMessage) (pid : Int) (tid : UInt64)
  deriving DecidableEq, Repr

/-- The widths of the columns that the two functions print. -/
def columnWidths (verbose : Bool) : List Nat :=
  if verbose then [5, 3, 16, 16, 32, 6] else [5, 3, 32, 6]

/-- The columns of a line, with its time, fit the buffer. -/
theorem sum_columnWidths_le (verbose : Bool) : 17 + (columnWidths verbose).sum ≤ MAX_MSG_LEN := by
  cases verbose <;> decide

namespace LogRequest

def message : LogRequest → LogMessage
  | .write m => m
  | .writeVerbose m _ _ => m

def verbose : LogRequest → Bool
  | .write _ => false
  | .writeVerbose _ _ _ => true

def columns (tv : Timeval) : LogRequest → List UInt8 → List Column
  | .write m => LogNonCache.writeColumns m tv
  | .writeVerbose m pid tid => LogNonCache.writeVerboseColumns pid tid m tv

/-- The whole call. -/
def apply (l : LogNonCache) (tv : Option Timeval) (answer : WriteAnswer) :
    LogRequest → Option (Except BaseException (LogNonCache × Int))
  | .write m => l.write m tv answer
  | .writeVerbose m pid tid => l.writeVerbose m pid tid tv answer

/-- What a request says does not change how wide its columns are. -/
theorem widths_columns (r : LogRequest) (tv : Timeval) (name : List UInt8) :
    Columns.widths (r.columns tv name) = columnWidths r.verbose := by
  cases r <;> rfl

/-- Every column has room for something. -/
theorem pos_of_mem_columns {r : LogRequest} {tv : Timeval} {name : List UInt8} {c : Column}
    (hc : c ∈ r.columns tv name) : 0 < c.width := by
  have hmem : c.width ∈ columnWidths r.verbose :=
    r.widths_columns tv name ▸ List.mem_map_of_mem hc
  have hpos (verbose : Bool) : ∀ w ∈ columnWidths verbose, 0 < w := by cases verbose <;> decide
  exact hpos r.verbose c.width hmem

/-- The name of a level holds no byte that ends a column. -/
theorem clean_levelName (level : LEVEL) : Clean (LEVELNAME level) := by
  cases level <;> decide

/-- Nothing that is printed ends a column or a line but a name that does. -/
theorem clean_columns (r : LogRequest) (tv : Timeval) {name : List UInt8} (hname : Clean name) :
    ∀ c ∈ r.columns tv name, Clean c.text := by
  have hblank : Clean (ofString " ") := by decide
  have hcolon : Clean (ofString ":") := by decide
  have hdot : Clean (ofString ".") := by decide
  have hpid : Clean (ofString " p") := by decide
  have htid : Clean (ofString " t") := by decide
  intro c hc
  cases r with
  | write m =>
      simp only [columns, LogNonCache.writeColumns, List.mem_cons, List.not_mem_nil, or_false] at hc
      rcases hc with rfl | rfl | rfl | rfl
      · exact hdot.append (clean_signedZeros _ _)
      · exact hblank.append (clean_levelName _)
      · exact (hblank.append hname).append hcolon
      · exact (clean_signedZeros _ _).append hblank
  | writeVerbose m pid tid =>
      simp only [columns, LogNonCache.writeVerboseColumns, List.mem_cons, List.not_mem_nil,
        or_false] at hc
      rcases hc with rfl | rfl | rfl | rfl | rfl | rfl
      · exact hdot.append (clean_signedZeros _ _)
      · exact hblank.append (clean_levelName _)
      · exact hpid.append (clean_signed _)
      · exact htid.append (clean_unsigned _)
      · exact hname.append hcolon
      · exact (clean_signedZeros _ _).append hblank

/-- What is done under the mutex, for either function. -/
theorem record_iff (r : LogRequest) {l : LogNonCache} {tv : Timeval} {answer : WriteAnswer}
    {time : List UInt8} {x : LogNonCache × Int} (htime : l.timeCache tv = some time)
    (hlen : time.length = 18) :
    l.record (r.columns tv) r.message tv answer = some x ↔ ∃ name message,
      cstr r.message.fileName = some name ∧
      load r.message.buf 0 r.message.len.toNat = some message ∧
      17 + (columnWidths r.verbose).sum + message.length < MAX_MSG_LEN ∧
      x = (l.recorded time (r.columns tv name) message answer,
        answer.result (LogNonCache.line time (r.columns tv name) message ++ [newline])) := by
  rw [LogNonCache.record_eq_some_iff htime hlen (fun _ _ => pos_of_mem_columns)
    fun name => by rw [r.widths_columns]; exact sum_columnWidths_le r.verbose]
  simp only [r.widths_columns]

end LogRequest

/-- A time shown holds no byte that ends a column. -/
theorem clean_timeShown (gmt : Tm) : Clean (LogNonCache.timeShown gmt) := by
  have hblank : Clean (ofString " ") := by decide
  have hcolon : Clean (ofString ":") := by decide
  have hzeros (n : Int) : Clean (signedZeros 2 n) := clean_signedZeros 2 n
  have hyear : Clean (padLeft 4 ' ' (signed (gmt.tm_year + 1900))) :=
    clean_padLeft (by decide) (clean_signed (gmt.tm_year + 1900))
  have hdate := (hyear.append (hzeros (gmt.tm_mon + 1))).append (hzeros gmt.tm_mday)
  have htime := (((((hdate.append hblank).append (hzeros gmt.tm_hour)).append hcolon).append
    (hzeros gmt.tm_min)).append hcolon).append (hzeros gmt.tm_sec)
  exact htime.take 17

/-! ## what is on a line -/

/-- What is read from a line. -/
structure LogLine where
  gmt : Tm
  usec : Int
  level : LEVEL
  pidtid : Option (Int × Int)
  fileName : List UInt8
  lineNum : Int
  message : List UInt8
  deriving DecidableEq, Repr

/-- What a call has to say, as far as there is room: three digits of the
microseconds, five of the line number, the lower half of the thread's number,
and 29 or 30 characters of the file name. -/
def LogRequest.tells (tv : Timeval) (r : LogRequest) : Option LogLine := do
  let name ← cstr r.message.fileName
  let message ← load r.message.buf 0 r.message.len.toNat
  some {
    gmt := tv.gmt
    usec := leading 3 tv.tv_usec
    level := r.message.level
    pidtid := match r with
      | .write _ => none
      | .writeVerbose _ pid tid => some (pid, tid.toNat % 2 ^ 32)
    fileName := name.take (if r.verbose then 30 else 29)
    lineNum := leading 5 r.message.lineNum.toNat
    message := message }

/-! ## reading a line -/

/-- The fields of a time, with the signs between them. -/
def readTime (text : List UInt8) : Option Tm :=
  match [4, 2, 2, 1, 2, 1, 2, 1, 2].splitLengths text with
  | [year, mon, mday, _, hour, _, min, _, sec] => do
    some ⟨(← number year) - 1900, (← number mon) - 1, ← number mday, ← number hour,
      ← number min, ← number sec⟩
  | _ => none

def readLevel (text : List UInt8) : Option LEVEL :=
  [LEVEL.DEBUG, .INFO, .NOTICE, .WARN, .ERROR, .CRIT, .FATAL].find? fun level =>
    LEVELNAME level == text

/-- A line of one of the functions, column by column. -/
def readLine (verbose : Bool) (line : List UInt8) : Option LogLine := do
  let gmt ← readTime (line.take 17)
  let (columns, message) ← readColumns (columnWidths verbose) (line.drop 17)
  match verbose, columns with
  | false, [usec, level, fileName, lineNum] =>
    some ⟨gmt, ← number (usec.drop 1), ← readLevel (level.drop 1), none,
      (fileName.drop 1).dropLast, ← number lineNum, message⟩
  | true, [usec, level, pid, tid, fileName, lineNum] =>
    some ⟨gmt, ← number (usec.drop 1), ← readLevel (level.drop 1),
      some (← number (pid.drop 2), ← number (tid.drop 2)), fileName.dropLast, ← number lineNum,
      message⟩
  | _, _ => none

/-! ### what is shown -/

/-- What `gettimeofday` and `gmtime_r` tell in the years 0 to 9999. -/
def Timeval.InRange (tv : Timeval) : Prop :=
  tv.tv_usec < 1000000 ∧ (0 ≤ tv.gmt.tm_year + 1900 ∧ tv.gmt.tm_year + 1900 ≤ 9999) ∧
    (0 ≤ tv.gmt.tm_mon ∧ tv.gmt.tm_mon ≤ 11) ∧ (1 ≤ tv.gmt.tm_mday ∧ tv.gmt.tm_mday ≤ 31) ∧
    (0 ≤ tv.gmt.tm_hour ∧ tv.gmt.tm_hour ≤ 23) ∧ (0 ≤ tv.gmt.tm_min ∧ tv.gmt.tm_min ≤ 59) ∧
    (0 ≤ tv.gmt.tm_sec ∧ tv.gmt.tm_sec ≤ 60)

instance (tv : Timeval) : Decidable tv.InRange := inferInstanceAs (Decidable (_ ∧ _))

/-- `pid_t` is an `int`, and a line number fits into one. -/
def LogRequest.InRange : LogRequest → Prop
  | .write m => m.lineNum.toNat < 2 ^ 31
  | .writeVerbose m pid _ => m.lineNum.toNat < 2 ^ 31 ∧ -(2 : Int) ^ 31 ≤ pid ∧ pid < 2 ^ 31

instance : DecidablePred LogRequest.InRange
  | .write m => inferInstanceAs (Decidable (m.lineNum.toNat < 2 ^ 31))
  | .writeVerbose _ _ _ => inferInstanceAs (Decidable (_ ∧ _))

/-- A number below a hundred takes two bytes. -/
theorem length_signedZeros_two {n : Int} (h : 0 ≤ n ∧ n ≤ 99) : (signedZeros 2 n).length = 2 := by
  rw [signedZeros_of_nonneg 2 h.1]
  exact length_padLeft (length_unsigned_le (by omega) (by decide))

/-- Leading zeros do not change the number that is read. -/
theorem number_signedZeros (width : Nat) {n : Int} (h : 0 ≤ n) :
    number (signedZeros width n) = some n := by
  rw [signedZeros_of_nonneg width h, number_zeros, Int.toNat_of_nonneg h]

/-- The time is shown whole. -/
theorem readTime_timeShown {tv : Timeval} (h : tv.InRange) :
    readTime (LogNonCache.timeShown tv.gmt) = some tv.gmt := by
  obtain ⟨_, _, year, mon, mday, hour, min, sec⟩ := tv
  obtain ⟨-, hyear, hmon, hmday, hhour, hmin, hsec⟩ := h
  simp only at hyear hmon hmday hhour hmin hsec
  let fields := [padLeft 4 ' ' (signed (year + 1900)), signedZeros 2 (mon + 1), signedZeros 2 mday,
    ofString " ", signedZeros 2 hour, ofString ":", signedZeros 2 min, ofString ":",
    signedZeros 2 sec]
  have hyearLen : (padLeft 4 ' ' (signed (year + 1900))).length = 4 := by
    rw [signed, if_neg (by omega)]
    exact length_padLeft (length_unsigned_le (by omega) (by decide))
  have hlengths : fields.map List.length = [4, 2, 2, 1, 2, 1, 2, 1, 2] := by
    have hmonLen := length_signedZeros_two (n := mon + 1) (by omega)
    have hmdayLen := length_signedZeros_two (n := mday) (by omega)
    have hhourLen := length_signedZeros_two (n := hour) (by omega)
    have hminLen := length_signedZeros_two (n := min) (by omega)
    have hsecLen := length_signedZeros_two (n := sec) (by omega)
    simp only [fields, List.map_cons, List.map_nil, hyearLen, hmonLen, hmdayLen, hhourLen, hminLen,
      hsecLen, length_ofString, String.reduceToList, List.length_cons, List.length_nil]
  have htext : LogNonCache.timeText ⟨year, mon, mday, hour, min, sec⟩ = fields.flatten := by
    simp only [LogNonCache.timeText, fields, List.flatten_cons, List.flatten_nil, List.append_assoc,
      List.append_nil]
  have hshown : LogNonCache.timeShown ⟨year, mon, mday, hour, min, sec⟩ = fields.flatten := by
    rw [LogNonCache.timeShown, htext, List.take_of_length_le]
    rw [List.length_flatten, hlengths]
    decide
  have hsplit : [4, 2, 2, 1, 2, 1, 2, 1, 2].splitLengths fields.flatten = fields := by
    rw [← hlengths, splitLengths_flatten]
  simp only [readTime, hshown, hsplit, fields, number_padLeft_signed,
    number_signedZeros 2 (show 0 ≤ mon + 1 by omega), number_signedZeros 2 (show 0 ≤ mday by omega),
    number_signedZeros 2 hhour.1, number_signedZeros 2 hmin.1, number_signedZeros 2 hsec.1,
    Option.bind_eq_bind, Option.bind_some, Int.add_sub_cancel]

/-- The level is read back from its column. -/
theorem readLevel_shown (level : LEVEL) :
    readLevel ((Column.shown ⟨3, ofString " " ++ LEVELNAME level⟩).drop 1) = some level := by
  cases level <;> decide

/-- The first three digits, or all of them. -/
theorem number_usec (n : Nat) :
    number ((Column.shown ⟨5, ofString "." ++ signedZeros 3 n⟩).drop 1) = some ↑(leading 3 n) := by
  have hshown : (Column.shown ⟨5, ofString "." ++ signedZeros 3 n⟩).drop 1 =
      (signedZeros 3 n).take 3 := rfl
  rw [hshown, signedZeros_of_nonneg 3 (by omega), Int.toNat_natCast, take_zeros (by decide),
    number_zeros]

/-- What follows a blank and a letter is shown whole where it fits. -/
theorem drop_lettered {width : Nat} {letters text : List UInt8} (hletters : letters.length = 2)
    (h : text.length + 2 < width) : (Column.shown ⟨width, letters ++ text⟩).drop 2 = text := by
  have hfits : (letters ++ text).length ≤ width - 1 := by rw [List.length_append]; omega
  rw [Column.shown, List.take_of_length_le hfits, List.drop_left' hletters]

/-- The line number, or its first five digits. -/
theorem number_lineNum {n : UInt64} (h : n.toNat < 2 ^ 31) :
    number (Column.shown ⟨6, signedZeros 4 ((n.toNat : Int).bmod (2 ^ 32)) ++ ofString " "⟩) =
      some ↑(leading 5 n.toNat) := by
  have hmod : (n.toNat : Int).bmod (2 ^ 32) = n.toNat := Int.bmod_eq_of_le (by omega) (by omega)
  rw [hmod, signedZeros_of_nonneg 4 (by omega), Int.toNat_natCast]
  exact number_take_zeros_blank (v := 4) (w := 5) (by decide) (by decide) n.toNat

/-- **A line gives back what its call had to say**, as far as there is room. -/
theorem readLine_line {r : LogRequest} {tv : Timeval} {time name message : List UInt8}
    (htime : time.take 17 = LogNonCache.timeShown tv.gmt) (htv : tv.InRange) (hr : r.InRange)
    (hname : cstr r.message.fileName = some name) (hclean : Clean name)
    (hmessage : load r.message.buf 0 r.message.len.toNat = some message) :
    readLine r.verbose (LogNonCache.line time (r.columns tv name) message) = r.tells tv := by
  have hlen := LogNonCache.length_timeShown tv.gmt
  have hshown : ∀ c ∈ r.columns tv name, 0 < c.width ∧ 0 ∉ c.text := fun c hc =>
    ⟨LogRequest.pos_of_mem_columns hc, (r.clean_columns tv hclean c hc).1⟩
  have hcolumns := readColumns_row hshown message
  rw [r.widths_columns] at hcolumns
  have htake : (LogNonCache.line time (r.columns tv name) message).take 17 =
      LogNonCache.timeShown tv.gmt := by
    rw [LogNonCache.line, htime, List.append_assoc, List.take_left' hlen]
  have hdrop : (LogNonCache.line time (r.columns tv name) message).drop 17 =
      row (r.columns tv name) ++ message := by
    rw [LogNonCache.line, htime, List.append_assoc, List.drop_left' hlen]
  rw [readLine, htake, hdrop, readTime_timeShown htv, hcolumns]
  cases r with
  | write m =>
      simp only [LogRequest.message] at hname hmessage
      have hfile : ((Column.shown ⟨32, ofString " " ++ name ++ ofString ":"⟩).drop 1).dropLast =
          name.take 29 := dropLast_take_concat name ':'.toUInt8 29
      simp only [LogRequest.verbose, LogRequest.columns, LogNonCache.writeColumns, List.map_cons,
        List.map_nil, Option.bind_eq_bind, Option.bind_some, number_usec, readLevel_shown, hfile,
        number_lineNum hr, LogRequest.tells, LogRequest.message, hname, hmessage]
      rfl
  | writeVerbose m pid tid =>
      simp only [LogRequest.message] at hname hmessage
      obtain ⟨hlineNum, hpid⟩ := hr
      have hfile : (Column.shown ⟨32, name ++ ofString ":"⟩).dropLast = name.take 30 :=
        dropLast_take_concat name ':'.toUInt8 30
      have hpidLen : (signed pid).length ≤ 10 + 1 := length_signed_le (by omega) (by decide)
      have htidLen : (unsigned (tid.toNat % 2 ^ 32)).length ≤ 10 :=
        length_unsigned_le (by omega) (by decide)
      have hpidText : (Column.shown ⟨16, ofString " p" ++ signed pid⟩).drop 2 = signed pid :=
        drop_lettered rfl (by omega)
      have htidText : (Column.shown ⟨16, ofString " t" ++ unsigned (tid.toNat % 2 ^ 32)⟩).drop 2 =
          unsigned (tid.toNat % 2 ^ 32) := drop_lettered rfl (by omega)
      simp only [LogRequest.verbose, LogRequest.columns, LogNonCache.writeVerboseColumns,
        List.map_cons, List.map_nil, Option.bind_eq_bind, Option.bind_some, number_usec,
        readLevel_shown, hfile, hpidText, htidText, number_signed, number_unsigned,
        number_lineNum hlineNum, LogRequest.tells, LogRequest.message, hname, hmessage]
      rfl

end CppFastDevelop
