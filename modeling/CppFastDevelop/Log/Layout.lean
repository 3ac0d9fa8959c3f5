import CppFastDevelop.Lib.Patch
import CppFastDevelop.Log.LogCache

/-!
# CppFastDevelop.Log.Layout

Where `Write` puts what.  Prefix and suffix of a record are patches laid over
the slot; the message between them is not touched.  The offsets of the suffix
follow from the lengths of its texts: `suffixAt`, `fileAt`, `lineAt`, `funcAt`,
`recordLen`.  The up-front test allows 200 bytes for a suffix that may need
more, so `Write` stays in the slot exactly if `InSlot` holds of the call.
-/

namespace CppFastDevelop

open CString

/-! ## offsets -/

namespace LogCall

/-- The text of the process and the thread. -/
def pidtid (call : LogCall) : List UInt8 := LogCache.pidtidText call.pid call.tid

/-- The text of the line number. -/
def line (call : LogCall) : List UInt8 :=
  signed ((call.lineNum.toNat : Int).bmod (2 ^ 32)) ++ ofString " "

def fileLen (call : LogCall) : Nat := (strlen call.fileName).getD 0

def funcLen (call : LogCall) : Nat := (strlen call.funcName).getD 0

/-- The suffix starts behind the message. -/
def suffixAt (call : LogCall) : Nat := CL_LOG_PREFIX_LEN + call.len.toNat

/-- The file name takes the place of the last blank of the text before it. -/
def fileAt (call : LogCall) : Nat := call.suffixAt + call.pidtid.length - 1

def lineAt (call : LogCall) : Nat := call.fileAt + call.fileLen + 1

/-- The index counts the whole text of the line number, though no more than
five characters of it are stored. -/
def funcAt (call : LogCall) : Nat := call.lineAt + call.line.length

def recordLen (call : LogCall) : Nat := call.funcAt + call.funcLen + 2

/-- The pointers lead to 128 bytes and a terminator. -/
structure Readable (call : LogCall) : Prop where
  file : 128 ≤ call.fileName.length
  func : 128 ≤ call.funcName.length
  fileEnd : strlen call.fileName = some call.fileLen
  funcEnd : strlen call.funcName = some call.funcLen

/-- Every write of the suffix ends in the slot. -/
structure InSlot (call : LogCall) : Prop where
  file : call.fileAt + 128 ≤ CL_LOG_MAX_MSG_LEN
  line : call.lineAt + (min 5 call.line.length + 1) ≤ CL_LOG_MAX_MSG_LEN
  func : call.funcAt + 128 ≤ CL_LOG_MAX_MSG_LEN
  record : call.recordLen ≤ CL_LOG_MAX_MSG_LEN

/-- `pid_t` is a 32-bit `int`. -/
def PidInRange (call : LogCall) : Prop := -(2 : Int) ^ 31 ≤ call.pid ∧ call.pid < 2 ^ 31

/-- How long the text of process and thread is, by its two numbers. -/
theorem length_pidtid (call : LogCall) : call.pidtid.length =
    13 + (signed call.pid).length + (unsigned (call.tid.toNat % 2 ^ 32)).length := by
  simp only [pidtid, LogCache.pidtidText, List.length_append, length_ofString]
  simp only [String.reduceToList, List.length_cons, List.length_nil]
  omega

/-- The text of process and thread is never empty. -/
theorem length_pidtid_pos (call : LogCall) : 15 ≤ call.pidtid.length := by
  have hpid := length_signed_pos call.pid
  have htid := length_unsigned_pos (call.tid.toNat % 2 ^ 32)
  rw [length_pidtid]
  omega

/-- The text always fits its buffer. -/
theorem length_pidtid_lt {call : LogCall} (h : call.PidInRange) : call.pidtid.length ≤ 34 := by
  have hpid : (signed call.pid).length ≤ 10 + 1 := by
    apply length_signed_le _ (by decide)
    have := h.1
    have := h.2
    omega
  have htid : (unsigned (call.tid.toNat % 2 ^ 32)).length ≤ 10 :=
    length_unsigned_le (by omega) (by decide)
  rw [length_pidtid]
  omega

/-- How long the text of the line number is, by its number. -/
theorem length_line (call : LogCall) : call.line.length =
    (signed ((call.lineNum.toNat : Int).bmod (2 ^ 32))).length + 1 := by
  simp [line, ofString]

/-- The text of the line number has a digit and a blank at least. -/
theorem length_line_pos (call : LogCall) : 2 ≤ call.line.length := by
  have hpos := length_signed_pos ((call.lineNum.toNat : Int).bmod (2 ^ 32))
  rw [length_line]
  omega

/-- The parts of the suffix follow each other. -/
theorem offsets (call : LogCall) : call.suffixAt = 33 + call.len.toNat ∧
    call.suffixAt + 14 ≤ call.fileAt ∧
    call.fileAt + 1 = call.suffixAt + call.pidtid.length ∧
    call.lineAt = call.fileAt + call.fileLen + 1 ∧
    call.funcAt = call.lineAt + call.line.length ∧
    call.recordLen = call.funcAt + call.funcLen + 2 := by
  have hpos := call.length_pidtid_pos
  have hfileAt : call.fileAt = call.suffixAt + call.pidtid.length - 1 := rfl
  exact ⟨rfl, by omega, by omega, rfl, rfl, rfl⟩

/-! ## patches -/

open Patch (place place_eq_none place_above_place above_congr apply_apply length_apply)

/-- The suffix of a record. -/
def suffix (call : LogCall) : Patch UInt8 :=
  (place (call.funcAt + call.funcLen) (ofString "]\n")).above
    ((place call.funcAt (call.funcName.take 128)).above
      ((place call.lineAt (snprintf 6 call.line)).above
        ((place (call.fileAt + call.fileLen) (ofString ":")).above
          ((place call.fileAt (call.fileName.take 128)).above
            (place call.suffixAt call.pidtid)))))

end LogCall

/-- The text between the time and the message. -/
def usecText (tv : Timeval) (level : CLLEVEL) : List UInt8 :=
  signedZeros 6 tv.tv_usec ++ ofString " " ++ padLeft 6 ' ' (logcacheLevelName level) ++
    ofString " "

/-- The first 33 bytes of a record. -/
def prefixText (lastTimeCache : List UInt8) (tv : Timeval) (level : CLLEVEL) : List UInt8 :=
  lastTimeCache.take 18 ++ usecText tv level ++ ofString " "

/-- Fractions of a second take the same room, whatever the level. -/
theorem length_usecText {tv : Timeval} (h : tv.tv_usec < 1000000) (level : CLLEVEL) :
    (usecText tv level).length = 14 := by
  have husec : (signedZeros 6 tv.tv_usec).length = 6 := by
    rw [signedZeros, if_neg (by omega)]
    exact length_padLeft (length_unsigned_le h (by decide))
  have hlevel : (padLeft 6 ' ' (logcacheLevelName level)).length = 6 := by
    cases level <;> rfl
  simp only [usecText, List.length_append, husec, hlevel, length_ofString]
  rfl

/-- The prefix of every record is 33 bytes long. -/
theorem length_prefixText {time : List UInt8} {tv : Timeval} (htime : time.length = 19)
    (h : tv.tv_usec < 1000000) (level : CLLEVEL) : (prefixText time tv level).length = 33 := by
  simp only [prefixText, List.length_append, List.length_take, htime, length_usecText h,
    length_ofString]
  rfl

namespace LogCache

open Patch (place place_eq_none place_above_place above_congr apply_apply length_apply)

/-! ## what the parts of Write put into the slot -/

/-- Bytes put into a slot are placed in it. -/
theorem put_eq {slot bytes : List UInt8} {k : Nat} (h : k + bytes.length ≤ slot.length) :
    Cursor.put ⟨slot, k⟩ bytes = some ⟨(place k bytes).apply slot, k⟩ := by
  simp [Cursor.put, store_eq_patch h]

/-- The prefix is placed at the front of the slot, and the cursor behind it. -/
theorem writePrefix_eq {time : List UInt8} {tv : Timeval} (level : CLLEVEL) (slot : List UInt8)
    (htime : time.length = 19) (husec : tv.tv_usec < 1000000) (hslot : 33 ≤ slot.length) :
    writePrefix time tv level slot =
      some ⟨(place 0 (prefixText time tv level)).apply slot, 33⟩ := by
  have hload : load time 0 18 = some (time.take 18) := by
    rw [load, if_pos ⟨by decide, by rw [htime]; decide⟩]
    rfl
  have hlen := length_usecText husec level
  have htake : (time.take 18).length = 18 := by rw [List.length_take, htime]; rfl
  have htext : snprintf 15 (usecText tv level) = usecText tv level ++ [0] :=
    snprintf_of_lt (by omega)
  have htime' : Cursor.put ⟨slot, 0⟩ (time.take 18) =
      some ⟨(place 0 (time.take 18)).apply slot, 0⟩ := put_eq (k := 0) (by omega)
  -- the blank takes the place of the terminator
  have husec' : (place 18 (usecText tv level ++ [0])).above (place 0 (time.take 18)) =
      place 0 (time.take 18 ++ (usecText tv level ++ [0])) := by
    have hnone : ([] : List UInt8).length ≤ (usecText tv level ++ [0]).length := Nat.zero_le _
    have hover := place_above_place 0 (time.take 18) hnone
    rwa [htake, List.append_nil] at hover
  have hblank : (place 32 (ofString " ")).above
      (place 0 (time.take 18 ++ (usecText tv level ++ [0]))) =
      place 0 (prefixText time tv level) := by
    have hone : ([0] : List UInt8).length ≤ (ofString " ").length := by decide
    have hover := place_above_place 0 (time.take 18 ++ usecText tv level) hone
    rwa [List.length_append, htake, hlen, List.append_assoc] at hover
  have hput : Cursor.put ⟨(place 0 (time.take 18)).apply slot, 18⟩ (usecText tv level ++ [0]) =
      some ⟨(place 0 (time.take 18 ++ (usecText tv level ++ [0]))).apply slot, 18⟩ := by
    rw [← husec', ← apply_apply]
    exact put_eq (k := 18) (by simp; omega)
  have hput' : Cursor.put
      ⟨(place 0 (time.take 18 ++ (usecText tv level ++ [0]))).apply slot, 32⟩ (ofString " ") =
      some ⟨(place 0 (prefixText time tv level)).apply slot, 32⟩ := by
    rw [← hblank, ← apply_apply]
    exact put_eq (k := 32) (by simpa using hslot)
  have husecText : signedZeros 6 tv.tv_usec ++ ofString " " ++
      padLeft 6 ' ' (logcacheLevelName level) ++ ofString " " = usecText tv level := rfl
  have hsum : (18 : Int) + (14 : Nat) = 32 := rfl
  simp only [writePrefix, husecText, htext, hload, Option.bind_eq_bind, Option.bind_some, htime',
    Cursor.advance, Int.zero_add, hput, hlen, hsum, hput', Int.reduceAdd]

/-- A name is placed with all its 128 bytes, and the cursor goes on by its length. -/
theorem writeName_eq {name slot : List UInt8} {k n : Nat} (hname : 128 ≤ name.length)
    (hend : strlen name = some n) (hroom : k + 128 ≤ slot.length) :
    writeName name ⟨slot, k⟩ = some ⟨(place k (name.take 128)).apply slot, (k + n : Nat)⟩ := by
  have hload : load name 0 128 = some (name.take 128) := by
    rw [load, if_pos ⟨by decide, by simpa using hname⟩]
    rfl
  have hput : Cursor.put ⟨slot, k⟩ (name.take 128) =
      some ⟨(place k (name.take 128)).apply slot, k⟩ := by
    apply put_eq
    rw [List.length_take]
    omega
  simp only [writeName, hload, hput, hend, Option.bind_eq_bind, Option.bind_some, Cursor.advance]
  rfl

/-- The cache as a call leaves it. -/
def remember (l : LogCache) (call : LogCall) : LogCache :=
  { l with pidtidCache := call.pidtid, lastPid := call.pid, lastTid := call.tid }

/-- The text is the same from the cache; written anew it brings a
terminator. -/
theorem writePidtid_eq {l : LogCache} {call : LogCall} (slot : List UInt8)
    (hcache : call.pid = l.lastPid → call.tid = l.lastTid → l.pidtidCache = call.pidtid)
    (hpid : call.PidInRange) (hroom : call.suffixAt + call.pidtid.length + 1 ≤ slot.length) :
    ∃ p : Patch UInt8,
      (∀ k, k ≠ call.suffixAt + call.pidtid.length → p k = place call.suffixAt call.pidtid k) ∧
      l.writePidtid call ⟨slot, call.suffixAt⟩ =
        some (l.remember call, ⟨p.apply slot, call.fileAt⟩) := by
  have hpos := call.length_pidtid_pos
  have hlt := LogCall.length_pidtid_lt hpid
  have hfile : (call.suffixAt : Int) + (call.pidtid.length - 1) = call.fileAt := by
    unfold LogCall.fileAt
    omega
  unfold writePidtid
  by_cases hhit : call.pid = l.lastPid ∧ call.tid = l.lastTid
  · refine ⟨_, fun _ _ => rfl, ?_⟩
    have hput : Cursor.put ⟨slot, call.suffixAt⟩ call.pidtid =
        some ⟨(place call.suffixAt call.pidtid).apply slot, call.suffixAt⟩ := put_eq (by omega)
    have hsame : l.remember call = l := by
      unfold remember
      rw [hhit.1, hhit.2, ← hcache hhit.1 hhit.2]
    simp only [if_pos hhit, hcache hhit.1 hhit.2, hput, Option.bind_eq_bind, Option.bind_some,
      Cursor.advance, hfile, hsame]
  · refine ⟨place call.suffixAt (call.pidtid ++ [0]), fun k hk => ?_, ?_⟩
    · simp only [place]
      grind
    · have htext : snprintf CL_LOG_SUFFIX_LEN (pidtidText call.pid call.tid) =
          call.pidtid ++ [0] := snprintf_of_lt (Nat.lt_of_le_of_lt hlt (by decide))
      have hput : Cursor.put ⟨slot, call.suffixAt⟩ (call.pidtid ++ [0]) =
          some ⟨(place call.suffixAt (call.pidtid ++ [0])).apply slot, call.suffixAt⟩ :=
        put_eq (by simpa [Nat.add_assoc] using hroom)
      have hload : load ((place call.suffixAt (call.pidtid ++ [0])).apply slot) call.suffixAt
          (pidtidText call.pid call.tid).length = some call.pidtid := by
        rw [load_of_store (store_eq_patch (by simpa [Nat.add_assoc] using hroom))
          (by simp [LogCall.pidtid])]
        simp [LogCall.pidtid]
      simp only [if_neg hhit, htext, hput, hload, Option.bind_eq_bind, Option.bind_some,
        Cursor.advance]
      rw [← hfile]
      rfl

/-- The terminator that may be left behind the text is covered by the file
name. -/
theorem file_above_pidtid {call : LogCall} {p : Patch UInt8} (hread : call.Readable)
    (hp : ∀ k, k ≠ call.suffixAt + call.pidtid.length → p k = place call.suffixAt call.pidtid k) :
    (place call.fileAt (call.fileName.take 128)).above p =
      (place call.fileAt (call.fileName.take 128)).above (place call.suffixAt call.pidtid) := by
  have hpos := call.length_pidtid_pos
  have hfile : (call.fileName.take 128).length = 128 := by
    rw [List.length_take]
    exact Nat.min_eq_left hread.file
  apply above_congr
  intro k hk
  rw [place_eq_none, hfile] at hk
  apply hp
  unfold LogCall.fileAt at hk
  omega

/-- The suffix, where all of it ends in the slot. -/
theorem writeSuffix_eq {l : LogCache} {call : LogCall} {slot : List UInt8}
    (hcache : call.pid = l.lastPid → call.tid = l.lastTid → l.pidtidCache = call.pidtid)
    (hpid : call.PidInRange) (hread : call.Readable) (hslot : slot.length = CL_LOG_MAX_MSG_LEN)
    (hin : call.InSlot) :
    l.writeSuffix call ⟨slot, 33⟩ =
      some (l.remember call, ⟨call.suffix.apply slot, call.recordLen⟩) := by
  obtain ⟨hfile, hline, hfunc, hrecord⟩ := hin
  obtain ⟨hsuffixAt, -, hfileAt, hlineAt, -, hend⟩ := call.offsets
  have hmax : CL_LOG_MAX_MSG_LEN = 8192 := rfl
  rw [hmax] at hslot hfile hline hfunc hrecord
  obtain ⟨p, hp, hpidtid⟩ := writePidtid_eq slot hcache hpid (by omega)
  have hname : writeName call.fileName ⟨p.apply slot, call.fileAt⟩ = some
      ⟨(place call.fileAt (call.fileName.take 128)).apply (p.apply slot),
        (call.fileAt + call.fileLen : Nat)⟩ :=
    writeName_eq hread.file hread.fileEnd (by rw [length_apply]; omega)
  have hcolon (block : List UInt8) (hblock : block.length = 8192) :
      Cursor.put ⟨block, (call.fileAt + call.fileLen : Nat)⟩ (ofString ":") =
        some ⟨(place (call.fileAt + call.fileLen) (ofString ":")).apply block,
          (call.fileAt + call.fileLen : Nat)⟩ :=
    put_eq (by rw [hblock]; show _ + 1 ≤ _; omega)
  have hlinePut (block : List UInt8) (hblock : block.length = 8192) :
      Cursor.put ⟨block, call.lineAt⟩ (snprintf 6 call.line) =
        some ⟨(place call.lineAt (snprintf 6 call.line)).apply block, call.lineAt⟩ :=
    put_eq (by rw [length_snprintf (by decide), hblock]; omega)
  have hfuncName (block : List UInt8) (hblock : block.length = 8192) :
      writeName call.funcName ⟨block, call.funcAt⟩ = some
        ⟨(place call.funcAt (call.funcName.take 128)).apply block,
          (call.funcAt + call.funcLen : Nat)⟩ :=
    writeName_eq hread.func hread.funcEnd (by rw [hblock]; omega)
  have hbracket (block : List UInt8) (hblock : block.length = 8192) :
      Cursor.put ⟨block, (call.funcAt + call.funcLen : Nat)⟩ (ofString "]\n") =
        some ⟨(place (call.funcAt + call.funcLen) (ofString "]\n")).apply block,
          (call.funcAt + call.funcLen : Nat)⟩ :=
    put_eq (by rw [hblock]; show _ + 2 ≤ _; omega)
  have hidx : ((33 : Int) + call.len.toNat).bmod (2 ^ 32) = call.suffixAt := by
    rw [Int.bmod_eq_of_le (by omega) (by omega), hsuffixAt, Int.natCast_add]
    rfl
  have hpatch : call.suffix.apply slot =
      (place (call.funcAt + call.funcLen) (ofString "]\n")).apply
        ((place call.funcAt (call.funcName.take 128)).apply
          ((place call.lineAt (snprintf 6 call.line)).apply
            ((place (call.fileAt + call.fileLen) (ofString ":")).apply
              ((place call.fileAt (call.fileName.take 128)).apply (p.apply slot))))) := by
    simp only [apply_apply, LogCall.suffix, file_above_pidtid hread hp]
  simp only [writeSuffix, hidx, Option.bind_eq_bind, Option.bind_eq_some_iff, Prod.exists]
  refine ⟨_, _, hpidtid, _, hname, _, hcolon _ ?_, _, hlinePut _ ?_, _, hfuncName _ ?_, _,
    hbracket _ ?_, ?_⟩
  · simp [hslot]
  · simp [hslot]
  · simp [hslot]
  · simp [hslot]
  · rw [hpatch]
    rfl

/-- Bytes that were put were put into the slot. -/
theorem put_eq_some {c c' : Cursor} {bytes : List UInt8} (h : c.put bytes = some c') :
    c'.idx = c.idx ∧ c'.slot.length = c.slot.length ∧
      c.idx + bytes.length ≤ c.slot.length := by
  simp only [Cursor.put, Option.bind_eq_bind, Option.bind_eq_some_iff] at h
  obtain ⟨slot, hstore, h⟩ := h
  cases h
  obtain ⟨-, hle, hlen⟩ := store_eq_some hstore
  exact ⟨rfl, hlen, hle⟩

/-- A name that was copied had its 128 bytes of room. -/
theorem writeName_eq_some {name : List UInt8} {n : Nat} {c c' : Cursor}
    (hend : strlen name = some n) (h : writeName name c = some c') :
    c'.idx = c.idx + n ∧ c'.slot.length = c.slot.length ∧ c.idx + 128 ≤ c.slot.length := by
  simp only [writeName, Option.bind_eq_bind, Option.bind_eq_some_iff] at h
  obtain ⟨bytes, hload, c₁, hput, n', hn', h⟩ := h
  cases h
  cases hend.symm.trans hn'
  obtain ⟨hidx, hlen, hle⟩ := put_eq_some hput
  have hbytes : bytes.length = 128 := by
    unfold load at hload
    split at hload
    · next hin =>
        cases hload
        rw [List.length_take, List.length_drop]
        omega
    · cases hload
  refine ⟨?_, hlen, by omega⟩
  rw [Cursor.advance, hidx]

/-- A suffix whose writes are all defined ends in the slot. -/
theorem inSlot_of_writeSuffix {l : LogCache} {call : LogCall} {slot : List UInt8}
    {r : LogCache × Cursor}
    (hcache : call.pid = l.lastPid → call.tid = l.lastTid → l.pidtidCache = call.pidtid)
    (hpid : call.PidInRange) (hread : call.Readable) (hslot : slot.length = CL_LOG_MAX_MSG_LEN)
    (hroom : call.suffixAt + CL_LOG_SUFFIX_LEN ≤ CL_LOG_MAX_MSG_LEN)
    (h : l.writeSuffix call ⟨slot, 33⟩ = some r) : call.InSlot := by
  have hmax : CL_LOG_MAX_MSG_LEN = 8192 := rfl
  have hallowed : CL_LOG_SUFFIX_LEN = 200 := rfl
  obtain ⟨hsuffixAt, -, -, hlineAt, hfuncAt, hend⟩ := call.offsets
  have hlt := LogCall.length_pidtid_lt hpid
  rw [hmax] at hroom hslot
  rw [hallowed] at hroom
  obtain ⟨p, -, hpidtid⟩ := writePidtid_eq slot hcache hpid (by omega)
  have hidx : ((33 : Int) + call.len.toNat).bmod (2 ^ 32) = call.suffixAt := by
    rw [Int.bmod_eq_of_le (by omega) (by omega), hsuffixAt, Int.natCast_add]
    rfl
  simp only [writeSuffix, hidx, hpidtid, Option.bind_eq_bind, Option.bind_some,
    Option.bind_eq_some_iff] at h
  obtain ⟨c₂, hname, c₃, hcolon, c₄, hline, c₅, hfunc, c₆, hbracket, -⟩ := h
  obtain ⟨hidx₂, hlen₂, hle₂⟩ := writeName_eq_some hread.fileEnd hname
  obtain ⟨hidx₃, hlen₃, hle₃⟩ := put_eq_some hcolon
  obtain ⟨hidx₄, hlen₄, hle₄⟩ := put_eq_some hline
  obtain ⟨hidx₅, hlen₅, hle₅⟩ := writeName_eq_some hread.funcEnd hfunc
  obtain ⟨-, -, hle₆⟩ := put_eq_some hbracket
  have hlineText : (signed ((call.lineNum.toNat : Int).bmod (2 ^ 32)) ++ ofString " ").length =
      call.line.length := rfl
  have hsnprintf : (snprintf 6 (signed ((call.lineNum.toNat : Int).bmod (2 ^ 32)) ++
      ofString " ")).length = min 5 call.line.length + 1 := by
    rw [length_snprintf (by decide), hlineText]
  have hbracketLen : (ofString "]\n").length = 2 := rfl
  simp only [Cursor.advance, length_apply, hlineText, hsnprintf, hbracketLen] at *
  refine ⟨by omega, ?_, by omega, by omega⟩
  generalize min 5 call.line.length = stored at hle₄ ⊢
  omega

/-! ### the whole record -/

/-- What a call puts into the slot, beside the message. -/
def patch (time : List UInt8) (tv : Timeval) (call : LogCall) : Patch UInt8 :=
  (if HasRoom 33 call.len then call.suffix else
    place (CL_LOG_MAX_MSG_LEN - 1) (ofString "\n")).above
      (place 0 (prefixText time tv call.level))

/-- The length of the record of a call. -/
def length (call : LogCall) : Nat :=
  if HasRoom 33 call.len then call.recordLen else CL_LOG_MAX_MSG_LEN

/-- For lengths below 2^31 the check for room is the comparison that it looks like. -/
theorem hasRoom_iff {len : UInt64} (h : len.toNat < 2 ^ 31) :
    HasRoom 33 len ↔ 33 + len.toNat + CL_LOG_SUFFIX_LEN < CL_LOG_MAX_MSG_LEN := by
  have hmax : CL_LOG_MAX_MSG_LEN = 8192 := rfl
  have hallowed : CL_LOG_SUFFIX_LEN = 200 := rfl
  rw [HasRoom, hmax, hallowed]
  omega

/-- The time can always be read from a cache of its length. -/
theorem exists_timeCache {l : LogCache} (tv : Timeval) (h : l.lastTimeCache.length = 19) :
    ∃ time, l.timeCache tv = some time ∧ time.length = 19 := by
  unfold timeCache
  split
  · have hroom : 0 + (snprintf 19 (timeText tv.gmt)).length ≤ l.lastTimeCache.length := by
      rw [length_snprintf (by decide), h]
      omega
    have hstore := store_eq_patch hroom
    exact ⟨_, hstore, by rw [length_apply, h]⟩
  · exact ⟨_, rfl, h⟩

section Compose

variable {l : LogCache} {call : LogCall} {slot time : List UInt8} {tv : Timeval}
  (hslot : l.slot l.currentLoop = some slot) (hlen : slot.length = CL_LOG_MAX_MSG_LEN)
  (htime : l.timeCache tv = some time) (htimeLen : time.length = 19)
  (husec : tv.tv_usec < 1000000)
  (hcache : call.pid = l.lastPid → call.tid = l.lastTid → l.pidtidCache = call.pidtid)
  (hpid : call.PidInRange) (hread : call.Readable)

include hslot hlen htime htimeLen husec hcache hpid hread

/-- The record of a call that stays in the slot. -/
theorem compose_eq (hin : HasRoom 33 call.len → call.InSlot) :
    ∃ l', l.compose tv call = some (l', ⟨(patch time tv call).apply slot, length call⟩) := by
  have hprefix := writePrefix_eq call.level slot htimeLen husec (by rw [hlen]; decide)
  unfold patch length
  by_cases hroom : HasRoom 33 call.len
  · have hsuffix := writeSuffix_eq (l := { l with lastTimeCache := time }) hcache hpid hread
      ((length_apply (place 0 (prefixText time tv call.level)) slot).trans hlen) (hin hroom)
    rw [apply_apply] at hsuffix
    refine ⟨{ l with lastTimeCache := time }.remember call, ?_⟩
    simp only [compose, Option.bind_eq_bind, Option.bind_eq_some_iff]
    refine ⟨slot, hslot, time, htime, _, hprefix, ?_⟩
    rw [if_pos hroom, if_pos hroom, if_pos hroom]
    exact hsuffix
  · have hlast : CL_LOG_MAX_MSG_LEN - 1 + (ofString "\n").length ≤
        ((place 0 (prefixText time tv call.level)).apply slot).length := by
      rw [length_apply, hlen]
      decide
    have hput := put_eq hlast
    rw [apply_apply] at hput
    refine ⟨{ l with lastTimeCache := time }, ?_⟩
    simp only [compose, Option.bind_eq_bind, Option.bind_eq_some_iff]
    refine ⟨slot, hslot, time, htime, _, hprefix, ?_⟩
    rw [if_neg hroom, if_neg hroom, if_neg hroom]
    simp only [writeTruncated, Option.bind_eq_bind, Option.bind_eq_some_iff]
    exact ⟨_, ⟨_, hput, rfl⟩, rfl⟩

/-- A record whose writes are all defined stays in the slot. -/
theorem inSlot_of_compose {r : LogCache × Cursor} (h : l.compose tv call = some r)
    (hbig : call.len.toNat < 2 ^ 31) (hroom : HasRoom 33 call.len) : call.InSlot := by
  have hprefix := writePrefix_eq call.level slot htimeLen husec (by rw [hlen]; decide)
  simp only [compose, Option.bind_eq_bind, Option.bind_eq_some_iff] at h
  obtain ⟨slot', hslot', time', htime', c, hprefix', h⟩ := h
  cases hslot.symm.trans hslot'
  cases htime.symm.trans htime'
  cases hprefix.symm.trans hprefix'
  rw [if_pos hroom] at h
  have hallowed := (hasRoom_iff hbig).mp hroom
  exact inSlot_of_writeSuffix (l := { l with lastTimeCache := time }) hcache hpid hread
    ((length_apply ..).trans hlen) (Nat.le_of_lt hallowed) h

end Compose

end LogCache

end CppFastDevelop
