import CppFastDevelop.Log.Bounds

/-!
# CppFastDevelop.Log.PidtidCache

What `_pidtidCache` is for: `Write` copies the text of the last call where the
process and the thread are the same, and formats it otherwise.  The reference
formats it every time and remembers nothing.  Both run alike, whatever the
calls in between (`run_formatting`), as `_pidtidCache` is always the text of
`_lastPid` and `_lastTid` (`Remembers`).
-/

namespace CppFastDevelop

/-- A call that names a process and a thread. -/
structure LogCall.Named (call : LogCall) : Prop where
  pid : call.pid ≠ 0
  tid : call.tid ≠ 0
  inRange : call.PidInRange

namespace LogCache

open CString Machine

open Patch (place)

/-! ## the reference -/

/-- The process and the thread, formatted every time. -/
def formatPidtid (l : LogCache) (call : LogCall) (c : Cursor) : Option (LogCache × Cursor) := do
  let text := pidtidText call.pid call.tid
  let c ← c.put (snprintf CL_LOG_SUFFIX_LEN text)
  some (l, c.advance (text.length - 1))

/-- The suffix behind the process and the thread. -/
def writeNames (call : LogCall) (c : Cursor) : Option Cursor := do
  let c ← writeName call.fileName c
  let c ← c.put (ofString ":")
  let c := c.advance 1
  let text := signed ((call.lineNum.toNat : Int).bmod (2 ^ 32)) ++ ofString " "
  let c ← c.put (snprintf 6 text)
  let c := c.advance text.length
  let c ← writeName call.funcName c
  let c ← c.put (ofString "]\n")
  some (c.advance 2)

/-- `idx +=len` -/
def Cursor.skip (c : Cursor) (len : UInt64) : Cursor :=
  { c with idx := (c.idx + len.toNat).bmod (2 ^ 32) }

/-- The index is an `int`: it wraps. -/
theorem Cursor.idx_skip (c : Cursor) (len : UInt64) :
    (c.skip len).idx = (c.idx + len.toNat).bmod (2 ^ 32) := rfl

/-- The suffix of the reference. -/
def formatSuffix (l : LogCache) (call : LogCall) (c : Cursor) : Option (LogCache × Cursor) := do
  let (l, c) ← l.formatPidtid call (c.skip call.len)
  let c ← writeNames call c
  some (l, c)

/-- `compose`, `write` and `use`, whatever writes the suffix. -/
def composeBy (suffix : LogCache → LogCall → Cursor → Option (LogCache × Cursor))
    (l : LogCache) (tv : Timeval) (call : LogCall) : Option (LogCache × Cursor) := do
  let slot ← l.slot l.currentLoop
  let lastTimeCache ← l.timeCache tv
  let l := { l with lastTimeCache := lastTimeCache }
  let c ← writePrefix lastTimeCache tv call.level slot
  if HasRoom c.idx call.len then suffix l call c
  else do
    let c ← writeTruncated c
    some (l, c)

def writeBy (suffix : LogCache → LogCall → Cursor → Option (LogCache × Cursor))
    (l : LogCache) (tv : Option Timeval) (call : LogCall) :
    Option (Except BaseException LogCache) :=
  if call.level.value < l.level.value then some (.ok l)
  else match tv with
    | none => some (.error clockFailed)
    | some tv => do
      let (l, c) ← l.composeBy suffix tv call
      let l ← l.finish c
      some (.ok l)

def useBy (suffix : LogCache → LogCall → Cursor → Option (LogCache × Cursor))
    (l : LogCache) : Use → Option LogCache
  | .fill off bytes => if off + bytes.length ≤ getBufLen then l.fillBuf off bytes else none
  | .write tv call => (l.writeBy suffix tv call).map fun
    | .ok l' => l'
    | .error _ => l
  | .setLevel level => some (l.setLevel level)
  | .flush => l.flush

/-- The uses with the suffix of the code are the uses of the code. -/
theorem useBy_writeSuffix : useBy writeSuffix = use := by
  funext l u
  cases u <;> rfl

/-- The suffix with the cache: the text, then the names. -/
theorem writeSuffix_eq_bind (l : LogCache) (call : LogCall) (c : Cursor) :
    l.writeSuffix call c = (l.writePidtid call (c.skip call.len)).bind fun p =>
      (writeNames call p.2).map fun c => (p.1, c) := by
  unfold writeSuffix writeNames Cursor.skip
  simp only [Option.bind_eq_bind, Option.map_bind, Function.comp_def, Option.map_some]

/-- The suffix without the cache: the text, then the names. -/
theorem formatSuffix_eq_bind (l : LogCache) (call : LogCall) (c : Cursor) :
    l.formatSuffix call c = (l.formatPidtid call (c.skip call.len)).bind fun p =>
      (writeNames call p.2).map fun c => (p.1, c) := by
  unfold formatSuffix
  simp only [Option.bind_eq_bind, Option.map_eq_bind]
  rfl

/-! ## the text -/

/-- Nothing of the text remembered. -/
def forget (l : LogCache) : LogCache :=
  { l with pidtidCache := [], lastPid := 0, lastTid := 0 }

/-- The text remembered is that of the process and the thread remembered. -/
def Remembers (l : LogCache) : Prop :=
  l.lastPid ≠ 0 → l.pidtidCache = pidtidText l.lastPid l.lastTid

section Suffix

variable {l : LogCache} {call : LogCall}

/-- The text of process and thread is never cut off. -/
theorem snprintf_pidtid (h : call.PidInRange) :
    snprintf CL_LOG_SUFFIX_LEN (pidtidText call.pid call.tid) = call.pidtid ++ [0] :=
  snprintf_of_lt (Nat.lt_of_le_of_lt (LogCall.length_pidtid_lt h) (by decide))

/-- Putting bytes into a slot stores them and leaves the index. -/
theorem put_eq_map (c : Cursor) (bytes : List UInt8) :
    c.put bytes = (store c.slot c.idx bytes).map fun slot => { c with slot := slot } := by
  simp only [Cursor.put, Option.bind_eq_bind, Option.map_eq_bind]
  rfl

/-- A name that follows a text takes the place of its last character, and
covers the terminator. -/
theorem put_append_writeName (name : List UInt8) (c : Cursor) {text : List UInt8}
    (htext : 1 ≤ text.length) :
    ((c.put (text ++ [0])).bind fun c => writeName name (c.advance (text.length - 1))) =
      (c.put text).bind fun c => writeName name (c.advance (text.length - 1)) := by
  cases hload : load name 0 128 with
  | none => simp [writeName, hload]
  | some bytes =>
      have hbytes : bytes.length = 128 := by
        unfold load at hload
        split at hload
        · cases hload
          rw [List.length_take, List.length_drop]
          omega
        · cases hload
      have hlast : (text.length : Int) - 1 = (text.length - 1 : Nat) := by omega
      have hcover : ((store c.slot c.idx (text ++ [0])).bind fun slot =>
            store slot (c.idx + (text.length - 1 : Nat)) bytes) =
          (store c.slot c.idx text).bind fun slot =>
            store slot (c.idx + (text.length - 1 : Nat)) bytes :=
        store_append_bind (Nat.sub_le text.length 1) (by simp; omega)
      simp only [writeName, hload, put_eq_map, Cursor.advance, Option.bind_eq_bind,
        Option.bind_some, Option.bind_map, Function.comp_def, hlast]
      simp only [← Option.bind_assoc, hcover]

/-- The text and the names, wherever the text comes from. -/
def writeText (call : LogCall) (text : List UInt8) (c : Cursor) : Option Cursor :=
  ((c.skip call.len).put text).bind fun c => writeNames call (c.advance (call.pidtid.length - 1))

/-- The byte behind the text is not copied. -/
theorem writeText_append (call : LogCall) (c : Cursor) :
    writeText call (call.pidtid ++ [0]) c = writeText call call.pidtid c := by
  have hpos := call.length_pidtid_pos
  have hname := put_append_writeName call.fileName (c.skip call.len)
    (by omega : 1 ≤ call.pidtid.length)
  simp only [writeText, writeNames, Option.bind_eq_bind]
  simp only [← Option.bind_assoc, hname]

/-- The reference writes the text of the call. -/
theorem formatSuffix_eq (l : LogCache) (hcall : call.Named) (c : Cursor) :
    l.formatSuffix call c = (writeText call call.pidtid c).map fun c => (l, c) := by
  rw [← writeText_append, formatSuffix_eq_bind, formatPidtid, snprintf_pidtid hcall.inRange,
    writeText]
  simp only [Option.bind_eq_bind, Option.bind_assoc, Option.bind_some, Option.map_bind,
    Function.comp_def]
  rfl

/-- So does `Write`, and it remembers the text. -/
theorem writeSuffix_eq_text (hr : l.Remembers) (hcall : call.Named) (c : Cursor) :
    l.writeSuffix call c =
      (writeText call call.pidtid c).map fun c => (l.remember call, c) := by
  rw [writeSuffix_eq_bind, writePidtid]
  split
  · next hhit =>
      have hcache : l.pidtidCache = call.pidtid := by
        rw [hr (hhit.1 ▸ hcall.pid), LogCall.pidtid, hhit.1, hhit.2]
      have hsame : l.remember call = l := by
        unfold remember
        rw [hhit.1, hhit.2, ← hcache]
      simp only [hcache, hsame, writeText, Option.bind_eq_bind, Option.bind_assoc,
        Option.bind_some, Option.map_bind, Function.comp_def]
  · rw [← writeText_append, writeText]
    simp only [snprintf_pidtid hcall.inRange, Option.bind_eq_bind, Option.bind_assoc,
      Option.bind_some, Option.map_bind, Function.comp_def]
    refine Option.bind_congr fun c' hput => ?_
    simp only [put_eq_map, Option.map_eq_some_iff] at hput
    obtain ⟨slot, hstore, rfl⟩ := hput
    have hload := load_of_store hstore (n := call.pidtid.length) (by simp)
    rw [List.take_left] at hload
    have hload' : load slot (c.skip call.len).idx (pidtidText call.pid call.tid).length =
        some call.pidtid := hload
    simp only [hload', Option.bind_some]
    rfl

end Suffix

/-! ## one use -/

/-- The calls name their processes and threads. -/
def Use.Named : Use → Prop
  | .write _ call => call.Named
  | _ => True

section Uses

variable {l l' : LogCache} {call : LogCall} {tv : Timeval}

/-- A record composed with the cache is the record composed without. -/
theorem compose_forget (hr : l.Remembers) (hcall : call.Named) :
    l.forget.composeBy formatSuffix tv call =
      (l.compose tv call).map fun p => (p.1.forget, p.2) := by
  have hslot : l.forget.slot l.forget.currentLoop = l.slot l.currentLoop := rfl
  have htime : l.forget.timeCache tv = l.timeCache tv := rfl
  simp only [composeBy, compose, hslot, htime, Option.bind_eq_bind, Option.map_bind,
    Function.comp_def]
  refine Option.bind_congr fun slot _ => Option.bind_congr fun time _ =>
    Option.bind_congr fun c _ => ?_
  split
  · have hr' : Remembers { l with lastTimeCache := time } := hr
    rw [formatSuffix_eq _ hcall, writeSuffix_eq_text hr' hcall, Option.map_map]
    rfl
  · cases writeTruncated c <;> rfl

/-- Composing a record leaves the text that of the last process and thread. -/
theorem remembers_compose {c : Cursor} (hr : l.Remembers) (hcall : call.Named)
    (h : l.compose tv call = some (l', c)) : l'.Remembers := by
  simp only [compose, Option.bind_eq_bind, Option.bind_eq_some_iff] at h
  obtain ⟨slot, -, time, -, c₁, -, h⟩ := h
  split at h
  · have hr' : Remembers { l with lastTimeCache := time } := hr
    rw [writeSuffix_eq_text hr' hcall] at h
    obtain ⟨c₂, -, h⟩ := Option.map_eq_some_iff.mp h
    cases h
    exact fun _ => rfl
  · obtain ⟨c₂, -, h⟩ := Option.bind_eq_some_iff.mp h
    cases h
    exact hr

/-- A flush does not look at the text remembered. -/
theorem flush_forget (l : LogCache) : l.forget.flush = l.flush.map forget := by
  have hloop : l.forget.flushLoop l.currentLoop.toNat = l.flushLoop l.currentLoop.toNat :=
    flushLoop_congr fun i _ => rfl
  have hcur : l.forget.currentLoop = l.currentLoop := rfl
  unfold flush
  rw [hcur, hloop]
  split
  · rfl
  · cases l.flushLoop l.currentLoop.toNat <;> rfl

/-- Ending a record does not look at the text remembered. -/
theorem finish_forget (l : LogCache) (c : Cursor) :
    l.forget.finish c = (l.finish c).map forget := by
  have hnext : l.forget.next c = (l.next c).forget := rfl
  have hcur : l.forget.currentLoop = l.currentLoop := rfl
  have hbuf : l.forget.destBuf = l.destBuf := rfl
  rw [finish_eq, finish_eq, hnext, hcur, hbuf]
  split
  · exact flush_forget _
  · rfl

/-- Every use leaves the text that of the last process and thread. -/
theorem remembers_use {u : Use} (hu : u.Named) (h : l.use u = some l') (hr : l.Remembers) :
    l'.Remembers := by
  cases used_of_use h with
  | filled hslot hstore => exact hr
  | kept => exact hr
  | levelSet => exact hr
  | flushed hflush =>
      obtain ⟨sent, currentLoop, rfl⟩ := flush_eq_some hflush
      exact hr
  | written hlevel hcompose hfinish =>
      have hkept := remembers_compose hr hu hcompose
      obtain ⟨sent, currentLoop, rfl⟩ := finish_eq_some hfinish
      exact hkept

/-- A use of the reference does what the use does. -/
theorem use_forget {u : Use} (hu : u.Named) (hr : l.Remembers) :
    l.forget.useBy formatSuffix u = (l.use u).map forget := by
  cases u with
  | fill off bytes =>
      simp only [useBy, use]
      split
      · have hslot : l.forget.slot l.forget.currentLoop = l.slot l.currentLoop := rfl
        simp only [fillBuf, hslot, Option.bind_eq_bind, Option.map_bind, Function.comp_def]
        rfl
      · rfl
  | setLevel level => rfl
  | flush => exact flush_forget l
  | write tv call =>
      have hlevel : l.forget.level = l.level := rfl
      simp only [useBy, use, writeBy, write, hlevel]
      split
      · rfl
      · cases tv with
        | none => rfl
        | some tv =>
            simp only [compose_forget hr hu, Option.bind_eq_bind]
            cases l.compose tv call with
            | none => rfl
            | some p =>
                obtain ⟨l₁, c⟩ := p
                simp only [Option.map_some, Option.bind_some, finish_forget]
                cases l₁.finish c <;> rfl

end Uses

/-! ## over a run -/

/-- A record does not show what is remembered. -/
theorem addRecord_forget (records : List (List UInt8)) (l : LogCache) (u : Use) (l' : LogCache) :
    addRecord records l.forget u l'.forget = addRecord records l u l' := by
  cases u with
  | write tv call => cases tv <;> rfl
  | fill | setLevel | flush => rfl

/-- **The cache of the text is not to be seen**: the reference puts together
the same records and leaves the same slots and the same file. -/
theorem run_formatting {l : LogCache} (hr : l.Remembers) {us : List Use}
    (hus : ∀ u ∈ us, u.Named) (records : List (List UInt8)) :
    run (recorded (useBy formatSuffix) addRecord) (l.forget, records) us =
      (run (recorded use addRecord) (l, records) us).map fun p => (p.1.forget, p.2) := by
  have hinv (p : LogCache × List (List UInt8)) (u : Use) (p' : LogCache × List (List UInt8))
      (hu : u.Named) (hstep : recorded use addRecord p u = some p') (hp : p.1.Remembers) :
      p'.1.Remembers :=
    remembers_use hu (recorded_eq_some.mp hstep).1 hp
  refine run_map (s := (l, records))
    (fun p : LogCache × List (List UInt8) => (p.1.forget, p.2)) hinv ?_ hus hr
  intro p u hu hp
  simp only [recorded, use_forget hu hp, Option.map_map, Function.comp_def, addRecord_forget]

/-! ## the text in the record -/

/-- What follows in a slot leaves what is in front of it. -/
structure Cursor.Extends (c c' : Cursor) : Prop where
  le : c.idx ≤ c'.idx
  front : c'.slot.take c.idx.toNat = c.slot.take c.idx.toNat

/-- What was written stays over two steps. -/
theorem Cursor.Extends.trans {c c' c'' : Cursor} (h : c.Extends c') (h' : c'.Extends c'') :
    c.Extends c'' := by
  refine ⟨Int.le_trans h.le h'.le, ?_⟩
  have hle : c.idx.toNat ≤ c'.idx.toNat := Int.toNat_le_toNat h.le
  have hfront := congrArg (List.take c.idx.toNat) h'.front
  rw [List.take_take, List.take_take, Nat.min_eq_left hle] at hfront
  exact hfront.trans h.front

/-- Moving the cursor on leaves what was written. -/
theorem Cursor.extends_advance (c : Cursor) (n : Nat) : c.Extends (c.advance n) :=
  ⟨by simp only [Cursor.advance]; omega, rfl⟩

/-- Bytes put at the cursor leave what was written before it. -/
theorem extends_put {c c' : Cursor} {bytes : List UInt8} (h : c.put bytes = some c') :
    c.Extends c' := by
  rw [put_eq_map] at h
  obtain ⟨slot, hstore, rfl⟩ := Option.map_eq_some_iff.mp h
  obtain ⟨hpos, hle, -⟩ := store_eq_some hstore
  obtain ⟨n, hn⟩ := Int.eq_ofNat_of_zero_le hpos
  rw [hn] at hstore
  have htake := congrArg (List.take n) (take_of_store hstore)
  rw [List.take_take, Nat.min_eq_left (by omega), List.take_append_of_le_length (by simp; omega),
    List.take_take, Nat.min_self] at htake
  exact ⟨Int.le_refl _, by simpa only [hn, Int.toNat_natCast] using htake⟩

/-- A name copied at the cursor leaves what was written before it. -/
theorem extends_writeName {name : List UInt8} {c c' : Cursor} (h : writeName name c = some c') :
    c.Extends c' := by
  simp only [writeName, Option.bind_eq_bind, Option.bind_eq_some_iff] at h
  obtain ⟨bytes, -, c₁, hput, n, -, h⟩ := h
  cases h
  exact (extends_put hput).trans (c₁.extends_advance n)

/-- The names leave what was written before them. -/
theorem extends_writeNames {call : LogCall} {c c' : Cursor} (h : writeNames call c = some c') :
    c.Extends c' := by
  simp only [writeNames, Option.bind_eq_bind, Option.bind_eq_some_iff] at h
  obtain ⟨c₁, hfile, c₂, hcolon, c₃, hline, c₄, hfunc, c₅, hbracket, h⟩ := h
  cases h
  have h₁ := (extends_writeName hfile).trans ((extends_put hcolon).trans (c₂.extends_advance 1))
  have h₂ := (extends_put hline).trans (c₃.extends_advance
    (signed ((call.lineNum.toNat : Int).bmod (2 ^ 32)) ++ ofString " ").length)
  have h₃ := (extends_writeName hfunc).trans ((extends_put hbracket).trans (c₅.extends_advance 2))
  exact h₁.trans (h₂.trans h₃)

/-- The text stands in the record where it was written, up to the character
that the name of the file takes. -/
theorem text_of_writeText {call : LogCall} {c c' : Cursor}
    (h : writeText call call.pidtid c = some c') :
    ((c'.slot.take c'.idx.toNat).drop (c.skip call.len).idx.toNat).take
      (call.pidtid.length - 1) = call.pidtid.dropLast := by
  obtain ⟨c₁, hput, hnames⟩ := Option.bind_eq_some_iff.mp h
  rw [put_eq_map] at hput
  obtain ⟨slot, hstore, rfl⟩ := Option.map_eq_some_iff.mp hput
  obtain ⟨hle, hfront⟩ := extends_writeNames hnames
  obtain ⟨hpos, hroom, -⟩ := store_eq_some hstore
  obtain ⟨n, hn⟩ := Int.eq_ofNat_of_zero_le hpos
  have htext := call.length_pidtid_pos
  rw [hn] at hstore hroom
  have htake := take_of_store hstore
  have hat : ((n : Int) + (call.pidtid.length - 1)).toNat = n + (call.pidtid.length - 1) := by
    omega
  simp only [Cursor.advance, hn, hat] at hle hfront
  have hblock : ((c.skip call.len).slot.take n).length = n := by simp; omega
  have hlast : n + (call.pidtid.length - 1) ≤ c'.idx.toNat := by omega
  have hlong : n + (call.pidtid.length - 1) ≤ n + call.pidtid.length := by omega
  rw [hn, Int.toNat_natCast]
  calc ((c'.slot.take c'.idx.toNat).drop n).take (call.pidtid.length - 1)
    _ = (slot.take (n + (call.pidtid.length - 1))).drop n := by
        rw [List.take_drop, List.take_take, Nat.min_eq_left hlast, hfront]
    _ = ((slot.take (n + call.pidtid.length)).drop n).take (call.pidtid.length - 1) := by
        rw [List.take_drop, List.take_take, Nat.min_eq_left hlong]
    _ = call.pidtid.dropLast := by
        rw [htake, List.drop_left' hblock, List.dropLast_eq_take]

/-- The prefix ends in front of the message. -/
def prefixLen (tv : Timeval) (level : CLLEVEL) : Nat := 18 + (usecText tv level).length + 1

/-- With a fraction of a second in range the prefix has its 33 bytes. -/
theorem prefixLen_eq {tv : Timeval} (h : tv.tv_usec < 1000000) (level : CLLEVEL) :
    prefixLen tv level = CL_LOG_PREFIX_LEN := by
  rw [prefixLen, length_usecText h]
  rfl

/-- Behind the prefix the cursor is at its length. -/
theorem idx_writePrefix {time slot : List UInt8} {tv : Timeval} {level : CLLEVEL} {c : Cursor}
    (h : writePrefix time tv level slot = some c) : c.idx = prefixLen tv level := by
  simp only [writePrefix, Option.bind_eq_bind, Option.bind_eq_some_iff] at h
  obtain ⟨bytes, -, c₁, hput₁, c₂, hput₂, c₃, hput₃, h⟩ := h
  cases h
  have hidx₁ := (put_eq_some hput₁).1
  have hidx₂ := (put_eq_some hput₂).1
  have hidx₃ := (put_eq_some hput₃).1
  simp only [Cursor.advance] at hidx₁ hidx₂ hidx₃ ⊢
  rw [hidx₃, hidx₂, hidx₁]
  simp only [prefixLen, usecText]
  omega

/-- Where the text begins. -/
def textAt (tv : Timeval) (call : LogCall) : Int :=
  ((prefixLen tv call.level : Int) + call.len.toNat).bmod (2 ^ 32)

/-- What stands in a record in the place of the text.  The name of the file
takes the place of its last character. -/
def textOf (tv : Timeval) (call : LogCall) (record : List UInt8) : List UInt8 :=
  (record.drop (textAt tv call).toNat).take (call.pidtid.length - 1)

/-- The calls that wrote a suffix so far, with what stands in their records. -/
def addText (texts : List (LogCall × List UInt8)) (l : LogCache) (u : Use) (l' : LogCache) :
    List (LogCall × List UInt8) :=
  match u with
  | .write (some tv) call =>
    if l.level.value ≤ call.level.value ∧ HasRoom (prefixLen tv call.level) call.len then
      texts ++ [(call, textOf tv call (l'.firstBytes l.currentLoop))]
    else texts
  | _ => texts

section Texts

variable {l l' l₁ : LogCache} {call : LogCall} {tv : Timeval} {c : Cursor}

/-- A record that was put together is the front of its slot. -/
theorem firstBytes_of_finish (hidx : l.idx.length = l.destBuf.length) {slot : List UInt8}
    (hslot : l.slot l.currentLoop = some slot) (hin : c.Inside) (h : l.finish c = some l') :
    l'.firstBytes l.currentLoop = c.slot.take c.idx.toNat := by
  have hnext : (l.next c).firstBytes l.currentLoop = c.slot.take c.idx.toNat := by
    unfold LogCache.slot at hslot
    split at hslot
    · next hnonneg =>
        obtain ⟨hlt, -⟩ := List.getElem?_eq_some_iff.mp hslot
        exact firstBytes_next hnonneg hlt (by omega) hin
    · cases hslot
  obtain ⟨sent, currentLoop, rfl⟩ := finish_eq_some h
  exact hnext

/-- In the place of the text of a record there is that of its own process and thread. -/
theorem textOf_compose (hr : l.Remembers) (hcall : call.Named)
    (hroom : HasRoom (prefixLen tv call.level) call.len)
    (h : l.compose tv call = some (l', c)) :
    textOf tv call (c.slot.take c.idx.toNat) = call.pidtid.dropLast := by
  simp only [compose, Option.bind_eq_bind, Option.bind_eq_some_iff] at h
  obtain ⟨slot, -, time, -, c₁, hprefix, h⟩ := h
  have hidx := idx_writePrefix hprefix
  have hr' : Remembers { l with lastTimeCache := time } := hr
  rw [hidx, if_pos hroom, writeSuffix_eq_text hr' hcall] at h
  obtain ⟨c₂, htext, h⟩ := Option.map_eq_some_iff.mp h
  cases h
  have hat : (c₁.skip call.len).idx = textAt tv call := by
    unfold textAt
    rw [Cursor.idx_skip, hidx]
  rw [textOf, ← hat]
  exact text_of_writeText htext

/-- The slots and their indices stay as many. -/
theorem indices_use {u : Use} (h : l.use u = some l') (hidx : l.idx.length = l.destBuf.length) :
    l'.idx.length = l'.destBuf.length := by
  cases used_of_use h with
  | filled hslot hstore => simpa using hidx
  | kept => exact hidx
  | levelSet => exact hidx
  | flushed hflush =>
      obtain ⟨sent, currentLoop, rfl⟩ := flush_eq_some hflush
      exact hidx
  | written hlevel hcompose hfinish =>
      obtain ⟨hsame, -⟩ := compose_eq_some hcompose
      obtain ⟨sent, currentLoop, rfl⟩ := finish_eq_some hfinish
      simp [next, setSlot, hsame.idx, hsame.destBuf, hidx]

/-- Every use keeps each record's text that of its call. -/
theorem texts_use {u : Use} (hu : u.Named) (h : l.use u = some l') (hr : l.Remembers)
    (hidx : l.idx.length = l.destBuf.length) {texts : List (LogCall × List UInt8)}
    (htexts : ∀ p ∈ texts, p.2 = p.1.pidtid.dropLast) :
    ∀ p ∈ addText texts l u l', p.2 = p.1.pidtid.dropLast := by
  cases used_of_use h with
  | filled | levelSet | flushed => exact htexts
  | @kept tv call hkept =>
      cases tv with
      | none => exact htexts
      | some tv =>
          have hlow : ¬ l.level.value ≤ call.level.value := by simpa using hkept
          rw [addText, if_neg fun hsuffix => hlow hsuffix.1]
          exact htexts
  | @written tv call l₁ l' c hlevel hcompose hfinish =>
      rw [addText]
      split
      · next hsuffix =>
          obtain ⟨hsame, hin⟩ := compose_eq_some hcompose
          obtain ⟨slot, hslot, -⟩ := Option.bind_eq_some_iff.mp hcompose
          have htext := textOf_compose hr hu hsuffix.2 hcompose
          have hidx' : l₁.idx.length = l₁.destBuf.length := by
            rw [hsame.idx, hsame.destBuf, hidx]
          have hslot' : l₁.slot l₁.currentLoop = some slot := by
            rw [← hslot, hsame.currentLoop, LogCache.slot, LogCache.slot, hsame.destBuf]
          have hrecord := firstBytes_of_finish hidx' hslot' hin hfinish
          rw [hsame.currentLoop] at hrecord
          refine List.forall_mem_append.mpr ⟨htexts, ?_⟩
          simp [hrecord, htext]
      · exact htexts

end Texts

/-- **Copying the text is formatting it.**  In every run of a cache, whatever
processes and threads its calls name, the reference puts together the same
records and leaves the same slots and the same file, and every record with a
suffix has the text of its own call. -/
theorem pidtidCache_transparent {garbage : List UInt8} {fd : Int} {max_msg_len max_loop : Nat}
    {l₀ : LogCache} (hinit : init fd max_msg_len max_loop (construct garbage) = .ok l₀)
    {us : List Use} (hus : ∀ u ∈ us, u.Named) :
    run (recorded (useBy formatSuffix) addRecord) (l₀, []) us =
      (run (recorded use addRecord) (l₀, []) us).map (fun p => (p.1.forget, p.2)) ∧
    ∀ l texts, run (recorded use addText) (l₀, []) us = some (l, texts) →
      ∀ p ∈ texts, p.2 = p.1.pidtid.dropLast := by
  unfold init at hinit
  split at hinit
  · cases hinit
  · cases hinit
    have hr : Remembers (allocBuf max_msg_len max_loop { construct garbage with fd := fd }) :=
      fun hpid => absurd rfl hpid
    refine ⟨run_formatting hr hus [], fun l texts hrun => ?_⟩
    have hkept := run_invariant_along (C := fun _ u => Use.Named u)
      (fun p : LogCache × List (LogCall × List UInt8) => p.1.Remembers ∧
        p.1.idx.length = p.1.destBuf.length ∧ ∀ q ∈ p.2, q.2 = q.1.pidtid.dropLast) ?_
      (along_of_forall_mem _ hus _) hrun ⟨hr, ?_, by simp⟩
    · exact hkept.2.2
    · rintro p u p' hu hstep ⟨hp, hidx, htexts⟩
      obtain ⟨huse, hnote⟩ := recorded_eq_some.mp hstep
      rw [hnote]
      exact ⟨remembers_use hu huse hp, indices_use huse hidx, texts_use hu huse hp hidx htexts⟩
    · simp [allocBuf, construct]

/-- A call of another process and thread than those of `logHi`. -/
def logBye : List Use :=
  [.fill 0 (ofString "bye" ++ [0]),
    .write (some ⟨1700000001, 7, ⟨123, 10, 14, 22, 13, 21⟩⟩)
      ⟨.ERROR, 3, ofString "b.cpp" ++ List.replicate 123 0, 9,
        ofString "f" ++ List.replicate 127 0, -43, 7⟩]

theorem named_logHi (level : CLLEVEL) : ∀ u ∈ logHi level, u.Named := by
  refine List.forall_mem_cons.mpr ⟨trivial, List.forall_mem_cons.mpr ⟨?_, by simp⟩⟩
  exact ⟨by simp, by simp, by simp [LogCall.PidInRange]⟩

theorem named_logBye : ∀ u ∈ logBye, u.Named := by
  refine List.forall_mem_cons.mpr ⟨trivial, List.forall_mem_cons.mpr ⟨?_, by simp⟩⟩
  exact ⟨by simp, by simp, by simp [LogCall.PidInRange]⟩

/-- The second call is filtered, the third copies the text, the others format
it. -/
theorem pidtidCache_transparent_bye : ∃ l texts,
    run (recorded use addText) (twoSlots, [])
      (logHi .INFO ++ [.setLevel .WARN] ++ logHi .INFO ++ logHi .ERROR ++ logBye) =
        some (l, texts) ∧ texts.length = 3 ∧ ∀ p ∈ texts, p.2 = p.1.pidtid.dropLast := by
  have hsome : ((run (recorded use addText) (twoSlots, [])
      (logHi .INFO ++ [.setLevel .WARN] ++ logHi .INFO ++ logHi .ERROR ++ logBye)).filter
        fun p => p.2.length = 3).isSome := by decide +kernel
  obtain ⟨⟨l, texts⟩, hfilter⟩ := Option.isSome_iff_exists.mp hsome
  obtain ⟨hrun, hlen⟩ := Option.filter_eq_some_iff.mp hfilter
  have hinit : init 1 400 2 (construct (List.replicate 19 0)) = .ok twoSlots := rfl
  have hnamed : ∀ u ∈ logHi .INFO ++ [.setLevel .WARN] ++ logHi .INFO ++ logHi .ERROR ++ logBye,
      u.Named := by
    have hlevel : ∀ u ∈ [Use.setLevel .WARN], u.Named :=
      List.forall_mem_cons.mpr ⟨trivial, by simp⟩
    simp only [List.forall_mem_append]
    exact ⟨⟨⟨⟨named_logHi _, hlevel⟩, named_logHi _⟩, named_logHi _⟩, named_logBye⟩
  exact ⟨l, texts, hrun, of_decide_eq_true hlen,
    (pidtidCache_transparent hinit hnamed).2 l texts hrun⟩

end LogCache

end CppFastDevelop
