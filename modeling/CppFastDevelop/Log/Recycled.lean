import CppFastDevelop.Log.Bounds

/-!
# CppFastDevelop.Log.Recycled

What a record shows of the slot it was put together in.  Slots are not
cleared, so a byte of the record that its call does not write is a byte of an
earlier record, and two histories of a cache tell themselves apart by it.  What
is recorded is what is flushed (Log.Flushed).

The record of a call is the same after every history exactly if the message,
the prefix and the suffix cover it (`determined_iff_covers`) and the clock has
left the first second, whose time text is never written; `Covered` says it in
lengths.
-/

namespace CppFastDevelop

namespace LogCache

open CString Machine

open Patch (place place_eq_none isSome_place isSome_above apply_apply length_apply
  take_apply_of_covers getElem?_apply_of_eq_none)

/-! ## histories -/

/-- A logging call: the message is put behind the place of the prefix, with
its terminator, and `Write` is called. -/
def logged (msg : List UInt8) (tv : Timeval) (call : LogCall) : List Use :=
  [.fill 0 (msg ++ [0]), .write (some tv) call]

/-- What a cache may have gone through from `Init` on, and the records it has
put together. -/
def History (l : LogCache) (records : List (List UInt8)) : Prop :=
  ∃ (garbage : List UInt8) (fd : Int) (max_loop : Nat) (l₀ : LogCache) (us : List Use),
    garbage.length = 19 ∧ 1 ≤ max_loop ∧
    init fd CL_LOG_MAX_MSG_LEN max_loop (construct garbage) = .ok l₀ ∧
    (∀ u ∈ us, u.InRange) ∧ run (recorded use addRecord) (l₀, []) us = some (l, records)

/-- After some history the bytes are the record of the call. -/
def Recordable (msg : List UInt8) (tv : Timeval) (call : LogCall) (bytes : List UInt8) : Prop :=
  ∃ l records l', History l records ∧ l.level.value ≤ call.level.value ∧
    run (recorded use addRecord) (l, records) (logged msg tv call) =
      some (l', records ++ [bytes])

/-- The record of the call is the same after every history. -/
def Determined (msg : List UInt8) (tv : Timeval) (call : LogCall) : Prop :=
  ∀ bytes bytes', Recordable msg tv call bytes → Recordable msg tv call bytes' → bytes = bytes'

/-- A cache with a history is one that is reached. -/
theorem History.reached {l : LogCache} {records : List (List UInt8)} (h : History l records) :
    Reached l := by
  obtain ⟨garbage, fd, max_loop, l₀, us, hgarbage, hloop, hinit, hus, hrun⟩ := h
  exact reached_of_run hgarbage hloop hinit hus (run_of_run_recorded hrun)

/-! ## the record of a call -/

/-- All that a logging call puts into the slot. -/
def logPatch (msg : List UInt8) (time : List UInt8) (tv : Timeval) (call : LogCall) :
    Patch UInt8 :=
  (patch time tv call).above (place CL_LOG_PREFIX_LEN (msg ++ [0]))

section Call

variable {msg : List UInt8} {tv : Timeval} {call : LogCall}

/-- The call is one that `CLLOGC` may make, and its record stays in the
slot. -/
structure Sane (msg : List UInt8) (tv : Timeval) (call : LogCall) : Prop where
  len : call.len.toNat = msg.length
  lt : msg.length < getBufLen
  usec : tv.tv_usec < 1000000
  pos : 0 < call.pid
  pid : call.PidInRange
  readable : call.Readable
  inSlot : HasRoom 33 call.len → call.InSlot

/-- The cache with its current slot rewritten. -/
def withSlot (l : LogCache) (slot : List UInt8) : LogCache :=
  { l with destBuf := l.destBuf.set l.currentLoop.toNat slot }

@[simp] theorem timeCache_withSlot (l : LogCache) (slot : List UInt8) (tv : Timeval) :
    (l.withSlot slot).timeCache tv = l.timeCache tv := rfl

@[simp] theorem level_withSlot (l : LogCache) (slot : List UInt8) :
    (l.withSlot slot).level = l.level := rfl

/-- What the caller puts behind the pointer is laid over the slot. -/
theorem use_fill_eq {l : LogCache} {slot bytes : List UInt8} {off : Nat} (h : Reached l)
    (hslot : l.slot l.currentLoop = some slot) (hfit : off + bytes.length ≤ getBufLen) :
    l.use (.fill off bytes) =
      some (l.withSlot ((place (CL_LOG_PREFIX_LEN + off) bytes).apply slot)) := by
  have hlen := h.sound.length_slot hslot
  have hroom : CL_LOG_PREFIX_LEN + off + bytes.length ≤ slot.length := by
    have hbuf : getBufLen = 8159 := rfl
    have hhead : CL_LOG_PREFIX_LEN = 33 := rfl
    have hmax : CL_LOG_MAX_MSG_LEN = 8192 := rfl
    omega
  have hstore := store_eq_patch hroom
  simp only [use, if_pos hfit, fillBuf, hslot, Option.bind_eq_bind, Option.bind_some]
  rw [← Int.natCast_add, hstore]
  rfl

/-- The slot put in is the current slot. -/
theorem slot_withSlot {l : LogCache} (h : Reached l) (slot : List UInt8) :
    (l.withSlot slot).slot (l.withSlot slot).currentLoop = some slot := by
  obtain ⟨max_loop, records, hready⟩ := h.ready
  have hnonneg := hready.nonneg
  have hlt := hready.lt
  have hslots := hready.slots
  have hin : l.currentLoop.toNat < l.destBuf.length := by omega
  simp [withSlot, LogCache.slot, hnonneg, hin]

/-- Every use of a reached cache reaches another. -/
theorem Reached.use {l l' : LogCache} {u : Use} (h : Reached l) (hu : u.InRange)
    (huse : l.use u = some l') : Reached l' := by
  obtain ⟨max_loop, records, hready⟩ := h.ready
  exact ⟨sound_use hu huse h.sound, max_loop, _, ready_use huse hready⟩

/-- A logging call lays its patch over the slot and records the first bytes
of it. -/
theorem run_logged {l : LogCache} (records : List (List UInt8)) {slot time : List UInt8}
    (h : Reached l) (hsane : Sane msg tv call) (hlevel : l.level.value ≤ call.level.value)
    (hslot : l.slot l.currentLoop = some slot) (htime : l.timeCache tv = some time) :
    ∃ l', run (recorded use addRecord) (l, records) (logged msg tv call) =
      some (l', records ++ [((logPatch msg time tv call).apply slot).take (length call)]) := by
  have hfit : 0 + (msg ++ [0]).length ≤ getBufLen := by
    have hlt := hsane.lt
    rw [List.length_append, List.length_singleton]
    omega
  have hfill := use_fill_eq h hslot hfit
  generalize hl : l.withSlot ((place (CL_LOG_PREFIX_LEN + 0) (msg ++ [0])).apply slot) = l₁ at hfill
  have hrange : Use.InRange (.fill 0 (msg ++ [0])) := trivial
  have h₁ : Reached l₁ := h.use hrange hfill
  have hslot₁ : l₁.slot l₁.currentLoop =
      some ((place (CL_LOG_PREFIX_LEN + 0) (msg ++ [0])).apply slot) := by
    rw [← hl]
    exact slot_withSlot h _
  have htime₁ : l₁.timeCache tv = some time := by rw [← hl]; exact htime
  have hlevel₁ : l₁.level.value ≤ call.level.value := by rw [← hl]; exact hlevel
  have hlen := h₁.sound.length_slot hslot₁
  have htimeLen : time.length = 19 := (length_timeCache htime).trans h.sound.time
  obtain ⟨l₂, hcompose⟩ := compose_eq hslot₁ hlen htime₁ htimeLen hsane.usec
    (h₁.pidtidCache_eq hsane.pos) hsane.pid hsane.readable hsane.inSlot
  obtain ⟨l', hwrite, -, hfirst⟩ := write_of_compose h₁ hlevel₁ hcompose
  rw [apply_apply] at hfirst
  have huse : l₁.use (.write (some tv) call) = some l' := by
    simp only [use, hwrite, Option.map_some]
  have hnote : addRecord records l₁ (.write (some tv) call) l' = records ++
      [((logPatch msg time tv call).apply slot).take (length call)] := by
    rw [addRecord, if_neg (Nat.not_lt.mpr hlevel₁), hfirst, Int.toNat_natCast, logPatch,
      Nat.add_zero]
  refine ⟨l', ?_⟩
  simp only [logged, run_cons_eq_some, recorded_eq_some]
  exact ⟨(l₁, records), ⟨hfill, rfl⟩, (l', _), ⟨huse, hnote.symm⟩, rfl⟩

/-- The bytes that a slot may show in the record of the call. -/
theorem recordable_iff (hsane : Sane msg tv call) {bytes : List UInt8} :
    Recordable msg tv call bytes ↔ ∃ l records slot time, History l records ∧
      l.level.value ≤ call.level.value ∧ l.slot l.currentLoop = some slot ∧
      l.timeCache tv = some time ∧
      bytes = ((logPatch msg time tv call).apply slot).take (length call) := by
  constructor
  · intro ⟨l, records, l', hhistory, hlevel, hrun⟩
    obtain ⟨slot, hslot, -⟩ := hhistory.reached.exists_slot
    obtain ⟨time, htime, -⟩ := exists_timeCache tv hhistory.reached.sound.time
    obtain ⟨l'', hrun'⟩ := run_logged records hhistory.reached hsane hlevel hslot htime
    have hsame := (Prod.mk.inj (Option.some.inj (hrun.symm.trans hrun'))).2
    have hbytes := (List.cons.inj (List.append_cancel_left hsame)).1
    exact ⟨l, records, slot, time, hhistory, hlevel, hslot, htime, hbytes⟩
  · intro ⟨l, records, slot, time, hhistory, hlevel, hslot, htime, hbytes⟩
    rw [hbytes]
    obtain ⟨l', hrun⟩ := run_logged records hhistory.reached hsane hlevel hslot htime
    exact ⟨l, records, l', hhistory, hlevel, hrun⟩

/-! ## records that are the same after every history -/

/-- The text of a time has the 18 bytes that are kept of it. -/
theorem length_timeText (gmt : Tm) : 18 ≤ (timeText gmt).length := by
  have htwo (n : Int) : 2 ≤ (signedZeros 2 n).length := by
    unfold signedZeros
    split <;> simp only [padLeft, List.length_cons, List.length_append, List.length_replicate] <;>
      omega
  have hyear : 4 ≤ (padLeft 4 ' ' (signed (gmt.tm_year + 1900))).length := by
    simp only [padLeft, List.length_append, List.length_replicate]
    omega
  have hmon := htwo (gmt.tm_mon + 1)
  have hmday := htwo gmt.tm_mday
  have hhour := htwo gmt.tm_hour
  have hmin := htwo gmt.tm_min
  have hsec := htwo gmt.tm_sec
  simp only [timeText, List.length_append, length_ofString, String.reduceToList, List.length_cons,
    List.length_nil]
  omega

/-- From the second second on the time is written anew. -/
theorem take_timeCache {l : LogCache} {time : List UInt8} (h : SoundCaches l)
    (hsec : tv.tv_sec ≠ 0) (htime : l.timeCache tv = some time) :
    time.take 18 = (snprintf 19 (timeText tv.gmt)).take 18 := by
  have hlen : 18 ≤ (snprintf 19 (timeText tv.gmt)).length := by
    have htext := length_timeText tv.gmt
    rw [length_snprintf (by decide)]
    omega
  have htimeLen : time.length = 19 := (length_timeCache htime).trans h.time
  rw [timeCache, if_pos (by rw [h.seconds]; exact hsec)] at htime
  have hread := load_of_store htime hlen
  rw [load, if_pos ⟨Int.le_refl 0, by rw [htimeLen]; decide⟩] at hread
  exact Option.some.inj hread

/-- Where the suffix writes. -/
theorem isSome_suffix (hread : call.Readable) (k : Nat) : (call.suffix k).isSome = true ↔
    (call.funcAt + call.funcLen ≤ k ∧ k < call.recordLen) ∨
      (call.funcAt ≤ k ∧ k < call.funcAt + 128) ∨
      (call.lineAt ≤ k ∧ k < call.lineAt + (min 5 call.line.length + 1)) ∨
      k = call.fileAt + call.fileLen ∨
      (call.fileAt ≤ k ∧ k < call.fileAt + 128) ∨
      (call.suffixAt ≤ k ∧ k < call.suffixAt + call.pidtid.length) := by
  have hfile : (call.fileName.take 128).length = 128 := by
    rw [List.length_take]
    exact Nat.min_eq_left hread.file
  have hfunc : (call.funcName.take 128).length = 128 := by
    rw [List.length_take]
    exact Nat.min_eq_left hread.func
  have hline : (snprintf 6 call.line).length = min 5 call.line.length + 1 :=
    length_snprintf (by decide) _
  have hbracket : (ofString "]\n").length = 2 := rfl
  have hcolon : (ofString ":").length = 1 := rfl
  have hend : call.recordLen = call.funcAt + call.funcLen + 2 := rfl
  simp only [LogCall.suffix, isSome_above, Bool.or_eq_true, isSome_place, hfile, hfunc, hline,
    hbracket, hcolon, hend]
  have hone : call.fileAt + call.fileLen ≤ k ∧ k < call.fileAt + call.fileLen + 1 ↔
      k = call.fileAt + call.fileLen := by omega
  rw [hone]

/-- The suffix writes nothing of the prefix. -/
theorem le_of_isSome_suffix (hread : call.Readable) {k : Nat}
    (h : (call.suffix k).isSome = true) : 33 ≤ k := by
  rw [isSome_suffix hread] at h
  obtain ⟨hsuffixAt, hfileAt, -, hlineAt, hfuncAt, -⟩ := call.offsets
  generalize min 5 call.line.length = stored at h
  generalize call.suffixAt = suffixAt at *
  generalize call.fileAt = fileAt at *
  generalize call.lineAt = lineAt at *
  generalize call.funcAt = funcAt at *
  omega

/-- Where the call writes behind the message. -/
def WritesAfter (call : LogCall) (k : Nat) : Prop :=
  if HasRoom 33 call.len then (call.suffix k).isSome = true else k = CL_LOG_MAX_MSG_LEN - 1

/-- The prefix and the message come first, and the prefix is not touched
again. -/
theorem logPatch_apply (hsane : Sane msg tv call) {time : List UInt8} (htime : time.length = 19)
    (k : Nat) :
    ((logPatch msg time tv call k).isSome = true ↔ k ≤ 33 + msg.length ∨ WritesAfter call k) ∧
      (k < 33 → logPatch msg time tv call k = (prefixText time tv call.level)[k]?) := by
  have hhead := length_prefixText htime hsane.usec call.level
  have hplaced : place 0 (prefixText time tv call.level) k =
      (prefixText time tv call.level)[k]? := by simp [place]
  have hafter : ((if HasRoom 33 call.len then call.suffix else
      place (CL_LOG_MAX_MSG_LEN - 1) (ofString "\n")) k).isSome = true ↔ WritesAfter call k := by
    unfold WritesAfter
    split
    · exact Iff.rfl
    · rw [isSome_place]
      have hone : (ofString "\n").length = 1 := rfl
      rw [hone]
      omega
  constructor
  · have hfirst : (0 ≤ k ∧ k < 0 + 33) ∨ CL_LOG_PREFIX_LEN ≤ k ∧
        k < CL_LOG_PREFIX_LEN + (msg.length + 1) ↔ k ≤ 33 + msg.length := by
      have hlen : CL_LOG_PREFIX_LEN = 33 := rfl
      omega
    simp only [logPatch, patch, isSome_above, Bool.or_eq_true, isSome_place, hhead, hafter,
      List.length_append, List.length_singleton]
    rw [or_assoc, hfirst, or_comm]
  · intro hk
    have hnone : (if HasRoom 33 call.len then call.suffix else
        place (CL_LOG_MAX_MSG_LEN - 1) (ofString "\n")) k = none := by
      rw [← Option.not_isSome_iff_eq_none, hafter]
      unfold WritesAfter
      split
      · exact fun hsuffix => absurd (le_of_isSome_suffix hsane.readable hsuffix) (by omega)
      · have hmax : CL_LOG_MAX_MSG_LEN = 8192 := rfl
        rw [hmax]
        omega
    have hsome : ((prefixText time tv call.level)[k]?).isSome = true := by
      simp [hhead, hk]
    obtain ⟨x, hx⟩ := Option.isSome_iff_exists.mp hsome
    simp [logPatch, patch, Patch.above, hnone, hplaced, hx]

/-- The record of a sane call has a prefix and stays in its slot. -/
theorem length_le (hsane : Sane msg tv call) :
    33 < length call ∧ length call ≤ CL_LOG_MAX_MSG_LEN := by
  unfold length
  split
  · next hroom =>
      obtain ⟨hsuffixAt, hfileAt, -, hlineAt, hfuncAt, hend⟩ := call.offsets
      have hrecord := (hsane.inSlot hroom).record
      exact ⟨by omega, hrecord⟩
  · exact ⟨by decide, Nat.le_refl _⟩

/-- Every byte of the record is one that the call writes. -/
def CoversRecord (msg : List UInt8) (call : LogCall) : Prop :=
  ∀ k < length call, k ≤ 33 + msg.length ∨ WritesAfter call k

/-- Of the time only the first 18 bytes are written. -/
theorem logPatch_congr {time time' : List UInt8} (h : time.take 18 = time'.take 18) :
    logPatch msg time tv call = logPatch msg time' tv call := by
  rw [logPatch, logPatch, patch, patch, prefixText, prefixText, h]

/-- A call that writes every byte of its record leaves nothing to the history. -/
theorem determined_of_covers (hsane : Sane msg tv call) (hsec : tv.tv_sec ≠ 0)
    (hcovers : CoversRecord msg call) : Determined msg tv call := by
  intro bytes bytes' hbytes hbytes'
  obtain ⟨l, records, slot, time, hhistory, hlevel, hslot, htime, hbytes⟩ :=
    (recordable_iff hsane).mp hbytes
  obtain ⟨l', records', slot', time', hhistory', hlevel', hslot', htime', hbytes'⟩ :=
    (recordable_iff hsane).mp hbytes'
  have h := hhistory.reached
  have h' := hhistory'.reached
  have htimes : time.take 18 = time'.take 18 :=
    (take_timeCache h.sound.toSoundCaches hsec htime).trans
      (take_timeCache h'.sound.toSoundCaches hsec htime').symm
  have hlen : slot.length = slot'.length :=
    (h.sound.length_slot hslot).trans (h'.sound.length_slot hslot').symm
  have htimeLen : time'.length = 19 := (length_timeCache htime').trans h'.sound.time
  rw [hbytes, hbytes', logPatch_congr htimes]
  exact take_apply_of_covers (fun k hk => (logPatch_apply hsane htimeLen k).1.mpr (hcovers k hk))
    hlen

/-! ## records that tell histories apart -/

/-- A cache with one slot, before any use. -/
def oneSlot (x : UInt8) : LogCache :=
  allocBuf CL_LOG_MAX_MSG_LEN 1 { construct (List.replicate 19 x) with fd := 1 }

/-- A cache just initialised has a history. -/
theorem history_oneSlot (x : UInt8) : History (oneSlot x) [] :=
  ⟨_, 1, 1, oneSlot x, [], List.length_replicate, Nat.le_refl 1, rfl, inRange_nil, run_nil _⟩

theorem slot_oneSlot (x : UInt8) : (oneSlot x).slot (oneSlot x).currentLoop =
    some (List.replicate CL_LOG_MAX_MSG_LEN 0) := rfl

/-- A byte of the slot is brought in from outside. -/
theorem history_fill (x : UInt8) {off : Nat} (hoff : off < getBufLen) :
    History ((oneSlot 0).withSlot ((place (CL_LOG_PREFIX_LEN + off) [x]).apply
      (List.replicate CL_LOG_MAX_MSG_LEN 0))) [] := by
  have hfit : off + [x].length ≤ getBufLen := by
    rw [List.length_singleton]
    exact hoff
  have hfill := use_fill_eq (history_oneSlot 0).reached (slot_oneSlot 0) hfit
  generalize (oneSlot 0).withSlot _ = l at hfill
  have hrange : ∀ u ∈ [Use.fill off [x]], u.InRange := by simp [Use.InRange]
  have hstep : recorded use addRecord (oneSlot 0, []) (.fill off [x]) = some (l, []) :=
    recorded_eq_some.mpr ⟨hfill, rfl⟩
  exact ⟨_, 1, 1, oneSlot 0, [.fill off [x]], List.length_replicate, Nat.le_refl 1, rfl, hrange,
    run_cons_eq_some.mpr ⟨(l, []), hstep, run_nil _⟩⟩

/-- In the second that the cache starts with, the record begins with what was
in the memory of the cache. -/
theorem not_determined_of_sec (hsane : Sane msg tv call) (hsec : tv.tv_sec = 0) :
    ¬ Determined msg tv call := by
  have htime (x : UInt8) : (oneSlot x).timeCache tv = some (List.replicate 19 x) := by
    have hsame : ¬ tv.tv_sec ≠ (oneSlot x).lastSeconds := not_not.mpr hsec
    rw [timeCache, if_neg hsame]
    rfl
  have hlevel (x : UInt8) : (oneSlot x).level.value ≤ call.level.value := Nat.zero_le _
  have hfirst (x : UInt8) : (((logPatch msg (List.replicate 19 x) tv call).apply
      (List.replicate CL_LOG_MAX_MSG_LEN 0)).take (length call))[0]? = some x := by
    have hpos := (length_le hsane).1
    have hpatch := (logPatch_apply hsane (List.length_replicate (n := 19) (a := x)) 0).2 (by decide)
    have hhead : (prefixText (List.replicate 19 x) tv call.level)[0]? = some x := rfl
    rw [List.getElem?_take_of_lt (by omega), Patch.getElem?_apply, hpatch, hhead]
    rfl
  intro h
  have hbytes (x : UInt8) := (recordable_iff hsane).mpr
    ⟨oneSlot x, [], _, _, history_oneSlot x, hlevel x, slot_oneSlot x, htime x, rfl⟩
  have hsame := congrArg (fun bytes : List UInt8 => bytes[0]?) (h _ _ (hbytes 0) (hbytes 1))
  simp only [hfirst] at hsame
  exact absurd hsame (by decide)

/-- A byte that the call does not write is shown as it is in the slot. -/
theorem covers_of_determined (hsane : Sane msg tv call) (h : Determined msg tv call) :
    CoversRecord msg call := by
  intro k hk
  refine Classical.byContradiction fun huncovered => ?_
  obtain ⟨hmsg, -⟩ := not_or.mp huncovered
  have hmax : CL_LOG_MAX_MSG_LEN = 8192 := rfl
  have hhead : CL_LOG_PREFIX_LEN = 33 := rfl
  have hbuf : getBufLen = 8159 := rfl
  have hlen := (length_le hsane).2
  have hoff : k - 33 < getBufLen := by omega
  obtain ⟨time, htime, htimeLen⟩ :=
    exists_timeCache tv (history_oneSlot 0).reached.sound.time
  have hnone : logPatch msg time tv call k = none := by
    rw [← Option.not_isSome_iff_eq_none, (logPatch_apply hsane htimeLen k).1]
    exact huncovered
  have hshown (x : UInt8) : (((logPatch msg time tv call).apply
      ((place (CL_LOG_PREFIX_LEN + (k - 33)) [x]).apply
        (List.replicate CL_LOG_MAX_MSG_LEN 0))).take (length call))[k]? = some x := by
    have hat : CL_LOG_PREFIX_LEN + (k - 33) = k := by omega
    have hin : k < CL_LOG_MAX_MSG_LEN := by omega
    rw [List.getElem?_take_of_lt hk, getElem?_apply_of_eq_none hnone, hat, Patch.getElem?_apply,
      List.getElem?_replicate, if_pos hin]
    simp [place]
  have hbytes (x : UInt8) : Recordable msg tv call (((logPatch msg time tv call).apply
      ((place (CL_LOG_PREFIX_LEN + (k - 33)) [x]).apply
        (List.replicate CL_LOG_MAX_MSG_LEN 0))).take (length call)) := by
    rw [recordable_iff hsane]
    refine ⟨_, [], _, time, history_fill x hoff, ?_,
      slot_withSlot (history_oneSlot 0).reached _, ?_, rfl⟩
    · rw [level_withSlot]
      exact Nat.zero_le _
    · rw [timeCache_withSlot]
      exact htime
  have hsame := congrArg (fun bytes : List UInt8 => bytes[k]?) (h _ _ (hbytes 0) (hbytes 1))
  simp only [hshown] at hsame
  exact absurd hsame (by decide)

/-- The record of a call is the same after every history exactly if the clock
has left the first second and the call writes all of the record. -/
theorem determined_iff_covers (hsane : Sane msg tv call) :
    Determined msg tv call ↔ tv.tv_sec ≠ 0 ∧ CoversRecord msg call :=
  ⟨fun h => ⟨fun hsec => not_determined_of_sec hsane hsec h, covers_of_determined hsane h⟩,
    fun ⟨hsec, hcovers⟩ => determined_of_covers hsane hsec hcovers⟩

/-! ## the condition on the lengths -/

/-- Where a suffix is written: neither name is longer than the bytes copied of
it, and the number of the line, with its blank, is stored whole, or what is
not stored of it lies among the bytes copied for the file.  Where none is: the
message fills the buffer up to its last two bytes. -/
def Covered (call : LogCall) : Prop :=
  if HasRoom 33 call.len then
    call.fileLen ≤ 128 ∧ call.funcLen ≤ 128 ∧
      (call.line.length ≤ 6 ∨ call.fileLen + call.line.length < 128)
  else getBufLen - 2 ≤ call.len.toNat

/-- Where the suffix fits, the names and the line number decide. -/
theorem coversRecord_iff_of_room (hsane : Sane msg tv call) (hroom : HasRoom 33 call.len) :
    CoversRecord msg call ↔ call.fileLen ≤ 128 ∧ call.funcLen ≤ 128 ∧
      (call.line.length ≤ 6 ∨ call.fileLen + call.line.length < 128) := by
  obtain ⟨hsuffixAt, -, hfileAt, hlineAt, hfuncAt, hend⟩ := call.offsets
  have hlen := hsane.len
  have hline := call.length_line_pos
  have hcovers : CoversRecord msg call ↔ ∀ k < call.recordLen, k ≤ 33 + msg.length ∨
      (call.suffix k).isSome = true := by
    simp only [CoversRecord, length, WritesAfter, if_pos hroom]
  simp only [hcovers, isSome_suffix hsane.readable]
  clear hcovers
  have hstored : min 5 call.line.length ≤ 5 := Nat.min_le_left ..
  have hstored' : min 5 call.line.length = 5 ∨ min 5 call.line.length = call.line.length :=
    Nat.min_def .. ▸ ite_eq_or_eq ..
  generalize min 5 call.line.length = stored at *
  generalize call.suffixAt = suffixAt at *
  generalize call.fileAt = fileAt at *
  generalize call.lineAt = lineAt at *
  generalize call.funcAt = funcAt at *
  generalize call.recordLen = recordLen at *
  constructor
  · intro h
    refine ⟨?_, ?_, ?_⟩
    · -- the byte behind the part of the file name that is copied
      refine Nat.le_of_not_lt fun hfile => ?_
      have := h (fileAt + 128) (by omega)
      omega
    · refine Nat.le_of_not_lt fun hfunc => ?_
      have := h (funcAt + 128) (by omega)
      omega
    · -- the last byte that the index counts for the line
      refine Classical.byContradiction fun hshort => ?_
      have := h (funcAt - 1) (by omega)
      omega
  · intro ⟨hfile, hfunc, hshort⟩ k hk
    omega

/-- Whether a call writes its whole record can be told from its lengths. -/
theorem coversRecord_iff_covered (hsane : Sane msg tv call) :
    CoversRecord msg call ↔ Covered call := by
  unfold Covered
  split
  · next hroom => exact coversRecord_iff_of_room hsane hroom
  · next hroom =>
      have hlen := hsane.len
      have hbuf : getBufLen = 8159 := rfl
      have hcovers : CoversRecord msg call ↔ ∀ k < 8192, k ≤ 33 + msg.length ∨ k = 8191 := by
        simp only [CoversRecord, length, WritesAfter, if_neg hroom]
        exact Iff.rfl
      rw [hcovers, hbuf, hlen]
      constructor
      · intro h
        have := h 8190 (by decide)
        omega
      · intro h k hk
        omega

/-- **Exactly when a record tells nothing of earlier ones.**  For a call whose
record stays in its slot, the bytes recorded for it are the same after every
history if and only if the clock has left the first second and the lengths are
such that the call writes the whole record. -/
theorem determined_iff_covered (hsane : Sane msg tv call) :
    Determined msg tv call ↔ tv.tv_sec ≠ 0 ∧ Covered call := by
  rw [determined_iff_covers hsane, coversRecord_iff_covered hsane]

end Call

theorem readable_callFrom (len : UInt64) : (callFrom 5 len).Readable := by
  have h : (callFrom 5 0).Readable :=
    ⟨by decide +kernel, by decide +kernel, by decide +kernel, by decide +kernel⟩
  exact ⟨h.file, h.func, h.fileEnd, h.funcEnd⟩

theorem sane_callFrom {msg : List UInt8} {len : UInt64} (hlen : len.toNat = msg.length)
    (hlt : msg.length < getBufLen) (hin : HasRoom 33 len → (callFrom 5 len).InSlot) :
    Sane msg noon (callFrom 5 len) where
  len := hlen
  lt := hlt
  usec := by decide
  pos := by show (0 : Int) < 42; decide
  pid := pidInRange_callFrom 5 len
  readable := readable_callFrom len
  inSlot := hin

theorem determined_iff_covered_callFrom :
    Determined (ofString "ok") noon (callFrom 5 2) ↔ noon.tv_sec ≠ 0 ∧ Covered (callFrom 5 2) :=
  determined_iff_covered (sane_callFrom rfl (by decide) fun _ =>
    ⟨by decide +kernel, by decide +kernel, by decide +kernel, by decide +kernel⟩)

/-- Behind a message of 8000 bytes there is no room for a suffix: the record
takes the rest of the slot as it is. -/
theorem not_determined : ¬ ∀ (msg : List UInt8) (tv : Timeval) (call : LogCall),
    Sane msg tv call → Determined msg tv call := by
  intro h
  have hlen : (List.replicate 8000 'x'.toUInt8).length = 8000 := List.length_replicate
  have hroom : ¬ HasRoom 33 (callFrom 5 8000).len := by decide
  have hsane : Sane (List.replicate 8000 'x'.toUInt8) noon (callFrom 5 8000) :=
    sane_callFrom (by rw [hlen]; rfl) (by rw [hlen]; decide) fun hin => absurd hin hroom
  have hcovered := (coversRecord_iff_covered hsane).mp (covers_of_determined hsane (h _ _ _ hsane))
  rw [Covered, if_neg hroom] at hcovered
  exact absurd hcovered (by decide)

end LogCache

end CppFastDevelop
