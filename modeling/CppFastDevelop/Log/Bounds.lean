import CppFastDevelop.Log.Flushed
import CppFastDevelop.Log.Layout

/-!
# CppFastDevelop.Log.Bounds

`Write` on the caches that runs reach.  Their slots have `CL_LOG_MAX_MSG_LEN`
bytes and `_pidtidCache` holds the text of `_lastPid` and `_lastTid`
(`Sound`), so what a call writes is known from its arguments: it stays in the
slot if there is no room for a suffix at all, and otherwise exactly if the
lengths of the message, of both names and of the numbers add up to no more
than the slot (`staysInside_iff_fits`).
-/

namespace CppFastDevelop

namespace LogCache

open CString Machine

/-! ## what runs keep -/

/-- The caches that spare formatting. -/
structure SoundCaches (l : LogCache) : Prop where
  time : l.lastTimeCache.length = 19
  seconds : l.lastSeconds = 0
  pidtid : 0 < l.lastPid → l.pidtidCache = pidtidText l.lastPid l.lastTid

/-- A cache as `Init` with slots of `CL_LOG_MAX_MSG_LEN` bytes and uses of it
leave it. -/
structure Sound (l : LogCache) : Prop extends SoundCaches l where
  slots : ∀ slot ∈ l.destBuf, slot.length = CL_LOG_MAX_MSG_LEN

/-- The arguments of `Write` have the types they have. -/
def Use.InRange : Use → Prop
  | .write _ call => call.PidInRange
  | _ => True

section Uses

variable {l l' : LogCache} {call : LogCall} {c c' : Cursor} {tv : Timeval}

/-- The slots of a sound cache are as long as they were allocated. -/
theorem Sound.length_slot (h : Sound l) {i : Int} {slot : List UInt8}
    (hslot : l.slot i = some slot) : slot.length = CL_LOG_MAX_MSG_LEN := by
  unfold LogCache.slot at hslot
  split at hslot
  · exact h.slots slot (List.mem_of_getElem? hslot)
  · cases hslot

/-- The time is as long as the cached one, which was 19 bytes long. -/
theorem length_timeCache {time : List UInt8} (h : l.timeCache tv = some time) :
    time.length = l.lastTimeCache.length := by
  unfold timeCache at h
  split at h
  · exact (store_eq_some h).2.2
  · cases h
    rfl

/-- Writing the time and the level leaves the slot its length. -/
theorem length_writePrefix {time slot : List UInt8} {level : CLLEVEL}
    (h : writePrefix time tv level slot = some c) : c.slot.length = slot.length := by
  simp only [writePrefix, Option.bind_eq_bind, Option.bind_eq_some_iff] at h
  obtain ⟨bytes, -, c₁, hput₁, c₂, hput₂, c₃, hput₃, h⟩ := h
  cases h
  exact (put_eq_some hput₃).2.1.trans ((put_eq_some hput₂).2.1.trans (put_eq_some hput₁).2.1)

/-- Writing the process and thread leaves the caches sound and the slot its length. -/
theorem writePidtid_eq_some (hpid : call.PidInRange) (h : l.writePidtid call c = some (l', c'))
    (hsound : SoundCaches l) : SoundCaches l' ∧ c'.slot.length = c.slot.length := by
  unfold writePidtid at h
  split at h
  · simp only [Option.bind_eq_bind, Option.bind_eq_some_iff] at h
    obtain ⟨c₁, hput, h⟩ := h
    cases h
    exact ⟨hsound, (put_eq_some hput).2.1⟩
  · simp only [Option.bind_eq_bind, Option.bind_eq_some_iff, Cursor.put] at h
    obtain ⟨c₁, ⟨slot, hstore, hc₁⟩, cached, hload, h⟩ := h
    cases hc₁
    cases h
    have hlt := LogCall.length_pidtid_lt hpid
    have htext : snprintf CL_LOG_SUFFIX_LEN (pidtidText call.pid call.tid) =
        pidtidText call.pid call.tid ++ [0] :=
      snprintf_of_lt (Nat.lt_of_le_of_lt hlt (by decide))
    rw [htext] at hstore
    have hcached := load_of_store hstore (n := (pidtidText call.pid call.tid).length) (by simp)
    rw [List.take_left] at hcached
    cases hload.symm.trans hcached
    exact ⟨⟨hsound.time, hsound.seconds, fun _ => rfl⟩, (store_eq_some hstore).2.2⟩

/-- Copying a name leaves the slot its length. -/
theorem length_writeName {name : List UInt8} (h : writeName name c = some c') :
    c'.slot.length = c.slot.length := by
  simp only [writeName, Option.bind_eq_bind, Option.bind_eq_some_iff] at h
  obtain ⟨bytes, -, c₁, hput, n, -, h⟩ := h
  cases h
  exact (put_eq_some hput).2.1

/-- Writing the suffix leaves the caches sound and the slot its length. -/
theorem sound_writeSuffix (hpid : call.PidInRange) (h : l.writeSuffix call c = some (l', c'))
    (hsound : SoundCaches l) : SoundCaches l' ∧ c'.slot.length = c.slot.length := by
  simp only [writeSuffix, Option.bind_eq_bind, Option.bind_eq_some_iff, Prod.exists] at h
  obtain ⟨l₁, c₁, hpidtid, c₂, hfile, c₃, hcolon, c₄, hline, c₅, hfunc, c₆, hbracket, h⟩ := h
  cases h
  obtain ⟨hsound₁, hlen₁⟩ := writePidtid_eq_some hpid hpidtid hsound
  have hlen₂ := length_writeName hfile
  have hlen₃ := (put_eq_some hcolon).2.1
  have hlen₄ := (put_eq_some hline).2.1
  have hlen₅ := length_writeName hfunc
  have hlen₆ := (put_eq_some hbracket).2.1
  refine ⟨hsound₁, ?_⟩
  simp only [Cursor.advance] at *
  omega

/-- Composing a record leaves the caches sound and the slot its length. -/
theorem sound_compose (hpid : call.PidInRange) (h : l.compose tv call = some (l', c))
    (hsound : Sound l) : SoundCaches l' ∧ c.slot.length = CL_LOG_MAX_MSG_LEN := by
  simp only [compose, Option.bind_eq_bind, Option.bind_eq_some_iff] at h
  obtain ⟨slot, hslot, time, htime, c₁, hprefix, h⟩ := h
  have hlen := hsound.length_slot hslot
  have hlen₁ := length_writePrefix hprefix
  have hcaches : SoundCaches { l with lastTimeCache := time } :=
    ⟨(length_timeCache htime).trans hsound.time, hsound.seconds, hsound.pidtid⟩
  split at h
  · obtain ⟨hsound', hlen'⟩ := sound_writeSuffix hpid h hcaches
    exact ⟨hsound', by omega⟩
  · simp only [writeTruncated, Option.bind_eq_bind, Option.bind_eq_some_iff] at h
    obtain ⟨c₂, ⟨c₃, hput, hc₂⟩, h⟩ := h
    cases hc₂
    cases h
    exact ⟨hcaches, (put_eq_some hput).2.1.trans (hlen₁.trans hlen)⟩

/-- A flush leaves the cache sound. -/
theorem Sound.flush (h : Sound l) (hflush : l.flush = some l') : Sound l' := by
  obtain ⟨sent, currentLoop, rfl⟩ := flush_eq_some hflush
  exact ⟨⟨h.time, h.seconds, h.pidtid⟩, h.slots⟩

/-- Bytes stored in the current slot leave the cache sound. -/
theorem Sound.setBuf (h : Sound l) {off : Int} {slot slot' bytes : List UInt8}
    (hslot : l.slot l.currentLoop = some slot) (hstore : store slot off bytes = some slot') :
    Sound { l with destBuf := l.destBuf.set l.currentLoop.toNat slot' } := by
  have hlen := h.length_slot hslot
  refine ⟨⟨h.time, h.seconds, h.pidtid⟩, fun s hs => ?_⟩
  rcases List.mem_or_eq_of_mem_set hs with hs | rfl
  · exact h.slots s hs
  · exact (store_eq_some hstore).2.2.trans hlen

/-- The record takes its place among the slots. -/
theorem Sound.next (hcaches : SoundCaches l) (hslots : ∀ slot ∈ l.destBuf, slot.length =
    CL_LOG_MAX_MSG_LEN) (hlen : c.slot.length = CL_LOG_MAX_MSG_LEN) : Sound (l.next c) := by
  refine ⟨⟨hcaches.time, hcaches.seconds, hcaches.pidtid⟩, fun s hs => ?_⟩
  rcases List.mem_or_eq_of_mem_set hs with hs | rfl
  · exact hslots s hs
  · exact hlen

/-- Ending a record leaves the cache sound, with or without a flush. -/
theorem Sound.finish (hcaches : SoundCaches l) (hslots : ∀ slot ∈ l.destBuf, slot.length =
    CL_LOG_MAX_MSG_LEN) (hlen : c.slot.length = CL_LOG_MAX_MSG_LEN)
    (hfinish : l.finish c = some l') : Sound l' := by
  obtain ⟨sent, currentLoop, rfl⟩ := finish_eq_some hfinish
  have hnext := Sound.next hcaches hslots hlen
  exact ⟨⟨hnext.time, hnext.seconds, hnext.pidtid⟩, hnext.slots⟩

/-- One use. -/
theorem sound_use {u : Use} (hu : u.InRange) (huse : l.use u = some l') (h : Sound l) :
    Sound l' := by
  cases used_of_use huse with
  | filled hslot hstore => exact h.setBuf hslot hstore
  | kept => exact h
  | levelSet => exact ⟨⟨h.time, h.seconds, h.pidtid⟩, h.slots⟩
  | flushed hflush => exact h.flush hflush
  | written hlevel hcompose hfinish =>
      obtain ⟨hcaches, hlen⟩ := sound_compose hu hcompose h
      obtain ⟨hsame, -⟩ := compose_eq_some hcompose
      exact Sound.finish hcaches (by rw [hsame.destBuf]; exact h.slots) hlen hfinish

end Uses

/-- A cache that `Init` has given its slots is sound. -/
theorem sound_init {garbage : List UInt8} (hgarbage : garbage.length = 19) {fd : Int}
    {max_loop : Nat} {l : LogCache}
    (hinit : init fd CL_LOG_MAX_MSG_LEN max_loop (construct garbage) = .ok l) : Sound l := by
  unfold init at hinit
  split at hinit
  · cases hinit
  · cases hinit
    refine ⟨⟨hgarbage, rfl, nofun⟩, fun s hs => ?_⟩
    simp only [allocBuf, construct, List.nil_append, List.mem_replicate] at hs
    rw [hs.2, List.length_replicate]

/-- A cache that was given its slots and has been used. -/
structure Reached (l : LogCache) : Prop where
  sound : Sound l
  ready : ∃ max_loop records, Ready max_loop l records

/-- Every use of an initialised cache reaches a cache that is sound and ready. -/
theorem reached_of_run {garbage : List UInt8} (hgarbage : garbage.length = 19) {fd : Int}
    {max_loop : Nat} (hloop : 1 ≤ max_loop) {l₀ l : LogCache} {us : List Use}
    (hinit : init fd CL_LOG_MAX_MSG_LEN max_loop (construct garbage) = .ok l₀)
    (hus : ∀ u ∈ us, u.InRange) (hrun : run use l₀ us = some l) : Reached l := by
  constructor
  · exact run_invariant_along Sound (fun _ _ _ hu huse => sound_use hu huse)
      (along_of_forall_mem use hus l₀) hrun (sound_init hgarbage hinit)
  · obtain ⟨records, hrecords⟩ := exists_run_recorded addRecord hrun []
    refine ⟨max_loop, records, ?_⟩
    exact run_invariant (fun p : LogCache × List (List UInt8) => Ready max_loop p.1 p.2)
      (fun s u s' hstep hs => by
        obtain ⟨huse, hnote⟩ := recorded_eq_some.mp hstep
        rw [hnote]
        exact ready_use huse hs) hrecords (ready_init hloop hinit)

/-! ## one call -/

section Call

variable {l l₁ : LogCache} {call : LogCall} {tv : Timeval} {c : Cursor}

/-- A record that has been put together takes its place. -/
theorem exists_finish {max_loop : Nat} {records : List (List UInt8)}
    (h : Ready max_loop l records) (hin : c.Inside) :
    ∃ l', l.finish c = some l' ∧ l'.idx[l.currentLoop.toNat]? = some c.idx ∧
      l'.firstBytes l.currentLoop = c.slot.take c.idx.toNat := by
  have hlt := h.lt
  have hnonneg := h.nonneg
  have hslots := h.slots
  have hindices := h.indices
  have hidx : (l.next c).idx[l.currentLoop.toNat]? = some c.idx := by
    simp only [next, setSlot]
    exact List.getElem?_set_self (by omega)
  have hfirst : (l.next c).firstBytes l.currentLoop = c.slot.take c.idx.toNat :=
    firstBytes_next hnonneg (by omega) (by omega) hin
  rw [finish_eq]
  split
  · obtain ⟨l', hflush, -, -, hbuf, hidx'⟩ := (h.next hin).flush (by omega)
    exact ⟨l', hflush, by rw [hidx', hidx], by rw [firstBytes_congr hbuf hidx', hfirst]⟩
  · exact ⟨_, rfl, hidx, hfirst⟩

/-- Where a record can be composed, `Write` returns, and the slot holds that record. -/
theorem write_of_compose (h : Reached l) (hlevel : l.level.value ≤ call.level.value)
    (hcompose : l.compose tv call = some (l₁, c)) :
    ∃ l', l.write (some tv) call = some (.ok l') ∧ l'.idx[l.currentLoop.toNat]? = some c.idx ∧
      l'.firstBytes l.currentLoop = c.slot.take c.idx.toNat := by
  obtain ⟨hsame, hin⟩ := compose_eq_some hcompose
  obtain ⟨max_loop, records, hready⟩ := h.ready
  obtain ⟨l', hfinish, hidx, hfirst⟩ := exists_finish (hready.of_sameSlots hsame) hin
  rw [hsame.currentLoop] at hidx hfirst
  refine ⟨l', ?_, hidx, hfirst⟩
  simp only [write, if_neg (Nat.not_lt.mpr hlevel), hcompose, hfinish, Option.bind_eq_bind,
    Option.bind_some]

/-- Where `Write` returns at its level, it has composed a record. -/
theorem compose_of_write {r : Except BaseException LogCache}
    (hlevel : l.level.value ≤ call.level.value) (h : l.write (some tv) call = some r) :
    ∃ p, l.compose tv call = some p := by
  simp only [write, if_neg (Nat.not_lt.mpr hlevel), Option.bind_eq_bind,
    Option.bind_eq_some_iff] at h
  obtain ⟨p, hp, -⟩ := h
  exact ⟨p, hp⟩

/-- Between uses there is a slot of the right size. -/
theorem Reached.exists_slot (h : Reached l) :
    ∃ slot, l.slot l.currentLoop = some slot ∧ slot.length = CL_LOG_MAX_MSG_LEN := by
  obtain ⟨max_loop, records, hready⟩ := h.ready
  have hlt := hready.lt
  have hnonneg := hready.nonneg
  have hslots := hready.slots
  have hin : l.currentLoop.toNat < l.destBuf.length := by omega
  refine ⟨l.destBuf[l.currentLoop.toNat], ?_, h.sound.slots _ (List.getElem_mem hin)⟩
  rw [slot, if_pos hnonneg, List.getElem?_eq_getElem hin]

/-- What the cache of the text holds for the next call. -/
theorem Reached.pidtidCache_eq (h : Reached l) (hpid : 0 < call.pid)
    (hlast : call.pid = l.lastPid) (htid : call.tid = l.lastTid) :
    l.pidtidCache = call.pidtid := by
  rw [h.sound.pidtid (hlast ▸ hpid), LogCall.pidtid, hlast, htid]

/-- Every write of `Write` is made into its slot, and the record ends there. -/
def StaysInside (l : LogCache) (tv : Timeval) (call : LogCall) : Prop :=
  ∃ l' idx, l.write (some tv) call = some (.ok l') ∧
    l'.idx[l.currentLoop.toNat]? = some idx ∧ idx ≤ CL_LOG_MAX_MSG_LEN

/-- In every cache reached, whether `Write` stays inside depends on the call alone. -/
theorem staysInside_iff_inSlot (h : Reached l) (husec : tv.tv_usec < 1000000)
    (hlevel : l.level.value ≤ call.level.value) (hlen : call.len.toNat < 2 ^ 31)
    (hpos : 0 < call.pid) (hpid : call.PidInRange) (hread : call.Readable) :
    StaysInside l tv call ↔ (HasRoom 33 call.len → call.InSlot) := by
  obtain ⟨slot, hslot, hslotLen⟩ := h.exists_slot
  obtain ⟨time, htime, htimeLen⟩ := exists_timeCache tv h.sound.time
  constructor
  · intro ⟨l', idx, hwrite, _⟩ hroom
    obtain ⟨p, hcompose⟩ := compose_of_write hlevel hwrite
    exact inSlot_of_compose hslot hslotLen htime htimeLen husec (h.pidtidCache_eq hpos) hpid hread
      hcompose hlen hroom
  · intro hin
    obtain ⟨l₁, hcompose⟩ := compose_eq hslot hslotLen htime htimeLen husec (h.pidtidCache_eq hpos)
      hpid hread hin
    obtain ⟨l', hwrite, hidx, -⟩ := write_of_compose h hlevel hcompose
    refine ⟨l', _, hwrite, hidx, ?_⟩
    unfold length
    split
    · next hroom => exact Int.ofNat_le.mpr (hin hroom).record
    · exact Int.le_refl _

end Call

/-! ## the condition on the arguments -/

/-- There is no room for a suffix, or the lengths of all parts and the 47
characters between them leave 128 bytes, and the end of the record, for the
name of the function. -/
def Fits (call : LogCall) : Prop :=
  CL_LOG_MAX_MSG_LEN ≤ CL_LOG_PREFIX_LEN + call.len.toNat + CL_LOG_SUFFIX_LEN ∨
    47 + call.len.toNat + (signed call.pid).length +
      (unsigned (call.tid.toNat % 2 ^ 32)).length + call.fileLen +
      (signed ((call.lineNum.toNat : Int).bmod (2 ^ 32))).length +
      max 128 (call.funcLen + 2) ≤ CL_LOG_MAX_MSG_LEN

/-- The lengths of the parts decide whether a call stays in its slot. -/
theorem fits_iff_inSlot {call : LogCall} (hlen : call.len.toNat < 2 ^ 31)
    (hpid : call.PidInRange) (hfile : call.fileLen < 128) (hfunc : call.funcLen < 128) :
    Fits call ↔ (HasRoom 33 call.len → call.InSlot) := by
  have hpidtid := call.length_pidtid
  have hpidtidLt := LogCall.length_pidtid_lt hpid
  have hline := call.length_line
  obtain ⟨hsuffixAt, -, hfileAt, hlineAt, hfuncAt, hend⟩ := call.offsets
  have hstored : min 5 call.line.length ≤ 5 := Nat.min_le_left _ _
  have hinSlot : call.InSlot ↔ call.fileAt + 128 ≤ 8192 ∧
      call.lineAt + (min 5 call.line.length + 1) ≤ 8192 ∧ call.funcAt + 128 ≤ 8192 ∧
      call.recordLen ≤ 8192 :=
    ⟨fun h => ⟨h.file, h.line, h.func, h.record⟩, fun h => ⟨h.1, h.2.1, h.2.2.1, h.2.2.2⟩⟩
  have hfits : Fits call ↔ 8192 ≤ 33 + call.len.toNat + 200 ∨
      47 + call.len.toNat + (signed call.pid).length +
        (unsigned (call.tid.toNat % 2 ^ 32)).length + call.fileLen +
        (signed ((call.lineNum.toNat : Int).bmod (2 ^ 32))).length +
        max 128 (call.funcLen + 2) ≤ 8192 := Iff.rfl
  have hroom : HasRoom 33 call.len ↔ 33 + call.len.toNat + 200 < 8192 := hasRoom_iff hlen
  rw [hinSlot, hfits, hroom]
  generalize call.suffixAt = suffixAt at *
  generalize call.fileAt = fileAt at *
  generalize call.lineAt = lineAt at *
  generalize call.funcAt = funcAt at *
  generalize call.recordLen = recordLen at *
  clear hfits hinSlot hroom
  omega

/-- **Exactly when a record stays in its slot.**  From every cache that runs
reach, a call makes all its writes into the slot, and the index ends in it, if
and only if there is no room for a suffix at all or the parts of the record
fit. -/
theorem staysInside_iff_fits {garbage : List UInt8} (hgarbage : garbage.length = 19) {fd : Int}
    {max_loop : Nat} (hloop : 1 ≤ max_loop) {l₀ l : LogCache} {us : List Use}
    (hinit : init fd CL_LOG_MAX_MSG_LEN max_loop (construct garbage) = .ok l₀)
    (hus : ∀ u ∈ us, u.InRange) (hrun : run use l₀ us = some l) {tv : Timeval}
    (husec : tv.tv_usec < 1000000) {call : LogCall} (hlevel : l.level.value ≤ call.level.value)
    (hlen : call.len.toNat < 2 ^ 31) (hpos : 0 < call.pid) (hpid : call.PidInRange)
    (hread : call.Readable) (hfile : call.fileLen < 128) (hfunc : call.funcLen < 128) :
    StaysInside l tv call ↔ Fits call := by
  rw [fits_iff_inSlot hlen hpid hfile hfunc]
  exact staysInside_iff_inSlot (reached_of_run hgarbage hloop hinit hus hrun) husec hlevel hlen
    hpos hpid hread

/-- Two slots of the default size. -/
def fullSlots : LogCache :=
  allocBuf CL_LOG_MAX_MSG_LEN 2 { construct (List.replicate 19 0) with fd := 1 }

def noon : Timeval := ⟨1700000000, 123456, ⟨123, 10, 14, 22, 13, 20⟩⟩

/-- A call from line 7 of a file whose name has `n` letters. -/
def callFrom (n : Nat) (len : UInt64) : LogCall where
  level := .INFO
  len := len
  fileName := List.replicate n 'f'.toUInt8 ++ List.replicate (256 - n) 0
  lineNum := 7
  funcName := ofString "main" ++ List.replicate 124 0
  pid := 42
  tid := 42

theorem init_fullSlots :
    init 1 CL_LOG_MAX_MSG_LEN 2 (construct (List.replicate 19 0)) = .ok fullSlots := rfl

theorem inRange_nil : ∀ u ∈ ([] : List Use), u.InRange := by simp

/-- The witness's cache is reached by no use at all. -/
theorem reached_fullSlots : Reached fullSlots := by
  have hrun : run use fullSlots [] = some fullSlots := run_nil _
  exact reached_of_run List.length_replicate (by decide) init_fullSlots inRange_nil hrun

theorem pidInRange_callFrom (n : Nat) (len : UInt64) : (callFrom n len).PidInRange :=
  ⟨by show -(2 : Int) ^ 31 ≤ 42; decide, by show (42 : Int) < 2 ^ 31; decide⟩

theorem staysInside_iff_fits_callFrom :
    StaysInside fullSlots noon (callFrom 5 2) ↔ Fits (callFrom 5 2) := by
  have hrun : run use fullSlots [] = some fullSlots := run_nil _
  have hlevel : fullSlots.level.value ≤ (callFrom 5 2).level.value := Nat.zero_le _
  have hread : (callFrom 5 2).Readable :=
    ⟨by decide +kernel, by decide +kernel, by decide +kernel, by decide +kernel⟩
  exact staysInside_iff_fits List.length_replicate (by decide) init_fullSlots inRange_nil hrun
    (by decide) hlevel (by decide) (by decide) (pidInRange_callFrom 5 2) hread
    (by decide +kernel) (by decide +kernel)

/-- The longest message the test lets pass, from a file with a long name: the
128 bytes copied for the name of the function do not fit. -/
theorem not_staysInside : ¬ ∀ (garbage : List UInt8) (fd : Int) (max_loop : Nat)
    (l₀ l : LogCache) (us : List Use) (tv : Timeval) (call : LogCall),
    garbage.length = 19 → 1 ≤ max_loop →
    init fd CL_LOG_MAX_MSG_LEN max_loop (construct garbage) = .ok l₀ →
    (∀ u ∈ us, u.InRange) → run use l₀ us = some l → tv.tv_usec < 1000000 →
    l.level.value ≤ call.level.value → call.len.toNat < 2 ^ 31 → 0 < call.pid →
    0 < call.tid → call.PidInRange → call.Readable → call.fileLen < 128 →
    call.funcLen < 128 → StaysInside l tv call := by
  intro h
  have hread : (callFrom 100 7958).Readable :=
    ⟨by decide +kernel, by decide +kernel, by decide +kernel, by decide +kernel⟩
  have hrun : run use fullSlots [] = some fullSlots := run_nil _
  have hlevel : fullSlots.level.value ≤ (callFrom 100 7958).level.value := Nat.zero_le _
  have hstays : StaysInside fullSlots noon (callFrom 100 7958) :=
    h _ 1 2 _ fullSlots [] noon (callFrom 100 7958) List.length_replicate (by decide)
      init_fullSlots inRange_nil hrun (by decide) hlevel (by decide) (by decide) (by decide)
      (pidInRange_callFrom 100 7958) hread (by decide +kernel) (by decide +kernel)
  have hin : (callFrom 100 7958).InSlot :=
    (staysInside_iff_inSlot reached_fullSlots (by decide) hlevel (by decide) (by decide)
      (pidInRange_callFrom 100 7958) hread).mp hstays (by decide)
  have hfunc := hin.func
  revert hfunc
  decide +kernel

end LogCache

end CppFastDevelop
