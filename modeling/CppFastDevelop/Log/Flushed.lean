import CppFastDevelop.Lib.Machine
import CppFastDevelop.Log.LogCache

/-!
# CppFastDevelop.Log.Flushed

What reaches the file.  The slots below `_currentLoop` hold the records that
are still to be written; `GetBuf` and `Write` touch only the slot at
`_currentLoop`, and a flush writes the others and starts again at the first.
So what was written and what the next flush writes are always all records,
in the order of their calls (`sent_eq_records`).
-/

namespace CppFastDevelop

namespace LogCache

open CString Machine

/-! ## runs -/

/-- A use of the cache.  The message is put into the slot by `fill`. -/
inductive Use
  | fill (off : Nat) (bytes : List UInt8)
  | write (tv : Option Timeval) (call : LogCall)
  | setLevel (level : CLLEVEL)
  | flush
  deriving DecidableEq, Repr

/-- One use, where its behaviour is defined.  `Write` throws before it
changes anything. -/
def use (l : LogCache) : Use → Option LogCache
  | .fill off bytes => if off + bytes.length ≤ getBufLen then l.fillBuf off bytes else none
  | .write tv call => (l.write tv call).map fun
    | .ok l' => l'
    | .error _ => l
  | .setLevel level => some (l.setLevel level)
  | .flush => l.flush

/-- The first `_idx` bytes of a slot. -/
def firstBytes (l : LogCache) (i : Int) : List UInt8 :=
  ((l.slot i).getD []).take ((l.idx[i.toNat]?).getD 0).toNat

/-- The records so far: one for every `Write` that finished and whose level
was not below the level set, as its slot was when it finished. -/
def addRecord (records : List (List UInt8)) (l : LogCache) (u : Use) (l' : LogCache) :
    List (List UInt8) :=
  match u with
  | .write (some _) call =>
    if call.level.value < l.level.value then records
    else records ++ [l'.firstBytes l.currentLoop]
  | _ => records

/-! ## what a use does -/

/-- What a use does: the message is put into the slot, `Write` does nothing
or puts a record together, or the level or the slots are set. -/
inductive Used (l : LogCache) : Use → LogCache → Prop
  | filled {off : Nat} {bytes slot slot' : List UInt8} (hslot : l.slot l.currentLoop = some slot)
      (hstore : store slot (CL_LOG_PREFIX_LEN + off) bytes = some slot') :
    Used l (.fill off bytes) { l with destBuf := l.destBuf.set l.currentLoop.toNat slot' }
  | kept {tv : Option Timeval} {call : LogCall}
      (h : call.level.value < l.level.value ∨ tv = none) : Used l (.write tv call) l
  | written {tv : Timeval} {call : LogCall} {l₁ l' : LogCache} {c : Cursor}
      (hlevel : l.level.value ≤ call.level.value) (hcompose : l.compose tv call = some (l₁, c))
      (hfinish : l₁.finish c = some l') : Used l (.write (some tv) call) l'
  | levelSet {level : CLLEVEL} : Used l (.setLevel level) (l.setLevel level)
  | flushed {l' : LogCache} (hflush : l.flush = some l') : Used l .flush l'

/-- Every use does one of the things listed. -/
theorem used_of_use {l l' : LogCache} {u : Use} (huse : l.use u = some l') : Used l u l' := by
  cases u with
  | fill off bytes =>
      simp only [use] at huse
      split at huse
      · simp only [fillBuf, Option.bind_eq_bind, Option.bind_eq_some_iff] at huse
        obtain ⟨slot, hslot, slot', hstore, huse⟩ := huse
        cases huse
        exact .filled hslot hstore
      · cases huse
  | setLevel level => cases huse; exact .levelSet
  | flush => exact .flushed huse
  | write tv call =>
      obtain ⟨r, hwrite, rfl⟩ := Option.map_eq_some_iff.mp huse
      unfold write at hwrite
      split at hwrite
      · next hlow => cases hwrite; exact .kept (.inl hlow)
      · next hlevel =>
          cases tv with
          | none => cases hwrite; exact .kept (.inr rfl)
          | some tv =>
              simp only [Option.bind_eq_bind, Option.bind_eq_some_iff, Prod.exists] at hwrite
              obtain ⟨l₁, c, hcompose, l₂, hfinish, hwrite⟩ := hwrite
              cases hwrite
              exact .written (Nat.not_lt.mp hlevel) hcompose hfinish

/-! ## one slot after a change of another -/

/-- The cache with slot `i` rewritten. -/
def setSlot (l : LogCache) (i : Nat) (c : Cursor) : LogCache :=
  { l with destBuf := l.destBuf.set i c.slot, idx := l.idx.set i c.idx }

/-- A record is read off its slot and its length alone. -/
theorem record_congr {l l' : LogCache} {i : Nat} (hslot : l'.destBuf[i]? = l.destBuf[i]?)
    (hidx : l'.idx[i]? = l.idx[i]?) : l'.record i = l.record i := by
  simp [record, slot, hslot, hidx]

/-- A flush sends what the records before it say. -/
theorem flushLoop_congr {l l' : LogCache} {n : Nat} (h : ∀ i < n, l'.record i = l.record i) :
    l'.flushLoop n = l.flushLoop n := by
  induction n with
  | zero => rfl
  | succ n ih =>
      rw [flushLoop, flushLoop, ih fun i hi => h i (by omega), h n (by omega)]

/-- What is written of a slot that was just rewritten. -/
theorem record_setSlot {l : LogCache} {i : Nat} {c : Cursor} (hslot : i < l.destBuf.length)
    (hidx : i < l.idx.length) (hpos : 0 ≤ c.idx) (hle : c.idx ≤ c.slot.length) :
    (l.setSlot i c).record i = some (c.slot.take c.idx.toNat) := by
  simp [record, slot, setSlot, load, hslot, hidx, hpos, hle]

/-- The record of a slot is the first bytes of the slot. -/
theorem firstBytes_of_record {l : LogCache} {i : Int} {bytes : List UInt8}
    (h : l.record i = some bytes) : l.firstBytes i = bytes := by
  simp only [record, Option.bind_eq_bind, Option.bind_eq_some_iff] at h
  obtain ⟨slot, hslot, idx, hidx, h⟩ := h
  rw [firstBytes, hslot, hidx]
  split at h
  · unfold load at h
    split at h
    · cases h; rfl
    · cases h
  · cases h

/-- The first bytes of a slot depend on the slots and their lengths alone. -/
theorem firstBytes_congr {l l' : LogCache} (hslot : l'.destBuf = l.destBuf)
    (hidx : l'.idx = l.idx) (i : Int) : l'.firstBytes i = l.firstBytes i := by
  simp only [firstBytes, slot, hslot, hidx]

/-- What a flush leaves alone. -/
theorem flush_eq_some {l l' : LogCache} (h : l.flush = some l') :
    ∃ sent currentLoop, l' = { l with sent := sent, currentLoop := currentLoop } := by
  unfold LogCache.flush at h
  split at h
  · cases h
    exact ⟨_, _, rfl⟩
  · simp only [Option.bind_eq_bind, Option.bind_eq_some_iff] at h
    obtain ⟨bytes, -, h⟩ := h
    cases h
    exact ⟨_, _, rfl⟩

/-! ## records kept -/

/-- The slots below `_currentLoop` hold the records that have not been
written. -/
structure Holds (max_loop : Nat) (l : LogCache) (records : List (List UInt8)) : Prop where
  slots : l.destBuf.length = max_loop
  indices : l.idx.length = max_loop
  nonneg : 0 ≤ l.currentLoop
  le : l.currentLoop ≤ max_loop
  output : ∃ bytes, l.flushLoop l.currentLoop.toNat = some bytes ∧
    records.flatten = l.sent ++ bytes

/-- Between uses there is a slot to fill. -/
structure Ready (max_loop : Nat) (l : LogCache) (records : List (List UInt8)) : Prop
    extends Holds max_loop l records where
  lt : l.currentLoop < max_loop

section Uses

variable {max_loop : Nat} {l l' : LogCache} {records : List (List UInt8)}

/-- A flush writes what is left and makes all slots free. -/
theorem Holds.flush (h : Holds max_loop l records) (hloop : 1 ≤ max_loop) :
    ∃ l', l.flush = some l' ∧ Ready max_loop l' records ∧ l'.sent = records.flatten ∧
      l'.destBuf = l.destBuf ∧ l'.idx = l.idx := by
  obtain ⟨bytes, hbytes, hout⟩ := h.output
  unfold LogCache.flush
  by_cases hzero : l.currentLoop = 0
  · rw [hzero] at hbytes
    cases hbytes
    rw [List.append_nil] at hout
    rw [if_pos hzero]
    exact ⟨l, rfl, ⟨h, by omega⟩, hout.symm, rfl, rfl⟩
  · rw [if_neg hzero, hbytes]
    refine ⟨_, rfl, ⟨⟨h.slots, h.indices, Int.le_refl 0, Int.natCast_nonneg _, [], rfl, ?_⟩, ?_⟩,
      hout.symm, rfl, rfl⟩
    · rw [List.append_nil]
      exact hout
    · show (0 : Int) < max_loop
      omega

/-- The slot to fill is none of those that wait. -/
theorem Ready.setBuf (h : Ready max_loop l records) (slot : List UInt8) :
    Ready max_loop { l with destBuf := l.destBuf.set l.currentLoop.toNat slot } records := by
  obtain ⟨sent, hsent, hout⟩ := h.output
  refine ⟨⟨?_, h.indices, h.nonneg, h.le, sent, ?_, hout⟩, h.lt⟩
  · rw [List.length_set, h.slots]
  · rw [← hsent]
    refine flushLoop_congr fun i hi => record_congr ?_ rfl
    have hne : l.currentLoop.toNat ≠ i := Nat.ne_of_gt hi
    exact List.getElem?_set_ne hne

/-! ## Write -/

/-- Only the caches that spare formatting may differ. -/
structure SameSlots (l l' : LogCache) : Prop where
  destBuf : l'.destBuf = l.destBuf
  idx : l'.idx = l.idx
  currentLoop : l'.currentLoop = l.currentLoop
  sent : l'.sent = l.sent

/-- The text remembered is the only thing that changes beside the slot. -/
theorem sameSlots_writePidtid {call : LogCall} {c c' : Cursor}
    (h : l.writePidtid call c = some (l', c')) : SameSlots l l' := by
  unfold writePidtid at h
  split at h
  · simp only [Option.bind_eq_bind, Option.bind_eq_some_iff] at h
    obtain ⟨c, -, h⟩ := h
    cases h
    exact ⟨rfl, rfl, rfl, rfl⟩
  · simp only [Option.bind_eq_bind, Option.bind_eq_some_iff] at h
    obtain ⟨c, -, cached, -, h⟩ := h
    cases h
    exact ⟨rfl, rfl, rfl, rfl⟩

/-- A record ends in its slot. -/
def Cursor.Inside (c : Cursor) : Prop := 0 ≤ c.idx ∧ c.idx ≤ c.slot.length

/-- The last bytes put into a slot are the end of its record. -/
theorem inside_put_advance {c c' : Cursor} {bytes : List UInt8} (h : c.put bytes = some c') :
    (c'.advance bytes.length).Inside := by
  simp only [Cursor.put, Option.bind_eq_bind, Option.bind_eq_some_iff] at h
  obtain ⟨slot, hstore, h⟩ := h
  cases h
  obtain ⟨hpos, hle, hlen⟩ := store_eq_some hstore
  constructor
  · show 0 ≤ c.idx + bytes.length
    omega
  · show c.idx + bytes.length ≤ slot.length
    omega

/-- A suffix that was written ends in its slot. -/
theorem writeSuffix_eq_some {call : LogCall} {c c' : Cursor}
    (h : l.writeSuffix call c = some (l', c')) : SameSlots l l' ∧ c'.Inside := by
  simp only [writeSuffix, Option.bind_eq_bind, Option.bind_eq_some_iff, Prod.exists] at h
  obtain ⟨l₁, c₁, hpidtid, c₂, -, c₃, -, c₄, -, c₅, -, c₆, hput, h⟩ := h
  cases h
  exact ⟨sameSlots_writePidtid hpidtid, inside_put_advance hput⟩

/-- A record that was composed ends in its slot. -/
theorem compose_eq_some {tv : Timeval} {call : LogCall} {c : Cursor}
    (h : l.compose tv call = some (l', c)) : SameSlots l l' ∧ c.Inside := by
  simp only [compose, Option.bind_eq_bind, Option.bind_eq_some_iff] at h
  obtain ⟨slot, -, lastTimeCache, -, c₁, -, h⟩ := h
  split at h
  · obtain ⟨hsame, hin⟩ := writeSuffix_eq_some h
    exact ⟨⟨hsame.destBuf, hsame.idx, hsame.currentLoop, hsame.sent⟩, hin⟩
  · simp only [writeTruncated, Option.bind_eq_bind, Option.bind_eq_some_iff] at h
    obtain ⟨c₂, ⟨c₃, hput, hc₂⟩, h⟩ := h
    cases hc₂
    cases h
    exact ⟨⟨rfl, rfl, rfl, rfl⟩, inside_put_advance hput⟩

/-- The cache with its current slot done. -/
def next (l : LogCache) (c : Cursor) : LogCache :=
  { l.setSlot l.currentLoop.toNat c with currentLoop := l.currentLoop + 1 }

/-- The record of the slot that is done. -/
theorem firstBytes_next {l : LogCache} {c : Cursor} (hnonneg : 0 ≤ l.currentLoop)
    (hslot : l.currentLoop.toNat < l.destBuf.length) (hidx : l.currentLoop.toNat < l.idx.length)
    (hin : c.Inside) : (l.next c).firstBytes l.currentLoop = c.slot.take c.idx.toNat := by
  obtain ⟨i, hi⟩ := Int.eq_ofNat_of_zero_le hnonneg
  have hrecord := record_setSlot (l := l) (i := i) (c := c) (by omega) (by omega) hin.1 hin.2
  rw [← firstBytes_of_record hrecord, ← hi]
  simp only [firstBytes, next, slot, hi, Int.toNat_natCast]

/-- The last slot's record is flushed with all the others. -/
theorem finish_eq (l : LogCache) (c : Cursor) : l.finish c =
    if l.currentLoop + 1 = l.destBuf.length then (l.next c).flush else some (l.next c) := by
  simp only [finish, next, setSlot, List.length_set]

/-- What the end of a record leaves alone, whether it flushes or not. -/
theorem finish_eq_some {l l' : LogCache} {c : Cursor} (h : l.finish c = some l') :
    ∃ sent currentLoop, l' = { l.next c with sent := sent, currentLoop := currentLoop } := by
  rw [finish_eq] at h
  split at h
  · exact flush_eq_some h
  · cases h
    exact ⟨_, _, rfl⟩

/-- The current slot becomes the last of those to be written. -/
theorem Ready.next (h : Ready max_loop l records) {c : Cursor} (hin : c.Inside) :
    Holds max_loop (l.next c) (records ++ [(l.next c).firstBytes l.currentLoop]) := by
  have hnonneg := h.nonneg
  have hlt := h.lt
  obtain ⟨bytes, hbytes, hout⟩ := h.output
  obtain ⟨i, hi⟩ := Int.eq_ofNat_of_zero_le hnonneg
  have hi' : l.currentLoop.toNat = i := by omega
  rw [hi'] at hbytes
  have hbefore : (l.next c).flushLoop i = some bytes := by
    rw [← hbytes]
    refine flushLoop_congr fun k hk => ?_
    have hne : l.currentLoop.toNat ≠ k := by omega
    exact record_congr (List.getElem?_set_ne hne) (List.getElem?_set_ne hne)
  have hrecord : (l.next c).record i = some (c.slot.take c.idx.toNat) := by
    have hset := record_setSlot (l := l) (i := i) (c := c) (by rw [h.slots]; omega)
      (by rw [h.indices]; omega) hin.1 hin.2
    rw [← hset, ← hi']
    rfl
  have hfirst : (l.next c).firstBytes l.currentLoop = c.slot.take c.idx.toNat := by
    rw [hi]
    exact firstBytes_of_record hrecord
  refine ⟨?_, ?_, ?_, ?_, bytes ++ c.slot.take c.idx.toNat, ?_, ?_⟩
  · exact (List.length_set ..).trans h.slots
  · exact (List.length_set ..).trans h.indices
  · show 0 ≤ l.currentLoop + 1
    omega
  · show l.currentLoop + 1 ≤ max_loop
    omega
  · have hsucc : (l.next c).currentLoop.toNat = i + 1 := by
      show (l.currentLoop + 1).toNat = i + 1
      omega
    rw [hsucc, flushLoop, hbefore]
    simp only [Option.bind_eq_bind, Option.bind_some, hrecord]
  · rw [List.flatten_append, hout, hfirst, List.append_assoc, List.flatten_singleton]
    rfl

/-- A finished record is the last of the records, sent or to be sent. -/
theorem Ready.finish (h : Ready max_loop l records) {c : Cursor} (hin : c.Inside)
    (hfinish : l.finish c = some l') :
    Ready max_loop l' (records ++ [l'.firstBytes l.currentLoop]) := by
  have hlt := h.lt
  have hnonneg := h.nonneg
  have hnext := h.next hin
  rw [finish_eq, h.slots] at hfinish
  split at hfinish
  · obtain ⟨l₁, hflush, hready, -, hslots, hidx⟩ := hnext.flush (by omega)
    cases hflush.symm.trans hfinish
    rw [firstBytes_congr hslots hidx]
    exact hready
  · next hmore =>
      cases hfinish
      refine ⟨hnext, ?_⟩
      show l.currentLoop + 1 < max_loop
      omega

/-- The caches that spare formatting do not count. -/
theorem Ready.of_sameSlots (h : Ready max_loop l records) (hsame : SameSlots l l') :
    Ready max_loop l' records := by
  obtain ⟨hslots, hidx, hcur, hsent⟩ := hsame
  have hloop : l'.flushLoop l'.currentLoop.toNat = l.flushLoop l.currentLoop.toNat := by
    rw [hcur]
    exact flushLoop_congr fun i _ => record_congr (by rw [hslots]) (by rw [hidx])
  refine ⟨⟨?_, ?_, ?_, ?_, ?_⟩, ?_⟩
  · rw [hslots]; exact h.slots
  · rw [hidx]; exact h.indices
  · rw [hcur]; exact h.nonneg
  · rw [hcur]; exact h.le
  · rw [hloop, hsent]; exact h.output
  · rw [hcur]; exact h.lt

/-- One use. -/
theorem ready_use {u : Use} (huse : l.use u = some l') (h : Ready max_loop l records) :
    Ready max_loop l' (addRecord records l u l') := by
  cases used_of_use huse with
  | filled hslot hstore => exact h.setBuf _
  | levelSet => exact h.of_sameSlots ⟨rfl, rfl, rfl, rfl⟩
  | flushed hflush =>
      have hlt := h.lt
      have hnonneg := h.nonneg
      obtain ⟨l₁, hflush', hready, -⟩ := h.flush (by omega)
      cases hflush'.symm.trans hflush
      exact hready
  | @kept tv call hkept =>
      cases tv with
      | none => exact h
      | some tv => rw [addRecord, if_pos (by simpa using hkept)]; exact h
  | written hlevel hcompose hfinish =>
      obtain ⟨hsame, hin⟩ := compose_eq_some hcompose
      have hready := (h.of_sameSlots hsame).finish hin hfinish
      rw [addRecord, if_neg (Nat.not_lt.mpr hlevel), ← hsame.currentLoop]
      exact hready

end Uses

/-- After `Init` there are no records, and there is a slot to fill. -/
theorem ready_init {garbage : List UInt8} {fd : Int} {max_msg_len max_loop : Nat}
    {l : LogCache} (hloop : 1 ≤ max_loop)
    (hinit : init fd max_msg_len max_loop (construct garbage) = .ok l) :
    Ready max_loop l [] := by
  unfold init at hinit
  split at hinit
  · cases hinit
  · cases hinit
    refine ⟨⟨?_, ?_, Int.le_refl 0, Int.natCast_nonneg _, [], rfl, rfl⟩, ?_⟩
    · simp [allocBuf, construct]
    · simp [allocBuf, construct]
    · show (0 : Int) < max_loop
      omega

/-- **The file gets every record once and in order.**  After any uses there
is a slot to fill, and what has been written once the cache is destroyed are
the records of the calls, one after the other. -/
theorem sent_eq_records {garbage : List UInt8} {fd : Int} {max_msg_len max_loop : Nat}
    {l₀ l : LogCache} {us : List Use} {records : List (List UInt8)} (hloop : 1 ≤ max_loop)
    (hinit : init fd max_msg_len max_loop (construct garbage) = .ok l₀)
    (hrun : run (recorded use addRecord) (l₀, []) us = some (l, records)) :
    0 ≤ l.currentLoop ∧ l.currentLoop < max_loop ∧
      ∃ l', l.destroy = some l' ∧ l'.sent = records.flatten := by
  have h : Ready max_loop l records :=
    run_invariant (fun p : LogCache × List (List UInt8) => Ready max_loop p.1 p.2)
      (fun s u s' hstep hs => by
        obtain ⟨huse, hrecords⟩ := recorded_eq_some.mp hstep
        rw [hrecords]
        exact ready_use huse hs) hrun (ready_init hloop hinit)
  obtain ⟨l', hflush, -, hsent, -⟩ := h.flush hloop
  exact ⟨h.nonneg, h.lt, l', hflush, hsent⟩

/-- A cache of two slots. -/
def twoSlots : LogCache := allocBuf 400 2 { construct (List.replicate 19 0) with fd := 1 }

/-- A call of `CLLOGC` with a message of two characters. -/
def logHi (level : CLLEVEL) : List Use :=
  [.fill 0 (ofString "hi" ++ [0]),
    .write (some ⟨1700000000, 123456, ⟨123, 10, 14, 22, 13, 20⟩⟩)
      ⟨level, 2, ofString "a.cpp" ++ List.replicate 123 0, 7,
        ofString "main" ++ List.replicate 124 0, 42, 42⟩]

/-- The second call is filtered, the third uses up the slots. -/
theorem sent_eq_records_logHi : ∃ l records,
    run (recorded use addRecord) (twoSlots, [])
      (logHi .INFO ++ [.setLevel .WARN] ++ logHi .INFO ++ logHi .ERROR) = some (l, records) ∧
    0 ≤ l.currentLoop ∧ l.currentLoop < (2 : Nat) ∧
      ∃ l', l.destroy = some l' ∧ l'.sent = records.flatten := by
  have hsome : (run (recorded use addRecord) (twoSlots, [])
      (logHi .INFO ++ [.setLevel .WARN] ++ logHi .INFO ++ logHi .ERROR)).isSome := by
    decide +kernel
  obtain ⟨⟨l, records⟩, hrun⟩ := Option.isSome_iff_exists.mp hsome
  have hinit : init 1 400 2 (construct (List.replicate 19 0)) = .ok twoSlots := rfl
  exact ⟨l, records, hrun, sent_eq_records (by decide) hinit hrun⟩

/-- The text of a record. -/
example : ((run use twoSlots (logHi .INFO ++ [.flush])).map (·.sent)) =
    some (ofString "20231114 22:13:20.123456   INFO  hi [pid:42 tid:42 a.cpp:7 main]\n") := by
  decide +kernel

end LogCache

end CppFastDevelop
