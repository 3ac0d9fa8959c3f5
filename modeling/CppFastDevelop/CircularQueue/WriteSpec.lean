import CppFastDevelop.CircularQueue.Layout

/-!
# CppFastDevelop.CircularQueue.WriteSpec

What `ElementOp::write` does to the memory, route by route.  Every route is
shown to store the header and the body as one run of a ring of capacity
`qTotalSize`, to stay inside its buffers, and to move `headIndex` by the
element's weight modulo the capacity.  The routes need no more than room for
the element in the region; that the run does not overwrite queued elements
is the business of `qLeftSize`, and of the caller.
-/

namespace CppFastDevelop

open RingBuffer Words Exec ElementOp

namespace ElementOp

/-- The specification all write routes share.  From `w` the route returns;
it has stored header and body as one run from `headIndex` on, has moved
`headIndex` behind them, has changed nothing else, and has added
safe accesses only. -/
structure StoresElement (w : Shm) (hdr d : List UInt8) (w' : Shm) : Prop where
  pQueue : w'.pQueue =
    store w.pMeta.qTotalSize.toNat w.pQueue w.pMeta.headIndex.toNat (hdr ++ d)
  headIndex : w'.pMeta.headIndex.toNat =
    (w.pMeta.headIndex.toNat + weight d) % w.pMeta.qTotalSize.toNat
  pMeta : w'.pMeta = { w.pMeta with headIndex := w'.pMeta.headIndex }
  data : w'.data = w.data
  accesses : AllSafe w.accesses → AllSafe w'.accesses

/-! ## the positions and sizes a route computes -/

section Positions

variable {i total size : UInt64} {n : Nat}

/-- The position behind a header does not wrap. -/
theorem toNat_add_headerSize (htot : total.toNat < 2 ^ 63) (hi : i.toNat < total.toNat) :
    (i + headerSize).toNat = i.toNat + 24 :=
  toNat_add_of_lt (by simp; omega)

/-- Nor does the position behind an element the region has room for. -/
theorem toNat_add_headerSize_add (htot : total.toNat < 2 ^ 63) (hi : i.toNat < total.toNat)
    (hsize : size.toNat = n) (hfit : 24 + n ≤ total.toNat) :
    (i + headerSize + size).toNat = i.toNat + 24 + n := by
  have h24 := toNat_add_headerSize htot hi
  rw [toNat_add_of_lt (by rw [h24]; omega), h24, hsize]

/-- The size of an element, its header included. -/
theorem toNat_headerSize_add (hsize : size.toNat = n) (hn : 24 + n < 2 ^ 64) :
    (headerSize + size).toNat = 24 + n := by
  rw [toNat_add_of_lt (by simp; omega), hsize]
  rfl

/-- What is left of the region from a position on. -/
theorem toNat_rest (hi : i.toNat < total.toNat) :
    (total - i).toNat = total.toNat - i.toNat :=
  toNat_sub_of_le (by omega)

/-- The part of a header that lies behind the end of the region. -/
theorem toNat_headerSize_sub_rest (hi : i.toNat < total.toNat)
    (hsplit : total.toNat < i.toNat + 24) :
    (headerSize - (total - i)).toNat = 24 - (total.toNat - i.toNat) := by
  have hrest := toNat_rest hi
  rw [toNat_sub_of_le (by rw [hrest]; simp; omega), hrest]
  rfl

/-- The part of a body that lies before the end of the region. -/
theorem toNat_rest_sub_headerSize (hlt : i.toNat + 24 < total.toNat) :
    (total - i - headerSize).toNat = total.toNat - i.toNat - 24 := by
  have hrest := toNat_rest (show i.toNat < total.toNat by omega)
  rw [toNat_sub_of_le (by rw [hrest]; simp; omega), hrest]
  rfl

/-- The part of a body that lies behind the end of the region. -/
theorem toNat_size_sub_rest (hlt : i.toNat + 24 < total.toNat) (hsize : size.toNat = n)
    (hsplit : total.toNat < i.toNat + (24 + n)) :
    (size - (total - i - headerSize)).toNat = n - (total.toNat - i.toNat - 24) := by
  have hfront := toNat_rest_sub_headerSize hlt
  rw [toNat_sub_of_le (by omega), hfront, hsize]

end Positions

/-! ## the routes -/

section Routes

variable {w : Shm} {hdr d : List UInt8} {size : UInt64}
variable (htot : w.pMeta.qTotalSize.toNat < 2 ^ 63)
variable (hhead : w.pMeta.headIndex.toNat < w.pMeta.qTotalSize.toNat)
variable (hhdr : hdr.length = 24) (hsize : size.toNat = d.length) (hd : 0 < d.length)

include htot hhead hhdr hsize hd

/-- Header and body copied behind each other below the end of the region. -/
private theorem copy_contiguous
    (hcont : w.pMeta.headIndex.toNat + weight d ≤ w.pMeta.qTotalSize.toNat) :
    copy (copy w.pQueue w.pMeta.headIndex.toNat (Mem.ofList hdr) 0 24)
        (w.pMeta.headIndex + headerSize).toNat (Mem.ofList d) 0 size.toNat =
      store w.pMeta.qTotalSize.toNat w.pQueue w.pMeta.headIndex.toNat (hdr ++ d) := by
  have hbody := toNat_add_headerSize htot hhead
  have hhdr' : slice (Mem.ofList hdr) 0 24 = hdr := hhdr ▸ slice_ofList hdr
  rw [weight] at hcont
  rw [store_append, hhdr, hbody, hsize]
  conv => rhs; rw [← hhdr', ← slice_ofList d]
  rw [store_slice_eq_copy _ _ _ _ (Nat.mod_eq_of_lt hhead) (by omega),
    store_slice_eq_copy _ _ _ _ (Nat.mod_eq_of_lt (by omega)) (by omega)]

/-- Route 1 stores an element that ends before the region does. -/
theorem writeRoute1_case1
    (hlt : w.pMeta.headIndex.toNat + weight d < w.pMeta.qTotalSize.toNat) :
    ∃ w', writeRoute1 .case1 (Mem.ofList hdr) (Mem.ofList d) size w = .ok () w' ∧
      StoresElement w hdr d w' := by
  have hw : weight d = 24 + d.length := rfl
  have hbody := toNat_add_headerSize htot hhead
  have hadd : (size + headerSize).toNat = d.length + 24 := by
    rw [toNat_add_of_lt (by simp; omega), hsize]; rfl
  refine ⟨_, rfl, copy_contiguous htot hhead hhdr hsize hd (Nat.le_of_lt hlt), ?_, rfl, rfl, ?_⟩
  · show (w.pMeta.headIndex + (size + headerSize)).toNat = _
    rw [toNat_add_of_lt (by omega), Nat.mod_eq_of_lt hlt]
    omega
  · intro hsafe
    simp [hsafe, hbody, hsize]
    omega

/-- Route 1 stores an element that ends with the region, and the head goes to its front. -/
theorem writeRoute1_case2
    (heq : w.pMeta.headIndex.toNat + weight d = w.pMeta.qTotalSize.toNat) :
    ∃ w', writeRoute1 .case2 (Mem.ofList hdr) (Mem.ofList d) size w = .ok () w' ∧
      StoresElement w hdr d w' := by
  have hw : weight d = 24 + d.length := rfl
  have hbody := toNat_add_headerSize htot hhead
  refine ⟨_, rfl, copy_contiguous htot hhead hhdr hsize hd (Nat.le_of_eq heq), ?_, rfl, rfl, ?_⟩
  · show (0 : UInt64).toNat = _
    rw [heq, Nat.mod_self]; rfl
  · intro hsafe
    simp [hsafe, hbody, hsize]
    omega

/-- Route 2 stores an element whose header is split by the end of the region. -/
theorem writeRoute2_spec (hsplit : w.pMeta.qTotalSize.toNat < w.pMeta.headIndex.toNat + 24)
    (hfit : weight d ≤ w.pMeta.qTotalSize.toNat) :
    ∃ w', writeRoute2 (Mem.ofList hdr) (Mem.ofList d) size w = .ok () w' ∧
      StoresElement w hdr d w' := by
  have hw : weight d = 24 + d.length := rfl
  have hsize0 := toNat_rest hhead
  have hsize1 := toNat_headerSize_sub_rest hhead hsplit
  refine ⟨_, rfl, ?_, ?_, rfl, rfl, ?_⟩
  · -- the three copies store the two parts of the header and the body
    show copy (copy (copy w.pQueue w.pMeta.headIndex.toNat (Mem.ofList hdr) 0
        (w.pMeta.qTotalSize - w.pMeta.headIndex).toNat) 0 (Mem.ofList hdr)
        (w.pMeta.qTotalSize - w.pMeta.headIndex).toNat
        (headerSize - (w.pMeta.qTotalSize - w.pMeta.headIndex)).toNat)
        (headerSize - (w.pMeta.qTotalSize - w.pMeta.headIndex)).toNat (Mem.ofList d) 0
        size.toNat = _
    rw [hsize0, hsize1, hsize]
    generalize hT : w.pMeta.qTotalSize.toNat = T at *
    generalize hH : w.pMeta.headIndex.toNat = head at *
    have hparts : T - head + (24 - (T - head)) = 24 := by omega
    have hhdr' : slice (Mem.ofList hdr) 0 (T - head + (24 - (T - head))) = hdr := by
      rw [hparts]
      exact hhdr ▸ slice_ofList hdr
    have hbody : (head + 24) % T = 24 - (T - head) := by
      rw [Nat.mod_eq_sub_mod (by omega), Nat.mod_eq_of_lt (by omega)]
      omega
    conv => rhs; rw [store_append, hhdr, ← hhdr', ← slice_ofList d]
    rw [store_slice_eq_copy_copy _ _ _ _ _ (Nat.mod_eq_of_lt hhead) (by omega) (by omega),
      store_slice_eq_copy _ _ _ _ hbody (by omega), Nat.zero_add]
  · show (size + (headerSize - (w.pMeta.qTotalSize - w.pMeta.headIndex))).toNat = _
    rw [toNat_add_of_lt (by omega), hsize, hsize1, Nat.mod_eq_sub_mod (by omega),
      Nat.mod_eq_of_lt (by omega)]
    omega
  · intro hsafe
    simp [hsafe, hsize0, hsize1, hsize]
    omega

/-- Route 3 stores an element whose body is split by the end of the region. -/
theorem writeRoute3_spec (hlt : w.pMeta.headIndex.toNat + 24 < w.pMeta.qTotalSize.toNat)
    (hsplit : w.pMeta.qTotalSize.toNat < w.pMeta.headIndex.toNat + weight d)
    (hfit : weight d ≤ w.pMeta.qTotalSize.toNat) :
    ∃ w', writeRoute3 (Mem.ofList hdr) (Mem.ofList d) size w = .ok () w' ∧
      StoresElement w hdr d w' := by
  have hw : weight d = 24 + d.length := rfl
  have hbody := toNat_add_headerSize htot hhead
  have hrest := toNat_rest hhead
  have hsize0 := toNat_rest_sub_headerSize hlt
  have hsize1 := toNat_size_sub_rest hlt hsize hsplit
  refine ⟨_, rfl, ?_, ?_, rfl, rfl, ?_⟩
  · -- the three copies store the header and the two parts of the body
    show copy (copy (copy w.pQueue w.pMeta.headIndex.toNat (Mem.ofList hdr) 0 24)
        (w.pMeta.headIndex + headerSize).toNat (Mem.ofList d) 0
        (w.pMeta.qTotalSize - w.pMeta.headIndex - headerSize).toNat) 0 (Mem.ofList d)
        (w.pMeta.qTotalSize - w.pMeta.headIndex - headerSize).toNat
        (size - (w.pMeta.qTotalSize - w.pMeta.headIndex - headerSize)).toNat = _
    rw [hbody, hsize0, hsize1]
    generalize hT : w.pMeta.qTotalSize.toNat = T at *
    generalize hH : w.pMeta.headIndex.toNat = head at *
    have hhdr' : slice (Mem.ofList hdr) 0 24 = hdr := hhdr ▸ slice_ofList hdr
    have hparts : T - head - 24 + (d.length - (T - head - 24)) = d.length := by omega
    have hd' : slice (Mem.ofList d) 0 (T - head - 24 + (d.length - (T - head - 24))) = d := by
      rw [hparts]
      exact slice_ofList d
    conv => rhs; rw [store_append, hhdr, ← hhdr', ← hd']
    rw [store_slice_eq_copy _ _ _ _ (Nat.mod_eq_of_lt hhead) (by omega),
      store_slice_eq_copy_copy _ _ _ _ _ (Nat.mod_eq_of_lt hlt) (by omega) (by omega),
      Nat.zero_add]
  · show (size - (w.pMeta.qTotalSize - w.pMeta.headIndex - headerSize)).toNat = _
    rw [hsize1, Nat.mod_eq_sub_mod (by omega), Nat.mod_eq_of_lt (by omega)]
    omega
  · intro hsafe
    simp [hsafe, hbody, hsize0, hsize1, hsize, hrest]
    omega

omit htot in
/-- Route 4 stores an element whose header ends with the region. -/
theorem writeRoute4_spec (hflush : w.pMeta.qTotalSize.toNat = w.pMeta.headIndex.toNat + 24)
    (hfit : weight d ≤ w.pMeta.qTotalSize.toNat) :
    ∃ w', writeRoute4 (Mem.ofList hdr) (Mem.ofList d) size w = .ok () w' ∧
      StoresElement w hdr d w' := by
  have hw : weight d = 24 + d.length := rfl
  refine ⟨_, rfl, ?_, ?_, rfl, rfl, ?_⟩
  · show copy (copy w.pQueue w.pMeta.headIndex.toNat (Mem.ofList hdr) 0 24) 0 (Mem.ofList d) 0
        size.toNat = _
    have hhdr' : slice (Mem.ofList hdr) 0 24 = hdr := hhdr ▸ slice_ofList hdr
    have hend : (w.pMeta.headIndex.toNat + 24) % w.pMeta.qTotalSize.toNat = 0 := by
      rw [hflush, Nat.mod_self]
    conv => rhs; rw [← hhdr', ← slice_ofList d]
    rw [store_append, length_slice, hsize,
      store_slice_eq_copy _ _ _ _ (Nat.mod_eq_of_lt hhead) (by omega),
      store_slice_eq_copy _ _ _ _ hend (by omega)]
  · show size.toNat = _
    rw [Nat.mod_eq_sub_mod (by omega), Nat.mod_eq_of_lt (by omega)]
    omega
  · intro hsafe
    simp [hsafe, hsize]
    omega

/-- Route 5 stores header and body between head and tail. -/
theorem writeRoute5_spec
    (hlt : w.pMeta.headIndex.toNat + weight d < w.pMeta.qTotalSize.toNat) :
    ∃ w', writeRoute5 (Mem.ofList hdr) (Mem.ofList d) size w = .ok () w' ∧
      StoresElement w hdr d w' := by
  have hw : weight d = 24 + d.length := rfl
  have hbody := toNat_add_headerSize htot hhead
  have hadd := toNat_headerSize_add hsize (by omega)
  refine ⟨_, rfl, copy_contiguous htot hhead hhdr hsize hd (Nat.le_of_lt hlt), ?_, rfl, rfl, ?_⟩
  · show (w.pMeta.headIndex + (headerSize + size)).toNat = _
    rw [toNat_add_of_lt (by omega), Nat.mod_eq_of_lt hlt]
    omega
  · intro hsafe
    simp [hsafe, hbody, hsize]
    omega

end Routes

/-! ## the choice of a route -/

/-- The metadata describe a region in use: what every operation finds. -/
structure Bounds (m : QMeta) : Prop where
  total_lt : m.qTotalSize.toNat < 2 ^ 63
  head_lt : m.headIndex.toNat < m.qTotalSize.toNat
  tail_lt : m.tailIndex.toNat < m.qTotalSize.toNat

/-- A head inside the region passes its check. -/
theorem checkHeadIndex_apply {w : Shm}
    (hhead : w.pMeta.headIndex.toNat < w.pMeta.qTotalSize.toNat) :
    checkHeadIndex w = .ok () w := by
  have htotal := w.pMeta.qTotalSize.toNat_lt
  have h1 : (w.pMeta.headIndex + 1).toNat = w.pMeta.headIndex.toNat + 1 :=
    toNat_add_of_lt (by simp; omega)
  have hnot : ¬ w.pMeta.qTotalSize < w.pMeta.headIndex + 1 := by
    rw [UInt64.lt_iff_toNat_lt, h1]
    omega
  simp only [checkHeadIndex, getMeta, bind_apply, get_apply, pure_apply, throwIf_apply, hnot,
    if_false]

/-- `QueueScene` is decided by the indices, and by the count when they meet. -/
theorem queueScene_apply (w : Shm) : queueScene w = .ok
    (if w.pMeta.tailIndex.toNat < w.pMeta.headIndex.toNat then .scene1
      else if w.pMeta.headIndex.toNat < w.pMeta.tailIndex.toNat then .scene2
      else if w.pMeta.elementCount = 0 then .scene3 else .scene4) w := by
  simp only [queueScene, getMeta, bind_apply, get_apply, pure_apply, gt_iff_lt,
    UInt64.lt_iff_toNat_lt]
  split
  · rfl
  · split
    · rfl
    · by_cases h : w.pMeta.elementCount = 0
      · simp [h]
      · simp [h, Ne.symm h]

/-- `QueueWriteCase` is `caseAt`, as long as the sums it forms fit. -/
theorem queueWriteCase_apply {w : Shm} (hb : Bounds w.pMeta) {size : UInt64} {n : Nat}
    (hsize : size.toNat = n) (hfit : 24 + n ≤ w.pMeta.qTotalSize.toNat) (hpos : 0 < n) :
    queueWriteCase size w =
      .ok (caseAt w.pMeta.qTotalSize.toNat w.pMeta.headIndex.toNat n) w := by
  have htot := hb.total_lt
  have hhead := hb.head_lt
  have h1 : (w.pMeta.headIndex + 1).toNat = w.pMeta.headIndex.toNat + 1 :=
    toNat_add_of_lt (by simp; omega)
  have h24 := toNat_add_headerSize htot hhead
  have hend := toNat_add_headerSize_add htot hhead hsize hfit
  simp only [queueWriteCase, getMeta, bind_apply, get_apply, pure_apply, throwIf_apply,
    UInt64.lt_iff_toNat_lt, gt_iff_lt, ← UInt64.toNat_inj, h1, h24, hend]
  rw [if_neg (by omega)]
  simp only [caseAt, gt_iff_lt]
  split
  · rfl
  · split
    · rfl
    · split
      · rfl
      · split
        · rw [if_pos (by omega)]; rfl
        · rw [if_pos (by omega), if_neg (by omega)]; rfl

/-- What an operation finds room for: `n` bytes behind the head, up to the
tail when the head has wrapped. -/
structure RoomFor (m : QMeta) (d : List UInt8) : Prop extends Bounds m where
  nonempty : d ≠ []
  fits : weight d ≤ m.qTotalSize.toNat
  behind_tail : m.headIndex.toNat < m.tailIndex.toNat →
    m.headIndex.toNat + weight d ≤ m.tailIndex.toNat
  not_full : m.headIndex.toNat = m.tailIndex.toNat → m.elementCount = 0

/-- Whatever the scene and the case, the element is stored behind the head. -/
theorem writeRoutes_spec {w : Shm} {hdr d : List UInt8} {size : UInt64}
    (hroom : RoomFor w.pMeta d) (hhdr : hdr.length = 24) (hsize : size.toNat = d.length)
    {scene : EQueueScene} (hscene : queueScene w = .ok scene w) :
    ∃ w', writeRoutes scene
        (caseAt w.pMeta.qTotalSize.toNat w.pMeta.headIndex.toNat d.length)
        (Mem.ofList hdr) (Mem.ofList d) size w = .ok () w' ∧ StoresElement w hdr d w' := by
  obtain ⟨⟨htot, hhead, htail⟩, hne, hfit, hbehind, hfull⟩ := hroom
  have hw : weight d = 24 + d.length := rfl
  have hd : 0 < d.length := List.length_pos_iff.mpr hne
  -- scenes 1 and 3: the case, a function of the head alone, picks the route
  have hcases : ∃ w', writeRoutes .scene1
      (caseAt w.pMeta.qTotalSize.toNat w.pMeta.headIndex.toNat d.length)
      (Mem.ofList hdr) (Mem.ofList d) size w = .ok () w' ∧ StoresElement w hdr d w' := by
    simp only [caseAt]
    split
    · exact writeRoute1_case1 htot hhead hhdr hsize hd (by omega)
    · split
      · exact writeRoute1_case2 htot hhead hhdr hsize hd (by omega)
      · split
        · exact writeRoute2_spec htot hhead hhdr hsize hd (by omega) hfit
        · split
          · exact writeRoute3_spec htot hhead hhdr hsize hd (by omega) (by omega) hfit
          · exact writeRoute4_spec hhead hhdr hsize hd (by omega) hfit
  rw [queueScene_apply] at hscene
  split at hscene
  · cases hscene; exact hcases
  · split at hscene
    · cases hscene
      -- scene 2: the element ends before the tail, so it does not wrap
      have hle := hbehind (by omega)
      have hend := toNat_add_headerSize_add htot hhead hsize hfit
      have hnot : ¬ w.pMeta.tailIndex < w.pMeta.headIndex + headerSize + size := by
        rw [UInt64.lt_iff_toNat_lt, hend]; omega
      obtain ⟨w', hrun, hstores⟩ :=
        writeRoute5_spec htot hhead hhdr hsize hd (by omega)
      refine ⟨w', ?_, hstores⟩
      simpa only [writeRoutes, getMeta, bind_apply, get_apply, pure_apply, throwIf_apply, hnot,
        if_false] using hrun
    · split at hscene
      · cases hscene; exact hcases
      · next hcount => exact absurd (hfull (by omega)) hcount

/-! ## write -/

/-- The metadata after `finishWrite`. -/
def finishedWrite (m : QMeta) (size : UInt64) (env : Environment) : QMeta :=
  { m with
    qLeftSize := m.qLeftSize - (headerSize + size)
    elementCount := m.elementCount + 1
    serialNO := m.serialNO + 1
    operationTime := env.operationTime
    operationPid := env.pid
    extention := [0, 0, 0, 0] }

/-- What `Write` does behind its routes, with the head inside the region. -/
theorem finishWrite_apply {w : Shm}
    (hhead : w.pMeta.headIndex.toNat < w.pMeta.qTotalSize.toNat) (size : UInt64)
    (env : Environment) :
    finishWrite size env w = .ok () { w with
      pMeta := finishedWrite w.pMeta size env
      accesses := w.accesses ++ [.sub w.pMeta.qLeftSize (headerSize + size)] } :=
  checkHeadIndex_apply (w := { w with
    pMeta := finishedWrite w.pMeta size env
    accesses := w.accesses ++ [.sub w.pMeta.qLeftSize (headerSize + size)] }) hhead

/-- `write` of `d` from `w` returned in `w'`: the element with the header
`writeHeader` builds is stored behind the head, and the counters follow. -/
structure Written (w : Shm) (d : List UInt8) (size : UInt64) (env : Environment) (w' : Shm) :
    Prop where
  pQueue : w'.pQueue = store w.pMeta.qTotalSize.toNat w.pQueue w.pMeta.headIndex.toNat
    ((writeHeader (caseAt w.pMeta.qTotalSize.toNat w.pMeta.headIndex.toNat d.length) size
      env).toBytes ++ d)
  headIndex : w'.pMeta.headIndex.toNat =
    (w.pMeta.headIndex.toNat + weight d) % w.pMeta.qTotalSize.toNat
  pMeta : w'.pMeta =
    finishedWrite { w.pMeta with headIndex := w'.pMeta.headIndex } size env
  data : w'.data = w.data
  accesses : AllSafe w.accesses → AllSafe w'.accesses

/-- `write` returns whenever there is room for the element. -/
theorem write_spec {w : Shm} {d : List UInt8} {size : UInt64} (env : Environment)
    (hroom : RoomFor w.pMeta d) (hsize : size.toNat = d.length)
    (hleft : weight d ≤ w.pMeta.qLeftSize.toNat) :
    ∃ w', write (Mem.ofList d) size env w = .ok () w' ∧ Written w d size env w' := by
  have hd : 0 < d.length := List.length_pos_iff.mpr hroom.nonempty
  have hw : weight d = 24 + d.length := rfl
  have hlt := hroom.total_lt
  have hfits := hroom.fits
  have hne : ¬ (0 : UInt64) = size := by
    rw [← UInt64.toNat_inj, hsize]; simp; omega
  have hadd : (headerSize + size).toNat = weight d := toNat_headerSize_add hsize (by omega)
  obtain ⟨w₁, hrun, hst⟩ := writeRoutes_spec hroom
    (ElementHeader.length_toBytes (writeHeader
      (caseAt w.pMeta.qTotalSize.toNat w.pMeta.headIndex.toNat d.length) size env))
    hsize (queueScene_apply w)
  have hmeta := hst.pMeta
  have hhead₁ : w₁.pMeta.headIndex.toNat < w₁.pMeta.qTotalSize.toNat := by
    rw [hst.headIndex, hmeta]; exact Nat.mod_lt _ (by omega)
  have hwrite : write (Mem.ofList d) size env w = finishWrite size env w₁ := by
    simp only [write]
    rw [bind_of_ok (throwIf_of_not hne _ _), bind_of_ok (checkHeadIndex_apply hroom.head_lt),
      bind_of_ok (queueScene_apply w), bind_of_ok (queueWriteCase_apply hroom.toBounds hsize
        (by omega) hd), bind_of_ok hrun]
  refine ⟨_, hwrite.trans (finishWrite_apply hhead₁ size env), hst.pQueue, hst.headIndex,
    congrArg (finishedWrite · size env) hmeta, hst.data, ?_⟩
  intro hsafe
  have hleft₁ : w₁.pMeta.qLeftSize = w.pMeta.qLeftSize := by rw [hmeta]
  simp only [allSafe_append, allSafe_cons, Access.safe_sub, allSafe_nil, and_true]
  exact ⟨hst.accesses hsafe, by rw [hadd, hleft₁]; exact hleft⟩

end ElementOp

end CppFastDevelop
