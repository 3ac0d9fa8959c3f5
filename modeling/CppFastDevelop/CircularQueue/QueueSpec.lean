import CppFastDevelop.CircularQueue.ReadSpec
import CppFastDevelop.CircularQueue.Queue

/-!
# CppFastDevelop.CircularQueue.QueueSpec

The entry points of `CircularQueue` on a memory that holds a queue.  The
element writer and reader keep `Holds`; the calls around them decide from
the status, the element's weight, `qLeftSize` and `elementCount` whether to
run them, to wait, or to throw.  Each entry point is given as one equation,
so that everything above this module is about queues of payloads.
-/

namespace CppFastDevelop

open RingBuffer Words Exec ElementOp QMetaOp

/-! ## the invariant over writes and reads -/

/-- The indices of a queue that holds elements are inside the region. -/
theorem Holds.bounds {w : Shm} {ds : List (List UInt8)} (hold : Holds w ds) : Bounds w.pMeta :=
  ⟨hold.total_lt, hold.head_lt, hold.tail_lt⟩

/-- The count is zero exactly when the queue is empty. -/
theorem Holds.elementCount_eq_zero {w : Shm} {ds : List (List UInt8)} (hold : Holds w ds) :
    0 = w.pMeta.elementCount ↔ ds = [] := by
  have hcount := hold.count_eq
  rw [← UInt64.toNat_inj, hcount, ← List.length_eq_zero_iff]
  exact eq_comm

/-- Bytes left are room behind the head. -/
theorem Holds.roomFor {w : Shm} {ds : List (List UInt8)} {d : List UInt8} (hold : Holds w ds)
    (hd : d ≠ []) (hleft : weight d ≤ w.pMeta.qLeftSize.toNat) : RoomFor w.pMeta d := by
  have hw : weight d = 24 + d.length := rfl
  have hadd := hold.left_add
  have hheads := hold.head_cases
  have htail := hold.tail_lt
  refine ⟨hold.bounds, hd, by omega, by omega, ?_⟩
  intro heq
  have hnil : totalWeight ds = 0 := by omega
  have hlen := length_le_totalWeight ds
  exact (hold.elementCount_eq_zero.mpr (List.length_eq_zero_iff.mp (by omega))).symm

/-- A write appends to the queue. -/
theorem Holds.write {w w' : Shm} {ds : List (List UInt8)} {d : List UInt8} {size : UInt64}
    {env : Environment} (hold : Holds w ds) (hd : d ≠ []) (hsize : size.toNat = d.length)
    (hleft : weight d ≤ w.pMeta.qLeftSize.toNat) (hwr : Written w d size env w') :
    Holds w' (ds ++ [d]) := by
  have hw : weight d = 24 + d.length := rfl
  have hadd := hold.left_add
  have htot := hold.total_lt
  have hlens := length_le_totalWeight ds
  have hmeta := hwr.pMeta
  have htotal : w'.pMeta.qTotalSize = w.pMeta.qTotalSize := by rw [hmeta]; rfl
  have htail : w'.pMeta.tailIndex = w.pMeta.tailIndex := by rw [hmeta]; rfl
  have helem : (headerSize + size).toNat = weight d := toNat_headerSize_add hsize (by omega)
  have hleft' : w'.pMeta.qLeftSize.toNat = w.pMeta.qLeftSize.toNat - weight d := by
    rw [hmeta]
    show (w.pMeta.qLeftSize - (headerSize + size)).toNat = _
    rw [toNat_sub_of_le (by omega), helem]
  have hcount : w'.pMeta.elementCount.toNat = ds.length + 1 := by
    rw [hmeta]
    show (w.pMeta.elementCount + 1).toNat = _
    rw [toNat_add_of_lt (by rw [hold.count_eq]; simp; omega), hold.count_eq]; rfl
  have hhead := hwr.headIndex
  have hhead' : w'.pMeta.headIndex.toNat =
      (w.pMeta.tailIndex.toNat + totalWeight (ds ++ [d])) % w.pMeta.qTotalSize.toNat := by
    rw [hhead, hold.head_eq, Nat.mod_add_mod]
    simp [Nat.add_assoc]
  have hlayout : Layout w.pMeta.qTotalSize.toNat w'.pQueue w.pMeta.tailIndex.toNat
      (ds ++ [d]) := by
    -- the head and the absolute end of the layout denote the same cell
    have hmod : w.pMeta.headIndex.toNat % w.pMeta.qTotalSize.toNat =
        (w.pMeta.tailIndex.toNat + totalWeight ds) % w.pMeta.qTotalSize.toNat := by
      rw [Nat.mod_eq_of_lt hold.head_lt, hold.head_eq]
    rw [hwr.pQueue, store_congr _ _ hmod, layout_append]
    refine ⟨layout_store _ ds _ (Nat.le_refl _) ?_ hold.layout, hd, ?_⟩
    · simp only [List.length_append, ElementHeader.length_toBytes]
      omega
    · refine elementAt_store _ d _ hsize ?_ (by omega)
      rw [← hmod, Nat.mod_eq_of_lt hold.head_lt]
      rfl
  refine ⟨?_, ?_, ?_, ?_, ?_, ?_, ?_, ?_⟩
  · rw [htotal]; exact hold.total_gt
  · rw [htotal]; exact htot
  · rw [hhead', htotal]; exact Nat.mod_lt _ (by omega)
  · rw [htail, htotal]; exact hold.tail_lt
  · rw [hleft', htotal, totalWeight_append, totalWeight_cons, totalWeight_nil]; omega
  · rw [hcount, List.length_append]; rfl
  · rw [hhead', htail, htotal]
  · rw [htotal, htail]; exact hlayout

/-- A read takes the front of the queue. -/
theorem Holds.read {w w' : Shm} {ds : List (List UInt8)} {d : List UInt8} {env : Environment}
    (hold : Holds w (d :: ds)) (hrd : ReadOut w d env w') : Holds w' ds := by
  have hw : weight d = 24 + d.length := rfl
  have hadd := hold.left_add
  have htot := hold.total_lt
  have hcount := hold.count_eq
  obtain ⟨size, hsize, hmeta⟩ := hrd.pMeta
  obtain ⟨_, _, hrest⟩ := hold.layout
  rw [totalWeight_cons] at hadd
  have htotal : w'.pMeta.qTotalSize = w.pMeta.qTotalSize := by rw [hmeta]; rfl
  have hhead : w'.pMeta.headIndex = w.pMeta.headIndex := by rw [hmeta]; rfl
  have helem : (headerSize + size).toNat = weight d := toNat_headerSize_add hsize (by omega)
  have hleft' : w'.pMeta.qLeftSize.toNat = w.pMeta.qLeftSize.toNat + weight d := by
    rw [hmeta]
    show (w.pMeta.qLeftSize + (headerSize + size)).toNat = _
    rw [toNat_add_of_lt (by omega), helem]
  have hcount' : w'.pMeta.elementCount.toNat = ds.length := by
    rw [hmeta]
    show (w.pMeta.elementCount - 1).toNat = _
    rw [toNat_sub_of_le (by rw [hcount]; simp), hcount]; rfl
  have htail := hrd.tailIndex
  have hmod : w'.pMeta.tailIndex.toNat % w.pMeta.qTotalSize.toNat =
      (w.pMeta.tailIndex.toNat + weight d) % w.pMeta.qTotalSize.toNat := by
    rw [htail, Nat.mod_mod]
  refine ⟨?_, ?_, ?_, ?_, ?_, ?_, ?_, ?_⟩
  · rw [htotal]; exact hold.total_gt
  · rw [htotal]; exact htot
  · rw [hhead, htotal]; exact hold.head_lt
  · rw [htail, htotal]; exact Nat.mod_lt _ (by omega)
  · rw [hleft', htotal]; omega
  · exact hcount'
  · rw [hhead, htotal, hold.head_eq, totalWeight_cons, ← Nat.add_assoc, Nat.add_mod, ← hmod,
      ← Nat.add_mod]
  · rw [htotal, hrd.pQueue]
    exact (layout_congr _ ds hmod).mpr hrest

/-! ## creation -/

/-- A created queue is empty and in state `Q_NOMAL`, whatever the memory
held before. -/
theorem create_spec {memSize : UInt64} (w : Shm)
    (hlo : metaSize.toNat + headerSize.toNat < memSize.toNat) (hhi : memSize.toNat < 2 ^ 63) :
    ∃ w', CircularQueue.construct true memSize w = .ok ⟨true⟩ w' ∧ Holds w' [] ∧
      w'.pMeta.status = .Q_NOMAL ∧ w'.pMeta.qTotalSize.toNat = memSize.toNat - 168 ∧
      w'.accesses = w.accesses := by
  have hnot : ¬ memSize ≤ metaSize + headerSize := by
    rw [UInt64.le_iff_toNat_le, toNat_add_of_lt (by simp)]
    omega
  simp only [toNat_metaSize, toNat_headerSize] at hlo
  have htotal : (memSize - metaSize).toNat = memSize.toNat - 168 := by
    rw [toNat_sub_of_le (by simp; omega)]; rfl
  have hrun : CircularQueue.construct true memSize w = .ok ⟨true⟩ { w with
      pMeta := {
        magic := [48, 67, 70, 68], version := [48, 48, 48, 49]
        qTotalSize := memSize - metaSize, qLeftSize := memSize - metaSize
        elementCount := 0, headIndex := 0, tailIndex := 0, serialNO := 0
        operationTime := -1, operationPid := 0, extention := [0, 0, 0, 0], status := .Q_NOMAL }
      pQueue := fun i => if i < metaOverlap then 0 else w.pQueue i } := by
    simp only [CircularQueue.construct, create, if_true, bind_apply, throwIf_apply, hnot, if_false,
      modify_apply, pure_apply]
  refine ⟨_, hrun, ⟨?_, ?_, ?_, ?_, ?_, rfl, ?_, trivial⟩, rfl, htotal, rfl⟩
  · show 24 < (memSize - metaSize).toNat
    omega
  · show (memSize - metaSize).toNat < 2 ^ 63
    omega
  · show 0 < (memSize - metaSize).toNat
    omega
  · show 0 < (memSize - metaSize).toNat
    omega
  · show (memSize - metaSize).toNat + 0 = _
    rfl
  · show 0 = (0 + 0) % _
    simp

/-! ## what a call leaves alone -/

/-- What every call keeps, however it ends. -/
structure Keeps (w w' : Shm) : Prop where
  qTotalSize : w'.pMeta.qTotalSize = w.pMeta.qTotalSize
  status : w'.pMeta.status = w.pMeta.status
  accesses : AllSafe w.accesses → AllSafe w'.accesses

/-- Nothing is changed by nothing. -/
theorem Keeps.refl (w : Shm) : Keeps w w := ⟨rfl, rfl, id⟩

/-- What two steps leave alone, both together leave alone. -/
theorem Keeps.trans {w w' w'' : Shm} (h : Keeps w w') (h' : Keeps w' w'') : Keeps w w'' :=
  ⟨h'.qTotalSize.trans h.qTotalSize, h'.status.trans h.status, h'.accesses ∘ h.accesses⟩

/-- Without a stop request none of the status checks fires. -/
theorem not_stopped {m : QMeta} (h : m.status = .Q_NOMAL) :
    isStopPut m = false ∧ isStopPutAndGet m = false := by
  simp [isStopPut, isStopPutAndGet, h]

/-- Restoring the lock changes nothing of the queue. -/
theorem checkProcessAndRestoreLock_apply (env : Environment) (w : Shm) :
    CircularQueue.checkProcessAndRestoreLock env w = .ok () w := by
  simp only [CircularQueue.checkProcessAndRestoreLock, getMeta, bind_apply, get_apply, pure_apply]
  split
  · rfl
  · split <;> rfl

/-- The exception of a `write` of nothing. -/
def emptyBody : BaseException := ⟨.valueError, "0==size !", []⟩

/-- An empty element is refused. -/
theorem write_empty (pData : Mem) (env : Environment) (w : Shm) :
    ElementOp.write pData 0 env w = .error emptyBody w := rfl

/-! ## putting -/

/-- The local variables of a `Put` of `p` hold what `p` says. -/
structure PutWait.Carries (f : PutWait) (p : Payload) : Prop where
  pData : f.pData = p.pData
  size : f.size = p.size
  elementSize : f.elementSize = p.size + headerSize

namespace CircularQueue

/-- An element with its header does not wrap. -/
theorem toNat_elementSize (p : Payload) :
    (p.size + headerSize).toNat = weight p.bytes := by
  have hlt := p.length_lt
  rw [toNat_add_of_lt (by simp; omega), Payload.toNat_size]
  exact Nat.add_comm _ _

section Put

variable {w : Shm} {ds : List (List UInt8)} {p : Payload} {f : PutWait}
variable (hold : Holds w ds) (hstat : w.pMeta.status = .Q_NOMAL)

include hstat in
/-- Behind the loops of `TimedPut` the element is written. -/
theorem timedPutFinish_apply (env : Environment) (hf : f.Carries p)
    (hleft : weight p.bytes ≤ w.pMeta.qLeftSize.toNat) :
    timedPutFinish f env w = ElementOp.write p.pData p.size env w := by
  obtain ⟨hput, hget⟩ := not_stopped hstat
  have hnot : ¬ f.elementSize > w.pMeta.qLeftSize := by
    rw [hf.elementSize, gt_iff_lt, UInt64.lt_iff_toNat_lt, toNat_elementSize]
    omega
  simp only [timedPutFinish, getMeta, bind_apply, get_apply, pure_apply, throwIf_apply, hput,
    hget, Bool.false_eq_true, or_self, if_false, hnot, hf.pData, hf.size]

include hold hstat

/-- The end of a put for which there is room: the payload is queued, unless
it is empty. -/
theorem timedPutFinish_spec (env : Environment) (hf : f.Carries p)
    (hleft : weight p.bytes ≤ w.pMeta.qLeftSize.toNat) :
    (p.bytes = [] ∧ timedPutFinish f env w = .error emptyBody w) ∨
    (p.bytes ≠ [] ∧ ∃ w', timedPutFinish f env w = .ok () w' ∧ Holds w' (ds ++ [p.bytes]) ∧
      Keeps w w') := by
  rw [timedPutFinish_apply hstat env hf hleft]
  by_cases hnil : p.bytes = []
  · left
    have hsize : p.size = 0 := by rw [Payload.size, hnil]; rfl
    exact ⟨hnil, by rw [hsize]; exact write_empty _ _ _⟩
  · right
    have hsize := p.toNat_size
    obtain ⟨w', hrun, hwr⟩ := write_spec env (hold.roomFor hnil hleft) hsize hleft
    have hmeta := hwr.pMeta
    exact ⟨hnil, w', hrun, hold.write hnil hsize hleft hwr, by rw [hmeta]; rfl,
      by rw [hmeta]; rfl, hwr.accesses⟩

/-- One evaluation of the loop condition: the put goes on to its end, or
back to `Wait`, or its time is over. -/
theorem timedPutLoop_cases (env : Environment) (hf : f.Carries p) :
    (w.pMeta.qLeftSize.toNat < weight p.bytes ∧
      (timedPutLoop f env w = .error timeoutInfo w ∧ f.timed = true ∨
        timedPutLoop f env w = .ok (some f) w)) ∨
    (weight p.bytes ≤ w.pMeta.qLeftSize.toNat ∧
      ((p.bytes = [] ∧ timedPutLoop f env w = .error emptyBody w) ∨
        (p.bytes ≠ [] ∧ ∃ w', timedPutLoop f env w = .ok none w' ∧
          Holds w' (ds ++ [p.bytes]) ∧ Keeps w w'))) := by
  obtain ⟨hput, hget⟩ := not_stopped hstat
  have hgt : f.elementSize > w.pMeta.qLeftSize ↔
      w.pMeta.qLeftSize.toNat < weight p.bytes := by
    rw [hf.elementSize, gt_iff_lt, UInt64.lt_iff_toNat_lt, toNat_elementSize]
  by_cases hlt : w.pMeta.qLeftSize.toNat < weight p.bytes
  · refine .inl ⟨hlt, ?_⟩
    simp only [timedPutLoop, getMeta, bind_apply, get_apply, pure_apply, throwIf_apply, hput,
      hget, hgt, hlt, or_self, true_and, if_true]
    by_cases htime : f.timed = true ∧ f.timeoutMilliseconds ≤ 0
    · exact .inl ⟨by rw [if_pos htime], htime.1⟩
    · exact .inr (by rw [if_neg htime])
  · refine .inr ⟨by omega, ?_⟩
    have hloop : timedPutLoop f env w =
        (do timedPutFinish f env; return none : Op (Option PutWait)) w := by
      simp only [timedPutLoop, getMeta, bind_apply, get_apply, pure_apply, hgt, hlt, and_false,
        if_false]
    rw [hloop]
    rcases timedPutFinish_spec hold hstat env hf (by omega) with ⟨hnil, herr⟩ | ⟨hne, w', hok, h⟩
    · exact .inl ⟨hnil, bind_of_error herr⟩
    · exact .inr ⟨hne, w', bind_of_ok hok, h⟩

/-- How `TimedPut` starts: it throws at once, goes to `Wait`, or runs to its
end. -/
theorem timedPut_cases (self : CircularQueue) (t : Int32) (start : Int64) (env : Environment) :
    (w.pMeta.qTotalSize.toNat < weight p.bytes ∧
      timedPut self p.pData p.size t start env w =
        .error (putTooSmall (p.size + headerSize) w.pMeta.qTotalSize) w) ∨
    (weight p.bytes ≤ w.pMeta.qTotalSize.toNat ∧ w.pMeta.qLeftSize.toNat < weight p.bytes ∧
      ((t = 0 ∧ timedPut self p.pData p.size t start env w = .error putFull w) ∨
        (t ≠ 0 ∧ ∃ f : PutWait, f.Carries p ∧
          timedPut self p.pData p.size t start env w = .ok (some f) w ∧
          (t < 0 → f.timed = false)))) ∨
    (weight p.bytes ≤ w.pMeta.qLeftSize.toNat ∧
      ((p.bytes = [] ∧ timedPut self p.pData p.size t start env w = .error emptyBody w) ∨
        (p.bytes ≠ [] ∧ ∃ w', timedPut self p.pData p.size t start env w = .ok none w' ∧
          Holds w' (ds ++ [p.bytes]) ∧ Keeps w w'))) := by
  obtain ⟨hput, hget⟩ := not_stopped hstat
  have hadd := hold.left_add
  let f : PutWait := ⟨p.pData, p.size, p.size + headerSize, decide (0 < t), t, start⟩
  have hf : f.Carries p := ⟨rfl, rfl, rfl⟩
  have htotal : p.size + headerSize > w.pMeta.qTotalSize ↔
      w.pMeta.qTotalSize.toNat < weight p.bytes := by
    rw [gt_iff_lt, UInt64.lt_iff_toNat_lt, toNat_elementSize]
  have hleft : p.size + headerSize > w.pMeta.qLeftSize ↔
      w.pMeta.qLeftSize.toNat < weight p.bytes := by
    rw [gt_iff_lt, UInt64.lt_iff_toNat_lt, toNat_elementSize]
  have hstart : timedPut self p.pData p.size t start env w =
      if w.pMeta.qTotalSize.toNat < weight p.bytes then
        .error (putTooSmall (p.size + headerSize) w.pMeta.qTotalSize) w
      else (if w.pMeta.qLeftSize.toNat < weight p.bytes then
          do throwIf (t = 0) putFull; timedPutLoop f env
        else do timedPutFinish f env; return none : Op (Option PutWait)) w := by
    simp only [timedPut, bind_apply, checkProcessAndRestoreLock_apply, getMeta, get_apply,
      pure_apply, throwIf_apply, hput, hget, Bool.false_eq_true, or_self, if_false, htotal, hleft]
    by_cases hlt : w.pMeta.qTotalSize.toNat < weight p.bytes
    · simp only [hlt, if_true]
    · simp only [hlt, if_false]; rfl
  rw [hstart]
  by_cases hbig : w.pMeta.qTotalSize.toNat < weight p.bytes
  · exact .inl ⟨hbig, by rw [if_pos hbig]⟩
  · rw [if_neg hbig]
    by_cases hlt : w.pMeta.qLeftSize.toNat < weight p.bytes
    · refine .inr (.inl ⟨by omega, hlt, ?_⟩)
      rw [if_pos hlt]
      by_cases ht : t = 0
      · exact .inl ⟨ht, bind_of_error (throwIf_of ht _ _)⟩
      · refine .inr ⟨ht, f, hf, ?_, ?_⟩
        · -- a positive budget is not used up, a negative one is not looked at
          have htime : ¬ (f.timed = true ∧ f.timeoutMilliseconds ≤ 0) := by
            simp only [f, decide_eq_true_eq, not_and, Int32.le_iff_toInt_le, Int32.lt_iff_toInt_lt]
            omega
          have hgt : f.elementSize > w.pMeta.qLeftSize := hleft.mpr hlt
          rw [bind_of_ok (throwIf_of_not ht _ _)]
          simp only [timedPutLoop, getMeta, bind_apply, get_apply, pure_apply, throwIf_apply, hput,
            hget, hgt, htime, or_self, and_self, if_true, if_false]
        · intro hneg
          simp only [f, decide_eq_false_iff_not, Int32.lt_iff_toInt_lt] at hneg ⊢
          omega
    · refine .inr (.inr ⟨by omega, ?_⟩)
      rw [if_neg hlt]
      rcases timedPutFinish_spec hold hstat env hf (by omega) with ⟨hnil, herr⟩ | ⟨hne, w', hok, h⟩
      · exact .inl ⟨hnil, bind_of_error herr⟩
      · exact .inr ⟨hne, w', bind_of_ok hok, h⟩

/-- How `TimedPut` goes on after a `Wait`. -/
theorem timedPutWake_cases (signalled : Bool) (now : Int64) (env : Environment)
    (hf : f.Carries p) :
    (f.timed = true ∧ timedPutWake f signalled now env w = .error timeoutInfo w) ∨
    (w.pMeta.qLeftSize.toNat < weight p.bytes ∧
      ∃ f' : PutWait, f'.Carries p ∧ f'.timed = f.timed ∧
        timedPutWake f signalled now env w = .ok (some f') w) ∨
    (weight p.bytes ≤ w.pMeta.qLeftSize.toNat ∧
      ((p.bytes = [] ∧ timedPutWake f signalled now env w = .error emptyBody w) ∨
        (p.bytes ≠ [] ∧ ∃ w', timedPutWake f signalled now env w = .ok none w' ∧
          Holds w' (ds ++ [p.bytes]) ∧ Keeps w w'))) := by
  by_cases htimed : f.timed = true
  · by_cases hsig : signalled = true
    · let f' : PutWait :=
        { f with timeoutMilliseconds := f.timeoutMilliseconds - (now - f.start).toInt32 }
      have hf' : f'.Carries p := ⟨hf.pData, hf.size, hf.elementSize⟩
      have hwake : timedPutWake f signalled now env w = timedPutLoop f' env w := by
        rw [timedPutWake, if_pos htimed]
        exact bind_of_ok (throwIf_of_not (by simp [hsig]) _ _)
      rw [hwake]
      rcases timedPutLoop_cases hold hstat env hf' with ⟨hlt, hor⟩ | h
      · rcases hor with ⟨herr, _⟩ | hok
        · exact .inl ⟨htimed, herr⟩
        · exact .inr (.inl ⟨hlt, f', hf', rfl, hok⟩)
      · exact .inr (.inr h)
    · refine .inl ⟨htimed, ?_⟩
      rw [timedPutWake, if_pos htimed]
      exact bind_of_error (throwIf_of (by simp [hsig]) _ _)
  · have hwake : timedPutWake f signalled now env w = timedPutLoop f env w := by
      rw [timedPutWake, if_neg htimed]
    rw [hwake]
    rcases timedPutLoop_cases hold hstat env hf with ⟨hlt, hor⟩ | h
    · rcases hor with ⟨_, htrue⟩ | hok
      · exact absurd htrue htimed
      · exact .inr (.inl ⟨hlt, f, hf, rfl, hok⟩)
    · exact .inr (.inr h)

end Put

/-! ## getting -/

section Get

variable {w : Shm} {ds : List (List UInt8)} {f : GetWait}
variable (hold : Holds w ds) (hstat : w.pMeta.status = .Q_NOMAL)

/-- A get that returned: the front of the queue is in the output string. -/
structure Took (w : Shm) (ds : List (List UInt8)) (w' : Shm) : Prop where
  holds : ∃ d ds', ds = d :: ds' ∧ w'.data.toList = d ∧ Holds w' ds'
  keeps : Keeps w w'

include hold hstat

/-- The end of a get on a queue that is not empty. -/
theorem timedGetFinish_spec (env : Environment) (hne : ds ≠ []) :
    ∃ w', timedGetFinish env w = .ok () w' ∧ Took w ds w' := by
  obtain ⟨hput, hget⟩ := not_stopped hstat
  have hnot : ¬ 0 = w.pMeta.elementCount := by rw [hold.elementCount_eq_zero]; exact hne
  obtain ⟨d, ds', rfl⟩ := List.exists_cons_of_ne_nil hne
  obtain ⟨w', hrun, hrd⟩ := read_spec env hold
  obtain ⟨size, _, hmeta⟩ := hrd.pMeta
  refine ⟨w', ?_, ⟨d, ds', rfl, hrd.data, hold.read hrd⟩, by rw [hmeta]; rfl, by rw [hmeta]; rfl,
    hrd.accesses⟩
  simp only [timedGetFinish, getMeta, bind_apply, get_apply, pure_apply, throwIf_apply, hget,
    Bool.false_eq_true, if_false, hnot, hrun]

/-- One evaluation of the loop condition: the get goes on to its end, or
back to `Wait`, or its time is over. -/
theorem timedGetLoop_cases (env : Environment) :
    (ds = [] ∧ (timedGetLoop f env w = .error timeoutInfo w ∧ f.timed = true ∨
      timedGetLoop f env w = .ok (some f) w)) ∨
    (ds ≠ [] ∧ ∃ w', timedGetLoop f env w = .ok none w' ∧ Took w ds w') := by
  obtain ⟨hput, hget⟩ := not_stopped hstat
  by_cases hnil : ds = []
  · refine .inl ⟨hnil, ?_⟩
    have hzero := hold.elementCount_eq_zero.mpr hnil
    simp only [timedGetLoop, getMeta, bind_apply, get_apply, pure_apply, throwIf_apply, hget,
      hzero, and_self, if_true]
    by_cases htime : f.timed = true ∧ f.timeoutMilliseconds ≤ 0
    · exact .inl ⟨by rw [if_pos htime], htime.1⟩
    · exact .inr (by rw [if_neg htime])
  · refine .inr ⟨hnil, ?_⟩
    have hnot : ¬ 0 = w.pMeta.elementCount := by rw [hold.elementCount_eq_zero]; exact hnil
    have hloop : timedGetLoop f env w =
        (do timedGetFinish env; return none : Op (Option GetWait)) w := by
      simp only [timedGetLoop, getMeta, bind_apply, get_apply, pure_apply, hnot, and_false,
        if_false]
    obtain ⟨w', hok, htook⟩ := timedGetFinish_spec hold hstat env hnil
    exact ⟨w', hloop.trans (bind_of_ok hok), htook⟩

/-- How `TimedGet` starts: it throws at once, goes to `Wait`, or runs to its
end. -/
theorem timedGet_cases (self : CircularQueue) (t : Int32) (start : Int64) (env : Environment) :
    (ds = [] ∧
      ((t = 0 ∧ timedGet self t start env w = .error getEmpty w) ∨
        (t ≠ 0 ∧ ∃ f : GetWait, timedGet self t start env w = .ok (some f) w ∧
          (t < 0 → f.timed = false)))) ∨
    (ds ≠ [] ∧ ∃ w', timedGet self t start env w = .ok none w' ∧ Took w ds w') := by
  obtain ⟨hput, hget⟩ := not_stopped hstat
  by_cases hnil : ds = []
  · refine .inl ⟨hnil, ?_⟩
    have hzero := hold.elementCount_eq_zero.mpr hnil
    have hstart : timedGet self t start env w =
        (do throwIf (t = 0) getEmpty; timedGetLoop ⟨decide (0 < t), t, start⟩ env
          : Op (Option GetWait)) w := by
      simp only [timedGet, bind_apply, checkProcessAndRestoreLock_apply, getMeta, get_apply,
        pure_apply, throwIf_apply, hget, Bool.false_eq_true, if_false, hzero, if_true]
    rw [hstart]
    by_cases ht : t = 0
    · exact .inl ⟨ht, bind_of_error (throwIf_of ht _ _)⟩
    · refine .inr ⟨ht, ⟨decide (0 < t), t, start⟩, ?_, ?_⟩
      · have htime : ¬ (decide (0 < t) = true ∧ t ≤ 0) := by
          simp only [decide_eq_true_eq, not_and, Int32.le_iff_toInt_le, Int32.lt_iff_toInt_lt]
          omega
        rw [bind_of_ok (throwIf_of_not ht _ _)]
        simp only [timedGetLoop, getMeta, bind_apply, get_apply, pure_apply, throwIf_apply, hget,
          hzero, htime, and_self, if_true, if_false]
      · intro hneg
        simp only [decide_eq_false_iff_not, Int32.lt_iff_toInt_lt] at hneg ⊢
        omega
  · refine .inr ⟨hnil, ?_⟩
    have hnot : ¬ 0 = w.pMeta.elementCount := by rw [hold.elementCount_eq_zero]; exact hnil
    obtain ⟨w', hok, htook⟩ := timedGetFinish_spec hold hstat env hnil
    refine ⟨w', ?_, htook⟩
    simp only [timedGet, bind_apply, checkProcessAndRestoreLock_apply, getMeta, get_apply,
      pure_apply, throwIf_apply, hget, Bool.false_eq_true, if_false, hnot, hok]

/-- How `TimedGet` goes on after a `Wait`. -/
theorem timedGetWake_cases (signalled : Bool) (now : Int64) (env : Environment) :
    (f.timed = true ∧ timedGetWake f signalled now env w = .error timeoutInfo w) ∨
    (ds = [] ∧ ∃ f' : GetWait, f'.timed = f.timed ∧
      timedGetWake f signalled now env w = .ok (some f') w) ∨
    (ds ≠ [] ∧ ∃ w', timedGetWake f signalled now env w = .ok none w' ∧ Took w ds w') := by
  by_cases htimed : f.timed = true
  · by_cases hsig : signalled = true
    · let f' : GetWait :=
        { f with timeoutMilliseconds := f.timeoutMilliseconds - (now - f.start).toInt32 }
      have hwake : timedGetWake f signalled now env w = timedGetLoop f' env w := by
        rw [timedGetWake, if_pos htimed]
        exact bind_of_ok (throwIf_of_not (by simp [hsig]) _ _)
      rw [hwake]
      rcases timedGetLoop_cases hold hstat env with ⟨hnil, hor⟩ | h
      · rcases hor with ⟨herr, _⟩ | hok
        · exact .inl ⟨htimed, herr⟩
        · exact .inr (.inl ⟨hnil, f', rfl, hok⟩)
      · exact .inr (.inr h)
    · refine .inl ⟨htimed, ?_⟩
      rw [timedGetWake, if_pos htimed]
      exact bind_of_error (throwIf_of (by simp [hsig]) _ _)
  · have hwake : timedGetWake f signalled now env w = timedGetLoop f env w := by
      rw [timedGetWake, if_neg htimed]
    rw [hwake]
    rcases timedGetLoop_cases hold hstat env with ⟨hnil, hor⟩ | h
    · rcases hor with ⟨_, htrue⟩ | hok
      · exact absurd htrue htimed
      · exact .inr (.inl ⟨hnil, f, rfl, hok⟩)
    · exact .inr (.inr h)

end Get

end CircularQueue

end CppFastDevelop
