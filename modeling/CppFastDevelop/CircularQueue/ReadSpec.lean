import CppFastDevelop.CircularQueue.WriteSpec

/-!
# CppFastDevelop.CircularQueue.ReadSpec

What `ElementOp::read` does to the memory, route by route.  An element
stored at the tail is read back by the route its position calls for: the
header and the body are one run of a ring of capacity `qTotalSize`, every
access stays inside its buffers, and `tailIndex` moves by the element's
weight modulo the capacity.
-/

namespace CppFastDevelop

open RingBuffer Words Exec ElementOp

namespace ElementOp

/-- The specification all read routes share.  From `w` the route returns the
body's size; the output string is the payload `d`, `tailIndex` has moved
behind the element, nothing else has changed and safe accesses only were
added. -/
structure ReadsElement (w : Shm) (d : List UInt8) (size : UInt64) (w' : Shm) : Prop where
  size : size.toNat = d.length
  data : w'.data.toList = d
  tailIndex : w'.pMeta.tailIndex.toNat =
    (w.pMeta.tailIndex.toNat + weight d) % w.pMeta.qTotalSize.toNat
  pMeta : w'.pMeta = { w.pMeta with tailIndex := w'.pMeta.tailIndex }
  pQueue : w'.pQueue = w.pQueue
  accesses : AllSafe w.accesses → AllSafe w'.accesses

section Routes

variable {w : Shm} {d : List UInt8} {h : ElementHeader} (ph : Mem)
variable (htot : w.pMeta.qTotalSize.toNat < 2 ^ 63)
variable (htail : w.pMeta.tailIndex.toNat < w.pMeta.qTotalSize.toNat)
variable (hfit : weight d ≤ w.pMeta.qTotalSize.toNat) (hd : 0 < d.length)
variable (hlen : h.bodyLen.toNat = d.length)
variable (hload : load w.pMeta.qTotalSize.toNat w.pQueue w.pMeta.tailIndex.toNat (weight d) =
  h.toBytes ++ d)

include hload in
/-- The header part of the stored element. -/
private theorem load_header :
    load w.pMeta.qTotalSize.toNat w.pQueue w.pMeta.tailIndex.toNat 24 = h.toBytes := by
  rw [weight, load_add] at hload
  exact (List.append_inj hload (by simp)).1

include hload in
/-- The body part of the stored element. -/
private theorem load_body :
    load w.pMeta.qTotalSize.toNat w.pQueue (w.pMeta.tailIndex.toNat + 24) d.length = d := by
  rw [weight, load_add] at hload
  exact (List.append_inj hload (by simp)).2

include htail hload in
/-- A header that does not cross the end is the object read in one copy. -/
private theorem headerOf_copy (hcont : w.pMeta.tailIndex.toNat + 24 ≤ w.pMeta.qTotalSize.toNat) :
    headerOf (copy ph 0 w.pQueue w.pMeta.tailIndex.toNat 24) = h := by
  rw [headerOf, slice_copy_eq_load ph w.pQueue (Nat.mod_eq_of_lt htail) hcont,
    load_header hload, ElementHeader.ofBytes_toBytes]

include hd hload in
/-- A body that does not cross the end is read in one copy. -/
private theorem slice_body (m : Mem)
    (hcont : w.pMeta.tailIndex.toNat + weight d ≤ w.pMeta.qTotalSize.toNat) :
    slice (copy m 0 w.pQueue (w.pMeta.tailIndex.toNat + 24) d.length) 0 d.length = d := by
  have hw : weight d = 24 + d.length := rfl
  have hmid : (w.pMeta.tailIndex.toNat + 24) % w.pMeta.qTotalSize.toNat =
      w.pMeta.tailIndex.toNat + 24 := Nat.mod_eq_of_lt (by omega)
  rw [slice_copy_eq_load _ _ hmid (by omega), load_body hload]

include hd hlen in
/-- The stored length passes the check against zero. -/
private theorem bodyLen_ne_zero : ¬ (0 : UInt64) = h.bodyLen := by
  rw [← UInt64.toNat_inj, hlen]; simp; omega

include htot htail hfit hd hlen hload

/-- Route 1 reads an element that ends before the head. -/
theorem readRoute1_spec
    (hend : w.pMeta.tailIndex.toNat + weight d ≤ w.pMeta.headIndex.toNat)
    (hhead : w.pMeta.headIndex.toNat < w.pMeta.qTotalSize.toNat) :
    ∃ size w', readRoute1 ph w = .ok size w' ∧ ReadsElement w d size w' := by
  have hw : weight d = 24 + d.length := rfl
  have h24 := toNat_add_headerSize htot htail
  have hsum := toNat_add_headerSize_add htot htail hlen hfit
  have hadd := toNat_headerSize_add hlen (by omega)
  have hguard : ¬ w.pMeta.headIndex < w.pMeta.tailIndex + headerSize := by
    rw [UInt64.lt_iff_toNat_lt, h24]; omega
  have hguard' : ¬ w.pMeta.headIndex < w.pMeta.tailIndex + headerSize + h.bodyLen := by
    rw [UInt64.lt_iff_toNat_lt, hsum]; omega
  have hof := headerOf_copy ph htail hload (by omega)
  refine ⟨h.bodyLen, ?after, ?run, ?post⟩
  case run =>
    simp only [readRoute1, getMeta, bind_apply, get_apply, pure_apply, throwIf_apply, hguard,
      if_false, copyToHeader, modify_apply, toNat_headerSize, UInt64.toNat_zero, hof,
      bodyLen_ne_zero hd hlen, hguard']
    rfl
  case post =>
    refine ⟨hlen, ?_, ?_, rfl, rfl, ?_⟩
    · show slice (copy _ 0 w.pQueue (w.pMeta.tailIndex + headerSize).toNat h.bodyLen.toNat) 0
        h.bodyLen.toNat = d
      rw [h24, hlen, slice_body hd hload _ (by omega)]
    · show (w.pMeta.tailIndex + (headerSize + h.bodyLen)).toNat = _
      rw [toNat_add_of_lt (by omega), Nat.mod_eq_of_lt (by omega)]
      omega
    · intro hsafe
      simp [hsafe, h24, hlen]
      omega

/-- Route 2 reads an element that ends before the region does, or with it. -/
theorem readRoute2_spec {cs : UInt8}
    (hcs : cs = 1 ∧ w.pMeta.tailIndex.toNat + weight d < w.pMeta.qTotalSize.toNat ∨
      cs ≠ 1 ∧ w.pMeta.tailIndex.toNat + weight d = w.pMeta.qTotalSize.toNat) :
    ∃ size w', readRoute2 cs ph w = .ok size w' ∧ ReadsElement w d size w' := by
  have hw : weight d = 24 + d.length := rfl
  have h24 := toNat_add_headerSize htot htail
  have hsum := toNat_add_headerSize_add htot htail hlen hfit
  have hadd := toNat_headerSize_add hlen (by omega)
  have hguard : ¬ w.pMeta.qTotalSize < w.pMeta.tailIndex + headerSize + h.bodyLen := by
    rw [UInt64.lt_iff_toNat_lt, hsum]; omega
  have hof := headerOf_copy ph htail hload (by omega)
  -- the two cases differ in where the tail goes: behind the element, or to the front
  have hrun : readRoute2 cs ph w = .ok h.bodyLen { w with
      pMeta := { w.pMeta with
        tailIndex := if cs = 1 then w.pMeta.tailIndex + (headerSize + h.bodyLen) else 0 }
      data := ⟨h.bodyLen.toNat, copy (w.data.resize h.bodyLen.toNat).chars 0 w.pQueue
        (w.pMeta.tailIndex + headerSize).toNat h.bodyLen.toNat⟩
      accesses := w.accesses ++
        [.copy ⟨.header, 24, 0⟩ ⟨.region, w.pMeta.qTotalSize.toNat, w.pMeta.tailIndex.toNat⟩ 24] ++
        [.copy ⟨.data, h.bodyLen.toNat, 0⟩ ⟨.region, w.pMeta.qTotalSize.toNat,
          (w.pMeta.tailIndex + headerSize).toNat⟩ h.bodyLen.toNat] } := by
    simp only [readRoute2, getMeta, bind_apply, get_apply, pure_apply, throwIf_apply, hguard,
      if_false, copyToHeader, modify_apply, toNat_headerSize, UInt64.toNat_zero, hof,
      bodyLen_ne_zero hd hlen]
    by_cases hc : cs = 1
    · simp only [hc, if_true]; rfl
    · simp only [hc, if_false]; rfl
  refine ⟨_, _, hrun, hlen, ?_, ?_, rfl, rfl, ?_⟩
  · show slice (copy _ 0 w.pQueue (w.pMeta.tailIndex + headerSize).toNat h.bodyLen.toNat) 0
      h.bodyLen.toNat = d
    rw [h24, hlen, slice_body hd hload _ (by omega)]
  · rcases hcs with ⟨hc, hlt⟩ | ⟨hc, heq⟩
    · simp only [hc, if_true]
      rw [toNat_add_of_lt (by omega), Nat.mod_eq_of_lt (by omega)]
      omega
    · simp only [hc, if_false, heq, Nat.mod_self]
      rfl
  · intro hsafe
    simp [hsafe, h24, hlen]
    omega

/-- Route 3 reads an element whose header is split by the end of the region. -/
theorem readRoute3_spec
    (hsplit : w.pMeta.qTotalSize.toNat < w.pMeta.tailIndex.toNat + 24)
    (hend : w.pMeta.tailIndex.toNat + weight d ≤
      w.pMeta.headIndex.toNat + w.pMeta.qTotalSize.toNat) :
    ∃ size w', readRoute3 ph w = .ok size w' ∧ ReadsElement w d size w' := by
  have hw : weight d = 24 + d.length := rfl
  have hsize0 := toNat_rest htail
  have hsize1 := toNat_headerSize_sub_rest htail hsplit
  have hsum : (headerSize - (w.pMeta.qTotalSize - w.pMeta.tailIndex) + h.bodyLen).toNat =
      24 - (w.pMeta.qTotalSize.toNat - w.pMeta.tailIndex.toNat) + d.length := by
    rw [toNat_add_of_lt (by omega), hsize1, hlen]
  have hguard : ¬ w.pMeta.headIndex - 0 <
      headerSize - (w.pMeta.qTotalSize - w.pMeta.tailIndex) + h.bodyLen := by
    rw [UInt64.lt_iff_toNat_lt, hsum, UInt64.sub_zero]; omega
  -- the two parts of the header are put together again
  have hof : headerOf (copy (copy ph 0 w.pQueue w.pMeta.tailIndex.toNat
      (w.pMeta.qTotalSize - w.pMeta.tailIndex).toNat)
      (w.pMeta.qTotalSize - w.pMeta.tailIndex).toNat w.pQueue 0
      (headerSize - (w.pMeta.qTotalSize - w.pMeta.tailIndex)).toNat) = h := by
    have hparts := slice_copy_copy_eq_load ph w.pQueue (Nat.mod_eq_of_lt htail)
      (Nat.add_sub_of_le (Nat.le_of_lt htail))
      (show 24 - (w.pMeta.qTotalSize.toNat - w.pMeta.tailIndex.toNat) ≤ _ by omega)
    rw [Nat.add_sub_of_le (by omega)] at hparts
    rw [hsize0, hsize1, headerOf, hparts, load_header hload, ElementHeader.ofBytes_toBytes]
  refine ⟨h.bodyLen, ?after, ?run, ?post⟩
  case run =>
    simp only [readRoute3, getMeta, sub, bind_apply, get_apply, pure_apply, throwIf_apply, hguard,
      if_false, copyToHeader, modify_apply, UInt64.toNat_zero, hof, bodyLen_ne_zero hd hlen]
    rfl
  case post =>
    refine ⟨hlen, ?_, ?_, rfl, rfl, ?_⟩
    · show slice (copy _ 0 w.pQueue
        (headerSize - (w.pMeta.qTotalSize - w.pMeta.tailIndex)).toNat h.bodyLen.toNat) 0
        h.bodyLen.toNat = d
      have hbody : (w.pMeta.tailIndex.toNat + 24) % w.pMeta.qTotalSize.toNat =
          24 - (w.pMeta.qTotalSize.toNat - w.pMeta.tailIndex.toNat) := by
        rw [Nat.mod_eq_sub_mod (by omega), Nat.mod_eq_of_lt (by omega)]; omega
      rw [hsize1, hlen, slice_copy_eq_load _ _ hbody (by omega), load_body hload]
    · show (headerSize - (w.pMeta.qTotalSize - w.pMeta.tailIndex) + h.bodyLen).toNat = _
      rw [hsum, Nat.mod_eq_sub_mod (by omega), Nat.mod_eq_of_lt (by omega)]
      omega
    · intro hsafe
      simp [hsafe, hsize0, hsize1, hlen]
      omega

/-- Route 4 reads an element whose body is split by the end of the region. -/
theorem readRoute4_spec
    (hlt : w.pMeta.tailIndex.toNat + 24 < w.pMeta.qTotalSize.toNat)
    (hsplit : w.pMeta.qTotalSize.toNat < w.pMeta.tailIndex.toNat + weight d) :
    ∃ size w', readRoute4 ph w = .ok size w' ∧ ReadsElement w d size w' := by
  have hw : weight d = 24 + d.length := rfl
  have h24 := toNat_add_headerSize htot htail
  have h25 : (w.pMeta.tailIndex + headerSize + 1).toNat = w.pMeta.tailIndex.toNat + 24 + 1 := by
    rw [toNat_add_of_lt (by rw [h24]; simp; omega), h24]; rfl
  have hrest := toNat_rest htail
  have hsize0 := toNat_rest_sub_headerSize hlt
  have hsize1 := toNat_size_sub_rest hlt hlen hsplit
  have hguard : ¬ w.pMeta.qTotalSize < w.pMeta.tailIndex + headerSize + 1 := by
    rw [UInt64.lt_iff_toNat_lt, h25]; omega
  have hof := headerOf_copy ph htail hload (by omega)
  refine ⟨h.bodyLen, ?after, ?run, ?post⟩
  case run =>
    simp only [readRoute4, getMeta, sub, bind_apply, get_apply, pure_apply, throwIf_apply, hguard,
      if_false, copyToHeader, modify_apply, toNat_headerSize, UInt64.toNat_zero, hof,
      bodyLen_ne_zero hd hlen]
    rfl
  case post =>
    refine ⟨hlen, ?_, ?_, rfl, rfl, ?_⟩
    · show slice (copy (copy _ 0 w.pQueue (w.pMeta.tailIndex + headerSize).toNat
        (w.pMeta.qTotalSize - w.pMeta.tailIndex - headerSize).toNat)
        (w.pMeta.qTotalSize - w.pMeta.tailIndex - headerSize).toNat w.pQueue 0
        (h.bodyLen - (w.pMeta.qTotalSize - w.pMeta.tailIndex - headerSize)).toNat) 0
        h.bodyLen.toNat = d
      -- the two parts of the body are put together again
      have hparts := slice_copy_copy_eq_load (w.data.resize h.bodyLen.toNat).chars w.pQueue
        (Nat.mod_eq_of_lt hlt)
        (show _ + (w.pMeta.qTotalSize.toNat - w.pMeta.tailIndex.toNat - 24) = _ by omega)
        (show d.length - (w.pMeta.qTotalSize.toNat - w.pMeta.tailIndex.toNat - 24) ≤ _ by omega)
      rw [Nat.add_sub_of_le (by omega)] at hparts
      rw [h24, hlen, hsize0, hsize1]
      rw [hlen] at hparts
      rw [hparts, load_body hload]
    · show (h.bodyLen - (w.pMeta.qTotalSize - w.pMeta.tailIndex - headerSize)).toNat = _
      rw [hsize1, Nat.mod_eq_sub_mod (by omega), Nat.mod_eq_of_lt (by omega)]
      omega
    · intro hsafe
      simp [hsafe, h24, hsize0, hsize1, hlen, hrest]
      omega

/-- Route 5 reads an element whose header ends with the region. -/
theorem readRoute5_spec
    (hflush : w.pMeta.qTotalSize.toNat = w.pMeta.tailIndex.toNat + 24) :
    ∃ size w', readRoute5 ph w = .ok size w' ∧ ReadsElement w d size w' := by
  have hw : weight d = 24 + d.length := rfl
  have h24 := toNat_add_headerSize htot htail
  have hguard : ¬ w.pMeta.qTotalSize ≠ w.pMeta.tailIndex + headerSize := by
    rw [ne_eq, ← UInt64.toNat_inj, h24, not_not]; exact hflush
  have hof := headerOf_copy ph htail hload (by omega)
  refine ⟨h.bodyLen, ?after, ?run, ?post⟩
  case run =>
    simp only [readRoute5, getMeta, bind_apply, get_apply, pure_apply, throwIf_apply, hguard,
      if_false, copyToHeader, modify_apply, toNat_headerSize, UInt64.toNat_zero, hof,
      bodyLen_ne_zero hd hlen]
    rfl
  case post =>
    refine ⟨hlen, ?_, ?_, rfl, rfl, ?_⟩
    · show slice (copy _ 0 w.pQueue 0 h.bodyLen.toNat) 0 h.bodyLen.toNat = d
      have hend : (w.pMeta.tailIndex.toNat + 24) % w.pMeta.qTotalSize.toNat = 0 := by
        rw [hflush, Nat.mod_self]
      rw [hlen, slice_copy_eq_load _ _ hend (by omega), load_body hload]
    · show h.bodyLen.toNat = _
      rw [hlen, Nat.mod_eq_sub_mod (by omega), Nat.mod_eq_of_lt (by omega)]
      omega
    · intro hsafe
      simp [hsafe, hlen]
      omega

end Routes

/-! ## the choice of a route -/

/-- An access record only grows by safe accesses when the start of a run is
moved over a safe access. -/
private theorem ReadsElement.of_access {w : Shm} {d : List UInt8} {size : UInt64} {w' : Shm}
    {a : Access} (ha : a.Safe)
    (h : ReadsElement { w with accesses := w.accesses ++ [a] } d size w') :
    ReadsElement w d size w' :=
  { h with accesses := fun hsafe => h.accesses (by simpa using ⟨hsafe, ha⟩) }

/-- The case byte is the byte at the tail. -/
theorem writeCase_headerOf (ph q : Mem) (pos : Nat) :
    (headerOf (copy ph 0 q pos 1)).writeCase = q pos := by
  simp [headerOf, ElementHeader.ofBytes, slice, copy]

/-- It is the first byte of the element. -/
private theorem load_writeCase {T pos : Nat} {q : Mem} {h : ElementHeader} {bs : List UInt8}
    {n : Nat} (hpos : pos < T) (hn : 0 < n) (hload : load T q pos n = h.toBytes ++ bs) :
    q pos = h.writeCase := by
  obtain ⟨k, rfl⟩ : ∃ k, n = k + 1 := ⟨n - 1, by omega⟩
  rw [load, Nat.mod_eq_of_lt hpos, ElementHeader.toBytes, List.cons_append, List.cons_append,
    List.cons_append, List.cons_append] at hload
  exact (List.cons.inj hload).1

/-- After its guard and the copy of the case byte, `readCase` is the route
that byte names. -/
theorem readCase_apply {w : Shm} (ph : Mem)
    (htail : w.pMeta.tailIndex.toNat < w.pMeta.qTotalSize.toNat) {cs : UInt8}
    (hcs : w.pQueue w.pMeta.tailIndex.toNat = cs) :
    readCase ph w =
      (if cs = 1 ∨ cs = 2 then readRoute2 cs (copy ph 0 w.pQueue w.pMeta.tailIndex.toNat 1)
        else if cs = 3 then readRoute3 (copy ph 0 w.pQueue w.pMeta.tailIndex.toNat 1)
        else if cs = 4 then readRoute4 (copy ph 0 w.pQueue w.pMeta.tailIndex.toNat 1)
        else if cs = 5 then readRoute5 (copy ph 0 w.pQueue w.pMeta.tailIndex.toNat 1)
        else throw ⟨.valueError, "read QueueWriteCase error ! cs=%d", [cs.toUInt64.toNat]⟩)
      { w with accesses := w.accesses ++ [.copy ⟨.header, 24, 0⟩
        ⟨.region, w.pMeta.qTotalSize.toNat, w.pMeta.tailIndex.toNat⟩ 1] } := by
  have htotal := w.pMeta.qTotalSize.toNat_lt
  have h1 : (w.pMeta.tailIndex + 1).toNat = w.pMeta.tailIndex.toNat + 1 :=
    toNat_add_of_lt (by simp; omega)
  have hguard : ¬ w.pMeta.qTotalSize < w.pMeta.tailIndex + 1 := by
    rw [UInt64.lt_iff_toNat_lt, h1]; omega
  simp only [readCase, getMeta, bind_apply, get_apply, pure_apply, throwIf_apply, hguard,
    if_false, copyToHeader, modify_apply, UInt64.toNat_zero, UInt64.toNat_one,
    writeCase_headerOf, hcs]
  rfl

/-- An element that reaches or crosses the end of the region is read by the
route its stored case names. -/
theorem readCase_spec {w : Shm} {d : List UInt8} {h : ElementHeader} (ph : Mem)
    (hb : Bounds w.pMeta) (hfit : weight d ≤ w.pMeta.qTotalSize.toNat) (hd : 0 < d.length)
    (hlen : h.bodyLen.toNat = d.length)
    (hcase : h.writeCase =
      (caseAt w.pMeta.qTotalSize.toNat w.pMeta.tailIndex.toNat d.length).toByte)
    (hload : load w.pMeta.qTotalSize.toNat w.pQueue w.pMeta.tailIndex.toNat (weight d) =
      h.toBytes ++ d)
    (hend : w.pMeta.tailIndex.toNat + weight d ≤
      w.pMeta.headIndex.toNat + w.pMeta.qTotalSize.toNat) :
    ∃ size w', readCase ph w = .ok size w' ∧ ReadsElement w d size w' := by
  have hw : weight d = 24 + d.length := rfl
  obtain ⟨htot, hhead, htail⟩ := hb
  let a : Access :=
    .copy ⟨.header, 24, 0⟩ ⟨.region, w.pMeta.qTotalSize.toNat, w.pMeta.tailIndex.toNat⟩ 1
  have ha : a.Safe := by simp [a]; omega
  let ph' := copy ph 0 w.pQueue w.pMeta.tailIndex.toNat 1
  -- after the guard and the one-byte copy, the routes run from `w₀`
  let w₀ : Shm := { w with accesses := w.accesses ++ [a] }
  have hrun := readCase_apply ph htail (load_writeCase htail (by omega) hload)
  have hroute : ∃ size w', readCase ph w = .ok size w' ∧ ReadsElement w₀ d size w' := by
    rw [hrun]
    rcases caseAt_cases w.pMeta.qTotalSize.toNat w.pMeta.tailIndex.toNat d.length with
      ⟨hc, hext⟩ | ⟨hc, hext⟩ | ⟨hc, hext⟩ | ⟨hc, hext⟩ | ⟨hc, hext⟩
    · have hbyte₁ : h.writeCase = 1 := by rw [hcase, hc]; rfl
      have hext' : w.pMeta.tailIndex.toNat + weight d < w.pMeta.qTotalSize.toNat := by omega
      rw [hbyte₁, if_pos (by decide)]
      exact readRoute2_spec ph' (w := w₀) htot htail hfit hd hlen hload (.inl ⟨rfl, hext'⟩)
    · have hbyte₂ : h.writeCase = 2 := by rw [hcase, hc]; rfl
      have hext' : w.pMeta.tailIndex.toNat + weight d = w.pMeta.qTotalSize.toNat := by omega
      rw [hbyte₂, if_pos (by decide)]
      exact readRoute2_spec ph' (w := w₀) htot htail hfit hd hlen hload (.inr ⟨by decide, hext'⟩)
    · have hbyte₃ : h.writeCase = 3 := by rw [hcase, hc]; rfl
      rw [hbyte₃, if_neg (by decide), if_pos rfl]
      exact readRoute3_spec ph' (w := w₀) htot htail hfit hd hlen hload hext hend
    · have hbyte₄ : h.writeCase = 4 := by rw [hcase, hc]; rfl
      have hext' : w.pMeta.qTotalSize.toNat < w.pMeta.tailIndex.toNat + weight d := by omega
      rw [hbyte₄, if_neg (by decide), if_neg (by decide), if_pos rfl]
      exact readRoute4_spec ph' (w := w₀) htot htail hfit hd hlen hload hext.1 hext'
    · have hbyte₅ : h.writeCase = 5 := by rw [hcase, hc]; rfl
      rw [hbyte₅, if_neg (by decide), if_neg (by decide), if_neg (by decide), if_pos rfl]
      exact readRoute5_spec ph' (w := w₀) htot htail hfit hd hlen hload hext
  obtain ⟨size, w', hok, hreads⟩ := hroute
  exact ⟨size, w', hok, hreads.of_access ha⟩

/-! ## read -/

/-- The metadata after `finishRead`. -/
def finishedRead (m : QMeta) (size : UInt64) (env : Environment) : QMeta :=
  { m with
    qLeftSize := m.qLeftSize + (headerSize + size)
    elementCount := m.elementCount - 1
    serialNO := m.serialNO + 1
    operationTime := env.operationTime
    operationPid := env.pid
    extention := [0, 0, 0, 0] }

/-- What `Read` does behind its routes, with the head inside the region. -/
theorem finishRead_apply {w : Shm}
    (hhead : w.pMeta.headIndex.toNat < w.pMeta.qTotalSize.toNat) (size : UInt64)
    (env : Environment) :
    finishRead size env w = .ok () { w with
      pMeta := finishedRead w.pMeta size env
      accesses := w.accesses ++ [.sub w.pMeta.elementCount 1] } :=
  checkHeadIndex_apply (w := { w with
    pMeta := finishedRead w.pMeta size env
    accesses := w.accesses ++ [.sub w.pMeta.elementCount 1] }) hhead

/-- `read` from `w` returned in `w'`: the output string is `d`, the element
is gone, and the counters follow. -/
structure ReadOut (w : Shm) (d : List UInt8) (env : Environment) (w' : Shm) : Prop where
  data : w'.data.toList = d
  tailIndex : w'.pMeta.tailIndex.toNat =
    (w.pMeta.tailIndex.toNat + weight d) % w.pMeta.qTotalSize.toNat
  pMeta : ∃ size : UInt64, size.toNat = d.length ∧ w'.pMeta =
    finishedRead { w.pMeta with tailIndex := w'.pMeta.tailIndex } size env
  pQueue : w'.pQueue = w.pQueue
  accesses : AllSafe w.accesses → AllSafe w'.accesses

/-- `read` returns the front of a queue that is not empty. -/
theorem read_spec {w : Shm} {d : List UInt8} {ds : List (List UInt8)} (env : Environment)
    (hold : Holds w (d :: ds)) :
    ∃ w', read env w = .ok () w' ∧ ReadOut w d env w' := by
  obtain ⟨hne, ⟨h, hlen, hcase, hload⟩, _⟩ := hold.layout
  have hd : 0 < d.length := List.length_pos_iff.mpr hne
  have hw : weight d = 24 + d.length := rfl
  have hb : Bounds w.pMeta := ⟨hold.total_lt, hold.head_lt, hold.tail_lt⟩
  have hleft := hold.left_add
  have hcount := hold.count_eq
  have hheads := hold.head_cases
  have hhead := hold.head_lt
  have htail := hold.tail_lt
  rw [totalWeight_cons] at hleft hheads
  rw [Nat.mod_eq_of_lt htail] at hcase
  have hfit : weight d ≤ w.pMeta.qTotalSize.toNat := by omega
  have hcount0 : w.pMeta.elementCount ≠ 0 := by
    intro hc; rw [hc] at hcount; simp at hcount
  -- the scene tells whether the used bytes cross the end of the region
  have hroutes : ∃ scene size w₁, queueScene w = .ok scene w ∧
      readRoutes scene env.stack w = .ok size w₁ ∧ ReadsElement w d size w₁ := by
    rw [queueScene_apply]
    by_cases hgt : w.pMeta.tailIndex.toNat < w.pMeta.headIndex.toNat
    · obtain ⟨size, w₁, hrun, hreads⟩ := readRoute1_spec env.stack hold.total_lt htail
        hfit hd hlen hload (by omega) hhead
      exact ⟨.scene1, size, w₁, by rw [if_pos hgt], hrun, hreads⟩
    · obtain ⟨size, w₁, hrun, hreads⟩ := readCase_spec env.stack hb hfit hd hlen hcase hload
        (by omega)
      by_cases hlt : w.pMeta.headIndex.toNat < w.pMeta.tailIndex.toNat
      · exact ⟨.scene2, size, w₁, by rw [if_neg hgt, if_pos hlt], hrun, hreads⟩
      · exact ⟨.scene4, size, w₁, by rw [if_neg hgt, if_neg hlt, if_neg hcount0], hrun, hreads⟩
  obtain ⟨scene, size, w₁, hscene, hrun, hreads⟩ := hroutes
  have hmeta := hreads.pMeta
  have hhead₁ : w₁.pMeta.headIndex.toNat < w₁.pMeta.qTotalSize.toNat := by
    rw [hmeta]; exact hhead
  have hread : read env w = finishRead size env w₁ := by
    simp only [read]
    rw [bind_of_ok hscene, bind_of_ok (checkHeadIndex_apply hb.head_lt), bind_of_ok hrun]
  refine ⟨_, hread.trans (finishRead_apply hhead₁ size env), hreads.data, hreads.tailIndex,
    ⟨size, hreads.size, congrArg (finishedRead · size env) hmeta⟩, hreads.pQueue, ?_⟩
  intro hsafe
  have hcount₁ : w₁.pMeta.elementCount = w.pMeta.elementCount := by rw [hmeta]
  simp only [allSafe_append, allSafe_cons, Access.safe_sub, allSafe_nil, and_true]
  refine ⟨hreads.accesses hsafe, ?_⟩
  rw [hcount₁, hcount]
  simp

end ElementOp

end CppFastDevelop
