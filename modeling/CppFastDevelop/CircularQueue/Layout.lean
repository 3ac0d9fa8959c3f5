import CppFastDevelop.CircularQueue.Operation

/-!
# CppFastDevelop.CircularQueue.Layout

What the shared memory means.  `Holds w ds` says that the memory `w` holds
the queue of payloads `ds`: the indices and counters are those of a ring of
capacity `qTotalSize` in which a payload of `n` bytes weighs `24 + n`, and
the region stores, from `tailIndex` on and modulo the capacity, one header
and one body after the other.  A header records the length of its body and
the case the writer was in, which is a function of the element's position
alone (`caseAt`); everything else in it is arbitrary.

This is the global invariant the five write routes establish and the five
read routes rely on.
-/

namespace CppFastDevelop

open RingBuffer Words ElementOp

/-! ## weights and cases -/

/-- The bytes a payload takes in the region. -/
def weight (d : List UInt8) : Nat := 24 + d.length

/-- The bytes a queue takes in the region. -/
def totalWeight (ds : List (List UInt8)) : Nat := (ds.map weight).sum

@[simp] theorem totalWeight_nil : totalWeight [] = 0 := rfl

@[simp] theorem totalWeight_cons (d : List UInt8) (ds : List (List UInt8)) :
    totalWeight (d :: ds) = weight d + totalWeight ds := rfl

@[simp] theorem totalWeight_append (ds es : List (List UInt8)) :
    totalWeight (ds ++ es) = totalWeight ds + totalWeight es := by
  simp [totalWeight]

/-- Every element weighs more than nothing, so counters never run ahead of
weights. -/
theorem length_le_totalWeight (ds : List (List UInt8)) : ds.length ≤ totalWeight ds := by
  induction ds with
  | nil => simp
  | cons d ds ih => simp only [List.length_cons, totalWeight_cons, weight]; omega

/-- The write case of a body of `n` bytes at position `head` of a region of
`T` bytes. -/
def caseAt (T head n : Nat) : EWriteCase :=
  if T > head + 24 + n then .case1
  else if T = head + 24 + n then .case2
  else if T < head + 24 then .case3
  else if T > head + 24 then .case4
  else .case5

/-- What each case says about the element's extent. -/
theorem caseAt_cases (T head n : Nat) :
    (caseAt T head n = .case1 ∧ head + 24 + n < T) ∨
    (caseAt T head n = .case2 ∧ head + 24 + n = T) ∨
    (caseAt T head n = .case3 ∧ T < head + 24) ∨
    (caseAt T head n = .case4 ∧ head + 24 < T ∧ T < head + 24 + n) ∨
    (caseAt T head n = .case5 ∧ T = head + 24) := by
  unfold caseAt
  split
  · simp; omega
  · split
    · simp; omega
    · split
      · simp; omega
      · split
        · simp; omega
        · simp; omega

/-! ## elements in the region -/

/-- The element with payload `d` is stored at the absolute position `pos`. -/
def ElementAt (T : Nat) (q : Mem) (pos : Nat) (d : List UInt8) : Prop :=
  ∃ h : ElementHeader, h.bodyLen.toNat = d.length ∧
    h.writeCase = (caseAt T (pos % T) d.length).toByte ∧
    load T q pos (weight d) = h.toBytes ++ d

/-- The payloads `ds` are stored one after the other from `pos` on. -/
def Layout (T : Nat) (q : Mem) : Nat → List (List UInt8) → Prop
  | _, [] => True
  | pos, d :: ds => d ≠ [] ∧ ElementAt T q pos d ∧ Layout T q (pos + weight d) ds

/-- The place of an element counts modulo the size of the region. -/
theorem elementAt_congr {T pos pos' : Nat} (q : Mem) (d : List UInt8)
    (h : pos % T = pos' % T) : ElementAt T q pos d ↔ ElementAt T q pos' d := by
  simp only [ElementAt, h, load_congr q (weight d) h]

/-- Positions of a layout matter modulo the capacity only. -/
theorem layout_congr {T pos pos' : Nat} (q : Mem) (ds : List (List UInt8))
    (h : pos % T = pos' % T) : Layout T q pos ds ↔ Layout T q pos' ds := by
  induction ds generalizing pos pos' with
  | nil => rfl
  | cons d ds ih =>
      have hnext : (pos + weight d) % T = (pos' + weight d) % T := by
        rw [Nat.add_mod, h, ← Nat.add_mod]
      simp only [Layout, elementAt_congr q d h, ih hnext]

/-- A layout grows at its end. -/
theorem layout_append {T pos : Nat} (q : Mem) (ds : List (List UInt8)) (d : List UInt8) :
    Layout T q pos (ds ++ [d]) ↔
      Layout T q pos ds ∧ d ≠ [] ∧ ElementAt T q (pos + totalWeight ds) d := by
  induction ds generalizing pos with
  | nil => simp [Layout]
  | cons e ds ih =>
      simp only [List.cons_append, Layout, ih, totalWeight_cons, Nat.add_assoc, and_assoc]

/-- A store behind the last element, inside one revolution, leaves the
layout alone. -/
theorem layout_store {T pos p : Nat} (q : Mem) (ds : List (List UInt8)) (xs : List UInt8)
    (hlo : pos + totalWeight ds ≤ p) (hhi : p + xs.length ≤ pos + T)
    (h : Layout T q pos ds) : Layout T (store T q p xs) pos ds := by
  induction ds generalizing pos with
  | nil => trivial
  | cons d ds ih =>
      obtain ⟨hd, ⟨hdr, hlen, hcase, hload⟩, hrest⟩ := h
      simp only [totalWeight_cons] at hlo
      refine ⟨hd, ⟨hdr, hlen, hcase, ?_⟩, ih (by omega) (by omega) hrest⟩
      rw [load_store_of_disjoint q xs (by omega) hhi, hload]

/-- Storing a header and a body makes an element. -/
theorem elementAt_store {T pos : Nat} (q : Mem) (d : List UInt8) (h : ElementHeader)
    (hlen : h.bodyLen.toNat = d.length)
    (hcase : h.writeCase = (caseAt T (pos % T) d.length).toByte) (hfit : weight d ≤ T) :
    ElementAt T (store T q pos (h.toBytes ++ d)) pos d := by
  refine ⟨h, hlen, hcase, ?_⟩
  have hw : weight d = (h.toBytes ++ d).length := by simp [weight]
  rw [hw, load_store_self q pos _ (hw ▸ hfit)]

/-! ## the memory of a queue -/

/-- The memory `w` holds the queue `ds`. -/
structure Holds (w : Shm) (ds : List (List UInt8)) : Prop where
  total_gt : 24 < w.pMeta.qTotalSize.toNat
  total_lt : w.pMeta.qTotalSize.toNat < 2 ^ 63
  head_lt : w.pMeta.headIndex.toNat < w.pMeta.qTotalSize.toNat
  tail_lt : w.pMeta.tailIndex.toNat < w.pMeta.qTotalSize.toNat
  left_add : w.pMeta.qLeftSize.toNat + totalWeight ds = w.pMeta.qTotalSize.toNat
  count_eq : w.pMeta.elementCount.toNat = ds.length
  head_eq : w.pMeta.headIndex.toNat =
    (w.pMeta.tailIndex.toNat + totalWeight ds) % w.pMeta.qTotalSize.toNat
  layout : Layout w.pMeta.qTotalSize.toNat w.pQueue w.pMeta.tailIndex.toNat ds

/-- Between the indices: the head follows the tail by the weight, once
around at most. -/
theorem Holds.head_cases {w : Shm} {ds : List (List UInt8)} (h : Holds w ds) :
    (w.pMeta.tailIndex.toNat + totalWeight ds < w.pMeta.qTotalSize.toNat ∧
      w.pMeta.headIndex.toNat = w.pMeta.tailIndex.toNat + totalWeight ds) ∨
    (w.pMeta.qTotalSize.toNat ≤ w.pMeta.tailIndex.toNat + totalWeight ds ∧
      w.pMeta.headIndex.toNat + w.pMeta.qTotalSize.toNat =
        w.pMeta.tailIndex.toNat + totalWeight ds) := by
  have htail := h.tail_lt
  have hleft := h.left_add
  have hhead := h.head_eq
  by_cases hlt : w.pMeta.tailIndex.toNat + totalWeight ds < w.pMeta.qTotalSize.toNat
  · left
    rw [Nat.mod_eq_of_lt hlt] at hhead
    exact ⟨hlt, hhead⟩
  · right
    rw [Nat.mod_eq_sub_mod (by omega), Nat.mod_eq_of_lt (by omega)] at hhead
    omega

end CppFastDevelop
