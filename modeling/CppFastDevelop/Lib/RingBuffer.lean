import Mathlib.Logic.Function.Basic

/-!
# CppFastDevelop.Lib.RingBuffer

Cells addressed modulo a capacity.  A memory is a function from positions
to cells; `store` and `load` are the reference operations of a ring of
capacity `T`: they visit the positions `pos % T`, `(pos + 1) % T`, …  one
cell at a time.  Positions are *absolute*: they are never reduced, so a run
of cells is an ordinary interval and two runs are disjoint when their
intervals lie inside one window of length `T`.

`copy` and `slice` are the contiguous operations a program really performs.
The bridge between the two worlds is `store_slice_eq_copy` and
`load_eq_slice`: a run that does not cross the end of the ring is one
contiguous copy; `store_append` and `load_add` split a run that does.
-/

namespace RingBuffer

variable {β : Type}

/-! ## contiguous memory -/

/-- `len` cells of `src` from `sOff` on, copied over `dst` at `dOff`. -/
def copy (dst : Nat → β) (dOff : Nat) (src : Nat → β) (sOff len : Nat) : Nat → β := fun j =>
  if dOff ≤ j ∧ j < dOff + len then src (sOff + (j - dOff)) else dst j

/-- The `len` cells from `off` on. -/
def slice (m : Nat → β) (off len : Nat) : List β := (List.range len).map fun i => m (off + i)

@[simp] theorem length_slice (m : Nat → β) (off len : Nat) : (slice m off len).length = len := by
  simp [slice]

@[simp] theorem slice_zero (m : Nat → β) (off : Nat) : slice m off 0 = [] := rfl

theorem slice_succ (m : Nat → β) (off len : Nat) :
    slice m off (len + 1) = m off :: slice m (off + 1) len := by
  simp only [slice, List.range_succ_eq_map, List.map_cons, List.map_map, Nat.add_zero]
  congr 1
  apply List.map_congr_left
  intro i _
  simp only [Function.comp_apply]
  congr 1; omega

/-- Adjacent slices concatenate. -/
theorem slice_add (m : Nat → β) (off a b : Nat) :
    slice m off (a + b) = slice m off a ++ slice m (off + a) b := by
  induction a generalizing off with
  | zero => simp
  | succ a ih =>
      have h : a + 1 + b = a + b + 1 := by omega
      have h' : off + (a + 1) = off + 1 + a := by omega
      rw [h, slice_succ, slice_succ, ih, h', List.cons_append]

/-- Two memories agreeing on an interval have the same slice there. -/
theorem slice_congr {m m' : Nat → β} {off off' len : Nat}
    (h : ∀ i < len, m (off + i) = m' (off' + i)) : slice m off len = slice m' off' len := by
  apply List.map_congr_left
  intro i hi
  exact h i (List.mem_range.mp hi)

/-- A slice of the copied interval is the slice of its source. -/
theorem slice_copy_inside (dst : Nat → β) (dOff : Nat) (src : Nat → β) (sOff len : Nat)
    {off n : Nat} (hlo : dOff ≤ off) (hhi : off + n ≤ dOff + len) :
    slice (copy dst dOff src sOff len) off n = slice src (sOff + (off - dOff)) n := by
  apply slice_congr
  intro i hi
  rw [copy, if_pos (by omega)]
  congr 1; omega

/-- A slice disjoint from the copied interval is not affected. -/
theorem slice_copy_outside (dst : Nat → β) (dOff : Nat) (src : Nat → β) (sOff len : Nat)
    {off n : Nat} (h : off + n ≤ dOff ∨ dOff + len ≤ off) :
    slice (copy dst dOff src sOff len) off n = slice dst off n := by
  apply slice_congr
  intro i hi
  rw [copy, if_neg (by omega)]

/-! ## the ring operations -/

/-- Store a list one cell at a time from the absolute position `pos` on. -/
def store (T : Nat) (q : Nat → β) (pos : Nat) : List β → (Nat → β)
  | [] => q
  | x :: xs => store T (Function.update q (pos % T) x) (pos + 1) xs

/-- Load `n` cells one at a time from the absolute position `pos` on. -/
def load (T : Nat) (q : Nat → β) (pos : Nat) : Nat → List β
  | 0 => []
  | n + 1 => q (pos % T) :: load T q (pos + 1) n

@[simp] theorem length_load (T : Nat) (q : Nat → β) (pos n : Nat) :
    (load T q pos n).length = n := by
  induction n generalizing pos with
  | zero => rfl
  | succ n ih => simp [load, ih]

/-- Storing a concatenation is storing its parts one after the other. -/
theorem store_append (T : Nat) (q : Nat → β) (pos : Nat) (xs ys : List β) :
    store T q pos (xs ++ ys) = store T (store T q pos xs) (pos + xs.length) ys := by
  induction xs generalizing q pos with
  | nil => rfl
  | cons x xs ih =>
      have h : pos + (xs.length + 1) = pos + 1 + xs.length := by omega
      rw [List.cons_append, store, ih, store, List.length_cons, h]

/-- Loading a longer run is loading its parts one after the other. -/
theorem load_add (T : Nat) (q : Nat → β) (pos a b : Nat) :
    load T q pos (a + b) = load T q pos a ++ load T q (pos + a) b := by
  induction a generalizing pos with
  | zero => simp [load]
  | succ a ih =>
      have h : a + 1 + b = a + b + 1 := by omega
      have h' : pos + (a + 1) = pos + 1 + a := by omega
      rw [h, load, load, ih, h', List.cons_append]

/-- Positions matter modulo the capacity only. -/
theorem store_congr {T : Nat} (q : Nat → β) {pos pos' : Nat} (xs : List β)
    (h : pos % T = pos' % T) : store T q pos xs = store T q pos' xs := by
  induction xs generalizing q pos pos' with
  | nil => rfl
  | cons x xs ih =>
      have hsucc : (pos + 1) % T = (pos' + 1) % T := by rw [Nat.add_mod, h, ← Nat.add_mod]
      rw [store, store, h, ih _ hsucc]

/-- Positions matter modulo the capacity only. -/
theorem load_congr {T : Nat} (q : Nat → β) {pos pos' : Nat} (n : Nat)
    (h : pos % T = pos' % T) : load T q pos n = load T q pos' n := by
  induction n generalizing pos pos' with
  | zero => rfl
  | succ n ih =>
      have hsucc : (pos + 1) % T = (pos' + 1) % T := by rw [Nat.add_mod, h, ← Nat.add_mod]
      rw [load, load, h, ih hsucc]

/-! ## what a store leaves alone, and what a load sees -/

/-- A cell that no stored position denotes keeps its value. -/
theorem store_apply_of_ne {T : Nat} (q : Nat → β) {pos k : Nat} (xs : List β)
    (h : ∀ i < xs.length, (pos + i) % T ≠ k) : store T q pos xs k = q k := by
  induction xs generalizing q pos with
  | nil => rfl
  | cons x xs ih =>
      have h0 : pos % T ≠ k := by simpa using h 0 (by simp)
      rw [store, ih, Function.update_of_ne (Ne.symm h0)]
      intro i hi
      have := h (i + 1) (by simpa using hi)
      rwa [show pos + 1 + i = pos + (i + 1) by omega]

/-- Absolute positions less than a capacity apart denote different cells. -/
theorem mod_ne_mod {T a b : Nat} (hab : a < b) (hb : b < a + T) : a % T ≠ b % T := by
  intro h
  have hd : T ∣ b - a := Nat.dvd_of_mod_eq_zero (Nat.sub_mod_eq_zero_of_mod_eq h.symm)
  have hle : T ≤ b - a := Nat.le_of_dvd (by omega) hd
  omega

/-- A load is not affected by a store elsewhere in the same window. -/
theorem load_store_of_disjoint {T : Nat} (q : Nat → β) {p n pos : Nat} (xs : List β)
    (hlo : p + n ≤ pos) (hhi : pos + xs.length ≤ p + T) :
    load T (store T q pos xs) p n = load T q p n := by
  induction n generalizing p with
  | zero => rfl
  | succ n ih =>
      rw [load, load, ih (by omega) (by omega), store_apply_of_ne]
      intro i hi
      exact Ne.symm (mod_ne_mod (by omega) (by omega))

/-- A load over exactly the stored run reads back what was stored. -/
theorem load_store_self {T : Nat} (q : Nat → β) (pos : Nat) (xs : List β)
    (h : xs.length ≤ T) : load T (store T q pos xs) pos xs.length = xs := by
  induction xs generalizing q pos with
  | nil => rfl
  | cons x xs ih =>
      simp only [List.length_cons] at h
      rw [store, List.length_cons, load, ih _ _ (by omega), store_apply_of_ne,
        Function.update_self]
      intro i hi
      exact Ne.symm (mod_ne_mod (by omega) (by omega))

/-! ## runs that do not cross the end of the ring -/

/-- A store of a slice that stays below the end is one contiguous copy. -/
theorem store_slice_eq_copy {T : Nat} (q : Nat → β) {pos off : Nat} (src : Nat → β)
    (sOff len : Nat) (hpos : pos % T = off) (hlen : off + len ≤ T) :
    store T q pos (slice src sOff len) = copy q off src sOff len := by
  induction len generalizing q pos off sOff with
  | zero =>
      funext j
      rw [copy, if_neg (by omega)]; rfl
  | succ len ih =>
      rw [slice_succ, store]
      by_cases hlast : len = 0
      · subst hlast
        funext j
        rw [slice_zero, store, hpos, copy]
        by_cases hj : j = off
        · rw [hj, Function.update_self, if_pos (by omega), Nat.sub_self, Nat.add_zero]
        · rw [Function.update_of_ne hj, if_neg (by omega)]
      · have hnext : (pos + 1) % T = off + 1 := by
          rw [Nat.add_mod, hpos, Nat.mod_eq_of_lt (show 1 < T by omega),
            Nat.mod_eq_of_lt (by omega)]
        rw [ih _ _ hnext (by omega), hpos]
        funext j
        simp only [copy]
        by_cases hj : j = off
        · rw [if_neg (by omega), hj, Function.update_self, if_pos (by omega), Nat.sub_self,
            Nat.add_zero]
        · rw [Function.update_of_ne hj]
          by_cases hin : off + 1 ≤ j ∧ j < off + 1 + len
          · rw [if_pos hin, if_pos (by omega)]
            congr 1; omega
          · rw [if_neg hin, if_neg (by omega)]

/-- A load that stays below the end is one contiguous slice. -/
theorem load_eq_slice {T : Nat} (q : Nat → β) {pos off n : Nat}
    (hpos : pos % T = off) (hlen : off + n ≤ T) : load T q pos n = slice q off n := by
  induction n generalizing pos off with
  | zero => rfl
  | succ n ih =>
      rw [load, slice_succ, hpos]
      by_cases hlast : n = 0
      · subst hlast; rfl
      · have hnext : (pos + 1) % T = off + 1 := by
          rw [Nat.add_mod, hpos, Nat.mod_eq_of_lt (show 1 < T by omega),
            Nat.mod_eq_of_lt (by omega)]
        rw [ih hnext (by omega)]

/-- Copying such a run to the front of a buffer makes it the buffer's front. -/
theorem slice_copy_eq_load {T : Nat} (m q : Nat → β) {pos off n : Nat}
    (hpos : pos % T = off) (hlen : off + n ≤ T) :
    slice (copy m 0 q off n) 0 n = load T q pos n := by
  rw [slice_copy_inside _ _ _ _ _ (Nat.le_refl _) (Nat.le_refl _), load_eq_slice q hpos hlen]
  rfl

/-! ## runs that cross the end of the ring once -/

/-- The second part of such a run begins at the front of the ring. -/
theorem add_mod_eq_zero {T pos off n : Nat} (hpos : pos % T = off) (hend : off + n = T) :
    (pos + n) % T = 0 := by
  rw [← Nat.mod_add_mod, hpos, hend, Nat.mod_self]

/-- A store of a slice that crosses the end is two copies. -/
theorem store_slice_eq_copy_copy {T : Nat} (q : Nat → β) {pos off : Nat} (src : Nat → β)
    (sOff n₀ n₁ : Nat) (hpos : pos % T = off) (hend : off + n₀ = T) (hlen : n₁ ≤ T) :
    store T q pos (slice src sOff (n₀ + n₁)) =
      copy (copy q off src sOff n₀) 0 src (sOff + n₀) n₁ := by
  rw [slice_add, store_append, length_slice,
    store_slice_eq_copy q src sOff n₀ hpos (Nat.le_of_eq hend),
    store_slice_eq_copy _ src _ n₁ (add_mod_eq_zero hpos hend) (by omega)]

/-- Copying the two parts of such a run behind each other makes it the
buffer's front. -/
theorem slice_copy_copy_eq_load {T : Nat} (m q : Nat → β) {pos off n₀ n₁ : Nat}
    (hpos : pos % T = off) (hend : off + n₀ = T) (hlen : n₁ ≤ T) :
    slice (copy (copy m 0 q off n₀) n₀ q 0 n₁) 0 (n₀ + n₁) = load T q pos (n₀ + n₁) := by
  rw [slice_add, load_add, slice_copy_outside _ _ _ _ _ (by omega),
    slice_copy_eq_load m q hpos (Nat.le_of_eq hend),
    slice_copy_inside _ _ _ _ _ (by omega) (by omega),
    load_eq_slice q (add_mod_eq_zero hpos hend) (by omega), Nat.zero_add, Nat.zero_add,
    Nat.sub_self]

end RingBuffer
