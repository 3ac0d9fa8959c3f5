import CppFastDevelop.Lib.CString

/-!
# CppFastDevelop.Lib.Patch

What a sequence of writes makes of a block of memory, whatever was in it.  A
`Patch` says for every index which value it puts there, if any; patches are
laid over each other, and a write that stays in its block is one
(`store_eq_patch`).  Of two blocks under the same patch a part is the same if
the patch covers it, and where it does not, both show through.
-/

/-- The values put into a block, by index. -/
def Patch (α : Type) : Type := Nat → Option α

namespace Patch

variable {α : Type}

/-- Values written one after the other from an offset on. -/
def place (off : Nat) (ys : List α) : Patch α := fun k => if off ≤ k then ys[k - off]? else none

/-- One patch laid over another. -/
def above (p q : Patch α) : Patch α := fun k => (p k).or (q k)

/-- The block under a patch. -/
def apply (p : Patch α) (xs : List α) : List α := xs.mapIdx fun k x => (p k).getD x

/-- The patch puts a value at every index below `n`. -/
def Covers (p : Patch α) (n : Nat) : Prop := ∀ k < n, (p k).isSome = true

@[simp] theorem length_apply (p : Patch α) (xs : List α) : (p.apply xs).length = xs.length := by
  simp [apply]

@[simp] theorem getElem?_apply (p : Patch α) (xs : List α) (k : Nat) :
    (p.apply xs)[k]? = xs[k]?.map fun x => (p k).getD x := by
  simp [apply]

theorem apply_apply (p q : Patch α) (xs : List α) :
    p.apply (q.apply xs) = (p.above q).apply xs := by
  apply List.ext_getElem?
  intro k
  cases hp : p k <;> cases hx : xs[k]? <;> simp [above, hp, hx]

@[simp] theorem isSome_above (p q : Patch α) (k : Nat) :
    (p.above q k).isSome = ((p k).isSome || (q k).isSome) := by
  simp [above]

theorem isSome_place {off : Nat} {ys : List α} {k : Nat} :
    (place off ys k).isSome = true ↔ off ≤ k ∧ k < off + ys.length := by
  unfold place
  split
  · next hle => simp [hle]; omega
  · next hlt => simp; omega

theorem place_eq_none {off : Nat} {ys : List α} {k : Nat} :
    place off ys k = none ↔ k < off ∨ off + ys.length ≤ k := by
  rw [← Option.not_isSome_iff_eq_none, isSome_place]
  omega

/-- A write that stays in the block. -/
theorem apply_place {off : Nat} {xs ys : List α} (h : off + ys.length ≤ xs.length) :
    (place off ys).apply xs = xs.take off ++ ys ++ xs.drop (off + ys.length) := by
  apply List.ext_getElem?
  intro k
  rw [getElem?_apply, place, List.append_assoc]
  grind

/-- A write behind the first part of another covers the rest of it. -/
theorem place_above_place (off : Nat) (xs : List α) {ys zs : List α}
    (h : zs.length ≤ ys.length) :
    (place (off + xs.length) ys).above (place off (xs ++ zs)) = place off (xs ++ ys) := by
  funext k
  simp only [above, place]
  grind

/-- What is below a patch shows where the patch puts nothing. -/
theorem getElem?_apply_of_eq_none {p : Patch α} {xs : List α} {k : Nat} (h : p k = none) :
    (p.apply xs)[k]? = xs[k]? := by
  simp [h]

/-- A part that is covered is the same, whatever was below. -/
theorem take_apply_of_covers {p : Patch α} {n : Nat} (h : p.Covers n) {xs ys : List α}
    (hlen : xs.length = ys.length) : (p.apply xs).take n = (p.apply ys).take n := by
  apply List.ext_getElem?
  intro k
  by_cases hk : k < n
  · obtain ⟨x, hx⟩ := Option.isSome_iff_exists.mp (h k hk)
    rw [List.getElem?_take_of_lt hk, List.getElem?_take_of_lt hk, getElem?_apply, getElem?_apply,
      hx]
    grind
  · grind

/-- What a write covers need not be known below it. -/
theorem above_congr {p q q' : Patch α} (h : ∀ k, p k = none → q k = q' k) :
    p.above q = p.above q' := by
  funext k
  cases hp : p k with
  | none => simp [above, hp, h k hp]
  | some x => simp [above, hp]

end Patch

namespace CString

/-- A defined write is a patch. -/
theorem store_eq_patch {block bytes : List UInt8} {off : Nat}
    (h : off + bytes.length ≤ block.length) :
    store block off bytes = some ((Patch.place off bytes).apply block) := by
  have hin : (0 : Int) ≤ off ∧ (off : Int).toNat + bytes.length ≤ block.length :=
    ⟨by omega, by omega⟩
  rw [store, if_pos hin, Patch.apply_place h]
  rfl

/-- What a write leaves behind its first part is covered by a write that
reaches as far. -/
theorem store_append_bind {block bytes more ys : List UInt8} {off : Int} {k : Nat}
    (hk : k ≤ bytes.length) (hend : bytes.length + more.length ≤ k + ys.length) :
    ((store block off (bytes ++ more)).bind fun block' => store block' (off + k) ys) =
      (store block off bytes).bind fun block' => store block' (off + k) ys := by
  by_cases hin : 0 ≤ off ∧ off + k + ys.length ≤ block.length
  · obtain ⟨n, rfl⟩ := Int.eq_ofNat_of_zero_le hin.1
    have hroom : n + k + ys.length ≤ block.length := by omega
    have hlong : n + (bytes ++ more).length ≤ block.length := by simp; omega
    have hys (p : Patch UInt8) : store (p.apply block) ((n : Int) + k) ys =
        some (((Patch.place (n + k) ys).above p).apply block) := by
      rw [← Patch.apply_apply, ← store_eq_patch (by simpa using hroom)]
      rfl
    rw [store_eq_patch hlong, store_eq_patch (by omega), Option.bind_some, Option.bind_some, hys,
      hys]
    congr 2
    apply Patch.above_congr
    intro i hi
    rw [Patch.place_eq_none] at hi
    simp only [Patch.place]
    grind
  · have hnone (bytes : List UInt8) :
        ((store block off bytes).bind fun block' => store block' (off + k) ys) = none := by
      refine Option.bind_eq_none_iff.mpr fun block' hstore => ?_
      obtain ⟨hpos, -, hlen⟩ := store_eq_some hstore
      rw [store, if_neg (by omega)]
    rw [hnone, hnone]

end CString
