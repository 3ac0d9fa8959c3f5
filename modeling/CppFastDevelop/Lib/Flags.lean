/-!
# CppFastDevelop.Lib.Flags

Words used as sets of flags.  Flag `k` of a word is its bit `k`; a mask is a
union of single flags.  The lemmas turn the tests and updates a program
writes with `&`, `|` and `~` into statements about single flags.

This module depends only on the Lean 4 core library.
-/

namespace Flags

variable {w : Nat}

/-- Testing one flag with `&`. -/
theorem and_twoPow_ne_zero {m : BitVec w} {k : Nat} (hk : k < w) :
    m &&& BitVec.twoPow w k ≠ 0 ↔ m.getLsbD k = true := by
  rw [BitVec.and_twoPow]
  cases h : m.getLsbD k with
  | false => simp
  | true =>
      simp only [if_true, iff_true]
      intro hzero
      have hbit := congrArg (fun x : BitVec w => x.getLsbD k) hzero
      simp [hk] at hbit

/-- A union has the flags of both. -/
theorem or_and_twoPow_ne_zero (m n : BitVec w) {k : Nat} (hk : k < w) :
    (m ||| n) &&& BitVec.twoPow w k ≠ 0 ↔
      m &&& BitVec.twoPow w k ≠ 0 ∨ n &&& BitVec.twoPow w k ≠ 0 := by
  simp only [and_twoPow_ne_zero hk, BitVec.getLsbD_or, Bool.or_eq_true]

/-- A difference has the flags of the one that the other does not have. -/
theorem and_not_and_twoPow_ne_zero (m n : BitVec w) {k : Nat} (hk : k < w) :
    (m &&& ~~~n) &&& BitVec.twoPow w k ≠ 0 ↔
      m &&& BitVec.twoPow w k ≠ 0 ∧ ¬n &&& BitVec.twoPow w k ≠ 0 := by
  simp only [and_twoPow_ne_zero hk, BitVec.getLsbD_and, BitVec.getLsbD_not, hk, decide_true,
    Bool.true_and, Bool.and_eq_true, Bool.not_eq_true, Bool.not_eq_eq_eq_not, Bool.not_true]

/-- Setting a flag that is set changes nothing. -/
theorem or_twoPow_of_getLsbD {m : BitVec w} {k : Nat} (h : m.getLsbD k = true) :
    m ||| BitVec.twoPow w k = m := by
  apply BitVec.eq_of_getLsbD_eq
  intro i hi
  rw [BitVec.getLsbD_or, BitVec.getLsbD_twoPow]
  by_cases hki : k = i
  · subst hki; simp [h]
  · simp [hki]

/-- Clearing a flag that is clear changes nothing. -/
theorem and_not_twoPow_of_getLsbD {m : BitVec w} {k : Nat} (h : m.getLsbD k = false) :
    m &&& ~~~BitVec.twoPow w k = m := by
  apply BitVec.eq_of_getLsbD_eq
  intro i hi
  rw [BitVec.getLsbD_and, BitVec.getLsbD_not, BitVec.getLsbD_twoPow]
  by_cases hki : k = i
  · subst hki; simp [h]
  · simp [hki, hi]

/-- Setting a flag sets it and leaves the others. -/
theorem getLsbD_or_twoPow (m : BitVec w) {k i : Nat} (hk : k < w) :
    (m ||| BitVec.twoPow w k).getLsbD i = (m.getLsbD i || decide (k = i)) := by
  rw [BitVec.getLsbD_or, BitVec.getLsbD_twoPow]
  simp [hk]

/-- Clearing a flag clears it and leaves the others. -/
theorem getLsbD_and_not_twoPow (m : BitVec w) {k i : Nat} :
    (m &&& ~~~BitVec.twoPow w k).getLsbD i = (m.getLsbD i && decide (k ≠ i)) := by
  rw [BitVec.getLsbD_and, BitVec.getLsbD_not, BitVec.getLsbD_twoPow]
  by_cases hi : i < w
  · by_cases hki : k = i
    · subst hki; simp [hi]
    · simp [hi, hki]
  · simp [hi, BitVec.getLsbD_of_ge m i (by omega)]

end Flags
