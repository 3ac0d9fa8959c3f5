import CppFastDevelop.Lib.CString
import Mathlib.Data.List.TakeWhile

/-!
# CppFastDevelop.Lib.Decimal

Numbers as `snprintf` prints them, read back by `atoi`: with a sign, padded
with blanks or zeros, and cut off behind their first digits.
-/

namespace CString

/-! ## atoi -/

def isDigit (c : UInt8) : Bool := 48 ≤ c && c ≤ 57

def isSpace (c : UInt8) : Bool := c == 32 || (9 ≤ c && c ≤ 13)

/-- The value of the digits that a block starts with, if something ends
them. -/
def decimal (block : List UInt8) : Option Nat :=
  if block.all isDigit then none
  else some ((block.takeWhile isDigit).foldl (fun n c => 10 * n + (c.toNat - 48)) 0)

/-- `atoi`: white space, a sign, digits. -/
def atoi (block : List UInt8) : Option Int :=
  match block.dropWhile isSpace with
  | [] => none
  | c :: cs =>
      if c = '-'.toUInt8 then (decimal cs).map fun n => -(n : Int)
      else if c = '+'.toUInt8 then (decimal cs).map fun n => (n : Int)
      else (decimal (c :: cs)).map fun n => (n : Int)

theorem isDigit_iff {c : UInt8} : isDigit c = true ↔ 48 ≤ c.toNat ∧ c.toNat ≤ 57 := by
  simp [isDigit, UInt8.le_iff_toNat_le]

/-- A digit is neither white space nor a sign. -/
theorem isSpace_of_isDigit {c : UInt8} (h : isDigit c = true) :
    isSpace c = false ∧ c ≠ '-'.toUInt8 ∧ c ≠ '+'.toUInt8 := by
  obtain ⟨hlow, hhigh⟩ := isDigit_iff.mp h
  refine ⟨?_, ?_, ?_⟩
  · have hblank : c ≠ 32 := fun hc => absurd hlow (by rw [hc]; decide)
    have htab : ¬ c ≤ 13 := fun hc => by
      have hle := UInt8.le_iff_toNat_le.mp hc
      have hthirteen : (13 : UInt8).toNat = 13 := rfl
      omega
    simp [isSpace, hblank, htab]
  · exact fun hc => absurd hlow (by rw [hc]; decide)
  · exact fun hc => absurd hlow (by rw [hc]; decide)

/-- A digit as a byte. -/
theorem toNat_toUInt8_of_isDigit {c : Char} (h : c.isDigit = true) :
    c.toUInt8.toNat = c.toNat ∧ 48 ≤ c.toNat ∧ c.toNat ≤ 57 := by
  simp only [Char.isDigit, Bool.and_eq_true, decide_eq_true_eq] at h
  obtain ⟨hlow, hhigh⟩ := h
  have hlow : 48 ≤ c.val.toNat := hlow
  have hhigh : c.val.toNat ≤ 57 := hhigh
  have hbyte : c.toUInt8.toNat = c.val.toNat % 256 := UInt32.toNat_toUInt8 c.val
  exact ⟨by rw [hbyte]; show _ = c.val.toNat; omega, hlow, hhigh⟩

theorem isDigit_of_mem_unsigned {n : Nat} {c : UInt8} (h : c ∈ unsigned n) : isDigit c = true := by
  obtain ⟨d, hd, rfl⟩ := List.mem_map.mp h
  have hdigit := Nat.isDigit_of_mem_toDigits (by decide) (by decide) hd
  obtain ⟨hbyte, hlow, hhigh⟩ := toNat_toUInt8_of_isDigit hdigit
  rw [isDigit_iff, hbyte]
  exact ⟨hlow, hhigh⟩

theorem foldl_toUInt8 {cs : List Char} (h : ∀ c ∈ cs, c.isDigit = true) (k : Nat) :
    (cs.map Char.toUInt8).foldl (fun n c => 10 * n + (c.toNat - 48)) k =
      Nat.ofDigitChars 10 cs k := by
  induction cs generalizing k with
  | nil => simp
  | cons c cs ih =>
      have hc := toNat_toUInt8_of_isDigit (h c List.mem_cons_self)
      have hcs : ∀ d ∈ cs, d.isDigit = true := fun d hd => h d (List.mem_cons_of_mem c hd)
      rw [List.map_cons, List.foldl_cons, ih hcs, Nat.ofDigitChars_cons, hc.1]
      rfl

/-! ## digits -/

/-- The number that digits stand for. -/
def value (digits : List UInt8) : Nat := digits.foldl (fun n c => 10 * n + (c.toNat - 48)) 0

theorem value_zeros (k : Nat) (digits : List UInt8) :
    value (List.replicate k '0'.toUInt8 ++ digits) = value digits := by
  induction k with
  | zero => rfl
  | succ k ih =>
      rw [List.replicate_succ, List.cons_append, value, List.foldl_cons]
      exact ih

theorem value_unsigned (n : Nat) : value (unsigned n) = n := by
  have hdigits : ∀ c ∈ Nat.toDigits 10 n, c.isDigit = true :=
    fun c hc => Nat.isDigit_of_mem_toDigits (by decide) (by decide) hc
  rw [value, unsigned, foldl_toUInt8 hdigits, Nat.ofDigitChars_ten_toDigits]

theorem isDigit_of_mem_zeros {width n : Nat} {c : UInt8}
    (h : c ∈ padLeft width '0' (unsigned n)) : isDigit c = true := by
  rcases List.mem_append.mp h with hzero | hdigit
  · rw [(List.mem_replicate.mp hzero).2]
    rfl
  · exact isDigit_of_mem_unsigned hdigit

/-- Digits up to the first byte that is none. -/
theorem decimal_digits {digits : List UInt8} (hdigits : ∀ c ∈ digits, isDigit c = true) {c : UInt8}
    (hc : isDigit c = false) (rest : List UInt8) :
    decimal (digits ++ c :: rest) = some (value digits) := by
  have hend : ¬ (digits ++ c :: rest).all isDigit = true := by
    intro hall
    rw [List.all_eq_true.mp hall c (by simp)] at hc
    cases hc
  have htake : (digits ++ c :: rest).takeWhile isDigit = digits := by
    rw [List.takeWhile_append_of_pos hdigits, List.takeWhile_cons_of_neg (by rw [hc]; decide),
      List.append_nil]
  rw [decimal, if_neg hend, htake, value]

theorem atoi_digits {digits : List UInt8} (hne : digits ≠ [])
    (hdigits : ∀ c ∈ digits, isDigit c = true) {c : UInt8} (hc : isDigit c = false)
    (rest : List UInt8) : atoi (digits ++ c :: rest) = some ↑(value digits) := by
  have hdecimal := decimal_digits hdigits hc rest
  cases digits with
  | nil => exact absurd rfl hne
  | cons d ds =>
      obtain ⟨hspace, hminus, hplus⟩ := isSpace_of_isDigit (hdigits d List.mem_cons_self)
      rw [List.cons_append] at hdecimal ⊢
      rw [atoi, List.dropWhile_cons_of_neg (by rw [hspace]; decide)]
      simp only [if_neg hminus, if_neg hplus, hdecimal]
      rfl

/-! ## whole numbers -/

/-- A printed number is read back. -/
theorem atoi_unsigned (n : Nat) (rest : List UInt8) : atoi (unsigned n ++ 0 :: rest) = some ↑n := by
  rw [atoi_digits (List.ne_nil_of_length_pos (length_unsigned_pos n))
    (fun d hd => isDigit_of_mem_unsigned hd) rfl, value_unsigned]

theorem atoi_blanks (k : Nat) (s : List UInt8) :
    atoi (List.replicate k ' '.toUInt8 ++ s) = atoi s := by
  have hblanks : (List.replicate k ' '.toUInt8 ++ s).dropWhile isSpace = s.dropWhile isSpace :=
    List.dropWhile_append_of_pos fun c hc => by rw [(List.mem_replicate.mp hc).2]; rfl
  rw [atoi, atoi, hblanks]

theorem atoi_signed (n : Int) {c : UInt8} (hc : isDigit c = false) (rest : List UInt8) :
    atoi (signed n ++ c :: rest) = some n := by
  have hne : unsigned n.natAbs ≠ [] := List.ne_nil_of_length_pos (length_unsigned_pos _)
  unfold signed
  split
  · next hneg =>
      have hdecimal : decimal (unsigned n.natAbs ++ c :: rest) = some (value (unsigned n.natAbs)) :=
        decimal_digits (fun d hd => isDigit_of_mem_unsigned hd) hc rest
      rw [List.cons_append, atoi, List.dropWhile_cons_of_neg (by decide)]
      simp only [if_pos, hdecimal, value_unsigned]
      show some (-(n.natAbs : Int)) = some n
      congr 1
      omega
  · next hpos =>
      rw [atoi_digits hne (fun d hd => isDigit_of_mem_unsigned hd) hc, value_unsigned]
      congr 1
      omega

/-- `%wd`. -/
theorem atoi_padLeft_signed (width : Nat) (n : Int) {c : UInt8} (hc : isDigit c = false)
    (rest : List UInt8) : atoi (padLeft width ' ' (signed n) ++ c :: rest) = some n := by
  rw [padLeft, List.append_assoc, atoi_blanks, atoi_signed n hc]

/-- `%0wd` of a number that needs no sign. -/
theorem atoi_zeros (width n : Nat) {c : UInt8} (hc : isDigit c = false) (rest : List UInt8) :
    atoi (padLeft width '0' (unsigned n) ++ c :: rest) = some ↑n := by
  have hne : padLeft width '0' (unsigned n) ≠ [] := by
    have hpos := length_unsigned_pos n
    exact List.ne_nil_of_length_pos (by rw [padLeft, List.length_append]; omega)
  rw [atoi_digits hne (fun d hd => isDigit_of_mem_zeros hd) hc, padLeft, value_zeros,
    value_unsigned]

/-- The number in a text. -/
def number (text : List UInt8) : Option Int := atoi (text ++ [0])

theorem number_signed (n : Int) : number (signed n) = some n := atoi_signed n rfl []

theorem number_unsigned (n : Nat) : number (unsigned n) = some ↑n := atoi_unsigned n []

theorem number_padLeft_signed (width : Nat) (n : Int) :
    number (padLeft width ' ' (signed n)) = some n := atoi_padLeft_signed width n rfl []

theorem number_zeros (width n : Nat) : number (padLeft width '0' (unsigned n)) = some ↑n :=
  atoi_zeros width n rfl []

/-- A blank behind the number is not in the way. -/
theorem number_zeros_blank (width n : Nat) :
    number (padLeft width '0' (unsigned n) ++ [' '.toUInt8]) = some ↑n := by
  rw [number, List.append_assoc, List.singleton_append, atoi_zeros width n (by decide)]

theorem signedZeros_of_nonneg (width : Nat) {n : Int} (h : 0 ≤ n) :
    signedZeros width n = padLeft width '0' (unsigned n.toNat) := by
  rw [signedZeros, if_neg (by omega), show n.natAbs = n.toNat by omega]

/-! ## the first digits -/

/-- The first `w` digits of a number: the last ones are dropped. -/
def leading (w n : Nat) : Nat := if n < 10 ^ w then n else leading w (n / 10)
termination_by n
decreasing_by
  have hpos : 0 < 10 ^ w := Nat.pow_pos (by decide)
  omega

theorem leading_of_lt {w n : Nat} (h : n < 10 ^ w) : leading w n = n := by
  rw [leading, if_pos h]

theorem leading_of_le {w n : Nat} (h : 10 ^ w ≤ n) : leading w n = leading w (n / 10) := by
  rw [leading, if_neg (Nat.not_lt.mpr h)]

/-- The last digit. -/
theorem unsigned_eq_append {n : Nat} (h : 10 ≤ n) :
    ∃ c, unsigned n = unsigned (n / 10) ++ [c] := by
  have hdigits := Nat.toDigits_append_toDigits (b := 10) (n := n / 10) (d := n % 10) (by decide)
    (by omega) (Nat.mod_lt _ (by decide))
  rw [Nat.div_add_mod, Nat.toDigits_of_lt_base (Nat.mod_lt n (by decide))] at hdigits
  exact ⟨_, by rw [unsigned, ← hdigits, List.map_append, List.map_singleton, ← unsigned]⟩

theorem le_length_unsigned {w n : Nat} (h : 10 ^ w ≤ n) : w < (unsigned n).length := by
  rw [unsigned, List.length_map]
  rcases Nat.eq_zero_or_pos w with rfl | hw
  · exact Nat.length_toDigits_pos
  · exact Nat.not_le.mp fun hle =>
      absurd ((Nat.length_toDigits_le_iff (by decide) hw).mp hle) (Nat.not_lt.mpr h)

/-- A number that is cut off. -/
theorem take_unsigned {w : Nat} (hw : 0 < w) (n : Nat) :
    (unsigned n).take w = unsigned (leading w n) := by
  induction n using Nat.strongRecOn with
  | _ n ih =>
      by_cases hsmall : n < 10 ^ w
      · rw [leading_of_lt hsmall, List.take_of_length_le (length_unsigned_le hsmall hw)]
      · have hlarge : 10 ^ w ≤ n := Nat.not_lt.mp hsmall
        have hpow : 10 ^ w = 10 * 10 ^ (w - 1) := by
          rw [← Nat.pow_succ', Nat.succ_eq_add_one, Nat.sub_add_cancel hw]
        have hone : 0 < 10 ^ (w - 1) := Nat.pow_pos (by decide)
        obtain ⟨c, hn⟩ := unsigned_eq_append (show 10 ≤ n by omega)
        have hfront := le_length_unsigned (w := w - 1) (n := n / 10) (by omega)
        rw [leading_of_le hlarge, ← ih (n / 10) (by omega), hn,
          List.take_append_of_le_length (by omega)]

/-- The first `w` characters of `%0wd`. -/
theorem take_zeros {w : Nat} (hw : 0 < w) (n : Nat) :
    (padLeft w '0' (unsigned n)).take w = padLeft w '0' (unsigned (leading w n)) := by
  by_cases hsmall : n < 10 ^ w
  · rw [leading_of_lt hsmall,
      List.take_of_length_le (length_padLeft (length_unsigned_le hsmall hw)).le]
  · have hlong := le_length_unsigned (Nat.not_lt.mp hsmall)
    have hfront := take_unsigned hw n
    have hlen : (unsigned (leading w n)).length = w := by
      rw [← hfront, List.length_take]
      omega
    rw [padLeft, padLeft, hlen, Nat.sub_self, Nat.sub_eq_zero_of_le (by omega)]
    exact hfront

/-- A number and a blank, cut off: the blank is all that can be lost of a
number that is not too long. -/
theorem number_take_zeros_blank {v w : Nat} (hv : 0 < v) (hw : v < w) (n : Nat) :
    number ((padLeft v '0' (unsigned n) ++ [' '.toUInt8]).take w) = some ↑(leading w n) := by
  by_cases hsmall : n < 10 ^ (w - 1)
  · have hlen : (padLeft v '0' (unsigned n)).length ≤ w - 1 := by
      have hle : (unsigned n).length ≤ w - 1 := length_unsigned_le hsmall (by omega)
      rw [padLeft, List.length_append, List.length_replicate]
      omega
    rw [List.take_of_length_le (by rw [List.length_append, List.length_singleton]; omega),
      number_zeros_blank, leading_of_lt]
    exact Nat.lt_of_lt_of_le hsmall (Nat.pow_le_pow_right (by decide) (Nat.sub_le _ _))
  · have hlong := le_length_unsigned (Nat.not_lt.mp hsmall)
    have htext : padLeft v '0' (unsigned n) = unsigned n := by
      rw [padLeft, Nat.sub_eq_zero_of_le (by omega), List.replicate_zero, List.nil_append]
    rw [htext, List.take_append_of_le_length (by omega), take_unsigned (by omega),
      number_unsigned]

end CString
