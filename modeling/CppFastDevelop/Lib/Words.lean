import Mathlib.Algebra.GroupWithZero.Nat

/-!
# CppFastDevelop.Lib.Words

Machine words: unsigned 64-bit and signed 32-bit arithmetic where it does
not wrap, and fixed-width byte strings.  `encodeLE k n` writes the `k` low
bytes of `n`, `decodeLE` reads a byte string back, and the two are inverse
on numbers that fit; `encodeBE` and `decodeBE` put the bytes the other way.
-/

namespace Words

/-! ## unsigned arithmetic without wrap-around -/

theorem toNat_add_of_lt {a b : UInt64} (h : a.toNat + b.toNat < 2 ^ 64) :
    (a + b).toNat = a.toNat + b.toNat := by
  rw [UInt64.toNat_add, Nat.mod_eq_of_lt h]

theorem toNat_sub_of_le {a b : UInt64} (h : b.toNat ≤ a.toNat) :
    (a - b).toNat = a.toNat - b.toNat :=
  UInt64.toNat_sub_of_le a b (UInt64.le_iff_toNat_le.mpr h)

theorem toNat_ofNat_of_lt {n : Nat} (h : n < 2 ^ 64) : (UInt64.ofNat n).toNat = n :=
  UInt64.toNat_ofNat_of_lt' h

/-! ## signed arithmetic without overflow -/

theorem toInt_add_one {x : Int32} (h : x < Int32.maxValue) : (x + 1).toInt = x.toInt + 1 := by
  have hlt := Int32.lt_iff_toInt_lt.mp h
  have hle := x.le_toInt
  rw [Int32.toInt_maxValue] at hlt
  rw [Int32.toInt_add, Int32.toInt_one, Int.bmod_eq_of_le] <;> omega

theorem toInt_sub_one {x : Int32} (h : 0 < x.toInt) : (x - 1).toInt = x.toInt - 1 := by
  have hlt := x.toInt_lt
  rw [Int32.toInt_sub, Int32.toInt_one, Int.bmod_eq_of_le] <;> omega

/-! ## little-endian bytes -/

/-- The `k` low bytes of `n`, least significant first. -/
def encodeLE : Nat → Nat → List UInt8
  | 0, _ => []
  | k + 1, n => UInt8.ofNat n :: encodeLE k (n / 256)

/-- The number a little-endian byte string stands for. -/
def decodeLE : List UInt8 → Nat
  | [] => 0
  | b :: bs => b.toNat + 256 * decodeLE bs

@[simp] theorem length_encodeLE (k n : Nat) : (encodeLE k n).length = k := by
  induction k generalizing n with
  | zero => rfl
  | succ k ih => simp [encodeLE, ih]

/-- Reading back the low `k` bytes gives the number modulo `256 ^ k`. -/
theorem decodeLE_encodeLE_mod (k n : Nat) : decodeLE (encodeLE k n) = n % 256 ^ k := by
  induction k generalizing n with
  | zero => simp [encodeLE, decodeLE, Nat.mod_one]
  | succ k ih =>
      rw [encodeLE, decodeLE, ih, Nat.pow_succ, Nat.mul_comm (256 ^ k), Nat.mod_mul]
      simp

/-- A number that fits its width is read back unchanged. -/
theorem decodeLE_encodeLE {k n : Nat} (h : n < 256 ^ k) : decodeLE (encodeLE k n) = n := by
  rw [decodeLE_encodeLE_mod, Nat.mod_eq_of_lt h]

/-- Writing what a byte string stands for gives the byte string. -/
theorem encodeLE_decodeLE (bs : List UInt8) : encodeLE bs.length (decodeLE bs) = bs := by
  induction bs with
  | nil => rfl
  | cons b bs ih =>
      have hb := b.toNat_lt
      have hlow : UInt8.ofNat (b.toNat + 256 * decodeLE bs) = b := by
        apply UInt8.toNat_inj.mp
        rw [UInt8.toNat_ofNat']
        omega
      have hhigh : (b.toNat + 256 * decodeLE bs) / 256 = decodeLE bs := by omega
      rw [List.length_cons, encodeLE, decodeLE, hlow, hhigh, ih]

theorem decodeLE_lt (bs : List UInt8) : decodeLE bs < 256 ^ bs.length := by
  induction bs with
  | nil => simp [decodeLE]
  | cons b bs ih =>
      have hb := b.toNat_lt
      rw [decodeLE, List.length_cons, Nat.pow_succ]
      omega

/-! ## big-endian bytes -/

/-- The `k` low bytes of `n`, most significant first. -/
def encodeBE (k n : Nat) : List UInt8 := (encodeLE k n).reverse

/-- The number a big-endian byte string stands for. -/
def decodeBE (bs : List UInt8) : Nat := decodeLE bs.reverse

@[simp] theorem length_encodeBE (k n : Nat) : (encodeBE k n).length = k := by simp [encodeBE]

theorem decodeBE_encodeBE {k n : Nat} (h : n < 256 ^ k) : decodeBE (encodeBE k n) = n := by
  rw [decodeBE, encodeBE, List.reverse_reverse, decodeLE_encodeLE h]

theorem encodeBE_decodeBE (bs : List UInt8) : encodeBE bs.length (decodeBE bs) = bs := by
  have hlen : bs.reverse.length = bs.length := List.length_reverse
  rw [encodeBE, decodeBE, ← hlen, encodeLE_decodeLE, List.reverse_reverse]

theorem decodeBE_lt (bs : List UInt8) : decodeBE bs < 256 ^ bs.length := by
  rw [decodeBE, ← List.length_reverse]
  exact decodeLE_lt bs.reverse

/-! ## arrays of signed integers -/

/-- The four bytes of an `int`. -/
def encodeInt32 (x : Int32) : List UInt8 := encodeLE 4 x.toUInt32.toNat

/-- The `int` in four bytes. -/
def decodeInt32 (bs : List UInt8) : Int32 := Int32.ofNat (decodeLE bs)

@[simp] theorem length_encodeInt32 (x : Int32) : (encodeInt32 x).length = 4 :=
  length_encodeLE 4 _

@[simp] theorem decodeInt32_encodeInt32 (x : Int32) : decodeInt32 (encodeInt32 x) = x := by
  rw [decodeInt32, encodeInt32, decodeLE_encodeLE x.toUInt32.toNat_lt, ← UInt32.toInt32_ofNat']
  simp

/-- The bytes of an array of `int`s. -/
def encodeInts (xs : List Int32) : List UInt8 := xs.flatMap encodeInt32

/-- The first `n` `int`s of a byte string. -/
def decodeInts : Nat → List UInt8 → List Int32
  | 0, _ => []
  | n + 1, bs => decodeInt32 (bs.take 4) :: decodeInts n (bs.drop 4)

@[simp] theorem encodeInts_nil : encodeInts [] = [] := rfl

@[simp] theorem encodeInts_cons (x : Int32) (xs : List Int32) :
    encodeInts (x :: xs) = encodeInt32 x ++ encodeInts xs := rfl

@[simp] theorem length_encodeInts (xs : List Int32) : (encodeInts xs).length = 4 * xs.length := by
  induction xs with
  | nil => rfl
  | cons x xs ih => simp [ih]; omega

/-- An array is read back from its bytes, whatever follows them. -/
theorem decodeInts_encodeInts_append (xs : List Int32) (rest : List UInt8) :
    decodeInts xs.length (encodeInts xs ++ rest) = xs := by
  induction xs with
  | nil => rfl
  | cons x xs ih => simp [decodeInts, ih]

end Words
