import CppFastDevelop.Lib.StrictWeak
import Mathlib.Algebra.Group.Int.Defs
import Mathlib.Algebra.GroupWithZero.Nat

/-!
# CppFastDevelop.Foundation.BinarySearch

The binary searches of `cf_binary_search.hpp`.  All four run the same loop over
a signed interval; they differ in how two elements are compared and in the half
that is kept when the target compares less than the element in the middle.
The loop keeps a `Bracket`: in an ordered segment everything in front of the
interval belongs in front of the target, and everything behind it behind.
-/

namespace CppFastDevelop

open StrictWeak

/-- A signed 64-bit result; one that does not fit is not defined. -/
def cfInt64 (n : Int) : Option Int := if -2 ^ 63 ≤ n ∧ n < 2 ^ 63 then some n else none

theorem cfInt64_eq {n : Int} (h : -2 ^ 63 ≤ n ∧ n < 2 ^ 63) : cfInt64 n = some n := if_pos h

theorem cfInt64_eq_some {n m : Int} (h : cfInt64 n = some m) : m = n := by
  unfold cfInt64 at h
  split at h <;> cases h
  rfl

/-- The elements behind a pointer.  No array has 2 ^ 63 of them. -/
structure Elements (T : Type) where
  elems : List T
  length_lt : elems.length < 2 ^ 63

namespace Elements

variable {T : Type}

/-- `a[i]`, defined inside the array. -/
def read (a : Elements T) (i : Int) : Option T := if 0 ≤ i then a.elems[i.toNat]? else none

/-- `a[low..high]`, both ends included. -/
def segment (a : Elements T) (low high : Int) : List T :=
  (a.elems.drop low.toNat).take (high + 1 - low).toNat

variable {a : Elements T} {low high : Int} {x y : T}

theorem exists_read {i : Int} (h : 0 ≤ i) (hlt : i < a.elems.length) :
    ∃ x, a.read i = some x := by
  have hin : i.toNat < a.elems.length := by omega
  exact ⟨a.elems[i.toNat], by rw [read, if_pos h, List.getElem?_eq_getElem hin]⟩

theorem getElem?_segment (hlow : 0 ≤ low) (k : Nat) :
    (a.segment low high)[k]? = if low + k ≤ high then a.read (low + k) else none := by
  have hat : (low + k).toNat = low.toNat + k := by omega
  by_cases h : low + k ≤ high
  · rw [if_pos h, segment, List.getElem?_take_of_lt (by omega), List.getElem?_drop, read,
      if_pos (by omega), hat]
  · rw [if_neg h, segment, List.getElem?_take_eq_none (by omega)]

theorem mem_segment (hlow : 0 ≤ low) :
    x ∈ a.segment low high ↔ ∃ i, low ≤ i ∧ i ≤ high ∧ a.read i = some x := by
  simp only [List.mem_iff_getElem?, getElem?_segment hlow]
  constructor
  · intro ⟨k, hk⟩
    split at hk
    · exact ⟨low + k, by omega, by omega, hk⟩
    · cases hk
  · intro ⟨i, hi, hi', hread⟩
    have hat : low + ((i - low).toNat : Int) = i := by omega
    exact ⟨(i - low).toNat, by rw [hat, if_pos hi', hread]⟩

theorem segment_append (hlow : 0 ≤ low) {i : Int} (hi : low ≤ i) (hi' : i ≤ high + 1) :
    a.segment low (i - 1) ++ a.segment i high = a.segment low high := by
  have hi : i.toNat = low.toNat + (i - 1 + 1 - low).toNat := by omega
  have hall : (high + 1 - low).toNat = (i - 1 + 1 - low).toNat + (high + 1 - i).toNat := by omega
  simp only [segment, hall, List.take_add, List.drop_drop, hi]

/-- In an ordered segment no element is less than one before it. -/
theorem not_lt_of_ordered {lt : T → T → Prop} (h : Ordered lt (a.segment low high))
    (hlow : 0 ≤ low) {i j : Int} (hi : low ≤ i) (hij : i < j) (hj : j ≤ high)
    (hx : a.read i = some x) (hy : a.read j = some y) : ¬ lt y x := by
  have hati : low + ((i - low).toNat : Int) = i := by omega
  have hatj : low + ((j - low).toNat : Int) = j := by omega
  have hx' : (a.segment low high)[(i - low).toNat]? = some x := by
    rw [getElem?_segment hlow, hati, if_pos (by omega), hx]
  have hy' : (a.segment low high)[(j - low).toNat]? = some y := by
    rw [getElem?_segment hlow, hatj, if_pos hj, hy]
  obtain ⟨hlti, rfl⟩ := List.getElem?_eq_some_iff.mp hx'
  obtain ⟨hltj, rfl⟩ := List.getElem?_eq_some_iff.mp hy'
  exact List.pairwise_iff_getElem.mp h _ _ hlti hltj (by omega)

end Elements

namespace BinarySearch

/-! ## the loop -/

/-- The half of the interval that the search goes on with. -/
inductive Half
  | lower | upper
deriving DecidableEq

def Half.other : Half → Half
  | .lower => .upper
  | .upper => .lower

/-- `high = middle - 1` or `low = middle + 1`. -/
def Half.narrow (low high middle : Int) : Half → Option (Int × Int)
  | .lower => (cfInt64 (middle - 1)).map fun high' => (low, high')
  | .upper => (cfInt64 (middle + 1)).map fun low' => (low', high)

/-- `low + (high - low)/2` -/
def middleOf (low high : Int) : Option Int := do
  let span ← cfInt64 (high - low)
  cfInt64 (low + span.tdiv 2)

theorem middleOf_eq_some {low high middle : Int} (h : low ≤ high)
    (hmiddle : middleOf low high = some middle) : low ≤ middle ∧ middle ≤ high := by
  simp only [middleOf, Option.bind_eq_bind, Option.bind_eq_some_iff] at hmiddle
  obtain ⟨span, hspan, hmiddle⟩ := hmiddle
  have hspan := cfInt64_eq_some hspan
  have hmiddle := cfInt64_eq_some hmiddle
  rw [Int.tdiv_eq_ediv_of_nonneg (by omega)] at hmiddle
  omega

/-- The interval gets shorter. -/
theorem narrow_lt {half : Half} {low high middle low' high' : Int} (h : low ≤ middle)
    (h' : middle ≤ high) (hnarrow : half.narrow low high middle = some (low', high')) :
    (high' + 1 - low').toNat < (high + 1 - low).toNat := by
  cases half <;>
  · obtain ⟨bound, hbound, hpair⟩ := Option.map_eq_some_iff.mp hnarrow
    have hbound := cfInt64_eq_some hbound
    cases hpair
    omega

/-- What the comparisons with the element in the middle decide. -/
def probe {T : Type} (compare_less : T → T → Bool) (whenLess : Half) (target x : T) :
    Option Half :=
  if compare_less target x then some whenLess
  else if compare_less x target then some whenLess.other
  else none

/-- `while (low <= high)`: the value returned and `insertIndex`. -/
def searchLoop {T : Type} (a : Elements T) (look : T → Option Half) (low high : Int) :
    Option (Int × Int) :=
  if _ : low ≤ high then
    match _ : middleOf low high with
    | none => none
    | some middle =>
        match a.read middle with
        | none => none
        | some x =>
            match look x with
            | none => some (1, middle)
            | some half =>
                match _ : half.narrow low high middle with
                | none => none
                | some (low', high') => searchLoop a look low' high'
  else some (0, low)
termination_by (high + 1 - low).toNat
decreasing_by
  have hin := middleOf_eq_some ‹low ≤ high› ‹middleOf low high = some _›
  exact narrow_lt hin.1 hin.2 ‹_›

end BinarySearch

open BinarySearch

/-! ## the searches -/

section Searches

variable {T : Type} (a : Elements T) (low high : Int) (target : T)

/-- With a class that compares. -/
def binarySearchAscendingBy (compare_less : T → T → Bool) : Option (Int × Int) :=
  searchLoop a (probe compare_less .lower target) low high

def binarySearchDescendingBy (compare_less : T → T → Bool) : Option (Int × Int) :=
  searchLoop a (probe compare_less .upper target) low high

variable [LT T] [DecidableLT T]

/-- With `<`. -/
def binarySearchAscending : Option (Int × Int) :=
  searchLoop a (probe (fun x y => decide (x < y)) .lower target) low high

def binarySearchDescending : Option (Int × Int) :=
  searchLoop a (probe (fun x y => decide (x < y)) .upper target) low high

end Searches

/-- The class that compares by default. -/
def binarySearchCompare {T : Type} [LE T] [DecidableLE T] (x y : T) : Bool :=
  if x ≥ y then false else true

/-! ## what the loop keeps -/

namespace BinarySearch

section Loop

variable {T : Type} {a : Elements T} {look : T → Option Half} {low₀ high₀ low high : Int}

/-- The answers say "upper" up to some place and "lower" from some place on. -/
def Splits (a : Elements T) (look : T → Option Half) (low₀ high₀ : Int) : Prop :=
  ∀ i j x y, low₀ ≤ i → i ≤ j → j ≤ high₀ → a.read i = some x → a.read j = some y →
    (look x = some .lower → look y = some .lower) ∧
      (look y = some .upper → look x = some .upper)

/-- The interval has been narrowed by the answers of the elements around it. -/
structure Bracket (a : Elements T) (look : T → Option Half) (low₀ high₀ low high : Int) :
    Prop where
  low_le : low₀ ≤ low
  le_high : high ≤ high₀
  le : low ≤ high + 1
  before : ∀ i x, low₀ ≤ i → i < low → a.read i = some x → look x = some .upper
  behind : ∀ i x, high < i → i ≤ high₀ → a.read i = some x → look x = some .lower

theorem exists_middleOf (h : 0 ≤ low) (hle : low ≤ high) (hhigh : high < 2 ^ 63) :
    ∃ middle, middleOf low high = some middle := by
  have hspan : cfInt64 (high - low) = some (high - low) := cfInt64_eq (by omega)
  refine ⟨low + (high - low).tdiv 2, ?_⟩
  simp only [middleOf, hspan, Option.bind_eq_bind, Option.bind_some]
  apply cfInt64_eq
  rw [Int.tdiv_eq_ediv_of_nonneg (by omega)]
  omega

/-- One pass: the half that is given up lies outside. -/
theorem Bracket.narrow (hsplits : Splits a look low₀ high₀) (h : Bracket a look low₀ high₀ low high)
    (hlow₀ : 0 ≤ low₀) (hhigh₀ : high₀ + 1 < 2 ^ 63) {middle : Int} {x : T} {half : Half}
    (hlow : low ≤ middle) (hhigh : middle ≤ high) (hread : a.read middle = some x)
    (hlook : look x = some half) :
    ∃ low' high', half.narrow low high middle = some (low', high') ∧
      Bracket a look low₀ high₀ low' high' := by
  have hlow_le := h.low_le
  have hle_high := h.le_high
  cases half with
  | lower =>
      have hbound : cfInt64 (middle - 1) = some (middle - 1) := cfInt64_eq (by omega)
      refine ⟨low, middle - 1, by simp [Half.narrow, hbound], ⟨hlow_le, by omega, by omega,
        h.before, fun i y hi hi' hy => ?_⟩⟩
      exact (hsplits middle i x y (by omega) (by omega) hi' hread hy).1 hlook
  | upper =>
      have hbound : cfInt64 (middle + 1) = some (middle + 1) := cfInt64_eq (by omega)
      refine ⟨middle + 1, high, by simp [Half.narrow, hbound], ⟨by omega, hle_high, by omega,
        fun i y hi hi' hy => ?_, h.behind⟩⟩
      exact (hsplits i middle y x hi (by omega) (by omega) hy hread).2 hlook

/-- What the loop returns: an element at which it may stop, or the place
between those that send it up and those that send it down. -/
def Outcome (a : Elements T) (look : T → Option Half) (low₀ high₀ : Int) : Int × Int → Prop
  | (result, insertIndex) =>
      (result = 1 ∧ low₀ ≤ insertIndex ∧ insertIndex ≤ high₀ ∧
        ∃ x, a.read insertIndex = some x ∧ look x = none) ∨
      (result = 0 ∧ Bracket a look low₀ high₀ insertIndex (insertIndex - 1))

/-- From a bracket on the loop ends, with all its reads and sums defined. -/
theorem searchLoop_spec (hsplits : Splits a look low₀ high₀) (hlow₀ : 0 ≤ low₀)
    (hhigh₀ : high₀ < a.elems.length) (h : Bracket a look low₀ high₀ low high) :
    ∃ r, searchLoop a look low high = some r ∧ Outcome a look low₀ high₀ r := by
  have hlen := a.length_lt
  have hlow_le := h.low_le
  have hle_high := h.le_high
  fun_induction searchLoop a look low high with
  | case1 low high hle hmiddle =>
      obtain ⟨middle, hmiddle'⟩ := exists_middleOf (by omega) hle (by omega)
      cases hmiddle.symm.trans hmiddle'
  | case2 low high hle middle hmiddle hread =>
      obtain ⟨hlow, hhigh⟩ := middleOf_eq_some hle hmiddle
      obtain ⟨x, hread'⟩ := Elements.exists_read (a := a) (i := middle) (by omega) (by omega)
      cases hread.symm.trans hread'
  | case3 low high hle middle hmiddle x hread hlook =>
      obtain ⟨hlow, hhigh⟩ := middleOf_eq_some hle hmiddle
      exact ⟨_, rfl, Or.inl ⟨rfl, by omega, by omega, x, hread, hlook⟩⟩
  | case4 low high hle middle hmiddle x hread half hlook hnarrow =>
      obtain ⟨hlow, hhigh⟩ := middleOf_eq_some hle hmiddle
      obtain ⟨low', high', hnarrow', -⟩ :=
        h.narrow hsplits hlow₀ (by omega) hlow hhigh hread hlook
      cases hnarrow.symm.trans hnarrow'
  | case5 low high hle middle hmiddle x hread half hlook low' high' hnarrow ih =>
      obtain ⟨hlow, hhigh⟩ := middleOf_eq_some hle hmiddle
      obtain ⟨low'', high'', hnarrow', hbracket⟩ :=
        h.narrow hsplits hlow₀ (by omega) hlow hhigh hread hlook
      cases hnarrow.symm.trans hnarrow'
      exact ih hbracket hbracket.low_le hbracket.le_high
  | case6 low high hlt =>
      have hle := h.le
      have hhigh : high = low - 1 := by omega
      exact ⟨(0, low), rfl, Or.inr ⟨rfl, hhigh ▸ h⟩⟩

end Loop

/-! ## ordered segments -/

/-- What a search answers: 1 and an equivalent element of the segment if there
is one, and 0 and a place where the target can be put in otherwise. -/
def Answers {T : Type} (a : Elements T) (lt : T → T → Prop) (low high : Int) (target : T)
    (result : Option (Int × Int)) : Prop :=
  ∃ found insertIndex, result = some (found, insertIndex) ∧
    ((∃ x ∈ a.segment low high, Equivalent lt x target) →
      found = 1 ∧ low ≤ insertIndex ∧ insertIndex ≤ high ∧
        ∃ x, a.read insertIndex = some x ∧ Equivalent lt x target) ∧
    ((¬ ∃ x ∈ a.segment low high, Equivalent lt x target) →
      found = 0 ∧ low ≤ insertIndex ∧ insertIndex ≤ high + 1 ∧
        Ordered lt (a.segment low (insertIndex - 1) ++ target :: a.segment insertIndex high))

section Order

variable {T : Type} {a : Elements T} {lt : T → T → Prop} [IsStrictWeakOrder T lt]
  {look : T → Option Half} {low high : Int} {target : T}

/-- The answers follow the order. -/
def Compares (lt : T → T → Prop) (target : T) (look : T → Option Half) : Prop :=
  ∀ x, (look x = some .lower ↔ lt target x) ∧ (look x = some .upper ↔ lt x target)

theorem splits_of_ordered (hlook : Compares lt target look) (hlow : 0 ≤ low)
    (h : Ordered lt (a.segment low high)) : Splits a look low high := by
  intro i j x y hi hij hj hx hy
  rcases Int.lt_or_eq_of_le hij with hlt | rfl
  · have hle := Elements.not_lt_of_ordered h hlow hi hlt hj hx hy
    rw [(hlook x).1, (hlook x).2, (hlook y).1, (hlook y).2]
    exact ⟨fun htarget => lt_of_lt_of_not_lt htarget hle,
      fun htarget => lt_of_not_lt_of_lt hle htarget⟩
  · cases hx.symm.trans hy
    exact ⟨id, id⟩

theorem answers_of_compares (hlook : Compares lt target look) (hlow : 0 ≤ low)
    (hle : low ≤ high + 1) (hhigh : high < a.elems.length)
    (h : Ordered lt (a.segment low high)) :
    Answers a lt low high target (searchLoop a look low high) := by
  have hstart : Bracket a look low high low high :=
    ⟨Int.le_refl _, Int.le_refl _, hle, fun i _ hi hi' => by omega, fun i _ hi hi' => by omega⟩
  obtain ⟨⟨found, i⟩, hresult, houtcome⟩ :=
    searchLoop_spec (splits_of_ordered hlook hlow h) hlow hhigh hstart
  refine ⟨found, i, hresult, ?_⟩
  rcases houtcome with ⟨rfl, hi, hi', x, hread, hstop⟩ | ⟨rfl, hbracket⟩
  · have hequiv : Equivalent lt x target := by
      rw [Equivalent, ← (hlook x).1, ← (hlook x).2, hstop]
      simp
    exact ⟨fun _ => ⟨rfl, hi, hi', x, hread, hequiv⟩,
      fun hnone => absurd ⟨x, (Elements.mem_segment hlow).mpr ⟨i, hi, hi', hread⟩, hequiv⟩ hnone⟩
  · have hi := hbracket.low_le
    have hi' := hbracket.le_high
    have hless : ∀ u ∈ a.segment low (i - 1), lt u target := by
      intro u hu
      obtain ⟨k, hk, hk', hread⟩ := (Elements.mem_segment hlow).mp hu
      exact (hlook u).2.mp (hbracket.before k u hk (by omega) hread)
    have hmore : ∀ v ∈ a.segment i high, lt target v := by
      intro v hv
      obtain ⟨k, hk, hk', hread⟩ := (Elements.mem_segment (by omega)).mp hv
      exact (hlook v).1.mp (hbracket.behind k v (by omega) hk' hread)
    have happend := Elements.segment_append (a := a) hlow hi (by omega : i ≤ high + 1)
    constructor
    · rintro ⟨x, hx, hequiv⟩
      rw [← happend, List.mem_append] at hx
      rcases hx with hx | hx
      · exact absurd (hless x hx) hequiv.1
      · exact absurd (hmore x hx) hequiv.2
    · intro hnone
      rw [← happend] at h
      exact ⟨rfl, hi, by omega, h.insert (fun u hu => asymm_of lt (hless u hu))
        fun v hv => asymm_of lt (hmore v hv)⟩

end Order

/-- The comparisons of an ascending search, and of a descending one. -/
theorem compares_probe {T : Type} {compare_less : T → T → Bool} (lt : T → T → Prop)
    [IsStrictWeakOrder T lt] (h : ∀ x y, compare_less x y = true ↔ lt x y) (target : T) :
    Compares lt target (probe compare_less .lower target) ∧
      Compares (Function.swap lt) target (probe compare_less .upper target) := by
  constructor <;>
  · intro x
    have hasymm : lt target x → ¬ lt x target := asymm_of lt
    simp only [probe, h, Half.other, Function.swap]
    split <;> simp_all

end BinarySearch

/-- **The binary searches.**  For every strict weak order, given as a class
that compares or as `<`, a search of a segment that is ordered its way finds an
element equivalent to the target if there is one, and a place for the target
otherwise. -/
theorem binarySearch_answers {T : Type} (a : Elements T) {low high : Int} (hlow : 0 ≤ low)
    (hle : low ≤ high + 1) (hhigh : high < a.elems.length) (target : T) :
    (∀ compare_less : T → T → Bool, IsStrictWeakOrder T (fun x y => compare_less x y = true) →
      (Ordered (fun x y => compare_less x y = true) (a.segment low high) →
        Answers a (fun x y => compare_less x y = true) low high target
          (binarySearchAscendingBy a low high target compare_less)) ∧
      (Ordered (fun x y => compare_less y x = true) (a.segment low high) →
        Answers a (fun x y => compare_less y x = true) low high target
          (binarySearchDescendingBy a low high target compare_less))) ∧
    (∀ (_ : LT T) (_ : DecidableLT T), IsStrictWeakOrder T (fun x y => x < y) →
      (Ordered (fun x y => x < y) (a.segment low high) →
        Answers a (fun x y => x < y) low high target
          (binarySearchAscending a low high target)) ∧
      (Ordered (fun x y => y < x) (a.segment low high) →
        Answers a (fun x y => y < x) low high target
          (binarySearchDescending a low high target))) := by
  constructor
  · intro compare_less horder
    have hprobe := compares_probe (fun x y => compare_less x y = true) (fun _ _ => Iff.rfl) target
    exact ⟨answers_of_compares hprobe.1 hlow hle hhigh,
      answers_of_compares hprobe.2 hlow hle hhigh⟩
  · intro _ _ horder
    have hprobe := compares_probe (fun x y : T => x < y) (fun _ _ => decide_eq_true_iff) target
    exact ⟨answers_of_compares hprobe.1 hlow hle hhigh,
      answers_of_compares hprobe.2 hlow hle hhigh⟩

/-- Four numbers, compared by their last digit. -/
theorem binarySearch_answers_digits :
    Answers ⟨[1, 23, 13, 7], by decide⟩ (fun x y => decide (x % 10 < y % 10) = true) 0 3 33
      (binarySearchAscendingBy (T := Nat) ⟨[1, 23, 13, 7], by decide⟩ 0 3 33
        (fun x y => decide (x % 10 < y % 10))) ∧
    Answers ⟨[9, 5, 2], by decide⟩ (fun x y => y < x) 0 2 4
      (binarySearchDescending (T := Nat) ⟨[9, 5, 2], by decide⟩ 0 2 4) := by
  have hdigits : IsStrictWeakOrder Nat (fun x y => decide (x % 10 < y % 10) = true) :=
    { irrefl := by simp
      trans := fun x y z => by simp only [decide_eq_true_eq]; omega
      incomp_trans := fun x y z => by simp only [decide_eq_true_eq]; omega }
  have hless : IsStrictWeakOrder Nat (fun x y => x < y) :=
    { irrefl := by simp
      trans := fun x y z => by omega
      incomp_trans := fun x y z => by omega }
  constructor
  · exact ((binarySearch_answers (T := Nat) ⟨[1, 23, 13, 7], by decide⟩ (by decide) (by decide)
      (by decide) 33).1 _ hdigits).1 (by simp [Ordered, Elements.segment])
  · exact ((binarySearch_answers (T := Nat) ⟨[9, 5, 2], by decide⟩ (by decide) (by decide)
      (by decide) 4).2 _ _ hless).2 (by simp [Ordered, Elements.segment])

/-- Where `>=` compares any two elements, the class that compares by default
orders them. -/
theorem isStrictWeakOrder_binarySearchCompare {T : Type} [Preorder T] [DecidableLE T]
    [Std.Total fun x y : T => x ≤ y] :
    IsStrictWeakOrder T (fun x y => binarySearchCompare x y = true) := by
  have hcompare (x y : T) : binarySearchCompare x y = true ↔ ¬ y ≤ x := by
    simp [binarySearchCompare]
  simp only [hcompare]
  have htotal := Std.Total.total (r := fun x y : T => x ≤ y)
  have hasymm : Std.Asymm (fun x y : T => ¬ y ≤ x) :=
    ⟨fun x y hyx hxy => (htotal x y).elim hxy hyx⟩
  have hconnected : IsOrderConnected T (fun x y => ¬ y ≤ x) :=
    ⟨fun x y z hzx => by
      by_cases hyx : y ≤ x
      · exact Or.inr fun hzy => hzx (le_trans hzy hyx)
      · exact Or.inl hyx⟩
  exact isStrictWeakOrder_of_isOrderConnected

end CppFastDevelop
