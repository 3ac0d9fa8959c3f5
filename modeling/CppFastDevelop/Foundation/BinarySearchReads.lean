import CppFastDevelop.Foundation.BinarySearch

/-!
# CppFastDevelop.Foundation.BinarySearchReads

What the binary searches of `cf_binary_search.hpp` read.  Nothing is assumed
of the array but that it has elements where the search may look, and nothing
of the comparison, which may answer differently every time it is asked.  The
interval gets shorter with every pass and stays inside the one given, so the
search ends, and all it reads, computes and returns is in bounds
(`binarySearch_withinBounds`).
-/

namespace CppFastDevelop

namespace BinarySearch

variable {T σ : Type}

/-! ## the loop and its reads -/

/-- One pass: the half to go on with, how often `a[middle]` was read, and the
state that the comparison was left in. -/
def probeWith (less : T → T → σ → Bool × σ) (whenLess : Half) (target x : T) (s : σ) :
    Option Half × Nat × σ :=
  let r := less target x s
  if r.1 then (some whenLess, 1, r.2)
  else
    let r' := less x target r.2
    if r'.1 then (some whenLess.other, 2, r'.2) else (none, 2, r'.2)

/-- `while (low <= high)`: the value returned, `insertIndex`, and the indices
read.  Outside of the array there is nothing to read. -/
def searchLoopReads (a : Int → Option T) (look : T → σ → Option Half × Nat × σ)
    (low high : Int) (s : σ) : Option (Int × Int × List Int) :=
  if _ : low ≤ high then
    match _ : middleOf low high with
    | none => none
    | some middle =>
        match a middle with
        | none => none
        | some x =>
            match look x s with
            | (none, n, _) => some (1, middle, List.replicate n middle)
            | (some half, n, s') =>
                match _ : half.narrow low high middle with
                | none => none
                | some (low', high') =>
                    (searchLoopReads a look low' high' s').map fun (result, insertIndex, reads) =>
                      (result, insertIndex, List.replicate n middle ++ reads)
  else some (0, low, [])
termination_by (high + 1 - low).toNat
decreasing_by
  have hin := middleOf_eq_some ‹low ≤ high› ‹middleOf low high = some _›
  exact narrow_lt hin.1 hin.2 ‹_›

end BinarySearch

open BinarySearch

section Searches

variable {T σ : Type} (a : Int → Option T) (low high : Int) (target : T)

/-- With a class that compares, and may have a state. -/
def binarySearchAscendingByReads (compare_less : T → T → σ → Bool × σ) (s : σ) :
    Option (Int × Int × List Int) :=
  searchLoopReads a (probeWith compare_less .lower target) low high s

def binarySearchDescendingByReads (compare_less : T → T → σ → Bool × σ) (s : σ) :
    Option (Int × Int × List Int) :=
  searchLoopReads a (probeWith compare_less .upper target) low high s

/-- With what `operator<` does. -/
def binarySearchAscendingReads (operator_less : T → T → σ → Bool × σ) (s : σ) :
    Option (Int × Int × List Int) :=
  searchLoopReads a (probeWith operator_less .lower target) low high s

def binarySearchDescendingReads (operator_less : T → T → σ → Bool × σ) (s : σ) :
    Option (Int × Int × List Int) :=
  searchLoopReads a (probeWith operator_less .upper target) low high s

end Searches

namespace BinarySearch

variable {T σ : Type}

/-- A pass that goes on. -/
theorem searchLoopReads_eq {a : Int → Option T} {look : T → σ → Option Half × Nat × σ}
    {low high middle low' high' : Int} {s s' : σ} {x : T} {half : Half} {n : Nat}
    (hle : low ≤ high) (hmiddle : middleOf low high = some middle) (hread : a middle = some x)
    (hlook : look x s = (some half, n, s'))
    (hnarrow : half.narrow low high middle = some (low', high')) :
    searchLoopReads a look low high s = (searchLoopReads a look low' high' s').map
      fun r => (r.1, r.2.1, List.replicate n middle ++ r.2.2) := by
  rw [searchLoopReads, dif_pos hle]
  grind

/-- Noting the reads changes nothing: where the comparison has no state the
searches return what they return. -/
theorem map_searchLoopReads (a : Elements T) (less : T → T → Bool) (whenLess : Half) (target : T)
    (low high : Int) (s : σ) :
    (searchLoopReads a.read (probeWith (fun x y s => (less x y, s)) whenLess target)
      low high s).map (fun r => (r.1, r.2.1)) =
      searchLoop a (probe less whenLess target) low high := by
  have hlook (x : T) : (probeWith (fun x y s => (less x y, s)) whenLess target x s).1 =
      probe less whenLess target x ∧
      (probeWith (fun x y s => (less x y, s)) whenLess target x s).2.2 = s := by
    unfold probeWith probe
    grind
  fun_induction searchLoop a (probe less whenLess target) low high with
  | case1 low high hle hmiddle =>
      unfold searchLoopReads
      grind
  | case2 low high hle middle hmiddle hread =>
      unfold searchLoopReads
      grind
  | case3 low high hle middle hmiddle x hread hprobe =>
      unfold searchLoopReads
      grind
  | case4 low high hle middle hmiddle x hread half hprobe hnarrow =>
      unfold searchLoopReads
      grind
  | case5 low high hle middle hmiddle x hread half hprobe low' high' hnarrow ih =>
      obtain ⟨hhalf, hstate⟩ := hlook x
      rcases hwith : probeWith (fun x y s => (less x y, s)) whenLess target x s with ⟨o, n, s'⟩
      rw [hwith] at hhalf hstate
      obtain rfl : o = some half := hhalf.trans hprobe
      obtain rfl : s' = s := hstate
      rw [searchLoopReads_eq hle hmiddle hread hwith hnarrow, Option.map_map]
      exact ih
  | case6 low high hlt =>
      unfold searchLoopReads
      grind

/-! ## one pass -/

theorem probeWith_le_two (less : T → T → σ → Bool × σ) (whenLess : Half) (target x : T) (s : σ) :
    (probeWith less whenLess target x s).2.1 ≤ 2 := by
  unfold probeWith
  grind

/-- The half is defined, and it is shorter and inside. -/
theorem exists_narrow {low high middle : Int} (half : Half) (hlow : 0 ≤ low)
    (hhigh : high < 2 ^ 63 - 1) (h : low ≤ middle) (h' : middle ≤ high) :
    ∃ low' high', half.narrow low high middle = some (low', high') ∧
      low ≤ low' ∧ high' ≤ high ∧ low' ≤ high' + 1 ∧ high' + 1 - low' ≤ high - low := by
  cases half with
  | lower =>
      have hbound : cfInt64 (middle - 1) = some (middle - 1) := cfInt64_eq (by omega)
      exact ⟨low, middle - 1, by simp [Half.narrow, hbound], by omega⟩
  | upper =>
      have hbound : cfInt64 (middle + 1) = some (middle + 1) := cfInt64_eq (by omega)
      exact ⟨middle + 1, high, by simp [Half.narrow, hbound], by omega⟩

/-- A search ends, with every sum defined; it reads nothing outside of the
interval and nothing more than twice, and returns an index of the interval,
or, where it has found nothing, perhaps the one behind it. -/
def WithinBounds (low high : Int) (outcome : Option (Int × Int × List Int)) : Prop :=
  ∃ result insertIndex reads, outcome = some (result, insertIndex, reads) ∧
    (∀ i ∈ reads, low ≤ i ∧ i ≤ high) ∧ (reads.length : Int) ≤ 2 * (high + 1 - low) ∧
    low ≤ insertIndex ∧ insertIndex ≤ high + 1 ∧
    (result = 0 ∨ result = 1 ∧ insertIndex ≤ high)

theorem withinBounds_searchLoopReads {a : Int → Option T} {look : T → σ → Option Half × Nat × σ}
    (hlook : ∀ x s, (look x s).2.1 ≤ 2) {low high : Int} (hlow : 0 ≤ low) (hle : low ≤ high + 1)
    (hhigh : high < 2 ^ 63 - 1) (ha : ∀ i, low ≤ i → i ≤ high → (a i).isSome) (s : σ) :
    WithinBounds low high (searchLoopReads a look low high s) := by
  fun_induction searchLoopReads a look low high s with
  | case1 low high s hin hmiddle =>
      obtain ⟨middle, hmiddle'⟩ := exists_middleOf hlow hin (by omega)
      cases hmiddle.symm.trans hmiddle'
  | case2 low high s hin middle hmiddle hread =>
      obtain ⟨hlow', hhigh'⟩ := middleOf_eq_some hin hmiddle
      have hsome := ha middle hlow' hhigh'
      simp [hread] at hsome
  | case3 low high s hin middle hmiddle x hread n s' hprobe =>
      obtain ⟨hlow', hhigh'⟩ := middleOf_eq_some hin hmiddle
      have hn : n ≤ 2 := by simpa [hprobe] using hlook x s
      refine ⟨1, middle, _, rfl, ?_, ?_, hlow', by omega, .inr ⟨rfl, hhigh'⟩⟩
      · intro i hi
        rw [List.eq_of_mem_replicate hi]
        exact ⟨hlow', hhigh'⟩
      · rw [List.length_replicate]
        omega
  | case4 low high s hin middle hmiddle x hread half n s' hprobe hnarrow =>
      obtain ⟨hlow', hhigh'⟩ := middleOf_eq_some hin hmiddle
      obtain ⟨low', high', hnarrow', -⟩ := exists_narrow half hlow hhigh hlow' hhigh'
      cases hnarrow.symm.trans hnarrow'
  | case5 low high s hin middle hmiddle x hread half n s' hprobe low' high' hnarrow ih =>
      obtain ⟨hlow', hhigh'⟩ := middleOf_eq_some hin hmiddle
      -- a pass reads twice at most, and takes one index or more off the interval
      obtain ⟨low'', high'', hnarrow', hle₁, hle₂, hle₃, hshort⟩ :=
        exists_narrow half hlow hhigh hlow' hhigh'
      cases hnarrow.symm.trans hnarrow'
      obtain ⟨result, insertIndex, reads, hsearch, hreads, hlen, hge, hle', hresult⟩ :=
        ih (by omega) hle₃ (by omega) (fun i hi hi' => ha i (by omega) (by omega))
      have hn : n ≤ 2 := by simpa [hprobe] using hlook x s
      rw [hsearch]
      refine ⟨result, insertIndex, _, rfl, ?_, ?_, by omega, by omega, by omega⟩
      · intro i hi
        rcases List.mem_append.mp hi with hi | hi
        · rw [List.eq_of_mem_replicate hi]
          exact ⟨hlow', hhigh'⟩
        · have hin' := hreads i hi
          omega
      · rw [List.length_append, List.length_replicate]
        omega
  | case6 low high s hlt =>
      exact ⟨0, low, [], rfl, by simp, by simp; omega, by omega, by omega, .inl rfl⟩

end BinarySearch

/-- **The binary searches stay in bounds** whatever is in the array and
whatever the comparison answers. -/
theorem binarySearch_withinBounds {T σ : Type} {a : Int → Option T} {low high : Int}
    (hlow : 0 ≤ low) (hle : low - 1 ≤ high) (hhigh : high < 2 ^ 63 - 1)
    (ha : ∀ i, low ≤ i → i ≤ high → (a i).isSome) (target : T) (less : T → T → σ → Bool × σ)
    (s : σ) :
    WithinBounds low high (binarySearchAscendingByReads a low high target less s) ∧
    WithinBounds low high (binarySearchDescendingByReads a low high target less s) ∧
    WithinBounds low high (binarySearchAscendingReads a low high target less s) ∧
    WithinBounds low high (binarySearchDescendingReads a low high target less s) := by
  have hloop (whenLess : Half) : WithinBounds low high
      (searchLoopReads a (probeWith less whenLess target) low high s) :=
    withinBounds_searchLoopReads (probeWith_le_two less whenLess target) hlow (by omega) hhigh ha s
  exact ⟨hloop .lower, hloop .upper, hloop .lower, hloop .upper⟩

/-- A comparison that says yes and no in turn, and an array with elements at
2, 3 and 4 only. -/
theorem binarySearch_withinBounds_turns :
    WithinBounds 2 4 (binarySearchAscendingByReads
      (fun i => if 2 ≤ i ∧ i ≤ 4 then some (7 : Nat) else none) 2 4 7
      (fun _ _ (s : Bool) => (s, !s)) true) := by
  have ha : ∀ i : Int, 2 ≤ i → i ≤ 4 →
      (if 2 ≤ i ∧ i ≤ 4 then some (7 : Nat) else none).isSome := by
    intro i hi hi'
    rw [if_pos ⟨hi, hi'⟩]
    rfl
  exact (binarySearch_withinBounds (by decide) (by decide) (by decide) ha 7
    (fun _ _ (s : Bool) => (s, !s)) true).1

end CppFastDevelop
