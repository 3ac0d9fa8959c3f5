import Mathlib.Algebra.GroupWithZero.Nat

/-!
# CppFastDevelop.Lib.BoundedFifo

A first-in first-out queue of bounded capacity whose elements have a
weight: the queue may hold any elements whose weights sum up to no more
than the capacity.  That they do is a field of the structure, so an
overfull queue cannot be built.
-/

/-- A queue of elements of `α` weighed by `weight`, of capacity `cap`. -/
structure BoundedFifo (α : Type) (weight : α → Nat) (cap : Nat) where
  items : List α
  fits : (items.map weight).sum ≤ cap

namespace BoundedFifo

variable {α : Type} {weight : α → Nat} {cap : Nat}

/-- The queue with nothing in it. -/
def empty : BoundedFifo α weight cap := ⟨[], by simp⟩

/-- The weight queued. -/
def load (q : BoundedFifo α weight cap) : Nat := (q.items.map weight).sum

/-- The weight that still fits. -/
def left (q : BoundedFifo α weight cap) : Nat := cap - q.load

/-- How an attempt to put an element ends. -/
inductive PutResult
  | tooBig
  | full
  | stored
  deriving DecidableEq, Repr

/-- Append `x`, unless it could never fit or does not fit now. -/
def put (q : BoundedFifo α weight cap) (x : α) : PutResult × BoundedFifo α weight cap :=
  if cap < weight x then (.tooBig, q)
  else if h : q.left < weight x then (.full, q)
  else (.stored, ⟨q.items ++ [x], by
    have hq := q.fits
    simp only [left, load] at h
    simp only [List.map_append, List.map_cons, List.map_nil, List.sum_append, List.sum_cons,
      List.sum_nil]
    omega⟩)

/-- Take the oldest element. -/
def get (q : BoundedFifo α weight cap) : Option α × BoundedFifo α weight cap :=
  match q with
  | ⟨[], h⟩ => (none, ⟨[], h⟩)
  | ⟨x :: xs, h⟩ => (some x, ⟨xs, by simp only [List.map_cons, List.sum_cons] at h; omega⟩)

/-! ## the operations, by cases -/

theorem load_add_left (q : BoundedFifo α weight cap) : q.left + q.load = cap := by
  have hq := q.fits
  simp only [left, load]
  omega

theorem put_tooBig {q : BoundedFifo α weight cap} {x : α} (h : cap < weight x) :
    q.put x = (.tooBig, q) := by
  rw [put, if_pos h]

theorem put_full {q : BoundedFifo α weight cap} {x : α} (hcap : weight x ≤ cap)
    (h : q.left < weight x) : q.put x = (.full, q) := by
  rw [put, if_neg (by omega), dif_pos h]

theorem put_stored {q : BoundedFifo α weight cap} {x : α} (h : weight x ≤ q.left) :
    (q.put x).1 = .stored ∧ (q.put x).2.items = q.items ++ [x] := by
  have hcap : weight x ≤ cap := by have := q.load_add_left; omega
  rw [put, if_neg (by omega), dif_neg (by omega)]
  exact ⟨rfl, rfl⟩

theorem put_tooBig_iff {q : BoundedFifo α weight cap} {x : α} :
    (q.put x).1 = .tooBig ↔ cap < weight x := by
  unfold put
  split
  · next hbig => exact iff_of_true rfl hbig
  · next hbig => split <;> exact iff_of_false nofun hbig

theorem items_of_put_stored {q : BoundedFifo α weight cap} {x : α} (h : (q.put x).1 = .stored) :
    (q.put x).2.items = q.items ++ [x] := by
  unfold put at h ⊢
  split at h
  · cases h
  · split at h
    · cases h
    · next hcap hleft => rw [if_neg hcap, dif_neg hleft]

theorem get_of_items_nil {q : BoundedFifo α weight cap} (h : q.items = []) :
    q.get = (none, q) := by
  obtain ⟨items, hfits⟩ := q
  cases h
  rfl

theorem get_of_items_cons {q : BoundedFifo α weight cap} {x : α} {xs : List α}
    (h : q.items = x :: xs) : q.get.1 = some x ∧ q.get.2.items = xs := by
  obtain ⟨items, hfits⟩ := q
  cases h
  exact ⟨rfl, rfl⟩

theorem items_of_get_some {q : BoundedFifo α weight cap} {x : α} (h : q.get.1 = some x) :
    q.items = x :: q.get.2.items := by
  obtain ⟨items, hfits⟩ := q
  cases items with
  | nil => cases h
  | cons y ys =>
      cases h
      rfl

end BoundedFifo
