import CppFastDevelop.Lib.Atomic
import Mathlib.Algebra.BigOperators.Group.Finset.Piecewise

/-!
# CppFastDevelop.Lib.Balance

What goes into an atomic object and what comes out of it.  Where every call
keeps the books, so does every history, once all of its calls have returned
(`Steps.covers`).
-/

namespace Atomic

variable {ι α C O : Type}

/-- What the answers of a history that have been returned weigh. -/
def returned (w : O → Nat) : List (Event ι C O) → Nat
  | [] => 0
  | .call _ _ :: h => returned w h
  | .ret _ o :: h => w o + returned w h

theorem returned_append (w : O → Nat) (h h' : List (Event ι C O)) :
    returned w (h ++ h') = returned w h + returned w h' := by
  induction h with
  | nil => rw [List.nil_append, returned, Nat.zero_add]
  | cons e h ih =>
      cases e with
      | call => exact ih
      | ret i o => rw [List.cons_append, returned, returned, ih, Nat.add_assoc]

theorem returned_add (w w' : O → Nat) (h : List (Event ι C O)) :
    returned (fun o => w o + w' o) h = returned w h + returned w' h := by
  induction h with
  | nil => rfl
  | cons e h ih =>
      cases e with
      | call => exact ih
      | ret i o => rw [returned, returned, returned, ih]; omega

/-- What has been answered and is not returned yet. -/
def Place.owed (w : O → Nat) : Place C O → Nat
  | .answered o => w o
  | _ => 0

section Owed

variable [Fintype ι]

def Object.owed (w : O → Nat) (a : Object ι α C O) : Nat := ∑ i, (a.place i).owed w

theorem Object.owed_fresh (w : O → Nat) (v : α) : (fresh v : Object ι α C O).owed w = 0 :=
  Finset.sum_const_zero

theorem Object.owed_of_idle {w : O → Nat} {a : Object ι α C O} (h : ∀ i, a.place i = .idle) :
    a.owed w = 0 := by
  refine Finset.sum_eq_zero fun i _ => ?_
  rw [h i]
  rfl

variable [DecidableEq ι]

/-- One caller goes on. -/
theorem Object.owed_move (w : O → Nat) (a : Object ι α C O) (i : ι) (p : Place C O) (v : α) :
    (a.move i p v).owed w + (a.place i).owed w = a.owed w + p.owed w := by
  have hupdate : (fun j => (Function.update a.place i p j).owed w) =
      Function.update (fun j => (a.place j).owed w) i (p.owed w) :=
    funext fun j => Function.apply_update (fun _ q => q.owed w) a.place i p j
  have hsplit := Finset.sum_erase_add Finset.univ (fun j => (a.place j).owed w) (Finset.mem_univ i)
  have hmoved := Finset.sum_update_of_mem (Finset.mem_univ i) (fun j => (a.place j).owed w)
    (p.owed w)
  rw [← Finset.erase_eq] at hmoved
  unfold owed
  rw [move_place, hupdate, hmoved, ← hsplit]
  omega

/-- What a call gives out is covered by what it takes in and what the object
holds. -/
def Covers (S : Spec α C O) (holds : α → Nat) (takes gives : O → Nat) : Prop :=
  ∀ v c o v', S v c o v' → holds v' + gives o ≤ holds v + takes o

variable {S : Spec α C O} {holds : α → Nat} {takes gives : O → Nat}

/-- What is given out by the callers of an object is covered. -/
theorem Steps.covers_owed (hS : Covers S holds takes gives) {v : α} {b : Object ι α C O}
    {h : List (Event ι C O)} (hsteps : Steps S (.fresh v) h b) :
    holds b.value + (returned gives h + b.owed gives) ≤
      holds v + (returned takes h + b.owed takes) := by
  induction hsteps with
  | refl =>
      rw [Object.owed_fresh, Object.owed_fresh]
      exact Nat.le_refl _
  | @tail b c h es _ hstep ih =>
      cases hstep with
      | @call i c hi =>
          have hgives := b.owed_move gives i (.called c) b.value
          have htakes := b.owed_move takes i (.called c) b.value
          simp only [hi, Place.owed] at hgives htakes
          simp only [returned_append, returned, Object.move_value]
          omega
      | @act i c o v' hi hv =>
          have hgives := b.owed_move gives i (.answered o) v'
          have htakes := b.owed_move takes i (.answered o) v'
          have hcall := hS _ _ _ _ hv
          simp only [hi, Place.owed] at hgives htakes
          simp only [returned_append, returned, Object.move_value]
          omega
      | @ret i o hi =>
          have hgives := b.owed_move gives i .idle b.value
          have htakes := b.owed_move takes i .idle b.value
          simp only [hi, Place.owed] at hgives htakes
          simp only [returned_append, returned, Object.move_value]
          omega

/-- **The books are kept**: what a history has given out is covered by what it
has taken in, once all calls have returned. -/
theorem Steps.covers (hS : Covers S holds takes gives) {v : α} {b : Object ι α C O}
    {h : List (Event ι C O)} (hsteps : Steps S (.fresh v) h b) (hidle : ∀ i, b.place i = .idle) :
    holds b.value + returned gives h ≤ holds v + returned takes h := by
  have hcovers := hsteps.covers_owed hS
  rwa [Object.owed_of_idle hidle, Object.owed_of_idle hidle, Nat.add_zero, Nat.add_zero] at hcovers

end Owed

end Atomic
