import CppFastDevelop.ConcurrencyQueue.Def
import CppFastDevelop.Lib.Machine

/-!
# CppFastDevelop.ConcurrencyQueue.Find

`RawFastFindQueue` used by one caller that gets only what is there.  The
set keeps one entry for equal elements and `Get` erases it, so `Find`
answers for the queue exactly as long as no `Get` takes an element that is
queued again behind it (`find_iff_queued`).  Where one does, the set misses
an element, and the `Get` that takes that element throws.
-/

namespace CppFastDevelop

namespace RawFastFindQueue

open Exec Machine RawQueue

variable {α : Type} [DecidableEq α]

/-! ## calls one after the other -/

inductive Use (α : Type)
  | put (el : α)
  | get
  deriving DecidableEq, Repr

/-- One call, whether it returns or throws.  `Get` is called only on a queue
that is not empty. -/
def use (q : RawFastFindQueue α) : Use α → Option (RawFastFindQueue α)
  | .put el => some (finalState (put el q))
  | .get => if 0 < q.size then some (finalState (get q)) else none

/-- Nobody has stopped the queue. -/
structure Running (q : RawFastFindQueue α) : Prop where
  toPut : q.stopToPut = false
  toGet : q.stopToGet = false

/-- `Find` tells whether an element is queued. -/
def Finds (q : RawFastFindQueue α) : Prop := ∀ x, q.find x ≠ 0 ↔ x ∈ q.queue

/-- The queue finds what its set holds. -/
theorem find_ne_zero {q : RawFastFindQueue α} {x : α} : q.find x ≠ 0 ↔ x ∈ q.set := by
  grind [find]

/-! ## what a call does -/

/-- A call on a queue nobody stopped. -/
inductive Used (q : RawFastFindQueue α) : Use α → RawFastFindQueue α → Prop
  | put {el : α} {q' : RawFastFindQueue α} (hqueue : q'.queue = q.queue ++ [el])
      (hset : q'.set = insert el q.set) (hrunning : q'.Running) : Used q (.put el) q'
  | get {temp : α} {rest : List α} (hq : q.queue = temp :: rest) (hset : temp ∈ q.set) :
    Used q .get { q with queue := rest, set := q.set.erase temp }
  | throw {temp : α} {rest : List α} (hq : q.queue = temp :: rest) (hset : temp ∉ q.set) :
    Used q .get { q with queue := rest }

/-- A put to a running queue, by its two cases. -/
theorem put_apply {q : RawFastFindQueue α} (h : q.Running) (el : α) : put el q =
    if q.waitCount ≠ 0 then
      .ok true { q with
        queue := q.queue ++ [el], set := insert el q.set, waitCount := q.waitCount - 1 }
    else .ok false { q with queue := q.queue ++ [el], set := insert el q.set } := by
  by_cases hcount : q.waitCount ≠ 0
  · simp only [put, setInsert, bind_apply, get_apply, set_apply, pure_apply, throwIf_apply,
      modify_apply, h.toPut, Bool.false_eq_true, if_false, if_pos hcount]
  · simp only [put, setInsert, bind_apply, get_apply, set_apply, pure_apply, throwIf_apply,
      modify_apply, h.toPut, Bool.false_eq_true, if_false, if_neg hcount]

/-- `SetErase` throws for an element the set has lost, which is popped by
then. -/
theorem get_apply_cons {q : RawFastFindQueue α} (h : q.Running) {temp : α} {rest : List α}
    (hq : q.queue = temp :: rest) : get q =
      if temp ∈ q.set then
        .ok (some temp) { q with queue := rest, set := q.set.erase temp }
      else .error elementNotFound { q with queue := rest } := by
  by_cases hset : temp ∈ q.set
  · simp only [get, setErase, bind_apply, get_apply, set_apply, pure_apply, throwIf_apply, hq,
      h.toGet, Bool.false_eq_true, if_false, if_pos hset]
  · simp only [get, setErase, bind_apply, get_apply, set_apply, throw_apply, throwIf_apply, hq,
      h.toGet, Bool.false_eq_true, if_false, if_neg hset]

/-- Every use of a running queue does one of the things listed. -/
theorem used_of_use {q q' : RawFastFindQueue α} {a : Use α} (h : q.Running)
    (huse : use q a = some q') : Used q a q' := by
  cases a with
  | put el =>
      rw [use, put_apply h] at huse
      split at huse <;> cases huse <;> exact .put rfl rfl ⟨h.toPut, h.toGet⟩
  | get =>
      rw [use] at huse
      split at huse
      · next hsize =>
          obtain ⟨temp, rest, hq⟩ := List.exists_cons_of_length_pos hsize
          rw [get_apply_cons h hq] at huse
          split at huse
          · next hset => cases huse; exact .get hq hset
          · next hset => cases huse; exact .throw hq hset
      · cases huse

/-- A queue in use keeps running. -/
theorem running_use {q q' : RawFastFindQueue α} {a : Use α} (huse : use q a = some q')
    (h : q.Running) : q'.Running := by
  cases used_of_use h huse with
  | put _ _ hrunning => exact hrunning
  | get => exact ⟨h.toPut, h.toGet⟩
  | throw => exact ⟨h.toPut, h.toGet⟩

/-! ## the two containers -/

/-- The element a `Get` takes is not queued a second time. -/
def TakesLast (q : RawFastFindQueue α) (a : Use α) : Prop :=
  a = .get → ∀ temp rest, q.queue = temp :: rest → temp ∉ rest

/-- A call leaves the containers in step exactly if it takes no element that
is queued again. -/
theorem finds_use_iff {q q' : RawFastFindQueue α} {a : Use α} (huse : use q a = some q')
    (h : q.Running) (hfinds : q.Finds) : q'.Finds ↔ TakesLast q a := by
  simp only [Finds, find_ne_zero] at hfinds ⊢
  cases used_of_use h huse with
  | put hqueue hset _ =>
      refine iff_of_true (fun x => ?_) (fun hget => by cases hget)
      rw [hqueue, hset, Finset.mem_insert, hfinds, List.mem_append, List.mem_singleton, or_comm]
  | @get temp rest hq hset =>
      simp only [hq, List.mem_cons] at hfinds
      constructor
      · intro hstep _ temp' rest' hq'
        obtain ⟨rfl, rfl⟩ := List.cons.inj (hq.symm.trans hq')
        have htemp := hstep temp
        simp only [Finset.mem_erase, ne_eq, not_true_eq_false, false_and, false_iff] at htemp
        exact htemp
      · intro htakes x
        have hlast : temp ∉ rest := htakes rfl temp rest hq
        show x ∈ q.set.erase temp ↔ x ∈ rest
        grind
  | @throw temp rest hq hset => exact absurd ((hfinds temp).mpr (by simp [hq])) hset

/-! ## over a run -/

/-- **Exactly when `Find` can be relied on.**  In every state a sequence of
calls goes through `Find` tells whether an element is queued, if and only if
no `Get` of the sequence takes an element that is queued again behind it. -/
theorem find_iff_queued (as : List (Use α)) :
    (∀ bs, bs <+: as → ∀ q, run use construct bs = some q →
      ∀ x, q.find x ≠ 0 ↔ x ∈ q.queue) ↔ Along use TakesLast construct as :=
  forall_reached_iff_along (I := Finds) (J := Running) (fun _ _ _ => running_use)
    (fun _ _ _ => finds_use_iff) ⟨rfl, rfl⟩ (fun x => by simp [find, construct, RawQueue.construct])

/-- Two equal elements are queued; when one of them is taken, the other is
not found any more. -/
theorem not_find_iff_queued :
    ¬ ∀ (as : List (Use Nat)) (q : RawFastFindQueue Nat), run use construct as = some q →
      ∀ x, q.find x ≠ 0 ↔ x ∈ q.queue := by
  intro h
  have hfind := h [.put 1, .put 1, .get] _ rfl 1
  revert hfind
  decide

end RawFastFindQueue

end CppFastDevelop
