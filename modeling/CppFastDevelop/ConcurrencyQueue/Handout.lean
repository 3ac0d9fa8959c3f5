import CppFastDevelop.ConcurrencyQueue.Find
import CppFastDevelop.ConcurrencyQueue.Wakeups

/-!
# CppFastDevelop.ConcurrencyQueue.Handout

`RawFastFindQueue` against `RawQueue`.  Both answer a sequence of `Put` and
`Get` alike until a `Get` takes an element that the set has lost: the element
is popped by the time `SetErase` throws, so nobody gets it.  The set has lost
an element if no equal one has been put since an equal one was taken.
-/

namespace CppFastDevelop

open Exec Machine RawQueue

variable {α : Type}

/-! ## calls and answers -/

/-- How a call of `Get` ends; `none` is a caller that goes to wait. -/
def getAnswer {σ : Type} :
    EStateM.Result BaseException σ (Option α) → Option (RawQueue.Answer α) × σ
  | .ok none q => (none, q)
  | .ok (some el) q => (some (.got el), q)
  | .error e q => (some (.threw e), q)

def putAnswer {σ : Type} (el : α) :
    EStateM.Result BaseException σ Bool → Option (RawQueue.Answer α) × σ
  | .ok _ q => (some (.stored el), q)
  | .error e q => (some (.threw e), q)

/-- A call of a queue, or what a woken caller of `Get` goes on with. -/
def RawQueue.serve (q : RawQueue α) :
    RawFastFindQueue.Use α → Option (RawQueue.Answer α) × RawQueue α
  | .put el => putAnswer el (RawQueue.put el q)
  | .get => getAnswer (RawQueue.get q)

def putOf : RawFastFindQueue.Use α → Option α
  | .put el => some el
  | .get => none

def gotOf : Option (RawQueue.Answer α) → Option α
  | some (.got el) => some el
  | _ => none

namespace RawFastFindQueue

variable [DecidableEq α]

def serve (q : RawFastFindQueue α) : Use α → Option (RawQueue.Answer α) × RawFastFindQueue α
  | .put el => putAnswer el (put el q)
  | .get => getAnswer (get q)

/-- What `RawQueue` does for the same calls: the same answers; what was put is
what was got and what is still queued, in this order; and a `Get` that throws
leaves the queue as it was. -/
structure HandsOut (as : List (Use α)) : Prop where
  answers : answers serve construct as = answers RawQueue.serve RawQueue.construct as
  returned : ∀ bs, bs <+: as → bs.filterMap putOf =
    (Machine.answers serve construct bs).filterMap gotOf ++ (after serve construct bs).queue
  unchanged : ∀ bs, bs ++ [.get] <+: as → ∀ e q,
    serve (after serve construct bs) .get = (some (.threw e), q) → q = after serve construct bs

/-- The calls one after the other, as a machine. -/
def step (q : RawFastFindQueue α) (a : Use α) : Option (RawFastFindQueue α) := some (serve q a).2

/-- The element a `Get` takes is found in the set. -/
def TakesFound (q : RawFastFindQueue α) (a : Use α) : Prop :=
  a = .get → ∀ temp, q.queue.head? = some temp → q.find temp ≠ 0

/-! ## one call -/

section Call

variable {q : RawFastFindQueue α} (h : q.Running)

include h

theorem serve_put (el : α) : serve q (.put el) = (some (.stored el), { q with
    queue := q.queue ++ [el]
    set := insert el q.set
    waitCount := if q.waitCount ≠ 0 then q.waitCount - 1 else q.waitCount }) := by
  rw [serve, put_apply h]
  split <;> rfl

theorem serve_get_nil (hq : q.queue = []) :
    serve q .get = (none, { q with waitCount := q.waitCount + 1 }) := by
  simp [serve, get, getAnswer, bind_apply, map_apply, hq, h.toPut]

theorem serve_get_cons {temp : α} {rest : List α} (hq : q.queue = temp :: rest) :
    serve q .get = if temp ∈ q.set then
        (some (.got temp), { q with queue := rest, set := q.set.erase temp })
      else (some (.threw elementNotFound), { q with queue := rest }) := by
  rw [serve, get_apply_cons h hq]
  split <;> rfl

omit [DecidableEq α] in
theorem serve_put_toRawQueue (el : α) :
    RawQueue.serve q.toRawQueue (.put el) = (some (.stored el), { q.toRawQueue with
      queue := q.queue ++ [el]
      waitCount := if q.waitCount ≠ 0 then q.waitCount - 1 else q.waitCount }) := by
  by_cases hcount : q.waitCount = 0 <;>
    simp [RawQueue.serve, RawQueue.put, putAnswer, bind_apply, map_apply, h.toPut, hcount]

omit [DecidableEq α] in
theorem serve_get_nil_toRawQueue (hq : q.queue = []) :
    RawQueue.serve q.toRawQueue .get =
      (none, { q.toRawQueue with waitCount := q.waitCount + 1 }) := by
  simp [RawQueue.serve, RawQueue.get, getAnswer, bind_apply, map_apply, hq, h.toPut]

omit [DecidableEq α] in
theorem serve_get_cons_toRawQueue {temp : α} {rest : List α} (hq : q.queue = temp :: rest) :
    RawQueue.serve q.toRawQueue .get =
      (some (.got temp), { q.toRawQueue with queue := rest }) := by
  simp [RawQueue.serve, RawQueue.get, getAnswer, bind_apply, map_apply, hq, h.toGet]

theorem running_serve (a : Use α) : (serve q a).2.Running := by
  cases a with
  | put el => rw [serve_put h]; exact ⟨h.toPut, h.toGet⟩
  | get => cases hq : q.queue with
    | nil => rw [serve_get_nil h hq]; exact ⟨h.toPut, h.toGet⟩
    | cons temp rest =>
        rw [serve_get_cons h hq]
        split <;> exact ⟨h.toPut, h.toGet⟩

omit h in
theorem takesFound_get_cons {temp : α} {rest : List α} (hq : q.queue = temp :: rest) :
    TakesFound q .get ↔ temp ∈ q.set := by
  simp [TakesFound, hq, find]

/-- A call answers as `RawQueue` does exactly if it does not take an element
that the set has lost, and then the queues stay alike. -/
theorem serve_eq_iff (a : Use α) :
    ((serve q a).1 = (RawQueue.serve q.toRawQueue a).1 ↔ TakesFound q a) ∧
      (TakesFound q a → (serve q a).2.toRawQueue = (RawQueue.serve q.toRawQueue a).2) := by
  cases a with
  | put el =>
      rw [serve_put h, serve_put_toRawQueue h]
      exact ⟨iff_of_true rfl nofun, fun _ => rfl⟩
  | get => cases hq : q.queue with
    | nil =>
        rw [serve_get_nil h hq, serve_get_nil_toRawQueue h hq]
        exact ⟨iff_of_true rfl fun _ => by simp [hq], fun _ => rfl⟩
    | cons temp rest =>
        rw [serve_get_cons h hq, serve_get_cons_toRawQueue h hq, takesFound_get_cons hq]
        split
        · next hset => exact ⟨iff_of_true rfl hset, fun _ => rfl⟩
        · next hset => exact ⟨iff_of_false (by simp) hset, fun hin => absurd hin hset⟩

end Call

/-! ## sequences of calls -/

/-- The two queues answer alike for as long as every element taken is found. -/
theorem answers_eq_iff {q : RawFastFindQueue α} (h : q.Running) (as : List (Use α)) :
    answers serve q as = answers RawQueue.serve q.toRawQueue as ↔ Along step TakesFound q as := by
  induction as generalizing q with
  | nil => exact iff_of_true rfl trivial
  | cons a as ih =>
      obtain ⟨hanswer, hqueue⟩ := serve_eq_iff h a
      have hrest := ih (running_serve h a)
      rw [answers, answers, List.cons.injEq, hanswer, Along]
      simp only [step, Option.some.injEq, forall_eq']
      refine and_congr_right fun hfound => ?_
      rw [← hqueue hfound, hrest]

/-- Along such a sequence every element is queued until it is returned. -/
theorem returned_of_along {q : RawFastFindQueue α} (h : q.Running) {as : List (Use α)}
    (halong : Along step TakesFound q as) : q.queue ++ as.filterMap putOf =
      (answers serve q as).filterMap gotOf ++ (after serve q as).queue := by
  induction as generalizing q with
  | nil => simp [answers, after]
  | cons a as ih =>
      obtain ⟨hfound, hrest⟩ := halong _ rfl
      have hnext := ih (running_serve h a) hrest
      rw [answers, after]
      cases a with
      | put el =>
          rw [serve_put h] at hnext ⊢
          simpa [List.filterMap_cons, putOf, gotOf] using hnext
      | get => cases hq : q.queue with
        | nil =>
            rw [serve_get_nil h hq] at hnext ⊢
            simpa [List.filterMap_cons, putOf, gotOf, hq] using hnext
        | cons temp rest =>
            rw [serve_get_cons h hq, if_pos ((takesFound_get_cons hq).mp hfound)] at hnext ⊢
            simpa [List.filterMap_cons, putOf, gotOf] using hnext

/-- The condition holds of the call that ends a part of the sequence. -/
theorem takesFound_of_along {q : RawFastFindQueue α} {bs : List (Use α)} {a : Use α}
    (halong : Along step TakesFound q (bs ++ [a])) : TakesFound (after serve q bs) a := by
  induction bs generalizing q with
  | nil => exact (halong _ rfl).1
  | cons b bs ih => exact ih (halong _ rfl).2

/-- A queue in use keeps running. -/
theorem running_after {q : RawFastFindQueue α} (h : q.Running) (as : List (Use α)) :
    (after serve q as).Running :=
  after_invariant (fun _ => True) Running (fun _ a _ hq => running_serve hq a)
    (fun _ _ => trivial) h

/-- A `Get` that finds what it takes does not throw. -/
theorem serve_get_ne_threw {q : RawFastFindQueue α} (h : q.Running) (hfound : TakesFound q .get)
    (e : BaseException) : (serve q .get).1 ≠ some (.threw e) := by
  cases hq : q.queue with
  | nil => rw [serve_get_nil h hq]; exact nofun
  | cons temp rest =>
      rw [serve_get_cons h hq, if_pos ((takesFound_get_cons hq).mp hfound)]
      exact nofun

/-- **Exactly when the set loses nothing.**  For a sequence of `Put` and
`Get`, `RawFastFindQueue` does what `RawQueue` does if and only if every `Get`
that takes an element finds it in the set. -/
theorem handsOut_iff (as : List (Use α)) :
    HandsOut as ↔ Along step TakesFound construct as := by
  have hrunning : (construct : RawFastFindQueue α).Running := ⟨rfl, rfl⟩
  constructor
  · intro h
    exact (answers_eq_iff hrunning as).mp h.answers
  · intro h
    refine ⟨(answers_eq_iff hrunning as).mpr h, fun bs hbs => ?_, fun bs hbs e q hthrew => ?_⟩
    · exact returned_of_along hrunning (h.of_prefix hbs)
    · have hfound : TakesFound (after serve construct bs) .get :=
        takesFound_of_along (h.of_prefix hbs)
      have hne := serve_get_ne_threw (running_after hrunning bs) hfound e
      rw [hthrew] at hne
      exact absurd rfl hne

/-- The second of two equal elements is lost. -/
theorem not_handsOut : ¬ ∀ as : List (Use Nat), HandsOut as := by
  intro h
  have hanswers := (h [.put 1, .put 1, .get, .get]).answers
  revert hanswers
  decide

end RawFastFindQueue

end CppFastDevelop
