import CppFastDevelop.Exception
import CppFastDevelop.Lib.Balance
import CppFastDevelop.Lib.Exec
import CppFastDevelop.Lib.ReadersWriter
import Mathlib.Data.Finset.Max

/-!
# CppFastDevelop.ConcurrencySet.RawSet

`RawSet` (`cf_concurrency_set.hpp`) called by many threads under the two sides
of one readers-writer lock.  `Pop` looks whether the set is empty, asks for
its first element, reads it and erases it, and between any two of these the
other threads take their steps.

The callers see a set that carries out each call at one moment
(`operations_linearizable`).  So no element is lost and none is handed out
twice: what the callers were told of every element adds up
(`elements_accounted`).
-/

namespace CppFastDevelop

open Exec Machine ReadersWriter
open Atomic (Event Spec Linearizes returned)

/-- The set, in the order of its elements. -/
structure RawSet (α : Type) where
  set : Finset α
  deriving DecidableEq

namespace RawSet

variable {α : Type}

/-! ## the functions -/

def construct : RawSet α := ⟨∅⟩

def isEmpty [DecidableEq α] (s : RawSet α) : Bool := s.set = ∅

def size (s : RawSet α) : Nat := s.set.card

/-- `Find`: whether the iterator it returns is that of an element. -/
def find [DecidableEq α] (x : α) (s : RawSet α) : Bool := x ∈ s.set

/-- `Insert`: whether the element is new. -/
def insert [DecidableEq α] (x : α) (s : RawSet α) : Bool × RawSet α :=
  (x ∉ s.set, ⟨Insert.insert x s.set⟩)

/-- `Erase`: how many elements it has removed. -/
def erase [DecidableEq α] (x : α) (s : RawSet α) : Nat × RawSet α :=
  (if x ∈ s.set then 1 else 0, ⟨s.set.erase x⟩)

def emptySet : BaseException := ⟨.setEmptyException, "Set empty!", []⟩

def pop [LinearOrder α] : EStateM BaseException (RawSet α) α := do
  let s ← MonadState.get
  if h : s.set.Nonempty then
    MonadStateOf.set (s.erase (s.set.min' h)).2
    return s.set.min' h
  else throw emptySet

def clear (_ : RawSet α) : RawSet α := ⟨∅⟩

/-! ## calls -/

inductive Request (α : Type)
  | isEmpty
  | size
  | find (x : α)
  | insert (x : α)
  | erase (x : α)
  | pop
  | clear
  deriving DecidableEq, Repr

/-- What a function returns or throws; what comes of an iterator that leads to
no element is `dangling`. -/
inductive Answer (α : Type)
  | isEmpty (b : Bool)
  | size (n : Nat)
  | found (x : α) (b : Bool)
  | inserted (x : α) (new : Bool)
  | erased (x : α) (n : Nat)
  | popped (x : α)
  | cleared
  | threw (e : BaseException)
  | dangling
  deriving DecidableEq, Repr

/-- The side of the lock that the guard takes. -/
def Request.kind : Request α → Kind
  | .isEmpty | .size | .find _ => .read
  | .insert _ | .erase _ | .pop | .clear => .write

/-- What a call does next to the set.  An iterator is the element it leads to,
or `none` for `end()`. -/
inductive Access (α : Type)
  | call (c : Request α)
  | begin
  | read (it : Option α)
  | eraseAt (x : α)
  deriving DecidableEq, Repr

variable [LinearOrder α]

def access (s : RawSet α) : Access α → RawSet α × (Access α ⊕ Answer α)
  | .call .isEmpty => (s, .inr (.isEmpty s.isEmpty))
  | .call .size => (s, .inr (.size s.size))
  | .call (.find x) => (s, .inr (.found x (s.find x)))
  | .call (.insert x) => ((s.insert x).2, .inr (.inserted x (s.insert x).1))
  | .call (.erase x) => ((s.erase x).2, .inr (.erased x (s.erase x).1))
  | .call .pop => (s, if s.isEmpty then .inr (.threw emptySet) else .inl .begin)
  | .call .clear => (s.clear, .inr .cleared)
  | .begin => (s, .inl (.read (if h : s.set.Nonempty then some (s.set.min' h) else none)))
  | .read none => (s, .inr .dangling)
  | .read (some x) => (s, if x ∈ s.set then .inl (.eraseAt x) else .inr .dangling)
  | .eraseAt x =>
    if x ∈ s.set then ((s.erase x).2, .inr (.popped x)) else (s, .inr .dangling)

def program (α : Type) [LinearOrder α] : Program (RawSet α) (Request α) (Access α) (Answer α) where
  kind := Request.kind
  enter := .call
  access := fun a s => s.access a

/-! ## calls at one moment -/

/-- The call, with nobody else around. -/
def apply (s : RawSet α) : Request α → Answer α × RawSet α
  | .isEmpty => (.isEmpty s.isEmpty, s)
  | .size => (.size s.size, s)
  | .find x => (.found x (s.find x), s)
  | .insert x => (.inserted x (s.insert x).1, (s.insert x).2)
  | .erase x => (.erased x (s.erase x).1, (s.erase x).2)
  | .pop => match pop s with
    | .ok x s' => (.popped x, s')
    | .error e s' => (.threw e, s')
  | .clear => (.cleared, s.clear)

def atOnce (α : Type) [LinearOrder α] : Spec (RawSet α) (Request α) (Answer α) :=
  fun s c o s' => s.apply c = (o, s')

/-- What a call has made of the set so far. -/
inductive Mid : Request α → RawSet α → Access α → RawSet α → Prop
  | start (c : Request α) (s : RawSet α) : Mid c s (.call c) s
  | toBegin {s : RawSet α} (h : s.set.Nonempty) : Mid .pop s .begin s
  | toRead {s : RawSet α} (h : s.set.Nonempty) : Mid .pop s (.read (some (s.set.min' h))) s
  | toErase {s : RawSet α} (h : s.set.Nonempty) : Mid .pop s (.eraseAt (s.set.min' h)) s

theorem apply_pop_of_nonempty {s : RawSet α} (h : s.set.Nonempty) :
    s.apply .pop = (.popped (s.set.min' h), (s.erase (s.set.min' h)).2) := by
  simp [apply, pop, bind_apply, map_apply, h]

theorem apply_pop_of_empty {s : RawSet α} (h : s.set = ∅) :
    s.apply .pop = (.threw emptySet, s) := by
  simp [apply, pop, bind_apply, h]

/-- Every access of a call, from the one before it. -/
theorem implements : Implements (program α) (atOnce α) (· = ·) Mid where
  enter := by
    rintro c s _ rfl
    exact .start c s
  access := by
    intro c v l s hmid
    cases hmid with
    | start =>
        cases c with
        | isEmpty | size | find x => exact ⟨v, rfl, rfl, fun _ => ⟨rfl, rfl⟩⟩
        | insert x | erase x | clear => exact ⟨_, rfl, rfl, fun hkind => by cases hkind⟩
        | pop =>
            rcases v.set.eq_empty_or_nonempty with h | h
            · simp only [program, access, isEmpty, h, decide_true, if_true]
              exact ⟨v, apply_pop_of_empty h, rfl, fun _ => ⟨rfl, rfl⟩⟩
            · simp only [program, access, isEmpty, h.ne_empty, decide_false, Bool.false_eq_true,
                if_false]
              exact ⟨.toBegin h, fun _ => rfl⟩
    | toBegin h =>
        simp only [program, access, dif_pos h]
        exact ⟨.toRead h, fun _ => rfl⟩
    | toRead h =>
        simp only [program, access, if_pos (v.set.min'_mem h)]
        exact ⟨.toErase h, fun _ => rfl⟩
    | toErase h =>
        simp only [program, access, if_pos (v.set.min'_mem h)]
        exact ⟨_, apply_pop_of_nonempty h, rfl, fun hkind => by cases hkind⟩

/-! ## elements -/

/-- `Insert` said that the element was new. -/
def Answer.insertions (x : α) : Answer α → Nat
  | .inserted y true => if y = x then 1 else 0
  | _ => 0

/-- `Pop` handed the element out, or `Erase` said that it was removed. -/
def Answer.removals (x : α) : Answer α → Nat
  | .popped y => if y = x then 1 else 0
  | .erased y n => if y = x then n else 0
  | _ => 0

def Answer.clearings : Answer α → Nat
  | .cleared => 1
  | _ => 0

/-- Whether the element is there, as a number. -/
def holds (x : α) (s : RawSet α) : Nat := if x ∈ s.set then 1 else 0

/-- The first element is one of the set's. -/
theorem eq_popped {s s' : RawSet α} {o : Answer α} (h : s.apply .pop = (o, s')) :
    (∃ y ∈ s.set, o = .popped y ∧ s' = (s.erase y).2) ∨ o = .threw emptySet ∧ s' = s := by
  rcases s.set.eq_empty_or_nonempty with hs | hs
  · rw [apply_pop_of_empty hs] at h
    cases h
    exact .inr ⟨rfl, rfl⟩
  · rw [apply_pop_of_nonempty hs] at h
    cases h
    exact .inl ⟨_, s.set.min'_mem hs, rfl, rfl⟩

/-- An element is gone once it is erased. -/
theorem holds_erase (x y : α) (s : RawSet α) :
    (s.erase y).2.holds x = if y = x then 0 else s.holds x := by
  by_cases h : y = x
  · simp [holds, erase, h]
  · simp [holds, erase, h, Ne.symm h]

/-- An element is there once it is inserted. -/
theorem holds_insert (x y : α) (s : RawSet α) :
    (s.insert y).2.holds x = if y = x then 1 else s.holds x := by
  by_cases h : y = x
  · simp [holds, insert, h]
  · simp [holds, insert, h, Ne.symm h]

/-- A set holds an element once at most. -/
theorem holds_le_one (x : α) (s : RawSet α) : s.holds x ≤ 1 := by
  unfold holds
  split <;> omega

/-- An insertion counts where the element was not there. -/
theorem insertions_insert (x y : α) (s : RawSet α) :
    (Answer.inserted y (s.insert y).1).insertions x = if y = x then 1 - s.holds y else 0 := by
  by_cases h : y ∈ s.set <;> simp [insert, Answer.insertions, holds, h]

/-- An erasure counts where the element was there. -/
theorem removals_erase (x y : α) (s : RawSet α) :
    (Answer.erased y (s.erase y).1).removals x = if y = x then s.holds y else 0 := rfl

/-- What a call says of an element is what it does to it. -/
theorem holds_apply (x : α) {s s' : RawSet α} {c : Request α} {o : Answer α}
    (h : s.apply c = (o, s')) :
    s'.holds x + o.removals x ≤ s.holds x + o.insertions x ∧
      s.holds x + o.insertions x ≤ s'.holds x + o.removals x + o.clearings := by
  cases c with
  | isEmpty | size | find y =>
      cases h
      exact ⟨Nat.le_refl _, Nat.le_refl _⟩
  | insert y =>
      cases h
      rw [holds_insert, insertions_insert]
      simp only [Answer.removals, Answer.clearings]
      split
      · next hy => rw [hy]; have hle := s.holds_le_one x; omega
      · omega
  | erase y =>
      cases h
      rw [holds_erase, removals_erase]
      simp only [Answer.insertions, Answer.clearings]
      split
      · next hy => rw [hy]; omega
      · omega
  | pop =>
      obtain ⟨y, hy, rfl, rfl⟩ | ⟨rfl, rfl⟩ := eq_popped h
      · rw [holds_erase]
        simp only [Answer.insertions, Answer.removals, Answer.clearings]
        split
        · next hyx => rw [← hyx, holds, if_pos hy]; omega
        · omega
      · exact ⟨Nat.le_refl _, Nat.le_refl _⟩
  | clear =>
      cases h
      have hle := s.holds_le_one x
      have hnone : s.clear.holds x = 0 := rfl
      rw [hnone]
      simp only [Answer.insertions, Answer.removals, Answer.clearings]
      omega

/-- What a removal answers it has taken out of the set. -/
theorem covers_removals (x : α) : Atomic.Covers (atOnce α) (holds x) (Answer.insertions x)
    (Answer.removals x) :=
  fun _ _ _ _ happly => (holds_apply x happly).1

/-- There is room for one of each element. -/
theorem covers_insertions (x : α) : Atomic.Covers (atOnce α) (fun s => 1 - s.holds x)
    (fun o => o.removals x + o.clearings) (Answer.insertions x) := by
  intro s c o s' happly
  have hle := s.holds_le_one x
  have hle' := s'.holds_le_one x
  have hcall := (holds_apply x happly).2
  show (1 - s'.holds x) + o.insertions x ≤ (1 - s.holds x) + (o.removals x + o.clearings)
  omega

/-! ## runs -/

section Runs

variable {ι : Type} [DecidableEq ι] [Fintype ι] {ls : List (Label ι (Request α))}
  {h : List (Event ι (Request α) (Answer α))}
  {s : State ι (RawSet α) (Request α) (Access α) (Answer α)}

/-- What the callers see is what they would see of a set that carries out
each call at one moment. -/
theorem operations_linearizable
    (hrun : run (recorded (ReadersWriter.step (program α)) observe) (.fresh construct, []) ls =
      some (s, h)) :
    ∃ s', Linearizes (atOnce α) construct h s' ∧ (¬ s.Writing → s.mem = s') :=
  linearizable implements rfl hrun

/-- **Nothing is lost and nothing is handed out twice.**  When all calls have
returned, every element was said to be new as often as it was handed out or
erased, and once more if it is still in the set; a `Clear` accounts for one at
the most. -/
theorem elements_accounted
    (hrun : run (recorded (ReadersWriter.step (program α)) observe) (.fresh construct, []) ls =
      some (s, h)) (hidle : ∀ i, s.pc i = .idle) (x : α) :
    s.mem.holds x + returned (Answer.removals x) h ≤ returned (Answer.insertions x) h ∧
      returned (Answer.insertions x) h ≤
        s.mem.holds x + returned (Answer.removals x) h + returned Answer.clearings h := by
  obtain ⟨a, hsteps, hplace, hmem⟩ := steps_of_idle implements rfl hrun hidle
  have hout := hsteps.covers (covers_removals x) hplace
  have hin := hsteps.covers (covers_insertions x) hplace
  have hfirst : (construct : RawSet α).holds x = 0 := rfl
  have hle := s.mem.holds_le_one x
  rw [← hmem, hfirst] at hout
  rw [← hmem, hfirst, Atomic.returned_add] at hin
  omega

end Runs

/-- Two threads that pop from a set with one element: the second looks when
the first has the lock. -/
def twoPops {ι : Type} (i j : ι) : List (Label ι (Request Nat)) :=
  [.call i (.insert 5), .acquire i, .access i, .release i, .ret i, .call i .pop, .call j .pop,
    .acquire j, .access j, .access j, .access j, .access j, .release j, .acquire i, .access i,
    .ret j, .release i, .ret i]

theorem elements_accounted_twoPops : ∃ s h,
    run (recorded (ReadersWriter.step (program Nat)) observe) (.fresh construct, [])
        (twoPops (0 : Fin 2) 1) = some (s, h) ∧
      s.mem.holds 5 + returned (Answer.removals 5) h ≤ returned (Answer.insertions 5) h ∧
      returned (Answer.insertions 5) h ≤
        s.mem.holds 5 + returned (Answer.removals 5) h + returned Answer.clearings h := by
  have hrun : run (recorded (ReadersWriter.step (program Nat)) observe) (.fresh construct, [])
      (twoPops (0 : Fin 2) 1) = some (_, _) := rfl
  exact ⟨_, _, hrun, elements_accounted hrun (Fin.forall_fin_two.mpr ⟨rfl, rfl⟩) 5⟩

end RawSet

end CppFastDevelop
