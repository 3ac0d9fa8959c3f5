import CppFastDevelop.Exception
import CppFastDevelop.Lib.Exec
import CppFastDevelop.Lib.LockedSignal
import Mathlib.Data.Finset.Max

/-!
# CppFastDevelop.ConcurrencySet.Def

`RawNotifySet` (`cf_concurrency_set.hpp`): a set whose `Pop` waits while it is
empty and takes the least element then.  `Pop` is cut at `_cond.Wait`: it
returns `none` when it goes to wait, and is entered at its loop condition
again when it has been woken.  `Insert` says whether it signals; it does so
before the mutex is released, whether or not the set has grown.

`StopInsert` and `StopInsertAndPop` write the flags without the mutex.
-/

namespace CppFastDevelop

open Exec Monitor LockedSignal

/-- `RawNotifySet`, without its condition variable. -/
structure RawNotifySet (α : Type) where
  set : Finset α
  stopToInsert : Bool
  stopToPop : Bool
  waitCount : Int32
  deriving DecidableEq

namespace RawNotifySet

variable {α : Type} [LinearOrder α]

/-- The constructor.  It leaves `_waitCount` as it is. -/
def construct (waitCount : Int32) : RawNotifySet α := ⟨∅, false, false, waitCount⟩

def stoppedToInsert : BaseException :=
  ⟨.setStopToInsertException, "This set has been stopped to insert!", []⟩

def stoppedToPop : BaseException :=
  ⟨.setStopToPopException, "This set has been stopped to pop!", []⟩

def emptyAndStoppedToPop : BaseException :=
  ⟨.setEmptyException, "This set is empty and stopped to pop!", []⟩

def emptySet : BaseException := ⟨.setEmptyException, "Set empty!", []⟩

/-- `Insert`: whether the element is new, and whether it signals. -/
def insert (x : α) : EStateM BaseException (RawNotifySet α) (Bool × Bool) := do
  let q ← MonadState.get
  throwIf q.stopToInsert stoppedToInsert
  MonadStateOf.set { q with set := Insert.insert x q.set }
  if q.waitCount ≠ 0 then
    modify fun q => { q with waitCount := q.waitCount - 1 }
    return (x ∉ q.set, true)
  else return (x ∉ q.set, false)

/-- `Erase`: how many elements it has removed. -/
def erase (x : α) (q : RawNotifySet α) : Nat × RawNotifySet α :=
  (if x ∈ q.set then 1 else 0, { q with set := q.set.erase x })

/-- `x =*_set.begin()`, and the element is erased. -/
def takeFirst (empty : BaseException) : EStateM BaseException (RawNotifySet α) α := do
  let q ← MonadState.get
  if h : q.set.Nonempty then
    MonadStateOf.set { q with set := q.set.erase (q.set.min' h) }
    return q.set.min' h
  else throw empty

/-- `Pop` from its loop condition on.  Where the set is empty after the loop
it has been stopped. -/
def pop : EStateM BaseException (RawNotifySet α) (Option α) := do
  let q ← MonadState.get
  if q.set = ∅ ∧ q.stopToPop = false then
    MonadStateOf.set { q with waitCount := q.waitCount + 1 }
    return none
  else
    throwIf q.stopToPop stoppedToPop
    let x ← takeFirst emptyAndStoppedToPop
    return some x

def tryPop : EStateM BaseException (RawNotifySet α) α := do
  let q ← MonadState.get
  throwIf q.stopToPop stoppedToPop
  takeFirst emptySet

def clear (q : RawNotifySet α) : RawNotifySet α := { q with set := ∅ }

def isEmpty (q : RawNotifySet α) : Bool := q.set = ∅

def size (q : RawNotifySet α) : Nat := q.set.card

/-! ## the calls as turns -/

/-- A call that takes the mutex. -/
inductive Request (α : Type)
  | insert (x : α)
  | erase (x : α)
  | pop
  | tryPop
  | clear
  | isEmpty
  | size
  deriving DecidableEq, Repr

/-- What is left of a stop request: the flag it writes next. -/
inductive Stopping
  | insert
  | insertAndPop
  | pop
  deriving DecidableEq, Repr

def stopInsert : Stopping := .insert

def stopInsertAndPop : Stopping := .insertAndPop

/-- One write of a stop request. -/
def writeFlag : Stopping → RawNotifySet α → RawNotifySet α × Option Stopping
  | .insert, q => ({ q with stopToInsert := true }, none)
  | .insertAndPop, q => ({ q with stopToInsert := true }, some .pop)
  | .pop, q => ({ q with stopToPop := true }, none)

inductive Answer (α : Type)
  | inserted (x : α) (new : Bool)
  | erased (n : Nat)
  | popped (x : α)
  | cleared
  | isEmpty (b : Bool)
  | size (n : Nat)
  | threw (e : BaseException)
  deriving DecidableEq, Repr

def insertTurn (x : α) : EStateM.Result BaseException (RawNotifySet α) (Bool × Bool) →
    RawNotifySet α × Turn Unit (Answer α)
  | .ok (new, true) q => (q, .done .one (.inserted x new))
  | .ok (new, false) q => (q, .done .none (.inserted x new))
  | .error e q => (q, .done .none (.threw e))

def popTurn : EStateM.Result BaseException (RawNotifySet α) (Option α) →
    RawNotifySet α × Turn Unit (Answer α)
  | .ok none q => (q, .wait ())
  | .ok (some x) q => (q, .done .none (.popped x))
  | .error e q => (q, .done .none (.threw e))

def tryPopTurn : EStateM.Result BaseException (RawNotifySet α) α →
    RawNotifySet α × Turn Unit (Answer α)
  | .ok x q => (q, .done .none (.popped x))
  | .error e q => (q, .done .none (.threw e))

/-- The critical sections of `RawNotifySet`. -/
def program : Program (RawNotifySet α) (Request α) Unit Unit (Answer α) where
  enter
    | .insert x, q => insertTurn x (insert x q)
    | .erase x, q => ((erase x q).2, .done .none (.erased (erase x q).1))
    | .pop, q => popTurn (pop q)
    | .tryPop, q => tryPopTurn (tryPop q)
    | .clear, q => (q.clear, .done .none .cleared)
    | .isEmpty, q => (q, .done .none (.isEmpty q.isEmpty))
    | .size, q => (q, .done .none (.size q.size))
  resume _ _ _ q := popTurn (pop q)

end RawNotifySet

end CppFastDevelop
