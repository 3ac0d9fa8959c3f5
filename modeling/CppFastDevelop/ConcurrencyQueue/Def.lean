import CppFastDevelop.Exception
import CppFastDevelop.Lib.Exec
import CppFastDevelop.Lib.LockedSignal
import Mathlib.Data.Finset.Basic

/-!
# CppFastDevelop.ConcurrencyQueue.Def

`RawQueue` and `RawFastFindQueue` (`cf_concurrency_queue.hpp`): a queue
whose `Get` waits while it is empty, and one that keeps a `std::set` of its
elements beside it.  `Get` is cut at `_cond.Wait`: it returns `none` when it
goes to wait, and is entered at its loop condition again when it has been
woken.  `Put` says whether it signals; it does so before the mutex is
released.

`StopPut` and `StopPutAndGet` write the flags without the mutex.
-/

namespace CppFastDevelop

open Exec Monitor LockedSignal

/-! ## RawQueue -/

/-- `RawQueue`, without its condition variable. -/
structure RawQueue (α : Type) where
  stopToPut : Bool
  stopToGet : Bool
  waitCount : Int32
  queue : List α
  deriving DecidableEq, Repr

namespace RawQueue

variable {α : Type}

/-- The constructor. -/
def construct : RawQueue α := ⟨false, false, 0, []⟩

def stoppedToGet : BaseException :=
  ⟨.queueStopToGetException, "This queue has been stopped to get from it!", []⟩

def emptyAndStoppedToPut : BaseException :=
  ⟨.queueEmptyAndStopToPutException, "This queue is empty and stopped to put!", []⟩

def stoppedToPut : BaseException :=
  ⟨.queueStopToPutException, "This queue has been stopped to put!", []⟩

/-- `Get` from its loop condition on. -/
def get : EStateM BaseException (RawQueue α) (Option α) := do
  let q ← MonadState.get
  match q.queue with
  | [] =>
    if q.stopToPut = false then
      set { q with waitCount := q.waitCount + 1 }
      return none
    else
      throwIf q.stopToGet stoppedToGet
      throw emptyAndStoppedToPut
  | temp :: rest =>
    throwIf q.stopToGet stoppedToGet
    set { q with queue := rest }
    return some temp

/-- `Put`, and whether it signals. -/
def put (el : α) : EStateM BaseException (RawQueue α) Bool := do
  let q ← MonadState.get
  throwIf q.stopToPut stoppedToPut
  set { q with queue := q.queue ++ [el] }
  if q.waitCount ≠ 0 then
    modify fun q => { q with waitCount := q.waitCount - 1 }
    return true
  else return false

def isEmpty (q : RawQueue α) : Bool := q.queue.isEmpty

def size (q : RawQueue α) : Nat := q.queue.length

/-! ### the calls as turns -/

/-- A call that takes the mutex. -/
inductive Request (α : Type)
  | get
  | put (el : α)
  | isEmpty
  | size
  deriving DecidableEq, Repr

/-- What is left of a stop request: the flag it writes next. -/
inductive Stopping
  | toGet
  | toPut
  deriving DecidableEq, Repr

def stopPut : Stopping := .toPut

def stopPutAndGet : Stopping := .toGet

/-- One write of a stop request. -/
def writeFlag : Stopping → RawQueue α → RawQueue α × Option Stopping
  | .toGet, q => ({ q with stopToGet := true }, some .toPut)
  | .toPut, q => ({ q with stopToPut := true }, none)

inductive Answer (α : Type)
  | got (el : α)
  | stored (el : α)
  | isEmpty (b : Bool)
  | size (n : Nat)
  | threw (e : BaseException)
  deriving DecidableEq, Repr

def getTurn : EStateM.Result BaseException (RawQueue α) (Option α) →
    RawQueue α × Turn Unit (Answer α)
  | .ok none q => (q, .wait ())
  | .ok (some el) q => (q, .done .none (.got el))
  | .error e q => (q, .done .none (.threw e))

def putTurn (el : α) : EStateM.Result BaseException (RawQueue α) Bool →
    RawQueue α × Turn Unit (Answer α)
  | .ok true q => (q, .done .one (.stored el))
  | .ok false q => (q, .done .none (.stored el))
  | .error e q => (q, .done .none (.threw e))

/-- The critical sections of `RawQueue`. -/
def program : Program (RawQueue α) (Request α) Unit Unit (Answer α) where
  enter
    | .get, q => getTurn (get q)
    | .put el, q => putTurn el (put el q)
    | .isEmpty, q => (q, .done .none (.isEmpty q.isEmpty))
    | .size, q => (q, .done .none (.size q.size))
  resume _ _ _ q := getTurn (get q)

end RawQueue

/-! ## RawFastFindQueue -/

/-- `RawFastFindQueue`, without its condition variable.  The order of the
`std::set` tells all elements apart. -/
structure RawFastFindQueue (α : Type) extends RawQueue α where
  set : Finset α

namespace RawFastFindQueue

variable {α : Type} [DecidableEq α]

open RawQueue

/-- The constructor. -/
def construct : RawFastFindQueue α := ⟨RawQueue.construct, ∅⟩

def elementNotFound : BaseException := ⟨.elementNotFoundInfo, "itFind==__set.end() !", []⟩

def setErase (temp : α) : EStateM BaseException (RawFastFindQueue α) Unit := do
  let q ← MonadState.get
  if temp ∈ q.set then MonadStateOf.set { q with set := q.set.erase temp }
  else throw elementNotFound

def setInsert (temp : α) : EStateM BaseException (RawFastFindQueue α) Unit :=
  modify fun q => { q with set := insert temp q.set }

/-- `Get` from its loop condition on. -/
def get : EStateM BaseException (RawFastFindQueue α) (Option α) := do
  let q ← MonadState.get
  match q.queue with
  | [] =>
    if q.stopToPut = false then
      MonadStateOf.set { q with waitCount := q.waitCount + 1 }
      return none
    else
      throwIf q.stopToGet stoppedToGet
      throw emptyAndStoppedToPut
  | temp :: rest =>
    throwIf q.stopToGet stoppedToGet
    MonadStateOf.set { q with queue := rest }
    setErase temp
    return some temp

/-- `Put`, and whether it signals. -/
def put (el : α) : EStateM BaseException (RawFastFindQueue α) Bool := do
  let q ← MonadState.get
  throwIf q.stopToPut stoppedToPut
  MonadStateOf.set { q with queue := q.queue ++ [el] }
  setInsert el
  if q.waitCount ≠ 0 then
    modify fun q => { q with waitCount := q.waitCount - 1 }
    return true
  else return false

/-- `_set.count(temp)`. -/
def find (q : RawFastFindQueue α) (temp : α) : Nat := if temp ∈ q.set then 1 else 0

end RawFastFindQueue

end CppFastDevelop
