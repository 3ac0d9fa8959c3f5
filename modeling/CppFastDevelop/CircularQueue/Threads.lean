import CppFastDevelop.CircularQueue.Refinement
import CppFastDevelop.Lib.Monitor

/-!
# CppFastDevelop.CircularQueue.Threads

Callers of one circular queue, in any number, each through a handle of its
own.  Their critical sections, their `Wait`s, and the `Signal` or
`Broadcast` each issues after releasing the mutex interleave as
`Lib.Monitor` has it; this module says what a critical section is, and what
it does to a memory that holds a queue.
-/

namespace CppFastDevelop

open Exec Machine Monitor

/-! ## calls and their turns -/

/-- A call of a thread; `Put` and `TryPut`, `Get` and `TryGet` are the timed
calls with a negative and with no time-out. -/
inductive Request
  | timedPut (self : CircularQueue) (p : Payload) (timeoutMilliseconds : Int32) (start : Int64)
      (env : Environment)
  | timedGet (self : CircularQueue) (data : Str) (timeoutMilliseconds : Int32) (start : Int64)
      (env : Environment)
  | stopPut (self : CircularQueue) (env : Environment)
  | stopPutAndGet (self : CircularQueue) (env : Environment)

namespace Request

def put (self : CircularQueue) (p : Payload) (env : Environment) : Request :=
  timedPut self p (-1) 0 env

def tryPut (self : CircularQueue) (p : Payload) (env : Environment) : Request :=
  timedPut self p 0 0 env

def get (self : CircularQueue) (data : Str) (env : Environment) : Request :=
  timedGet self data (-1) 0 env

def tryGet (self : CircularQueue) (data : Str) (env : Environment) : Request :=
  timedGet self data 0 0 env

end Request

/-- A call inside `_cond->Wait`. -/
inductive Waiting
  | put (p : Payload) (f : PutWait)
  | get (data : Str) (f : GetWait)

/-- How a call ends. -/
inductive Answer
  | stored (data : List UInt8)
  | got (data : List UInt8)
  | stoppedPut
  | stoppedPutAndGet
  | threw (e : BaseException)

/-- The result of a critical section, as a turn: `Signal` follows a put that
returned, an exception leaves without. -/
def putTurn (p : Payload) :
    EStateM.Result BaseException Shm (Option PutWait) → Shm × Turn Waiting Answer
  | .ok none w => (w, .done .one (.stored p.bytes))
  | .ok (some f) w => (w, .wait (.put p f))
  | .error e w => (w, .done .none (.threw e))

def getTurn (data : Str) :
    EStateM.Result BaseException Shm (Option GetWait) → Shm × Turn Waiting Answer
  | .ok none w => (w, .done .one (.got w.data.toList))
  | .ok (some f) w => (w, .wait (.get data f))
  | .error e w => (w, .done .none (.threw e))

/-- `Broadcast` follows a stop. -/
def stopTurn (a : Answer) : EStateM.Result BaseException Shm Unit → Shm × Turn Waiting Answer
  | .ok () w => (w, .done .all a)
  | .error e w => (w, .done .none (.threw e))

/-- The critical sections of `CircularQueue`.  A resumed caller reads the
clock and its surroundings. -/
def program : Program Shm Request Waiting (Int64 × Environment) Answer where
  enter
    | .timedPut self p t start env, w =>
      putTurn p (self.timedPut p.pData p.size t start env w)
    | .timedGet self data t start env, w =>
      getTurn data (self.timedGet t start env { w with data := data })
    | .stopPut self env, w => stopTurn .stoppedPut (self.stopPut env w)
    | .stopPutAndGet self env, w => stopTurn .stoppedPutAndGet (self.stopPutAndGet env w)
  resume
    | .put p f, signalled, (now, env), w =>
      putTurn p (CircularQueue.timedPutWake f signalled now env w)
    | .get data f, signalled, (now, env), w =>
      getTurn data (CircularQueue.timedGetWake f signalled now env { w with data := data })

/-! ## what a turn does to a queue -/

/-- How a turn of a put ends on a memory holding `ds`; a call that is
`timed` may run out of time whatever the queue holds. -/
inductive PutEnds (w : Shm) (ds : List (List UInt8)) (p : Payload) (timed : Prop) :
    Shm × Turn Waiting Answer → Prop
  | threw (e : BaseException) (he : e ≠ CircularQueue.putStopped)
      (hwhy : p.bytes = [] ∨ w.pMeta.qLeftSize.toNat < weight p.bytes ∨ timed) :
      PutEnds w ds p timed (w, .done .none (.threw e))
  | waits (f : PutWait) (hf : f.Carries p) (hleft : w.pMeta.qLeftSize.toNat < weight p.bytes)
      (htimed : f.timed = true → timed) : PutEnds w ds p timed (w, .wait (.put p f))
  | stored (w' : Shm) (hne : p.bytes ≠ []) (hold : Holds w' (ds ++ [p.bytes]))
      (hkeep : Keeps w w') : PutEnds w ds p timed (w', .done .one (.stored p.bytes))

/-- How a turn of a get ends on a memory holding `ds`. -/
inductive GetEnds (w : Shm) (ds : List (List UInt8)) (data : Str) (timed : Prop) :
    Shm × Turn Waiting Answer → Prop
  | threw (e : BaseException) (he : e ≠ CircularQueue.getStopped) (hwhy : ds = [] ∨ timed) :
      GetEnds w ds data timed ({ w with data := data }, .done .none (.threw e))
  | waits (f : GetWait) (hnil : ds = []) (htimed : f.timed = true → timed) :
      GetEnds w ds data timed ({ w with data := data }, .wait (.get data f))
  | got (d : List UInt8) (ds' : List (List UInt8)) (w' : Shm) (hds : ds = d :: ds')
      (hold : Holds w' ds') (hkeep : Keeps w w') :
      GetEnds w ds data timed (w', .done .one (.got d))

section Turns

variable {w : Shm} {ds : List (List UInt8)}

/-- The caller's string is no part of the queue. -/
theorem Holds.withData (hold : Holds w ds) (data : Str) : Holds { w with data := data } ds :=
  { hold with }

variable (hold : Holds w ds) (hstat : w.pMeta.status = .Q_NOMAL)

include hold hstat

/-- A put ends with its element queued, fails with nothing changed, or waits. -/
theorem enter_timedPut (self : CircularQueue) (p : Payload) (t : Int32) (start : Int64)
    (env : Environment) :
    PutEnds w ds p (¬ t < 0) (program.enter (.timedPut self p t start env) w) := by
  have hadd := hold.left_add
  simp only [program]
  rcases CircularQueue.timedPut_cases hold hstat self t start env with
    ⟨hbig, hrun⟩ | ⟨_, hfull, ⟨_, hrun⟩ | ⟨ht, f, hf, hrun, huntimed⟩⟩ |
      ⟨_, ⟨hnil, hrun⟩ | ⟨hne, w', hrun, hhold, hkeep⟩⟩
  · rw [hrun]
    exact .threw _ (by simp [CircularQueue.putTooSmall, CircularQueue.putStopped])
      (.inr (.inl (by omega)))
  · rw [hrun]; exact .threw _ (by decide) (.inr (.inl hfull))
  · rw [hrun]
    refine .waits f hf hfull fun htrue hneg => ?_
    rw [huntimed hneg] at htrue
    cases htrue
  · rw [hrun]; exact .threw _ (by decide) (.inl hnil)
  · rw [hrun]; exact .stored w' hne hhold hkeep

/-- A put that goes on ends in the same ways. -/
theorem resume_put {p : Payload} {f : PutWait} (hf : f.Carries p) (b : Bool) (now : Int64)
    (env : Environment) :
    PutEnds w ds p (f.timed = true) (program.resume (.put p f) b (now, env) w) := by
  simp only [program]
  rcases CircularQueue.timedPutWake_cases hold hstat b now env hf with
    ⟨htimed, hrun⟩ | ⟨hfull, f', hf', heq, hrun⟩ |
      ⟨_, ⟨hnil, hrun⟩ | ⟨hne, w', hrun, hhold, hkeep⟩⟩
  · rw [hrun]; exact .threw _ (by decide) (.inr (.inr htimed))
  · rw [hrun]; exact .waits f' hf' hfull fun h => heq ▸ h
  · rw [hrun]; exact .threw _ (by decide) (.inl hnil)
  · rw [hrun]; exact .stored w' hne hhold hkeep

/-- A get ends with the first element, fails with nothing changed, or waits. -/
theorem enter_timedGet (self : CircularQueue) (data : Str) (t : Int32) (start : Int64)
    (env : Environment) :
    GetEnds w ds data (¬ t < 0) (program.enter (.timedGet self data t start env) w) := by
  simp only [program]
  rcases CircularQueue.timedGet_cases (hold.withData data) hstat self t start env with
    ⟨hnil, ⟨_, hrun⟩ | ⟨ht, f, hrun, huntimed⟩⟩ | ⟨_, w', hrun, ⟨d, ds', hds, hdata, hhold⟩, hkeep⟩
  · rw [hrun]; exact .threw _ (by decide) (.inl hnil)
  · rw [hrun]
    refine .waits f hnil fun htrue hneg => ?_
    rw [huntimed hneg] at htrue
    cases htrue
  · rw [hrun, getTurn, hdata]
    exact .got d ds' w' hds hhold ⟨hkeep.qTotalSize, hkeep.status, hkeep.accesses⟩

/-- A get that goes on ends in the same ways. -/
theorem resume_get (f : GetWait) (data : Str) (b : Bool) (now : Int64) (env : Environment) :
    GetEnds w ds data (f.timed = true) (program.resume (.get data f) b (now, env) w) := by
  simp only [program]
  rcases CircularQueue.timedGetWake_cases (hold.withData data) hstat b now env with
    ⟨htimed, hrun⟩ | ⟨hnil, f', heq, hrun⟩ | ⟨_, w', hrun, ⟨d, ds', hds, hdata, hhold⟩, hkeep⟩
  · rw [hrun]; exact .threw _ (by decide) (.inr htimed)
  · rw [hrun]; exact .waits f' hnil fun h => heq ▸ h
  · rw [hrun, getTurn, hdata]
    exact .got d ds' w' hds hhold ⟨hkeep.qTotalSize, hkeep.status, hkeep.accesses⟩

end Turns

/-- The critical section of a stop request changes nothing. -/
theorem enter_stop (self : CircularQueue) (env : Environment) (w : Shm) :
    program.enter (.stopPut self env) w = (w, .done .all .stoppedPut) ∧
      program.enter (.stopPutAndGet self env) w = (w, .done .all .stoppedPutAndGet) := by
  have hcheck := checkProcessAndRestoreLock_apply env w
  simp only [program, CircularQueue.stopPut, CircularQueue.stopPutAndGet, hcheck, stopTurn,
    and_self]

/-- The queue created in 193 bytes: a region of 25, room for one byte. -/
def smallestQueue : Shm := finalState (CircularQueue.construct true 193 zeroedMemory)

theorem construct_smallestQueue :
    CircularQueue.construct true 193 zeroedMemory = .ok ⟨true⟩ smallestQueue := rfl

end CppFastDevelop
