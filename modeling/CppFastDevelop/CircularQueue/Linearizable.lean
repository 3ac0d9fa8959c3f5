import CppFastDevelop.CircularQueue.Threads
import CppFastDevelop.CircularQueue.TimeOut
import CppFastDevelop.Lib.Atomic

/-!
# CppFastDevelop.CircularQueue.Linearizable

The circular queue and its callers, in any number, as one object: seen from
outside it is a bounded FIFO that carries out each call at one moment between
the call and its return (`calls_linearizable`).  So nothing is lost, handed
out twice or out of order, however the turns, notifications and wake-ups of
the callers interleave.

A call without a time-out never fails for want of room or of an element, and
one that does not wait only then.  A call whose time-out passes ends by
`TimeoutInfo`, or by the `SyscallExecuteError` of `RawPthreadCondition::Wait`
where `errno` does not say `ETIMEDOUT`; either way it has changed nothing.
-/

namespace CppFastDevelop

open Exec Machine Monitor Atomic ElementOp RawPthreadCondition

/-! ## waits that fail -/

/-- What `RawPthreadCondition::Wait` throws when its time is over and `errno`
does not say so. -/
def RawPthreadCondition.timedwaitFailed : BaseException :=
  ⟨.syscallExecuteError, "Failed to execute pthread_cond_timedwait , rt=%d !", [ETIMEDOUT.toInt]⟩

/-- A wait that times out says so only where `errno` happens to say so too. -/
theorem waitResult_timedOut (errno : Int32) : waitResult ETIMEDOUT errno =
    if ETIMEDOUT = errno then .ok false else .error timedwaitFailed := by
  have hrt : ¬ (0 : Int32) = ETIMEDOUT := by decide
  rw [waitResult, if_neg hrt]
  simp only [ne_eq, hrt, not_false_eq_true, true_and, timedwaitFailed]

namespace Waiting

def timed : Waiting → Bool
  | .put _ f => f.timed
  | .get _ f => f.timed

/-- How `_cond->Wait` ends: `pthread_cond_wait` has returned, or
`pthread_cond_timedwait` and left `errno`. -/
def result (l : Waiting) (signalled : Bool) (errno : Int32) : Except BaseException Bool :=
  if l.timed then waitResult (if signalled then 0 else ETIMEDOUT) errno else .ok signalled

/-- A wait fails only where it was timed. -/
theorem result_cases (l : Waiting) (signalled : Bool) (errno : Int32) :
    (∃ b, l.result signalled errno = .ok b) ∨
      l.timed = true ∧ l.result signalled errno = .error timedwaitFailed := by
  unfold result
  by_cases htimed : l.timed = true
  · rw [if_pos htimed]
    cases signalled with
    | true => exact .inl ⟨true, rfl⟩
    | false =>
        rw [if_neg (by decide), waitResult_timedOut]
        by_cases herrno : ETIMEDOUT = errno
        · exact .inl ⟨false, if_pos herrno⟩
        · exact .inr ⟨htimed, if_neg herrno⟩
  · exact .inl ⟨signalled, if_neg htimed⟩

end Waiting

/-- The critical sections of `CircularQueue` where `_cond->Wait` may throw:
`program`, resumed with what `Wait` returned.  A resumed caller also reads
`errno`; the guard releases the mutex on the way out. -/
def throwingProgram : Program Shm Request Waiting (Int32 × Int64 × Environment) Answer where
  enter := program.enter
  resume
    | l, signalled, (errno, now, env), w =>
      match l.result signalled errno with
      | .ok b => program.resume l b (now, env) w
      | .error e => (w, .done .none (.threw e))

/-! ## the calls -/

/-- What a call may answer.  Only a call with a time-out may run out of time;
the stop requests change nothing. -/
inductive Fifo.Answers {cap : Nat} : Fifo cap → Request → Answer → Fifo cap → Prop
  | stored {q : Fifo cap} {self : CircularQueue} {p : Payload} {t : Int32} {start : Int64}
      {env : Environment} (hne : p.bytes ≠ []) (hput : (q.put p.bytes).1 = .stored) :
    Answers q (.timedPut self p t start env) (.stored p.bytes) (q.put p.bytes).2
  | tooBig {q : Fifo cap} {self : CircularQueue} {p : Payload} {t : Int32} {start : Int64}
      {env : Environment} {total : UInt64} (hput : (q.put p.bytes).1 = .tooBig) :
    Answers q (.timedPut self p t start env)
      (.threw (CircularQueue.putTooSmall (p.size + headerSize) total)) q
  | full {q : Fifo cap} {self : CircularQueue} {p : Payload} {start : Int64}
      {env : Environment} (hput : (q.put p.bytes).1 = .full) :
    Answers q (.timedPut self p 0 start env) (.threw CircularQueue.putFull) q
  | nothing {q : Fifo cap} {self : CircularQueue} {p : Payload} {t : Int32} {start : Int64}
      {env : Environment} (hnil : p.bytes = []) :
    Answers q (.timedPut self p t start env) (.threw emptyBody) q
  | putTimeout {q : Fifo cap} {self : CircularQueue} {p : Payload} {t : Int32} {start : Int64}
      {env : Environment} (ht : 0 < t) :
    Answers q (.timedPut self p t start env) (.threw CircularQueue.timeoutInfo) q
  | putWaitFailed {q : Fifo cap} {self : CircularQueue} {p : Payload} {t : Int32} {start : Int64}
      {env : Environment} (ht : 0 < t) :
    Answers q (.timedPut self p t start env) (.threw timedwaitFailed) q
  | got {q : Fifo cap} {self : CircularQueue} {data : Str} {t : Int32} {start : Int64}
      {env : Environment} {d : List UInt8} (hget : q.get.1 = some d) :
    Answers q (.timedGet self data t start env) (.got d) q.get.2
  | empty {q : Fifo cap} {self : CircularQueue} {data : Str} {start : Int64}
      {env : Environment} (hget : q.get.1 = none) :
    Answers q (.timedGet self data 0 start env) (.threw CircularQueue.getEmpty) q
  | getTimeout {q : Fifo cap} {self : CircularQueue} {data : Str} {t : Int32} {start : Int64}
      {env : Environment} (ht : 0 < t) :
    Answers q (.timedGet self data t start env) (.threw CircularQueue.timeoutInfo) q
  | getWaitFailed {q : Fifo cap} {self : CircularQueue} {data : Str} {t : Int32} {start : Int64}
      {env : Environment} (ht : 0 < t) :
    Answers q (.timedGet self data t start env) (.threw timedwaitFailed) q
  | stopPut {q : Fifo cap} {self : CircularQueue} {env : Environment} :
    Answers q (.stopPut self env) .stoppedPut q
  | stopPutAndGet {q : Fifo cap} {self : CircularQueue} {env : Environment} :
    Answers q (.stopPutAndGet self env) .stoppedPutAndGet q

/-- The local variables of a waiting call. -/
inductive Waiting.Of : Request → Waiting → Prop
  | put {self : CircularQueue} {p : Payload} {t : Int32} {start : Int64} {env : Environment}
      {f : PutWait} (hf : f.Carries p) (htimed : f.timed = true → 0 < t) :
    Of (.timedPut self p t start env) (.put p f)
  | get {self : CircularQueue} {data : Str} {t : Int32} {start : Int64} {env : Environment}
      {f : GetWait} (htimed : f.timed = true → 0 < t) :
    Of (.timedGet self data t start env) (.get data f)

/-- A call that waits for a time was given a positive one. -/
theorem timeout_pos {t : Int32} {timed : Bool} (ht : t ≠ 0) (huntimed : t < 0 → timed = false)
    (htimed : timed = true) : 0 < t := by
  refine Int32.not_le.mp fun hle => ?_
  rcases Int32.lt_or_eq_of_le hle with hneg | hzero
  · rw [huntimed hneg] at htimed
    cases htimed
  · exact ht hzero

/-! ## the turns -/

section Turns

variable {cap : Nat} {w w' : Shm} {q : Fifo cap} (h : Represents w q)

include h

/-- The caller's string is no part of what is represented. -/
theorem Represents.withData (data : Str) : Represents { w with data := data } q :=
  ⟨h.holds.withData data, h.status, h.cap_eq⟩

/-- Putting an element that fits is the put of the bounded queue. -/
theorem Represents.put {d : List UInt8} (hfit : weight d ≤ w.pMeta.qLeftSize.toNat)
    (hhold : Holds w' (q.items ++ [d])) (hkeep : Keeps w w') :
    (q.put d).1 = .stored ∧ Represents w' (q.put d).2 := by
  obtain ⟨hres, hitems⟩ : (q.put d).1 = .stored ∧ (q.put d).2.items = q.items ++ [d] :=
    BoundedFifo.put_stored (h.counters.2 ▸ hfit)
  exact ⟨hres, hitems ▸ hhold, hkeep.status.trans h.status, by rw [hkeep.qTotalSize, h.cap_eq]⟩

/-- Getting the first element is the get of the bounded queue. -/
theorem Represents.get {d : List UInt8} {ds : List (List UInt8)} (hds : q.items = d :: ds)
    (hhold : Holds w' ds) (hkeep : Keeps w w') :
    q.get.1 = some d ∧ Represents w' q.get.2 := by
  obtain ⟨hres, hitems⟩ := BoundedFifo.get_of_items_cons hds
  exact ⟨hres, hitems ▸ hhold, hkeep.status.trans h.status, by rw [hkeep.qTotalSize, h.cap_eq]⟩

/-- Entering a put acts on the bounded queue at most once, as its answer says. -/
theorem enter_timedPut_acts (self : CircularQueue) (p : Payload) (t : Int32) (start : Int64)
    (env : Environment) :
    TurnActs Fifo.Answers Represents Waiting.Of q (.timedPut self p t start env)
      (program.enter (.timedPut self p t start env) w) := by
  simp only [program]
  rcases CircularQueue.timedPut_cases h.holds h.status self t start env with
    ⟨hbig, hrun⟩ | ⟨hcap, hfull, ⟨rfl, hrun⟩ | ⟨ht, f, hf, hrun, huntimed⟩⟩ |
      ⟨hfit, ⟨hnil, hrun⟩ | ⟨hne, w', hrun, hhold, hkeep⟩⟩
  · rw [hrun]
    rw [h.cap_eq] at hbig
    exact ⟨q, .tooBig (by rw [BoundedFifo.put_tooBig hbig]), h⟩
  · rw [hrun]
    rw [h.cap_eq] at hcap
    exact ⟨q, .full (by rw [BoundedFifo.put_full hcap (h.counters.2 ▸ hfull)]), h⟩
  · rw [hrun]
    exact ⟨.put hf fun htimed => timeout_pos ht huntimed htimed, h⟩
  · rw [hrun]
    exact ⟨q, .nothing hnil, h⟩
  · rw [hrun]
    obtain ⟨hres, hrep⟩ := h.put hfit hhold hkeep
    exact ⟨_, .stored hne hres, hrep⟩

/-- A put that goes on acts on the bounded queue as its answer says. -/
theorem resume_put_acts {self : CircularQueue} {p : Payload} {t : Int32} {start : Int64}
    {env₀ : Environment} {f : PutWait} (hf : f.Carries p) (htimed : f.timed = true → 0 < t)
    (b : Bool) (now : Int64) (env : Environment) :
    TurnActs Fifo.Answers Represents Waiting.Of q (.timedPut self p t start env₀)
      (program.resume (.put p f) b (now, env) w) := by
  simp only [program]
  rcases CircularQueue.timedPutWake_cases h.holds h.status b now env hf with
    ⟨htrue, hrun⟩ | ⟨hfull, f', hf', heq, hrun⟩ |
      ⟨hfit, ⟨hnil, hrun⟩ | ⟨hne, w', hrun, hhold, hkeep⟩⟩
  · rw [hrun]
    exact ⟨q, .putTimeout (htimed htrue), h⟩
  · rw [hrun]
    exact ⟨.put hf' (heq ▸ htimed), h⟩
  · rw [hrun]
    exact ⟨q, .nothing hnil, h⟩
  · rw [hrun]
    obtain ⟨hres, hrep⟩ := h.put hfit hhold hkeep
    exact ⟨_, .stored hne hres, hrep⟩

/-- Entering a get acts on the bounded queue at most once, as its answer says. -/
theorem enter_timedGet_acts (self : CircularQueue) (data : Str) (t : Int32) (start : Int64)
    (env : Environment) :
    TurnActs Fifo.Answers Represents Waiting.Of q (.timedGet self data t start env)
      (program.enter (.timedGet self data t start env) w) := by
  have hdata := h.withData data
  simp only [program]
  rcases CircularQueue.timedGet_cases hdata.holds hdata.status self t start env with
    ⟨hnil, ⟨rfl, hrun⟩ | ⟨ht, f, hrun, huntimed⟩⟩ |
      ⟨_, w', hrun, ⟨d, ds, hds, hd, hhold⟩, hkeep⟩
  · rw [hrun]
    exact ⟨q, .empty (by rw [BoundedFifo.get_of_items_nil hnil]), hdata⟩
  · rw [hrun]
    exact ⟨.get fun htimed => timeout_pos ht huntimed htimed, hdata⟩
  · rw [hrun, getTurn, hd]
    obtain ⟨hres, hrep⟩ := hdata.get hds hhold hkeep
    exact ⟨_, .got hres, hrep⟩

/-- A get that goes on acts on the bounded queue as its answer says. -/
theorem resume_get_acts {self : CircularQueue} {t : Int32} {start : Int64} {env₀ : Environment}
    {f : GetWait} (htimed : f.timed = true → 0 < t) (data : Str) (b : Bool) (now : Int64)
    (env : Environment) :
    TurnActs Fifo.Answers Represents Waiting.Of q (.timedGet self data t start env₀)
      (program.resume (.get data f) b (now, env) w) := by
  have hdata := h.withData data
  simp only [program]
  rcases CircularQueue.timedGetWake_cases hdata.holds hdata.status b now env with
    ⟨htrue, hrun⟩ | ⟨_, f', heq, hrun⟩ | ⟨_, w', hrun, ⟨d, ds, hds, hd, hhold⟩, hkeep⟩
  · rw [hrun]
    exact ⟨q, .getTimeout (htimed htrue), hdata⟩
  · rw [hrun]
    exact ⟨.get (heq ▸ htimed), hdata⟩
  · rw [hrun, getTurn, hd]
    obtain ⟨hres, hrep⟩ := hdata.get hds hhold hkeep
    exact ⟨_, .got hres, hrep⟩

end Turns

/-- The calls implement the bounded queue, each at one moment. -/
theorem program_implements {cap : Nat} :
    Implements program (@Fifo.Answers cap) Represents Waiting.Of where
  enter c w q h := by
    cases c with
    | timedPut self p t start env => exact enter_timedPut_acts h self p t start env
    | timedGet self data t start env => exact enter_timedGet_acts h self data t start env
    | stopPut self env => rw [(enter_stop self env w).1]; exact ⟨q, .stopPut, h⟩
    | stopPutAndGet self env => rw [(enter_stop self env w).2]; exact ⟨q, .stopPutAndGet, h⟩
  resume c l b e w q hl h := by
    cases hl with
    | put hf htimed => exact resume_put_acts h hf htimed b e.1 e.2
    | get htimed => exact resume_get_acts h htimed _ b e.1 e.2

/-- So do the calls whose waits may throw. -/
theorem throwingProgram_implements {cap : Nat} :
    Implements throwingProgram (@Fifo.Answers cap) Represents Waiting.Of where
  enter := program_implements.enter
  resume c l b e w q hl h := by
    obtain ⟨errno, now, env⟩ := e
    simp only [throwingProgram]
    rcases l.result_cases b errno with ⟨b', hok⟩ | ⟨htimed, herror⟩
    · rw [hok]
      exact program_implements.resume c l b' (now, env) w q hl h
    · rw [herror]
      cases hl with
      | put _ hpos => exact ⟨q, .putWaitFailed (hpos htimed), h⟩
      | get hpos => exact ⟨q, .getWaitFailed (hpos htimed), h⟩

/-! ## runs -/

/-- **The queue is linearizable.**  Whatever the callers of a queue that has
been created do, and however their turns interleave: what they see is what
they would see of a bounded FIFO that carries out each call at one moment
between the call and its return, and the memory represents that FIFO. -/
theorem calls_linearizable {ι : Type} [DecidableEq ι] [Fintype ι] {w w₀ : Shm} {memSize : UInt64}
    (hlo : metaSize.toNat + headerSize.toNat < memSize.toNat) (hhi : memSize.toNat < 2 ^ 63)
    (hcreate : CircularQueue.construct true memSize w = .ok ⟨true⟩ w₀)
    (as : List (Label ι Request (Int32 × Int64 × Environment)))
    {s : State ι Shm Waiting Answer} {h : List (Event ι Request Answer)}
    (hrun : run (recorded (step throwingProgram) (observe throwingProgram))
      (⟨w₀, fun _ => .idle⟩, []) as = some (s, h)) :
    ∃ q : Fifo (memSize.toNat - metaSize.toNat),
      Linearizes Fifo.Answers .empty h q ∧ Represents s.mem q := by
  obtain ⟨w₁, hrun₁, hold, hstat, htotal, -⟩ := create_spec w hlo hhi
  rw [hrun₁] at hcreate
  cases hcreate
  exact linearizable_of_monitor throwingProgram_implements ⟨hold, hstat, htotal⟩ hrun

/-- A get whose time-out passes ends by `SyscallExecuteError`, one that goes on
waiting is woken by a put. -/
def handover {ι : Type} (i j : ι) : List (Label ι Request (Int32 × Int64 × Environment)) :=
  [.enter i (.get ⟨true⟩ ⟨0, fun _ => 0⟩ zeroEnvironment),
    .enter j (.timedGet ⟨false⟩ ⟨0, fun _ => 0⟩ 500 0 zeroEnvironment), .wake j false,
    .resume j (0, 0, zeroEnvironment),
    .enter j (.tryPut ⟨false⟩ (onePayload 7) zeroEnvironment), .notify j (some i),
    .resume i (0, 0, zeroEnvironment), .notify i none]

theorem calls_linearizable_handover :
    ∃ s h, run (recorded (step throwingProgram) (observe throwingProgram))
        (⟨smallestQueue, fun _ => .idle⟩, []) (handover (0 : Fin 2) 1) = some (s, h) ∧
      h = [.call 0 (.get ⟨true⟩ ⟨0, fun _ => 0⟩ zeroEnvironment),
        .call 1 (.timedGet ⟨false⟩ ⟨0, fun _ => 0⟩ 500 0 zeroEnvironment),
        .ret 1 (.threw timedwaitFailed),
        .call 1 (.tryPut ⟨false⟩ (onePayload 7) zeroEnvironment), .ret 1 (.stored [7]),
        .ret 0 (.got [7])] ∧
      ∃ q : Fifo (193 - 168), Linearizes Fifo.Answers .empty h q ∧ Represents s.mem q := by
  refine ⟨_, _, rfl, rfl, ?_⟩
  exact calls_linearizable (by decide) (by decide) construct_smallestQueue (handover 0 1) rfl

end CppFastDevelop
