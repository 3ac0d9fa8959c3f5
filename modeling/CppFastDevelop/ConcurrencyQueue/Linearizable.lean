import CppFastDevelop.ConcurrencyQueue.StopRequests
import CppFastDevelop.Lib.Atomic

/-!
# CppFastDevelop.ConcurrencyQueue.Linearizable

`RawQueue` and its callers as one object: seen from outside it is a queue
whose two ends can be stopped, and that carries out each call, and each write
of a flag, at one moment (`putsAndGets_linearizable`).  The flags are written
without the mutex, and a stop request need not reach a sleeper; neither is
seen in what the calls that return answer.
-/

namespace CppFastDevelop

open Exec Machine Monitor Atomic

variable {α : Type}

/-! ## a queue that can be stopped -/

/-- The elements, oldest first, and which ends have been stopped. -/
structure StoppableQueue (α : Type) where
  items : List α
  stopToPut : Bool
  stopToGet : Bool

namespace StoppableQueue

open RawQueue

def fresh : StoppableQueue α := ⟨[], false, false⟩

/-- What a call may answer.  A `Get` that finds nothing answers only once
putting has been stopped. -/
inductive Answers :
    StoppableQueue α → RawQueue.Request α → RawQueue.Answer α → StoppableQueue α → Prop
  | stored {q : StoppableQueue α} {el : α} (hput : q.stopToPut = false) :
    Answers q (.put el) (.stored el) { q with items := q.items ++ [el] }
  | putRefused {q : StoppableQueue α} {el : α} (hput : q.stopToPut = true) :
    Answers q (.put el) (.threw stoppedToPut) q
  | got {q : StoppableQueue α} {el : α} {rest : List α} (hget : q.stopToGet = false)
      (hitems : q.items = el :: rest) : Answers q .get (.got el) { q with items := rest }
  | getRefused {q : StoppableQueue α} (hget : q.stopToGet = true)
      (hwhy : q.items ≠ [] ∨ q.stopToPut = true) : Answers q .get (.threw stoppedToGet) q
  | drained {q : StoppableQueue α} (hget : q.stopToGet = false) (hitems : q.items = [])
      (hput : q.stopToPut = true) : Answers q .get (.threw emptyAndStoppedToPut) q
  | isEmpty {q : StoppableQueue α} : Answers q .isEmpty (.isEmpty q.items.isEmpty) q
  | size {q : StoppableQueue α} : Answers q .size (.size q.items.length) q

/-- A flag is written. -/
inductive Writes : StoppableQueue α → Stopping → StoppableQueue α → Prop
  | toPut {q : StoppableQueue α} : Writes q .toPut { q with stopToPut := true }
  | toGet {q : StoppableQueue α} : Writes q .toGet { q with stopToGet := true }

end StoppableQueue

namespace RawQueue

/-! ## turns -/

/-- What the queue is to its callers: they do not see `_waitCount`. -/
def seenAs (m : RawQueue α) : StoppableQueue α := ⟨m.queue, m.stopToPut, m.stopToGet⟩

def IsSeenAs (m : RawQueue α) (q : StoppableQueue α) : Prop := m.seenAs = q

/-- Only a `Get` waits. -/
def Waits (c : Request α) (_ : Unit) : Prop := c = .get

/-- A get from an empty queue waits, unless puts were stopped. -/
theorem getTurn_of_nil {m : RawQueue α} (hq : m.queue = []) : getTurn (get m) =
    if m.stopToPut = false then ({ m with waitCount := m.waitCount + 1 }, .wait ())
    else if m.stopToGet = true then (m, .done .none (.threw stoppedToGet))
    else (m, .done .none (.threw emptyAndStoppedToPut)) := by
  cases hput : m.stopToPut <;> cases hget : m.stopToGet <;>
    simp [get, getTurn, bind_apply, map_apply, hq, hput, hget]

/-- A get with an element takes it, unless gets were stopped. -/
theorem getTurn_of_cons {m : RawQueue α} {el : α} {rest : List α} (hq : m.queue = el :: rest) :
    getTurn (get m) =
      if m.stopToGet = true then (m, .done .none (.threw stoppedToGet))
      else ({ m with queue := rest }, .done .none (.got el)) := by
  cases hget : m.stopToGet <;> simp [get, getTurn, bind_apply, map_apply, hq, hget]

/-- A get acts at one moment, as its answer says. -/
theorem getTurn_acts (m : RawQueue α) :
    TurnActs StoppableQueue.Answers IsSeenAs Waits m.seenAs .get (getTurn (get m)) := by
  cases hq : m.queue with
  | nil =>
      rw [getTurn_of_nil hq]
      split
      · exact ⟨rfl, rfl⟩
      next hput =>
        split
        · next hget => exact ⟨_, .getRefused hget (.inr (eq_true_of_ne_false hput)), rfl⟩
        · next hget =>
            exact ⟨_, .drained (eq_false_of_ne_true hget) hq (eq_true_of_ne_false hput), rfl⟩
  | cons el rest =>
      rw [getTurn_of_cons hq]
      split
      · next hget =>
          refine ⟨_, .getRefused hget (.inl fun hnil => ?_), rfl⟩
          rw [seenAs, hq] at hnil
          cases hnil
      · next hget => exact ⟨_, .got (eq_false_of_ne_true hget) hq, rfl⟩

/-- A put acts at one moment, as its answer says. -/
theorem putTurn_acts (el : α) (m : RawQueue α) :
    TurnActs StoppableQueue.Answers IsSeenAs Waits m.seenAs (.put el) (putTurn el (put el m)) := by
  cases hput : m.stopToPut with
  | false =>
      by_cases hcount : m.waitCount = 0 <;>
        simp only [put, putTurn, bind_apply, get_apply, set_apply, pure_apply, throwIf_apply,
          modify_apply, hput, hcount, Bool.false_eq_true, if_false, if_true, ne_eq,
          not_true_eq_false, not_false_eq_true]
      · exact ⟨_, .stored hput, by simp only [IsSeenAs, seenAs, hput]⟩
      · exact ⟨_, .stored hput, by simp only [IsSeenAs, seenAs, hput]⟩
  | true =>
      simp only [put, putTurn, bind_apply, get_apply, throwIf_apply, hput, if_true]
      exact ⟨_, .putRefused hput, rfl⟩

/-- The calls implement the queue with two words, each at one moment. -/
theorem program_implements :
    Implements program StoppableQueue.Answers (IsSeenAs (α := α)) Waits where
  enter c m q h := by
    subst h
    cases c with
    | get => exact getTurn_acts m
    | put el => exact putTurn_acts el m
    | isEmpty => exact ⟨_, .isEmpty, rfl⟩
    | size => exact ⟨_, .size, rfl⟩
  resume c l b e m q hc h := by
    subst h
    cases hc
    exact getTurn_acts m

/-- Each write of a flag sets one word. -/
theorem writeFlag_writes (u : Stopping) {m : RawQueue α} {q : StoppableQueue α}
    (h : IsSeenAs m q) : ∃ q', q.Writes u q' ∧ IsSeenAs (writeFlag u m).1 q' := by
  subst h
  cases u with
  | toGet => exact ⟨_, .toGet, rfl⟩
  | toPut => exact ⟨_, .toPut, rfl⟩

/-! ## runs -/

variable {ι : Type} [DecidableEq ι] [Fintype ι]

/-- **The queue is linearizable.**  Whatever its callers and whoever stops it
do: what they see of it is what they would see of a queue that carries out
each call and each write of a flag at one moment. -/
theorem putsAndGets_linearizable (as : List (LockedSignal.Label ι (Request α) Unit Stopping))
    {s : Threads ι α} {h : List (Event ι (Request α ⊕ Stopping) (Answer α ⊕ Unit))}
    (hrun : run (recorded step (observeLocked program)) (idleThreads, []) as = some (s, h)) :
    Linearizes (withWrites StoppableQueue.Answers StoppableQueue.Writes) .fresh h
      s.mem.seenAs := by
  obtain ⟨_, hlin, rfl⟩ := linearizable_of_lockedSignal program_implements
    (fun u _ _ => writeFlag_writes u) rfl hrun
  exact hlin

/-- A `Get` that waits, a `Put` for it, and a stop request between the two. -/
def stoppedHandover {ι : Type} (i j k : ι) :
    List (LockedSignal.Label ι (Request Nat) Unit Stopping) :=
  [.enter i .get none, .park i, .stop k stopPut, .enter j (.put 7) (some i), .write k,
    .resume i () none, .broadcast k]

theorem putsAndGets_linearizable_stoppedHandover :
    ∃ s h, run (recorded step (observeLocked program)) (idleThreads, [])
        (stoppedHandover (0 : Fin 3) 1 2) = some (s, h) ∧
      h = [.call 0 (.inl .get), .call 1 (.inl (.put 7)), .ret 1 (.inl (.stored 7)),
        .call 2 (.inr .toPut), .ret 2 (.inr ()), .ret 0 (.inl (.got 7))] ∧
      Linearizes (withWrites StoppableQueue.Answers StoppableQueue.Writes) .fresh h
        s.mem.seenAs :=
  ⟨_, _, rfl, rfl, putsAndGets_linearizable (stoppedHandover 0 1 2) rfl⟩

end RawQueue

end CppFastDevelop
