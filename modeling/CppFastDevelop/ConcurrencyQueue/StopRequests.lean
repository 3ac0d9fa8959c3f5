import CppFastDevelop.ConcurrencyQueue.Wakeups
import CppFastDevelop.Lib.StopBroadcast

/-!
# CppFastDevelop.ConcurrencyQueue.StopRequests

`StopPut` and `StopPutAndGet` against callers of `Get`.  Once `_stopToPut` is
set no caller decides to wait any more, and a broadcast wakes all that sleep;
what it misses is a caller that has evaluated the loop condition and has not
gone to sleep yet.  The flag is written without the mutex, so nothing keeps
the broadcast out of that window.  No sleeper is left behind exactly as long
as the last broadcast to come does not fall into it
(`broadcasts_wake_getters_iff`).
-/

namespace CppFastDevelop

namespace RawQueue

open Exec Machine LockedSignal

variable {α : Type}

/-! ## the flag -/

/-- A `Get` that waits has not found the flag set. -/
theorem getTurn_get_flag (q : RawQueue α) :
    (getTurn (get q)).1.stopToPut = q.stopToPut ∧
      (q.stopToPut = true → ∀ l, (getTurn (get q)).2 ≠ .wait l) := by
  cases hq : q.queue with
  | nil => cases hput : q.stopToPut <;> cases hget : q.stopToGet <;>
      simp [get, getTurn, bind_apply, map_apply, hq, hput, hget]
  | cons temp rest => cases hget : q.stopToGet <;>
      simp [get, getTurn, bind_apply, map_apply, hq, hget]

theorem putTurn_put_flag (el : α) (q : RawQueue α) :
    (putTurn el (put el q)).1.stopToPut = q.stopToPut ∧
      ∀ l, (putTurn el (put el q)).2 ≠ .wait l := by
  cases hput : q.stopToPut <;> by_cases hcount : q.waitCount = 0 <;>
    simp [put, putTurn, bind_apply, map_apply, hput, hcount]

/-- No call takes `_stopToPut` back, and stopping has set it at its end. -/
theorem stopFlag_stopToPut : StopFlag (·.stopToPut) (program (α := α)) writeFlag where
  enter
    | .get, q => (getTurn_get_flag q).1
    | .put el, q => (putTurn_put_flag el q).1
    | .isEmpty, _ => rfl
    | .size, _ => rfl
  resume _ _ _ q := (getTurn_get_flag q).1
  write
    | .toGet, _, h => h
    | .toPut, _, _ => rfl
  last
    | .toGet, _, h => by cases h
    | .toPut, _, _ => rfl

variable {ι : Type}

/-- Nobody decides to wait once `_stopToPut` is set. -/
theorem waitsBefore_stopToPut (s : Threads ι α)
    (a : LockedSignal.Label ι (Request α) Unit Stopping) :
    WaitsBefore (·.stopToPut) program s a := by
  cases a with
  | enter i c target =>
      intro hset l
      cases c with
      | get => exact (getTurn_get_flag s.mem).2 hset l
      | put el => exact (putTurn_put_flag el s.mem).2 l
      | isEmpty => exact nofun
      | size => exact nofun
  | resume i e target => exact fun hset _ _ _ => (getTurn_get_flag s.mem).2 hset
  | _ => trivial

/-! ## over a run -/

/-- A stop request has completed, and a caller of `Get` sleeps with no
wake-up pending. -/
structure Stranded (as : List (LockedSignal.Label ι (Request α) Unit Stopping))
    (s : Threads ι α) : Prop where
  completed : ∃ i, .broadcast i ∈ as
  asleep : ∃ i, (s.pc i).isAsleep = true
  nonePending : ¬ s.StopPending

variable [DecidableEq ι] [Fintype ι]

/-- In no state of the run, and in none that its threads reach from one by
going to sleep, a stop request has left a sleeper behind. -/
def LeavesNobody (as : List (LockedSignal.Label ι (Request α) Unit Stopping)) : Prop :=
  ∀ bs, bs <+: as → ∀ is : List ι, ∀ s,
    run step idleThreads (bs ++ is.map .park) = some s → ¬ Stranded (bs ++ is.map .park) s

section Run

variable {as : List (LockedSignal.Label ι (Request α) Unit Stopping)} {s : Threads ι α}

omit [DecidableEq ι] [Fintype ι] in
theorem flagged_idleThreads : (idleThreads : Threads ι α).Flagged (·.stopToPut) :=
  fun _ hi => by cases hi

omit [DecidableEq ι] [Fintype ι] in
theorem awake_idleThreads : (idleThreads : Threads ι α).Awake (·.stopToPut) :=
  fun _ _ _ => rfl

/-- Where all are awake nobody is stranded. -/
theorem not_stranded_of_awake (hrun : run step idleThreads as = some s)
    (h : s.Awake (·.stopToPut)) : ¬ Stranded as s := by
  intro ⟨⟨i, hi⟩, ⟨k, hk⟩, hnone⟩
  have hset : s.mem.stopToPut = true :=
    flag_of_mem_broadcast stopFlag_stopToPut hrun flagged_idleThreads hi
  have hwaiting := h hset (State.not_stopPending.mp hnone) k
  rw [Pc.isWaiting_eq_false, hk] at hwaiting
  cases hwaiting.1

/-- Who is about to sleep will be found asleep. -/
theorem awake_of_not_stranded (hrun : run step idleThreads as = some s)
    (h : ∀ is : List ι, ∀ t, run step s (is.map .park) = some t →
      ¬ Stranded (as ++ is.map .park) t) : s.Awake (·.stopToPut) := by
  intro hset hnone k
  have hcompleted : ∃ i, .broadcast i ∈ as :=
    exists_broadcast_of_flag stopFlag_stopToPut hrun rfl hset (State.not_stopPending.mpr hnone)
  rw [Pc.isWaiting_eq_false, Bool.eq_false_iff, Bool.eq_false_iff]
  constructor
  · intro hasleep
    refine h [] s rfl ⟨?_, ⟨k, hasleep⟩, State.not_stopPending.mpr hnone⟩
    simpa using hcompleted
  · intro hparking
    cases hk : s.pc k with
    | parking l =>
        have hstep : step s (.park k) = some ⟨s.mem, Function.update s.pc k (.asleep l)⟩ := by
          simp [step, LockedSignal.step, hk]
        refine h [k] _ (run_cons_eq_some.mpr ⟨_, hstep, rfl⟩) ⟨?_, ⟨k, ?_⟩, ?_⟩
        · obtain ⟨i, hi⟩ := hcompleted
          exact ⟨i, List.mem_append_left _ hi⟩
        · simp [Pc.isAsleep]
        · rw [State.not_stopPending]
          intro j
          have hj := hnone j
          grind [Function.update_apply, Pc.isStopping]
    | _ => rw [hk] at hparking; cases hparking

/-- **A broadcast wakes whoever sleeps, and misses whoever is about to.**
No state a run goes through, and none its threads reach from one by going to
sleep, has a completed stop request and a sleeper without a wake-up, if and
only if every broadcast of the run that is the last to come is made while no
caller of `Get` is between its loop condition and its sleep. -/
theorem broadcasts_wake_getters_iff
    (as : List (LockedSignal.Label ι (Request α) Unit Stopping)) :
    LeavesNobody as ↔ Along step BroadcastsFree idleThreads as := by
  have hawake : (∀ bs, bs <+: as → ∀ s, run step idleThreads bs = some s →
      s.Awake (·.stopToPut)) ↔ Along step BroadcastsFree idleThreads as :=
    forall_reached_iff_along (I := State.Awake (·.stopToPut)) (J := State.Flagged (·.stopToPut))
      (fun _ _ _ => flagged_step stopFlag_stopToPut)
      (fun s a s' hstep hflagged h => ⟨fun h' => broadcastsFree_of_awake hstep hflagged h',
        fun hfree => awake_step stopFlag_stopToPut hstep (waitsBefore_stopToPut s a) hfree h⟩)
      flagged_idleThreads awake_idleThreads
  rw [← hawake]
  constructor
  · intro h bs hbs s hrun
    refine awake_of_not_stranded hrun fun is t ht => h bs hbs is t ?_
    exact run_append_eq_some.mpr ⟨s, hrun, ht⟩
  · intro h bs hbs is t hrun
    obtain ⟨s, hs, ht⟩ := run_append_eq_some.mp hrun
    have hparks : ∀ a ∈ is.map (.park (C := Request α) (E := Unit) (U := Stopping)),
        ∀ s : Threads ι α, BroadcastsFree s a := by simp [BroadcastsFree]
    have hend : t.Awake (·.stopToPut) :=
      run_invariant_along (State.Awake (·.stopToPut))
        (fun s a _ ha hstep =>
          awake_step stopFlag_stopToPut hstep (waitsBefore_stopToPut s a) (ha s))
        (along_of_forall_mem step hparks s) ht (h bs hbs s hs)
    exact not_stranded_of_awake hrun hend

/-- The test, the whole stop request, and only then the sleep. -/
theorem stranded_getter :
    ¬ ∀ (as : List (LockedSignal.Label (Fin 2) (Request Nat) Unit Stopping))
      (s : Threads (Fin 2) Nat), run step idleThreads as = some s → ¬ Stranded as s := by
  intro h
  refine h [.enter 0 .get none, .stop 1 stopPut, .write 1, .broadcast 1, .park 0] _ rfl
    ⟨⟨1, by decide⟩, ⟨0, by decide⟩, by decide⟩

end Run

end RawQueue

end CppFastDevelop
