import CppFastDevelop.ConcurrencyQueue.Def
import CppFastDevelop.Lib.Machine
import CppFastDevelop.Lib.Words

/-!
# CppFastDevelop.ConcurrencyQueue.Wakeups

Threads that put into and get from one `RawQueue`.  `_waitCount` is counted
up by a `Get` that goes to wait and down by the `Put` that signals, so a
thread that wakes on its own leaves it too high; it is never too low, and
that is enough: a `Put` that finds a sleeper signals, and for every element
a sleeper could take there is a woken thread that has still to look
(`puts_wake_sleepers`).
-/

namespace CppFastDevelop

namespace RawQueue

open Exec Machine Words LockedSignal

variable {α : Type}

/-! ## turns on a queue nobody stopped -/

/-- Nobody has stopped the queue. -/
structure Running (q : RawQueue α) : Prop where
  toPut : q.stopToPut = false
  toGet : q.stopToGet = false

section Turns

variable {q : RawQueue α} (h : q.Running)

include h

/-- A get from an empty queue is counted and waits. -/
theorem getTurn_get_nil (hq : q.queue = []) :
    getTurn (get q) = ({ q with waitCount := q.waitCount + 1 }, .wait ()) := by
  simp only [get, getTurn, bind_apply, get_apply, set_apply, pure_apply, hq, h.toPut, if_true]

/-- A get takes the first element. -/
theorem getTurn_get_cons {temp : α} {rest : List α} (hq : q.queue = temp :: rest) :
    getTurn (get q) = ({ q with queue := rest }, .done .none (.got temp)) := by
  simp only [get, getTurn, bind_apply, get_apply, set_apply, pure_apply, throwIf_apply, hq,
    h.toGet, Bool.false_eq_true, if_false]

/-- A put signals where somebody is counted as waiting. -/
theorem putTurn_put (el : α) : putTurn el (put el q) =
    if q.waitCount ≠ 0 then
      ({ q with queue := q.queue ++ [el], waitCount := q.waitCount - 1 },
        .done .one (.stored el))
    else ({ q with queue := q.queue ++ [el] }, .done .none (.stored el)) := by
  by_cases hcount : q.waitCount ≠ 0
  · simp only [put, putTurn, bind_apply, get_apply, set_apply, pure_apply, throwIf_apply,
      modify_apply, h.toPut, Bool.false_eq_true, if_false, if_pos hcount]
  · simp only [put, putTurn, bind_apply, get_apply, set_apply, pure_apply, throwIf_apply,
      h.toPut, Bool.false_eq_true, if_false, if_neg hcount]

end Turns

/-! ## threads -/

/-- The threads and their queue. -/
abbrev Threads (ι α : Type) := LockedSignal.State ι (RawQueue α) Unit Stopping

variable {ι : Type} [DecidableEq ι] [Fintype ι]

/-- One step of the threads. -/
def step : Threads ι α → LockedSignal.Label ι (Request α) Unit Stopping → Option (Threads ι α) :=
  LockedSignal.step program writeFlag

/-- The threads before their first call. -/
def idleThreads : Threads ι α := ⟨construct, fun _ => .idle⟩

namespace Threads

omit [DecidableEq ι] in
/-- How many threads sleep in `Wait`. -/
def sleepers (s : Threads ι α) : Nat := count Pc.isAsleep s.pc

omit [DecidableEq ι] in
/-- How many have decided to wait and still hold the mutex. -/
def parkers (s : Threads ι α) : Nat := count Pc.isParking s.pc

omit [DecidableEq ι] in
/-- How many have been woken and have not looked at the queue since. -/
def wakers (s : Threads ι α) : Nat := count Pc.isWoken s.pc

omit [DecidableEq ι] in
/-- The counter misses no sleeper, and as long as somebody sleeps there is a
woken thread for every element. -/
structure Attended (s : Threads ι α) : Prop where
  running : s.mem.Running
  counted : ((s.sleepers + s.parkers : Nat) : Int) ≤ s.mem.waitCount.toInt
  queued : 0 < s.sleepers + s.parkers → s.mem.queue.length ≤ s.wakers

omit [DecidableEq ι] in
/-- What it takes for sleepers to be attended to. -/
theorem attended_mk {m : RawQueue α} {pc : ι → Pc Unit Stopping} (hrunning : m.Running)
    (hcounted : ((sleepers ⟨m, pc⟩ + parkers ⟨m, pc⟩ : Nat) : Int) ≤ m.waitCount.toInt)
    (hqueued : 0 < sleepers ⟨m, pc⟩ + parkers ⟨m, pc⟩ → m.queue.length ≤ wakers ⟨m, pc⟩) :
    Attended ⟨m, pc⟩ :=
  ⟨hrunning, hcounted, hqueued⟩

variable {s s' : Threads ι α} {i : ι} {target : Option ι}

/-- One thread moves. -/
theorem counts_update (s : Threads ι α) (m : RawQueue α) (i : ι) (x : Pc Unit Stopping) :
    sleepers ⟨m, Function.update s.pc i x⟩ + (s.pc i).isAsleep.toNat =
        s.sleepers + x.isAsleep.toNat ∧
      parkers ⟨m, Function.update s.pc i x⟩ + (s.pc i).isParking.toNat =
        s.parkers + x.isParking.toNat ∧
      wakers ⟨m, Function.update s.pc i x⟩ + (s.pc i).isWoken.toNat =
        s.wakers + x.isWoken.toNat :=
  ⟨count_update _ s.pc i x, count_update _ s.pc i x, count_update _ s.pc i x⟩

/-- `Get` looks at the queue: it takes an element, or counts itself and
waits. -/
theorem Attended.get (h : s.Attended) (hlimit : s.mem.waitCount < Int32.maxValue)
    (hasleep : (s.pc i).isAsleep = false) (hparking : (s.pc i).isParking = false)
    (htaken : Taken s i target (getTurn (RawQueue.get s.mem)) s') : s'.Attended := by
  have hcounted := h.counted
  have hqueued := h.queued
  have hone := (s.pc i).isWoken.toNat_le
  cases hq : s.mem.queue with
  | nil =>
      rw [getTurn_get_nil h.running hq] at htaken
      generalize hm : { s.mem with waitCount := s.mem.waitCount + 1 } = m at htaken
      have hrunning : m.Running := hm ▸ ⟨h.running.toPut, h.running.toGet⟩
      have hcount : m.waitCount.toInt = s.mem.waitCount.toInt + 1 := hm ▸ toInt_add_one hlimit
      have hlen : m.queue.length = 0 := by rw [← hm, hq, List.length_nil]
      cases htaken with
      | @wait _ l _ =>
          obtain ⟨hsleep, hpark, -⟩ := counts_update s m i (.parking l)
          rw [hasleep] at hsleep
          rw [hparking] at hpark
          simp only [Pc.isAsleep, Pc.isParking, Bool.toNat_true, Bool.toNat_false] at hsleep hpark
          exact attended_mk hrunning (by omega) (by omega)
  | cons temp rest =>
      rw [getTurn_get_cons h.running hq] at htaken
      generalize hm : { s.mem with queue := rest } = m at htaken
      have hrunning : m.Running := hm ▸ ⟨h.running.toPut, h.running.toGet⟩
      have hcount : m.waitCount.toInt = s.mem.waitCount.toInt := by rw [← hm]
      have hlen : m.queue.length + 1 = s.mem.queue.length := by rw [← hm, hq, List.length_cons]
      cases htaken
      obtain ⟨hsleep, hpark, hwake⟩ := counts_update s m i .idle
      rw [hasleep] at hsleep
      rw [hparking] at hpark
      change _ = s.wakers + 0 at hwake
      simp only [Pc.isAsleep, Pc.isParking, Bool.toNat_false] at hsleep hpark
      exact attended_mk hrunning (by omega) (by omega)

/-- `Put` signals if the counter is not zero; if it is, nobody sleeps. -/
theorem Attended.put (h : s.Attended) (el : α) (hi : s.pc i = .idle) (hfree : s.Free)
    (htaken : Taken s i target (putTurn el (RawQueue.put el s.mem)) s') : s'.Attended := by
  have hcounted := h.counted
  have hqueued := h.queued
  have hpark₀ : s.parkers = 0 := count_eq_zero.mpr hfree
  rw [putTurn_put h.running] at htaken
  split at htaken
  · next hne =>
      have hpos : 0 < s.mem.waitCount.toInt := by
        have hzero : s.mem.waitCount.toInt ≠ 0 := fun hzero =>
          hne (Int32.toInt_inj.mp (hzero.trans Int32.toInt_zero.symm))
        omega
      generalize hm : { s.mem with
        queue := s.mem.queue ++ [el], waitCount := s.mem.waitCount - 1 } = m at htaken
      have hrunning : m.Running := hm ▸ ⟨h.running.toPut, h.running.toGet⟩
      have hcount : m.waitCount.toInt = s.mem.waitCount.toInt - 1 := hm ▸ toInt_sub_one hpos
      have hlen : m.queue.length = s.mem.queue.length + 1 := by
        rw [← hm, List.length_append, List.length_singleton]
      cases htaken with
      | @signal _ _ j l hj =>
          -- a sleeper has become a woken thread
          obtain ⟨hsleep, hpark, hwake⟩ := counts_update s m j (.woken l true)
          obtain ⟨hsleep', hpark', hwake'⟩ :=
            counts_update ⟨m, Function.update s.pc j (.woken l true)⟩ m i .idle
          have hij : i ≠ j := fun heq => by rw [heq, hj] at hi; cases hi
          simp only [hi, hj, Function.update_of_ne hij, Pc.isAsleep, Pc.isParking, Pc.isWoken,
            Bool.toNat_true, Bool.toNat_false] at hsleep hpark hwake hsleep' hpark' hwake'
          exact attended_mk hrunning (by omega) (by omega)
      | signalNobody hnone =>
          have hsleep₀ : s.sleepers = 0 := count_eq_zero.mpr hnone
          obtain ⟨hsleep, hpark, -⟩ := counts_update s m i .idle
          simp only [hi, Pc.isAsleep, Pc.isParking, Bool.toNat_false] at hsleep hpark
          exact attended_mk hrunning (by omega) (by omega)
  · next hzero =>
      rw [not_not] at hzero
      generalize hm : { s.mem with queue := s.mem.queue ++ [el] } = m at htaken
      have hrunning : m.Running := hm ▸ ⟨h.running.toPut, h.running.toGet⟩
      have hcount : m.waitCount.toInt = 0 := by rw [← hm, hzero, Int32.toInt_zero]
      rw [hzero, Int32.toInt_zero] at hcounted
      cases htaken
      obtain ⟨hsleep, hpark, -⟩ := counts_update s m i .idle
      simp only [hi, Pc.isAsleep, Pc.isParking, Bool.toNat_false] at hsleep hpark
      exact attended_mk hrunning (by omega) (by omega)

/-- A thread moves and leaves the queue alone. -/
theorem Attended.move (h : s.Attended) {x : Pc Unit Stopping}
    (hwait : x.isAsleep.toNat + x.isParking.toNat ≤
      (s.pc i).isAsleep.toNat + (s.pc i).isParking.toNat)
    (hwoken : (s.pc i).isWoken.toNat ≤ x.isWoken.toNat) :
    Attended ⟨s.mem, Function.update s.pc i x⟩ := by
  have hcounted := h.counted
  have hqueued := h.queued
  obtain ⟨hsleep, hpark, hwake⟩ := counts_update s s.mem i x
  exact attended_mk h.running (by omega) (by omega)

/-- One step that is no step of a stop request. -/
theorem attended_step {a : LockedSignal.Label ι (Request α) Unit Stopping} (ha : ¬ a.IsStop)
    (hlimit : s.mem.waitCount < Int32.maxValue) (hstep : RawQueue.step s a = some s')
    (h : s.Attended) : s'.Attended := by
  cases step_effect hstep with
  | @enter i c target _ hi hfree htaken =>
      cases c with
      | get => exact h.get hlimit (by rw [hi]; rfl) (by rw [hi]; rfl) htaken
      | put el => exact h.put el hi hfree htaken
      | isEmpty =>
          cases htaken
          exact h.move (by rw [hi]) (by rw [hi])
      | size =>
          cases htaken
          exact h.move (by rw [hi]) (by rw [hi])
  | resume hi hfree htaken => exact h.get hlimit (by rw [hi]; rfl) (by rw [hi]; rfl) htaken
  | park hi => exact h.move (by rw [hi]; exact Nat.le_refl 1) (by rw [hi]; exact Nat.le_refl 0)
  | wake hi => exact h.move (by rw [hi]; exact Nat.zero_le _) (by rw [hi]; exact Nat.zero_le _)
  | stop => exact absurd trivial ha
  | write => exact absurd trivial ha
  | broadcast => exact absurd trivial ha

omit [DecidableEq ι] in
/-- At the beginning nobody sleeps. -/
theorem attended_idleThreads : (idleThreads : Threads ι α).Attended := by
  have hzero (p : Pc Unit Stopping → Bool) (hp : p .idle = false) :
      count p (idleThreads : Threads ι α).pc = 0 := count_eq_zero.mpr fun _ => hp
  refine ⟨⟨rfl, rfl⟩, ?_, fun _ => Nat.zero_le _⟩
  rw [sleepers, parkers, hzero _ rfl, hzero _ rfl]
  rfl

end Threads

/-! ## over a run -/

/-- **No wake-up is lost.**  Whenever the mutex is free, `_waitCount` is at
least the number of sleepers, and if there are any, there is for every
element a woken thread that has not looked at the queue yet. -/
theorem puts_wake_sleepers (as : List (LockedSignal.Label ι (Request α) Unit Stopping))
    {s : Threads ι α} (hstop : ∀ a ∈ as, ¬ a.IsStop)
    (hlimit : Along step (fun s _ => s.mem.waitCount < Int32.maxValue) idleThreads as)
    (hrun : run step idleThreads as = some s) (hfree : s.Free) :
    (s.sleepers : Int) ≤ s.mem.waitCount.toInt ∧
      (0 < s.sleepers → s.mem.queue.length ≤ s.wakers) := by
  have halong := (along_of_forall_mem step hstop idleThreads).and hlimit
  have h : s.Attended := run_invariant_along Threads.Attended
    (fun _ _ _ hc => Threads.attended_step hc.1 hc.2) halong hrun Threads.attended_idleThreads
  have hpark : s.parkers = 0 := count_eq_zero.mpr hfree
  have hcounted := h.counted
  have hqueued := h.queued
  rw [hpark, Nat.add_zero] at hcounted hqueued
  exact ⟨hcounted, hqueued⟩

/-- Two threads go to sleep, and a third one puts an element. -/
def twoSleepersOnePut {ι : Type} (i j k : ι) :
    List (LockedSignal.Label ι (Request Nat) Unit Stopping) :=
  [.enter i .get none, .park i, .enter j .get none, .park j, .enter k (.put 7) (some i)]

/-- One of them is still asleep, the other has been woken for the element. -/
theorem puts_wake_sleepers_twoSleepersOnePut : ∃ s : Threads (Fin 3) Nat,
    run step idleThreads (twoSleepersOnePut 0 1 2) = some s ∧
      (s.sleepers : Int) ≤ s.mem.waitCount.toInt ∧
      (0 < s.sleepers → s.mem.queue.length ≤ s.wakers) :=
  ⟨_, rfl, puts_wake_sleepers (twoSleepersOnePut 0 1 2) (by decide) (by decide) rfl (by decide)⟩

end RawQueue

end CppFastDevelop
