import CppFastDevelop.Network.SegmentSync
import Mathlib.Algebra.Group.Int.Defs

/-!
# CppFastDevelop.Network.Budget

What `SendSegmentSync` and `RecvSegmentSync` take off `timeoutMilliSeconds`
in one iteration.  Both make milliseconds of a clock reading as
`seconds*1000+useconds%1000`, so the thousands of the microseconds are
lost and their rest is counted a thousand times (`counted_error`).  Where
that comes to at most a millisecond in each iteration, what is left follows
the clock (`segmentSync_budget`).
-/

namespace CppFastDevelop

open Machine

/-! ## what is counted -/

/-- The milliseconds the code counts between two readings. -/
def counted (b e : TimeVal) : Int :=
  1000 * (e.seconds.toNat - b.seconds.toNat) +
    (e.useconds.toNat % 1000 - b.useconds.toNat % 1000 : Int)

/-- The microseconds between two readings. -/
def spent (b e : TimeVal) : Int := e.microseconds - b.microseconds

/-- How far the microseconds counted are from those spent. -/
def miscounted (b e : TimeVal) : Int :=
  999 * (e.useconds.toNat % 1000 - b.useconds.toNat % 1000 : Int) -
    1000 * (e.useconds.toNat / 1000 - b.useconds.toNat / 1000 : Int)

theorem counted_error (b e : TimeVal) : 1000 * counted b e - spent b e = miscounted b e := by
  simp only [counted, spent, miscounted, TimeVal.microseconds]
  omega

/-- `gettimeofday` does not go back, so what is counted within a millisecond
is not negative. -/
theorem counted_nonneg {b e : TimeVal} (hle : b.microseconds ≤ e.microseconds)
    (h : (miscounted b e).natAbs ≤ 1000) : 0 ≤ counted b e := by
  have herror := counted_error b e
  have hspent : 0 ≤ spent b e := by unfold spent; omega
  -- only -1 has to be ruled out: it needs no time spent and 1000 microseconds miscounted
  have hone : -1 ≤ counted b e := by omega
  refine Decidable.byContradiction fun hneg => ?_
  have hcounted : counted b e = -1 := by omega
  have hmiscounted : miscounted b e = -1000 := by omega
  simp only [counted, miscounted] at hcounted hmiscounted
  have hb : (b.useconds.toNat % 1000 : Int) < 1000 := by omega
  have he : (e.useconds.toNat % 1000 : Int) < 1000 := by omega
  have hsame : (e.useconds.toNat % 1000 : Int) = b.useconds.toNat % 1000 := by omega
  omega

theorem toNat_toUInt64_toInt64 (x : Int32) :
    (x.toInt64.toUInt64.toNat : Int) = x.toInt % 18446744073709551616 := by
  have hbits : x.toInt64.toBitVec.toInt = x.toInt := Int32.toInt_toInt64 x
  have hlt := x.toInt64.toBitVec.isLt
  have hbmod := BitVec.toInt_eq_toNat_bmod x.toInt64.toBitVec
  rw [hbits, Int.bmod_def] at hbmod
  change (x.toInt64.toBitVec.toNat : Int) = _
  split at hbmod <;> omega

theorem toNat_milliseconds (t : TimeVal) : t.milliseconds.toNat =
    (t.seconds.toNat * 1000 + t.useconds.toNat % 1000) % 18446744073709551616 := by
  simp [TimeVal.milliseconds]

/-- What is left is the time before less what is counted, cut down to 32
bits. -/
theorem toInt_charge (timeout : Int32) (b e : TimeVal) :
    (charge timeout b e).toInt = (timeout.toInt - counted b e).bmod (2 ^ 32) := by
  have htimeout := toNat_toUInt64_toInt64 timeout
  have hb := toNat_milliseconds b
  have he := toNat_milliseconds e
  have hint (u : UInt32) : u.toInt32.toInt = (u.toNat : Int).bmod (2 ^ 32) :=
    BitVec.toInt_eq_toNat_bmod _
  rw [charge, hint, ← Int.emod_bmod, ← Int.emod_bmod (timeout.toInt - counted b e)]
  congr 1
  simp only [UInt64.toNat_toUInt32, UInt64.toNat_sub, counted]
  omega

/-- The subtraction does not overflow. -/
theorem toInt_charge_of_counted {timeout : Int32} {b e : TimeVal} (hnonneg : 0 ≤ counted b e)
    (hroom : counted b e ≤ timeout.toInt + 2147483648) :
    (charge timeout b e).toInt = timeout.toInt - counted b e := by
  have hlt := timeout.toInt_lt
  rw [toInt_charge, Int.bmod_eq_of_le]
  · omega
  · omega

/-- What one iteration takes off is the time it took, up to a millisecond,
exactly if the readings are counted so. -/
theorem charge_within_iff {timeout : Int32} {b e : TimeVal} (hnonneg : 0 ≤ counted b e)
    (hroom : counted b e ≤ timeout.toInt + 2147483648) :
    (1000 * (timeout.toInt - (charge timeout b e).toInt) - spent b e).natAbs ≤ 1000 ↔
      (miscounted b e).natAbs ≤ 1000 := by
  rw [toInt_charge_of_counted hnonneg hroom, ← counted_error, Int.sub_sub_self]

/-! ## the ledger of a call -/

/-- The iterations of a call that moved something, and the microseconds they
took. -/
structure Ledger where
  iterations : Nat
  spent : Int
  deriving DecidableEq, Repr

section Ledger

variable {σ ℓ : Type} (step : σ → ℓ → Option σ) (left : σ → Int32)
  (times : σ → ℓ → Option (TimeVal × TimeVal))

/-- Enter an iteration. -/
def book (k : Ledger) (s : σ) (l : ℓ) (_ : σ) : Ledger :=
  match times s l with
  | none => k
  | some (b, e) => ⟨k.iterations + 1, k.spent + CppFastDevelop.spent b e⟩

/-- The readings of an iteration are counted to within a millisecond, and the
time counted can be taken off what is left. -/
def CountedWell (s : σ) (l : ℓ) : Prop :=
  ∀ b e, times s l = some (b, e) →
    (miscounted b e).natAbs ≤ 1000 ∧ counted b e ≤ (left s).toInt + 2147483648

/-- What is left is what was given less the time spent, up to a millisecond
for each iteration. -/
def OnBudget (timeout : Int32) (s : σ) (k : Ledger) : Prop :=
  (1000 * (timeout.toInt - (left s).toInt) - k.spent).natAbs ≤ 1000 * k.iterations

/-- No step adds to what is left, and what is left stays on budget. -/
def KeepsBudget (timeout : Int32) (s : σ × Ledger) (l : ℓ) : Prop :=
  ∀ t, recorded step (book times) s l = some t →
    (left t.1).toInt ≤ (left s.1).toInt ∧ OnBudget left timeout t.1 t.2

variable {step left times}

/-- A step that charges its readings keeps the budget. -/
theorem keepsBudget_of_countedWell {timeout : Int32} {s t : σ} {l : ℓ} {k : Ledger}
    (hcharge : left t = (times s l).elim (left s) fun p => charge (left s) p.1 p.2)
    (hclock : ∀ b e, times s l = some (b, e) → b.microseconds ≤ e.microseconds)
    (hwell : CountedWell left times s l) (hs : OnBudget left timeout s k) :
    (left t).toInt ≤ (left s).toInt ∧ OnBudget left timeout t (book times k s l t) := by
  cases htimes : times s l with
  | none =>
      rw [htimes, Option.elim_none] at hcharge
      rw [OnBudget, book, htimes, hcharge]
      exact ⟨Int.le_refl _, hs⟩
  | some p =>
      obtain ⟨b, e⟩ := p
      obtain ⟨herror, hroom⟩ := hwell b e htimes
      have hnonneg := counted_nonneg (hclock b e htimes) herror
      have hexact := counted_error b e
      rw [htimes, Option.elim_some] at hcharge
      rw [OnBudget] at *
      rw [book, htimes, hcharge, toInt_charge_of_counted hnonneg hroom]
      dsimp only
      omega

/-- A call whose iterations are all counted well keeps its budget. -/
theorem along_keepsBudget {timeout : Int32}
    (hcharge : ∀ s l t, step s l = some t →
      left t = (times s l).elim (left s) fun p => charge (left s) p.1 p.2)
    {s : σ} {k : Ledger} {ls : List ℓ}
    (hclock : ∀ l ∈ ls, ∀ s b e, times s l = some (b, e) → b.microseconds ≤ e.microseconds)
    (hwell : Along step (CountedWell left times) s ls) (hs : OnBudget left timeout s k) :
    Along (recorded step (book times)) (KeepsBudget step left times timeout) (s, k) ls := by
  induction ls generalizing s k with
  | nil => trivial
  | cons l ls ih =>
      have hkeep (t : σ × Ledger) (ht : recorded step (book times) (s, k) l = some t) :
          (left t.1).toInt ≤ (left s).toInt ∧ OnBudget left timeout t.1 t.2 := by
        obtain ⟨hstep, hk⟩ := recorded_eq_some.mp ht
        rw [hk]
        exact keepsBudget_of_countedWell (hcharge _ _ _ hstep) (hclock l (by simp) s)
          (hwell t.1 hstep).1 hs
      intro t ht
      refine ⟨hkeep, ih ?_ ?_ (hkeep t ht).2⟩
      · exact fun l' hl' => hclock l' (by simp [hl'])
      · exact (hwell t.1 (recorded_eq_some.mp ht).1).2

end Ledger

/-! ## the two functions -/

/-- The readings an iteration charges for. -/
def SendRound.times (totalLen : Nat) (segsize : Int) (s : SendSync) (r : SendRound) :
    Option (TimeVal × TimeVal) :=
  (r.chunk totalLen segsize s).map fun _ => (r.beginTime, r.endTime)

def RecvRound.times (totalLen : Nat) (segsize : Int) (s : RecvSync) (r : RecvRound) :
    Option (TimeVal × TimeVal) :=
  (r.chunk totalLen segsize s).map fun _ => (r.beginTime, r.endTime)

theorem timeout_sendStep {totalLen : Nat} {segsize : Int} {s t : SendSync} {r : SendRound}
    (h : sendStep totalLen segsize s r = some t) :
    t.timeoutMilliSeconds = (r.times totalLen segsize s).elim s.timeoutMilliSeconds
      fun p => charge s.timeoutMilliSeconds p.1 p.2 := by
  obtain ⟨-, ⟨len, timeout, hchunk, htimeout, rfl⟩ | ⟨hchunk, -, -, -, htimeout⟩⟩ :=
    sendStep_cases h
  · simp [SendRound.times, hchunk, htimeout]
  · simp [SendRound.times, hchunk, htimeout]

theorem timeout_recvStep {totalLen : Nat} {segsize : Int} {s t : RecvSync} {r : RecvRound}
    (h : recvStep totalLen segsize s r = some t) :
    t.timeoutMilliSeconds = (r.times totalLen segsize s).elim s.timeoutMilliSeconds
      fun p => charge s.timeoutMilliSeconds p.1 p.2 := by
  obtain ⟨-, ⟨len, timeout, received, hchunk, htimeout, rfl⟩ | ⟨hchunk, -, -, -, htimeout⟩⟩ :=
    recvStep_cases h
  · simp [RecvRound.times, hchunk, htimeout]
  · simp [RecvRound.times, hchunk, htimeout]

/-- With a clock that does not go back, a call whose iterations are all
counted well never adds to the time left, and the time left is the time
given less the time spent moving bytes, up to a millisecond for each
iteration. -/
theorem segmentSync_budget (totalLen hasDone : Nat) (segsize : Int) (closed : Bool)
    (timeoutMilliSeconds : Int32) :
    (∀ rounds : List SendRound,
      (∀ r ∈ rounds, r.beginTime.microseconds ≤ r.endTime.microseconds) →
      Along (sendStep totalLen segsize)
        (CountedWell SendSync.timeoutMilliSeconds (SendRound.times totalLen segsize))
        (sendSegmentSync totalLen hasDone timeoutMilliSeconds) rounds →
      Along (recorded (sendStep totalLen segsize) (book (SendRound.times totalLen segsize)))
        (KeepsBudget (sendStep totalLen segsize) SendSync.timeoutMilliSeconds
          (SendRound.times totalLen segsize) timeoutMilliSeconds)
        (sendSegmentSync totalLen hasDone timeoutMilliSeconds, ⟨0, 0⟩) rounds) ∧
    (∀ rounds : List RecvRound,
      (∀ r ∈ rounds, r.beginTime.microseconds ≤ r.endTime.microseconds) →
      Along (recvStep totalLen segsize)
        (CountedWell RecvSync.timeoutMilliSeconds (RecvRound.times totalLen segsize))
        (recvSegmentSync totalLen hasDone closed timeoutMilliSeconds) rounds →
      Along (recorded (recvStep totalLen segsize) (book (RecvRound.times totalLen segsize)))
        (KeepsBudget (recvStep totalLen segsize) RecvSync.timeoutMilliSeconds
          (RecvRound.times totalLen segsize) timeoutMilliSeconds)
        (recvSegmentSync totalLen hasDone closed timeoutMilliSeconds, ⟨0, 0⟩) rounds) := by
  constructor
  · intro rounds hclock hwell
    apply along_keepsBudget (fun _ _ _ => timeout_sendStep) ?_ hwell
    · unfold OnBudget sendSegmentSync
      split <;> simp
    · intro r hr s b e htimes
      simp only [SendRound.times, Option.map_eq_some_iff, Prod.mk.injEq] at htimes
      obtain ⟨_, _, rfl, rfl⟩ := htimes
      exact hclock r hr
  · intro rounds hclock hwell
    apply along_keepsBudget (fun _ _ _ => timeout_recvStep) ?_ hwell
    · unfold OnBudget recvSegmentSync
      split <;> simp
    · intro r hr s b e htimes
      simp only [RecvRound.times, Option.map_eq_some_iff, Prod.mk.injEq] at htimes
      obtain ⟨_, _, rfl, rfl⟩ := htimes
      exact hclock r hr

/-- A call that sends its byte at once keeps its budget. -/
theorem segmentSync_budget_second :
    Along (recorded (sendStep 1 (-1)) (book (SendRound.times 1 (-1))))
      (KeepsBudget (sendStep 1 (-1)) SendSync.timeoutMilliSeconds (SendRound.times 1 (-1)) 1000)
      (sendSegmentSync 1 0 1000, ⟨0, 0⟩) [⟨.zero, some 1, some 1, .zero⟩] := by
  apply (segmentSync_budget 1 0 (-1) false 1000).1
  · simp
  · refine fun t _ => ⟨fun b e htimes => ?_, trivial⟩
    cases htimes
    decide

/-- One microsecond, from 999 to 1000, gives a call another 999
milliseconds. -/
theorem budget_grows :
    (run (sendStep 2 (-1)) (sendSegmentSync 2 0 1000)
          [⟨⟨0, 999, by decide⟩, some 1, some 1, ⟨0, 1000, by decide⟩⟩] =
        some ⟨1, 1999, .running⟩ ∧
      ¬ Along (recorded (sendStep 2 (-1)) (book (SendRound.times 2 (-1))))
        (KeepsBudget (sendStep 2 (-1)) SendSync.timeoutMilliSeconds (SendRound.times 2 (-1)) 1000)
        (sendSegmentSync 2 0 1000, ⟨0, 0⟩)
        [⟨⟨0, 999, by decide⟩, some 1, some 1, ⟨0, 1000, by decide⟩⟩]) ∧
    (run (recvStep 2 (-1)) (recvSegmentSync 2 0 false 1000)
          [⟨⟨0, 999, by decide⟩, some 1, some [7], ⟨0, 1000, by decide⟩⟩] =
        some ⟨1, [7], false, 1999, .running⟩ ∧
      ¬ Along (recorded (recvStep 2 (-1)) (book (RecvRound.times 2 (-1))))
        (KeepsBudget (recvStep 2 (-1)) RecvSync.timeoutMilliSeconds (RecvRound.times 2 (-1)) 1000)
        (recvSegmentSync 2 0 false 1000, ⟨0, 0⟩)
        [⟨⟨0, 999, by decide⟩, some 1, some [7], ⟨0, 1000, by decide⟩⟩]) := by
  refine ⟨⟨by decide, fun h => ?_⟩, by decide, fun h => ?_⟩
  · obtain ⟨hkeeps, -⟩ := h (⟨1, 1999, .running⟩, ⟨1, 1⟩) (by decide)
    exact absurd (hkeeps (⟨1, 1999, .running⟩, ⟨1, 1⟩) (by decide)).1 (by decide)
  · obtain ⟨hkeeps, -⟩ := h (⟨1, [7], false, 1999, .running⟩, ⟨1, 1⟩) (by decide)
    exact absurd (hkeeps (⟨1, [7], false, 1999, .running⟩, ⟨1, 1⟩) (by decide)).1 (by decide)

end CppFastDevelop
