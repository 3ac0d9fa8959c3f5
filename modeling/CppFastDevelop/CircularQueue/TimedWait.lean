import CppFastDevelop.CircularQueue.Status

/-!
# CppFastDevelop.CircularQueue.TimedWait

The timed wait loops of `TimedPut` and `TimedGet`.  Each `Wait` is given
what is left of the caller's time-out; after a wake-up that does not help,
the loop subtracts the time since it was entered, in seconds, from what was
left at the last `Wait`, in milliseconds.  So each `Wait` has the caller's
time-out less the time that has passed exactly as long as the sum of those
seconds, taken for milliseconds, is that time (`timedWait_onBudget_iff`).
-/

namespace CppFastDevelop

open Exec Machine

/-! ## the clock -/

/-- What the real-time clock shows, in nanoseconds, as far as `time` can tell it. -/
structure Instant where
  ns : Nat
  lt : ns / 1000000000 < 2 ^ 63

namespace Instant

/-- The whole milliseconds. -/
def ms (a : Instant) : Nat := a.ns / 1000000

/-- What `time` answers: the whole seconds. -/
def time (a : Instant) : Int64 := Int64.ofNat (a.ns / 1000000000)

theorem ms_div (a : Instant) : a.ms / 1000 = a.ns / 1000000000 := by
  rw [ms, Nat.div_div_eq_div_mul]

theorem ms_lt (a : Instant) : a.ms / 1000 < 2 ^ 63 := a.ms_div ▸ a.lt

theorem ms_le {a b : Instant} (h : a.ns ≤ b.ns) : a.ms ≤ b.ms := Nat.div_le_div_right h

theorem toInt_time (a : Instant) : a.time.toInt = (a.ms / 1000 : Nat) := by
  have hlt := a.ms_lt
  rw [time, ← ms_div, Int64.toInt_ofNat_of_lt (by omega)]

/-- Before the first second is over, `time` is 0. -/
theorem time_of_lt {a : Instant} (h : a.ns < 1000000000) : a.time = 0 := by
  rw [time, Nat.div_eq_of_lt h]
  rfl

end Instant

/-! ## a caller in a timed loop -/

/-- A wake-up by a notification: when it comes, and what the caller finds. -/
structure Wakeup where
  time : Instant
  env : Environment
  mem : Shm

/-- The local variables of a `TimedPut` that waits once more. -/
def putAgain (f : PutWait) (u : Wakeup) : Option PutWait :=
  match CircularQueue.timedPutWake f true u.time.time u.env u.mem with
  | .ok (some f') _ => some f'
  | _ => none

/-- The local variables of a `TimedGet` that waits once more. -/
def getAgain (f : GetWait) (u : Wakeup) : Option GetWait :=
  match CircularQueue.timedGetWake f true u.time.time u.env u.mem with
  | .ok (some f') _ => some f'
  | _ => none

/-- A caller that has called `Wait`: its local variables, when it entered its
loop and when it called, and the sum of the seconds its wake-ups were after
the entry. -/
structure TimedWait (F : Type) where
  locals : F
  entered : Instant
  called : Instant
  counted : Int

section TimedWait

variable {F : Type} (again : F → Wakeup → Option F) (timed : F → Prop) (left : F → Int32)
  (start : F → Int64)

/-- The caller is woken, and calls `Wait` again.  The clock does not go back. -/
def waitAgain (s : TimedWait F) (u : Wakeup) : Option (TimedWait F) :=
  if s.called.ns ≤ u.time.ns then
    (again s.locals u).map fun f =>
      { s with
        locals := f
        called := u.time
        counted := s.counted + ((u.time.ms / 1000 : Nat) - (s.entered.ms / 1000 : Nat)) }
  else none

/-- The time that has passed in the loop when `Wait` is called. -/
def TimedWait.elapsed (s : TimedWait F) : Int := s.called.ms - s.entered.ms

/-- `Wait` is given the time-out less the time that has passed, to within the
second the clock is good for. -/
def TimedWait.OnBudget (timeout : Int32) (s : TimedWait F) : Prop :=
  ((left s.locals).toInt - (timeout.toInt - s.elapsed)).natAbs < 1000

instance (timeout : Int32) (s : TimedWait F) : Decidable (s.OnBudget left timeout) :=
  inferInstanceAs (Decidable (_ < _))

/-- So the caller is never asleep longer than its time-out and a second. -/
theorem TimedWait.OnBudget.elapsed_add_left_lt {timeout : Int32} {s : TimedWait F}
    (h : s.OnBudget left timeout) :
    s.elapsed + (left s.locals).toInt < timeout.toInt + 1000 := by
  unfold TimedWait.OnBudget at h
  omega

/-- The seconds counted are, as milliseconds, the time that has passed, to
within a second. -/
def CountsTime (s : TimedWait F) (u : Wakeup) : Prop :=
  (s.counted + ((u.time.ms / 1000 : Nat) - (s.entered.ms / 1000 : Nat) : Int) -
    (u.time.ms - s.entered.ms)).natAbs < 1000

instance (s : TimedWait F) (u : Wakeup) : Decidable (CountsTime s u) :=
  inferInstanceAs (Decidable (_ < _))

/-- What is left is the time-out less what was counted. -/
structure TimedWait.Exact (timeout : Int32) (s : TimedWait F) : Prop where
  timed : timed s.locals
  left_eq : (left s.locals).toInt = timeout.toInt - s.counted
  pos : 0 < (left s.locals).toInt
  start_eq : start s.locals = s.entered.time
  entered_le : s.entered.ms ≤ s.called.ms
  onBudget : s.OnBudget left timeout

variable {again timed left start}

/-- What the loop subtracts, where the clock has not gone back. -/
theorem toInt_sub_seconds (x : Int32) {a b : Instant} (hle : a.ms ≤ b.ms) :
    (x - (b.time - a.time).toInt32).toInt =
      (x.toInt - ((b.ms / 1000 : Nat) - (a.ms / 1000 : Nat))).bmod (2 ^ 32) := by
  have hb := b.ms_lt
  have hdiff : (b.time - a.time).toInt = (b.ms / 1000 : Nat) - (a.ms / 1000 : Nat) := by
    rw [Int64.toInt_sub, b.toInt_time, a.toInt_time, Int.bmod_eq_of_le] <;> omega
  rw [Int32.toInt_sub, Int64.toInt_toInt32, hdiff, Int.sub_bmod_bmod]

/-- What `again` does to the local variables of a timed call. -/
def Subtracts (again : F → Wakeup → Option F) (timed : F → Prop) (left : F → Int32)
    (start : F → Int64) : Prop :=
  ∀ f u f', timed f → again f u = some f' → timed f' ∧
    left f' = left f - (u.time.time - start f).toInt32 ∧ start f' = start f ∧ 0 < left f'

/-- One more `Wait`: its time is the last one's less the seconds since the
loop was entered, cut down to 32 bits. -/
theorem waitAgain_spec (hagain : Subtracts again timed left start) {timeout : Int32}
    {s t : TimedWait F} {u : Wakeup} (h : waitAgain again s u = some t)
    (hs : s.Exact timed left start timeout) :
    timed t.locals ∧
      (left t.locals).toInt = ((left s.locals).toInt -
        ((u.time.ms / 1000 : Nat) - (s.entered.ms / 1000 : Nat))).bmod (2 ^ 32) ∧
      0 < (left t.locals).toInt ∧ start t.locals = start s.locals ∧ t.entered = s.entered ∧
      t.called = u.time ∧ s.called.ms ≤ u.time.ms ∧
      t.counted = s.counted + ((u.time.ms / 1000 : Nat) - (s.entered.ms / 1000 : Nat)) := by
  unfold waitAgain at h
  split at h
  · next hle =>
      replace hle := Instant.ms_le hle
      obtain ⟨f, hf, rfl⟩ := Option.map_eq_some_iff.mp h
      obtain ⟨htimed, hleft, hstart, hpos⟩ := hagain _ _ _ hs.timed hf
      have hentered : s.entered.ms ≤ u.time.ms := Nat.le_trans hs.entered_le hle
      refine ⟨htimed, ?_, Int32.lt_iff_toInt_lt.mp hpos, hstart, rfl, rfl, hle, rfl⟩
      rw [hleft, hs.start_eq, toInt_sub_seconds _ hentered]
  · cases h

/-- A wake-up that counts its time keeps the budget exact. -/
theorem exact_step (hagain : Subtracts again timed left start) {timeout : Int32} {s t : TimedWait F}
    {u : Wakeup} (h : waitAgain again s u = some t) (hcounts : CountsTime s u)
    (hs : s.Exact timed left start timeout) : t.Exact timed left start timeout := by
  obtain ⟨htimed, hleft, hpos, hstart, hentered, hcalled, hle, hcounted⟩ :=
    waitAgain_spec hagain h hs
  have hbound := (left s.locals).toInt_lt
  have htimeout := timeout.toInt_lt
  have hleft' := hs.left_eq
  have hpos' := hs.pos
  have hle' := hs.entered_le
  unfold CountsTime at hcounts
  -- a wake-up that is counted right is not so late that the subtraction overflows
  rw [Int.bmod_eq_of_le (by omega) (by omega)] at hleft
  have hexact : (left t.locals).toInt = timeout.toInt - t.counted := by omega
  refine ⟨htimed, hexact, hpos, ?_, ?_, ?_⟩
  · rw [hstart, hs.start_eq, hentered]
  · rw [hentered, hcalled]; omega
  · rw [TimedWait.OnBudget, TimedWait.elapsed, hexact, hentered, hcalled, hcounted]
    omega

/-- A wake-up that leaves the call on its budget has counted its time. -/
theorem countsTime_of_onBudget (hagain : Subtracts again timed left start) {timeout : Int32}
    {s t : TimedWait F} {u : Wakeup} (h : waitAgain again s u = some t)
    (hs : s.Exact timed left start timeout) (ht : t.OnBudget left timeout) : CountsTime s u := by
  obtain ⟨-, hleft, hpos, -, hentered, hcalled, hle, -⟩ := waitAgain_spec hagain h hs
  have hbound := (left s.locals).toInt_lt
  have htimeout := timeout.toInt_lt
  have hleft' := hs.left_eq
  have hpos' := hs.pos
  have hle' := hs.entered_le
  rw [TimedWait.OnBudget, TimedWait.elapsed, hentered, hcalled] at ht
  -- so late that the subtraction overflows, no time left would be on budget
  have hsmall : ((u.time.ms / 1000 : Nat) - (s.entered.ms / 1000 : Nat) : Int) ≤ 2147483648 := by
    omega
  rw [Int.bmod_eq_of_le (by omega) (by omega)] at hleft
  unfold CountsTime
  omega

/-- A caller that has entered its loop: every `Wait` is on budget exactly as
long as the seconds counted are the time that passes. -/
theorem onBudget_iff (hagain : Subtracts again timed left start) {timeout : Int32} {f : F}
    {entered : Instant} (htimeout : 0 < timeout) (htimed : timed f) (hleft : left f = timeout)
    (hstart : start f = entered.time) (us : List Wakeup) :
    (∀ ks, ks <+: us → ∀ s, run (waitAgain again) ⟨f, entered, entered, 0⟩ ks = some s →
        s.OnBudget left timeout) ↔
      Along (waitAgain again) CountsTime ⟨f, entered, entered, 0⟩ us := by
  apply forall_reached_iff_along_of_invariant
    (I := fun s : TimedWait F => s.Exact timed left start timeout)
  · exact fun s hs => hs.onBudget
  · exact fun s u t => exact_step hagain
  · exact fun s u t => countsTime_of_onBudget hagain
  · have hpos := Int32.lt_iff_toInt_lt.mp htimeout
    refine ⟨htimed, by simp [hleft], by rw [hleft]; exact hpos, hstart, Nat.le_refl _, ?_⟩
    simp [TimedWait.OnBudget, TimedWait.elapsed, hleft]

end TimedWait

/-! ## the two calls -/

open CircularQueue

/-- A wait loop is gone round with the local variables it was entered with,
and with time left if it is timed. -/
theorem timedPutLoop_waits {f f' : PutWait} {env : Environment} {w w' : Shm}
    (h : timedPutLoop f env w = .ok (some f') w') :
    f' = f ∧ (f.timed = true → 0 < f.timeoutMilliseconds) := by
  rw [timedPutLoop_apply] at h
  split at h
  · split at h
    · cases h
    · next htime =>
        cases h
        exact ⟨rfl, fun htimed => Int32.not_le.mp fun hle => htime ⟨htimed, hle⟩⟩
  · obtain ⟨_, _, _, hnone⟩ := bind_eq_ok.mp h
    cases hnone

/-- A get that waits goes on as it was, with time left. -/
theorem timedGetLoop_waits {f f' : GetWait} {env : Environment} {w w' : Shm}
    (h : timedGetLoop f env w = .ok (some f') w') :
    f' = f ∧ (f.timed = true → 0 < f.timeoutMilliseconds) := by
  rw [timedGetLoop_apply] at h
  split at h
  · split at h
    · cases h
    · next htime =>
        cases h
        exact ⟨rfl, fun htimed => Int32.not_le.mp fun hle => htime ⟨htimed, hle⟩⟩
  · obtain ⟨_, _, _, hnone⟩ := bind_eq_ok.mp h
    cases hnone

/-- A put that waits has the local variables it began with. -/
theorem timedPut_waits {self : CircularQueue} {pData : Mem} {size : UInt64} {t : Int32}
    {start : Int64} {env : Environment} {w w' : Shm} {f : PutWait}
    (h : self.timedPut pData size t start env w = .ok (some f) w') :
    f = ⟨pData, size, size + headerSize, decide (0 < t), t, start⟩ := by
  rw [timedPut_apply] at h
  split at h
  · cases h
  split at h
  · cases h
  split at h
  · split at h
    · cases h
    · exact (timedPutLoop_waits h).1
  · obtain ⟨_, _, _, hnone⟩ := bind_eq_ok.mp h
    cases hnone

/-- A get that waits begins with the time it was given. -/
theorem timedGet_waits {self : CircularQueue} {t : Int32} {start : Int64} {env : Environment}
    {w w' : Shm} {f : GetWait} (h : self.timedGet t start env w = .ok (some f) w') :
    f = ⟨decide (0 < t), t, start⟩ := by
  rw [timedGet_apply] at h
  split at h
  · cases h
  split at h
  · split at h
    · cases h
    · exact (timedGetLoop_waits h).1
  · obtain ⟨_, _, _, hnone⟩ := bind_eq_ok.mp h
    cases hnone

/-- A put subtracts each wait from its time. -/
theorem subtracts_putAgain : Subtracts putAgain (fun f => f.timed = true)
    PutWait.timeoutMilliseconds PutWait.start := by
  intro f u f' htimed h
  simp only [putAgain] at h
  split at h
  · next f₁ w' hrun =>
      cases h
      rw [timedPutWake_apply, if_pos htimed, if_pos rfl] at hrun
      obtain ⟨rfl, hpos⟩ := timedPutLoop_waits hrun
      exact ⟨htimed, rfl, rfl, hpos htimed⟩
  · cases h

/-- A get subtracts each wait from its time. -/
theorem subtracts_getAgain : Subtracts getAgain (fun f => f.timed = true)
    GetWait.timeoutMilliseconds GetWait.start := by
  intro f u f' htimed h
  simp only [getAgain] at h
  split at h
  · next f₁ w' hrun =>
      cases h
      rw [timedGetWake_apply, if_pos htimed, if_pos rfl] at hrun
      obtain ⟨rfl, hpos⟩ := timedGetLoop_waits hrun
      exact ⟨htimed, rfl, rfl, hpos htimed⟩
  · cases h

/-- Whatever wakes the caller of a timed put or get and whatever it finds:
the time given to `Wait` is the caller's time-out less the time that has
passed, to within a second, in every `Wait` of the run exactly if in each
the seconds counted so far are that time. -/
theorem timedWait_onBudget_iff {timeout : Int32} (htimeout : 0 < timeout) (self : CircularQueue)
    (entered : Instant) (env : Environment) (w w' : Shm) :
    (∀ pData size f, self.timedPut pData size timeout entered.time env w = .ok (some f) w' →
      ∀ us, (∀ ks, ks <+: us → ∀ s,
          run (waitAgain putAgain) ⟨f, entered, entered, 0⟩ ks = some s →
            s.OnBudget PutWait.timeoutMilliseconds timeout) ↔
        Along (waitAgain putAgain) CountsTime ⟨f, entered, entered, 0⟩ us) ∧
    (∀ f, self.timedGet timeout entered.time env w = .ok (some f) w' →
      ∀ us, (∀ ks, ks <+: us → ∀ s,
          run (waitAgain getAgain) ⟨f, entered, entered, 0⟩ ks = some s →
            s.OnBudget GetWait.timeoutMilliseconds timeout) ↔
        Along (waitAgain getAgain) CountsTime ⟨f, entered, entered, 0⟩ us) := by
  constructor
  · intro pData size f h us
    cases timedPut_waits h
    exact onBudget_iff subtracts_putAgain htimeout (decide_eq_true htimeout) rfl rfl us
  · intro f h us
    cases timedGet_waits h
    exact onBudget_iff subtracts_getAgain htimeout (decide_eq_true htimeout) rfl rfl us

/-- A consumer of an empty queue, ten seconds, woken within the first second. -/
theorem timedWait_onBudget_first :
    ∃ f, timedGet ⟨true⟩ 10000 (Instant.time ⟨0, by decide⟩) zeroEnvironment smallestQueue =
        .ok (some f) smallestQueue ∧
      ∀ ks, ks <+: [⟨⟨400000000, by decide⟩, zeroEnvironment, smallestQueue⟩] → ∀ s,
        run (waitAgain getAgain) ⟨f, ⟨0, by decide⟩, ⟨0, by decide⟩, 0⟩ ks = some s →
          s.OnBudget GetWait.timeoutMilliseconds 10000 := by
  have hget : timedGet ⟨true⟩ 10000 (Instant.time ⟨0, by decide⟩) zeroEnvironment smallestQueue =
      .ok (some ⟨true, 10000, 0⟩) smallestQueue := rfl
  refine ⟨_, hget, ((timedWait_onBudget_iff (by decide) _ _ _ _ _).2 _ hget _).mpr ?_⟩
  exact fun s _ => ⟨by decide, trivial⟩

/-- The queue of one byte, taken. -/
def fullQueue : Shm :=
  (program.enter (.tryPut ⟨true⟩ (onePayload 7) zeroEnvironment) smallestQueue).1

/-- Ten seconds: woken after five, a consumer and a producer wait again for
9995 milliseconds. -/
theorem not_onBudget_halfway :
    (∃ f s, timedGet ⟨true⟩ 10000 (Instant.time ⟨0, by decide⟩) zeroEnvironment smallestQueue =
        .ok (some f) smallestQueue ∧
      run (waitAgain getAgain) ⟨f, ⟨0, by decide⟩, ⟨0, by decide⟩, 0⟩
        [⟨⟨5000000000, by decide⟩, zeroEnvironment, smallestQueue⟩] = some s ∧
      s.locals.timeoutMilliseconds = 9995 ∧ ¬ s.OnBudget GetWait.timeoutMilliseconds 10000) ∧
    (∃ f s, timedPut ⟨true⟩ (onePayload 8).pData 1 10000 (Instant.time ⟨0, by decide⟩)
        zeroEnvironment fullQueue = .ok (some f) fullQueue ∧
      run (waitAgain putAgain) ⟨f, ⟨0, by decide⟩, ⟨0, by decide⟩, 0⟩
        [⟨⟨5000000000, by decide⟩, zeroEnvironment, fullQueue⟩] = some s ∧
      s.locals.timeoutMilliseconds = 9995 ∧ ¬ s.OnBudget PutWait.timeoutMilliseconds 10000) :=
  ⟨⟨_, _, rfl, rfl, rfl, by decide⟩, ⟨_, _, rfl, rfl, rfl, by decide⟩⟩

end CppFastDevelop
