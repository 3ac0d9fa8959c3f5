import CppFastDevelop.CircularQueue.TimedWait

/-!
# CppFastDevelop.CircularQueue.TimeOut

How a timed call runs out of time.  `RawPthreadCondition::Wait`
(`cf_condition.cpp`) hands its time-out to `pthread_cond_timedwait`, which
takes a point of time, and looks for `ETIMEDOUT` in `errno`, while
`pthread_cond_timedwait` returns it.  So a put or get that is never served
ends as it should exactly in the first second of 1970, with a time-out that
ends within it, and if `errno` is `ETIMEDOUT` already (`timedOut_iff`).
-/

namespace CppFastDevelop

open Exec Machine

/-! ## the wait -/

/-- `struct timespec`. -/
structure Timespec where
  tv_sec : Int64
  tv_nsec : Int64

/-- The time it stands for, in nanoseconds. -/
def Timespec.ns (ts : Timespec) : Int := ts.tv_sec.toInt * 1000000000 + ts.tv_nsec.toInt

def ETIMEDOUT : Int32 := 110

namespace RawPthreadCondition

/-- What `Wait` passes to `pthread_cond_timedwait`. -/
def waitTimespec (timeoutMilliseconds : UInt32) : Timespec where
  tv_sec := Int64.ofNat (timeoutMilliseconds / 1000).toNat
  tv_nsec := Int64.ofNat (timeoutMilliseconds % 1000 * 1000000).toNat

/-- What `Wait` makes of `pthread_cond_timedwait`'s result. -/
def waitResult (rt errno : Int32) : Except BaseException Bool :=
  if 0 = rt then .ok true
  else if 0 ≠ rt ∧ ETIMEDOUT = errno then .ok false
  else .error ⟨.syscallExecuteError, "Failed to execute pthread_cond_timedwait , rt=%d !",
    [rt.toInt]⟩

/-- A time-out is a time of 1970. -/
theorem ns_waitTimespec {t : Int32} (ht : 0 < t) :
    (waitTimespec t.toUInt32).ns = t.toInt * 1000000 := by
  have hpos := Int32.lt_iff_toInt_lt.mp ht
  have hlt := t.toInt_lt
  have hnat : t.toUInt32.toNat = t.toInt.toNat := Int32.toNat_toUInt32_of_le (Int32.le_of_lt ht)
  have hsec : (t.toUInt32 / 1000).toNat = t.toInt.toNat / 1000 := by
    rw [UInt32.toNat_div, hnat]; rfl
  have hnsec : (t.toUInt32 % 1000 * 1000000).toNat = t.toInt.toNat % 1000 * 1000000 := by
    rw [UInt32.toNat_mul, UInt32.toNat_mod, hnat]
    exact Nat.mod_eq_of_lt (by simp; omega)
  simp only [Timespec.ns, waitTimespec, hsec, hnsec]
  rw [Int64.toInt_ofNat_of_lt (by omega), Int64.toInt_ofNat_of_lt (by omega)]
  simp at hpos
  omega

end RawPthreadCondition

open RawPthreadCondition

/-- What `pthread_cond_timedwait` does: it returns `ETIMEDOUT` once the clock
has reached the time it was given, and else may be woken.  It does not set
`errno`, and the clock does not go back. -/
def TimedwaitReturns (abstime : Timespec) (called returned : Instant) (rt : Int32) : Prop :=
  called.ns ≤ returned.ns ∧
    (rt = 0 ∧ called.ns < abstime.ns ∨ rt = ETIMEDOUT ∧ abstime.ns ≤ returned.ns)

instance (abstime : Timespec) (called returned : Instant) (rt : Int32) :
    Decidable (TimedwaitReturns abstime called returned rt) :=
  inferInstanceAs (Decidable (_ ∧ _))

/-! ## a timed call -/

/-- A timed call in one of its `Wait`s, or at its end: what it threw, and when. -/
inductive TimedCall (F : Type)
  | waiting (locals : F) (called : Instant)
  | ended (thrown : Option BaseException) (clock : Instant)

section TimedCall

variable {F : Type} (wake : F → Bool → Int64 → Environment → Op (Option F))
  (left : F → Int32) (start : F → Int64) (timed : F → Prop) (unserved : F → Shm → Prop)
  [∀ f w, Decidable (unserved f w)] (errno : Int32)

/-- The call goes on when `pthread_cond_timedwait` has returned. -/
def afterTimedwait (f : F) (rt : Int32) (u : Wakeup) : TimedCall F :=
  match waitResult rt errno with
  | .error e => .ended (some e) u.time
  | .ok signalled =>
      match wake f signalled u.time.time u.env u.mem with
      | .ok (some f') _ => .waiting f' u.time
      | .ok none _ => .ended none u.time
      | .error e _ => .ended (some e) u.time

/-- `pthread_cond_timedwait` returns, to a queue that cannot serve the call. -/
def timedwaitStep : TimedCall F → Int32 × Wakeup → Option (TimedCall F)
  | .waiting f called, (rt, u) =>
      if TimedwaitReturns (waitTimespec (left f).toUInt32) called u.time rt ∧ unserved f u.mem then
        some (afterTimedwait wake errno f rt u)
      else none
  | .ended _ _, _ => none

/-- A call ends by `TimeoutInfo`, not before its time-out has passed.  As
long as it waits, it ends once `pthread_cond_timedwait` times out. -/
def TimedCall.EndsOnTime (timeout : Int32) (entered : Instant) : TimedCall F → Prop
  | .waiting f _ => ∀ u, ∃ thrown, afterTimedwait wake errno f ETIMEDOUT u = .ended thrown u.time
  | .ended thrown clock =>
      thrown = some CircularQueue.timeoutInfo ∧
        entered.ns + timeout.toInt * 1000000 ≤ clock.ns

/-- What a wait loop does while its call cannot be served. -/
structure TimedLoop : Prop where
  woken : ∀ f now env w, timed f → unserved f w →
    (left f - (now - start f).toInt32 ≤ 0 ∧
      wake f true now env w = .error CircularQueue.timeoutInfo w) ∨
    ∃ f', wake f true now env w = .ok (some f') w ∧ timed f' ∧ unserved f' w ∧
      start f' = start f ∧ left f' = left f - (now - start f).toInt32 ∧ 0 < left f'
  timedOut : ∀ f now env w, timed f → wake f false now env w = .error CircularQueue.timeoutInfo w

variable {wake left start timed unserved errno}

omit [∀ f w, Decidable (unserved f w)] in
/-- When the time is over the call ends, with the one exception or the other. -/
theorem afterTimedwait_timedOut (hloop : TimedLoop wake left start timed unserved) {f : F}
    (htimed : timed f) (u : Wakeup) :
    afterTimedwait wake errno f ETIMEDOUT u =
      .ended (some (if ETIMEDOUT = errno then CircularQueue.timeoutInfo
        else ⟨.syscallExecuteError, "Failed to execute pthread_cond_timedwait , rt=%d !",
          [ETIMEDOUT.toInt]⟩)) u.time := by
  have hrt : ¬ (0 : Int32) = ETIMEDOUT := by decide
  rw [afterTimedwait, waitResult, if_neg hrt]
  by_cases herrno : ETIMEDOUT = errno
  · rw [if_pos ⟨hrt, herrno⟩, if_pos herrno]
    simp only [hloop.timedOut f _ _ _ htimed]
  · rw [if_neg fun h => herrno h.2, if_neg herrno]

/-- In the first second of 1970: the call has all its time-out left, or its
time-out is over. -/
def TimedCall.InFirstSecond (left : F → Int32) (start : F → Int64) (timed : F → Prop)
    (timeout : Int32) : TimedCall F → Prop
  | .waiting f called => timed f ∧ 0 < left f ∧ start f = 0 ∧
      (left f = timeout ∨ timeout.toInt * 1000000 ≤ called.ns)
  | .ended thrown clock =>
      thrown = some CircularQueue.timeoutInfo ∧ timeout.toInt * 1000000 ≤ clock.ns

/-- A call stays in its first second, over every wake-up. -/
theorem inFirstSecond_step (hloop : TimedLoop wake left start timed unserved)
    {timeout : Int32} (herrno : ETIMEDOUT = errno) (htimeout : timeout ≤ 1000)
    {s t : TimedCall F} {r : Int32 × Wakeup}
    (hstep : timedwaitStep wake left unserved errno s r = some t)
    (hs : s.InFirstSecond left start timed timeout) : t.InFirstSecond left start timed timeout := by
  obtain ⟨rt, u⟩ := r
  cases s with
  | ended thrown clock => cases hstep
  | waiting f called =>
      obtain ⟨htimed, hpos, hstart, hleft⟩ := hs
      simp only [timedwaitStep, Option.ite_none_right_eq_some, Option.some.injEq] at hstep
      obtain ⟨⟨⟨hle, hreturns⟩, hunserved⟩, rfl⟩ := hstep
      have hshort : timeout.toInt ≤ 1000 := Int32.le_iff_toInt_le.mp htimeout
      rcases hreturns with ⟨rfl, hcalled⟩ | ⟨rfl, hreached⟩
      · have hresult : waitResult 0 errno = .ok true := if_pos rfl
        have hwoken := hloop.woken f u.time.time u.env u.mem htimed hunserved
        rw [hstart] at hwoken
        by_cases hearly : u.time.ns < 1000000000
        · rw [Instant.time_of_lt hearly, show left f - (0 - 0 : Int64).toInt32 = left f by simp]
            at hwoken
          rcases hwoken with ⟨hover, -⟩ | ⟨f', hrun, htimed', -, hstart', hleft', hpos'⟩
          · exact absurd hpos (Int32.not_lt.mpr hover)
          · simp only [afterTimedwait, hresult, Instant.time_of_lt hearly, hrun]
            refine ⟨htimed', hpos', hstart', ?_⟩
            rw [hleft']
            exact hleft.imp_right fun hover => by omega
        · have hover : timeout.toInt * 1000000 ≤ u.time.ns := by omega
          rcases hwoken with ⟨-, hrun⟩ | ⟨f', hrun, htimed', -, hstart', -, hpos'⟩
          · simp only [afterTimedwait, hresult, hrun]
            exact ⟨rfl, hover⟩
          · simp only [afterTimedwait, hresult, hrun]
            exact ⟨htimed', hpos', hstart', .inr hover⟩
      · rw [afterTimedwait_timedOut hloop htimed, if_pos herrno]
        rw [ns_waitTimespec hpos] at hreached
        refine ⟨rfl, ?_⟩
        rcases hleft with heq | hover
        · rw [← heq]; exact hreached
        · omega

variable (errno) in
/-- A `Wait` that is not woken. -/
theorem timedwaitStep_timedOut (hloop : TimedLoop wake left start timed unserved) {f : F}
    (htimed : timed f) (hpos : 0 < left f) {called : Instant} {u : Wakeup}
    (hunserved : unserved f u.mem) (hle : called.ns ≤ u.time.ns)
    (hreached : (left f).toInt * 1000000 ≤ u.time.ns) :
    ∃ thrown, timedwaitStep wake left unserved errno (.waiting f called) (ETIMEDOUT, u) =
        some (.ended (some thrown) u.time) ∧
      (thrown = CircularQueue.timeoutInfo ↔ ETIMEDOUT = errno) := by
  have hreturns : TimedwaitReturns (waitTimespec (left f).toUInt32) called u.time ETIMEDOUT := by
    refine ⟨hle, .inr ⟨rfl, ?_⟩⟩
    rw [ns_waitTimespec hpos]
    exact hreached
  refine ⟨_, by rw [timedwaitStep, if_pos ⟨hreturns, hunserved⟩,
    afterTimedwait_timedOut hloop htimed], ?_⟩
  split
  · next herrno => exact iff_of_true rfl herrno
  · next herrno => exact iff_of_false (by decide) herrno

variable (errno) in
/-- A `Wait` that is woken in the second second of 1970, with more than a
second left: a millisecond is counted. -/
theorem timedwaitStep_woken (hloop : TimedLoop wake left start timed unserved) {f : F}
    (htimed : timed f) (hlong : 1000 < left f) (hstart : start f = 0) {called : Instant}
    {u : Wakeup} (hunserved : unserved f u.mem) (hcalled : called.ns = 0)
    (hclock : u.time.ns = 1000000000) :
    ∃ f', timedwaitStep wake left unserved errno (.waiting f called) (0, u) =
        some (.waiting f' u.time) ∧
      timed f' ∧ unserved f' u.mem ∧ 0 < left f' ∧ (left f').toInt = (left f).toInt - 1 := by
  have hlong' : 1000 < (left f).toInt := Int32.lt_iff_toInt_lt.mp hlong
  have hlt := (left f).toInt_lt
  have hpos : 0 < left f := Int32.lt_trans (by decide) hlong
  have htime : u.time.time = 1 := by rw [Instant.time, hclock]; rfl
  have hdiff : (left f - (u.time.time - start f).toInt32).toInt = (left f).toInt - 1 := by
    rw [htime, hstart, show ((1 : Int64) - 0).toInt32 = 1 from rfl, Int32.toInt_sub]
    exact Int.bmod_eq_of_le (by simp; omega) (by simp; omega)
  have hreturns : TimedwaitReturns (waitTimespec (left f).toUInt32) called u.time 0 := by
    refine ⟨by omega, .inl ⟨rfl, ?_⟩⟩
    rw [ns_waitTimespec hpos]
    omega
  rcases hloop.woken f u.time.time u.env u.mem htimed hunserved with
    ⟨hover, -⟩ | ⟨f', hrun, htimed', hunserved', -, hleft', hpos'⟩
  · have hover' := Int32.le_iff_toInt_le.mp hover
    rw [hdiff] at hover'
    simp at hover'
    omega
  · refine ⟨f', ?_, htimed', hunserved', hpos', by rw [hleft', hdiff]⟩
    rw [timedwaitStep, if_pos ⟨hreturns, hunserved⟩, afterTimedwait,
      show waitResult 0 errno = .ok true from if_pos rfl]
    simp only [hrun]

/-- A call that enters its wait loop and is never served: whatever wakes it,
it ends as it should exactly if it is entered at the first instant of 1970,
its time-out is a second or less, and `errno` is `ETIMEDOUT`. -/
theorem endsOnTime_iff (hloop : TimedLoop wake left start timed unserved) {f : F}
    {entered : Instant} (env : Environment) {w : Shm} (hpos : 0 < left f) (htimed : timed f)
    (hstart : start f = entered.time) (hunserved : unserved f w) :
    (∀ rs s, run (timedwaitStep wake left unserved errno) (.waiting f entered) rs = some s →
        s.EndsOnTime wake errno (left f) entered) ↔
      ETIMEDOUT = errno ∧ entered.ns = 0 ∧ left f ≤ 1000 := by
  have hlt := (left f).toInt_lt
  have hpos' : 0 < (left f).toInt := Int32.lt_iff_toInt_lt.mp hpos
  constructor
  · intro h
    -- the call is not woken
    obtain ⟨u, hmem, hclock⟩ : ∃ u : Wakeup, u.mem = w ∧
        u.time.ns = max entered.ns ((left f).toInt.toNat * 1000000) :=
      ⟨⟨⟨_, by have := entered.lt; omega⟩, env, w⟩, rfl, rfl⟩
    have hstep := timedwaitStep_timedOut errno hloop htimed hpos (hmem ▸ hunserved)
      (show entered.ns ≤ u.time.ns by omega) (show (left f).toInt * 1000000 ≤ u.time.ns by omega)
    obtain ⟨thrown, hstep, hthrown⟩ := hstep
    obtain ⟨hinfo, htime⟩ := h _ _ (run_cons_eq_some.mpr ⟨_, hstep, run_nil _⟩)
    have hentered : entered.ns = 0 := by omega
    refine ⟨hthrown.mp (Option.some.inj hinfo), hentered, Int32.not_lt.mp fun hlong => ?_⟩
    -- the call is woken after a second
    obtain ⟨u₁, hmem₁, hclock₁⟩ : ∃ u : Wakeup, u.mem = w ∧ u.time.ns = 1000000000 :=
      ⟨⟨⟨_, by decide⟩, env, w⟩, rfl, rfl⟩
    obtain ⟨f', hwoken, htimed', hunserved', hpos₁, hleft'⟩ := timedwaitStep_woken errno hloop
      htimed hlong (by rw [hstart, Instant.time, hentered]; rfl) (hmem₁ ▸ hunserved) hentered
      hclock₁
    obtain ⟨u₂, hmem₂, hclock₂⟩ : ∃ u : Wakeup, u.mem = w ∧
        u.time.ns = (left f').toInt.toNat * 1000000 :=
      ⟨⟨⟨_, by omega⟩, env, w⟩, rfl, rfl⟩
    have hlong' : 1000 < (left f).toInt := Int32.lt_iff_toInt_lt.mp hlong
    have hend := timedwaitStep_timedOut errno hloop htimed' hpos₁ (hmem₂ ▸ hmem₁ ▸ hunserved')
      (show u₁.time.ns ≤ u₂.time.ns by omega)
      (show (left f').toInt * 1000000 ≤ u₂.time.ns by omega)
    obtain ⟨_, hend, -⟩ := hend
    obtain ⟨-, htime₂⟩ := h _ _ (run_cons_eq_some.mpr
      ⟨_, hwoken, run_cons_eq_some.mpr ⟨_, hend, run_nil _⟩⟩)
    omega
  · rintro ⟨herrno, hentered, hshort⟩ rs s hrun
    have hinv := run_invariant (fun s : TimedCall F => s.InFirstSecond left start timed (left f))
      (fun s r t hstep hs => inFirstSecond_step hloop herrno hshort hstep hs) hrun
      ⟨htimed, hpos, by rw [hstart, Instant.time, hentered]; rfl, .inl rfl⟩
    cases s with
    | waiting f' called =>
        exact fun u => ⟨_, afterTimedwait_timedOut hloop hinv.1 u⟩
    | ended thrown clock =>
        refine ⟨hinv.1, ?_⟩
        rw [hentered]
        have hover := hinv.2
        omega

variable (errno) in
/-- Where the clock is past the time-out, the call is over at once. -/
theorem over_at_once (hloop : TimedLoop wake left start timed unserved) (f : F) (entered : Instant)
    (env : Environment) (w : Shm) (htimed : timed f) (hpos : 0 < left f) (hunserved : unserved f w)
    (hpast : (left f).toInt * 1000000 ≤ entered.ns) :
    ∃ thrown, run (timedwaitStep wake left unserved errno) (.waiting f entered)
        [(ETIMEDOUT, ⟨entered, env, w⟩)] = some (.ended (some thrown) entered) ∧
      (thrown = CircularQueue.timeoutInfo ↔ ETIMEDOUT = errno) ∧
      ¬ (TimedCall.ended (some thrown) entered).EndsOnTime wake errno (left f) entered := by
  have hpos' : 0 < (left f).toInt := Int32.lt_iff_toInt_lt.mp hpos
  have hend := timedwaitStep_timedOut errno hloop htimed hpos
    (show unserved f (Wakeup.mk entered env w).mem from hunserved) (Nat.le_refl entered.ns) hpast
  obtain ⟨thrown, hstep, hthrown⟩ := hend
  refine ⟨thrown, run_cons_eq_some.mpr ⟨_, hstep, run_nil _⟩, hthrown, fun h => ?_⟩
  have hlate := h.2
  omega

end TimedCall

/-! ## the two calls -/

open CircularQueue

/-- The element of the put does not fit what is left. -/
abbrev TooFull (f : PutWait) (w : Shm) : Prop := f.elementSize > w.pMeta.qLeftSize

/-- There is nothing to get, and getting has not been stopped. -/
abbrev NothingToGet (_f : GetWait) (w : Shm) : Prop :=
  w.pMeta.status ≠ .Q_STOP2PUTANDGET ∧ 0 = w.pMeta.elementCount

/-- The wait loop of a `TimedPut` on a queue that stays too full. -/
abbrev putWaits (errno : Int32) : TimedCall PutWait → Int32 × Wakeup → Option (TimedCall PutWait) :=
  timedwaitStep timedPutWake PutWait.timeoutMilliseconds TooFull errno

/-- The wait loop of a `TimedGet` on a queue that stays empty. -/
abbrev getWaits (errno : Int32) : TimedCall GetWait → Int32 × Wakeup → Option (TimedCall GetWait) :=
  timedwaitStep timedGetWake GetWait.timeoutMilliseconds NothingToGet errno

/-- The put is a loop with a time. -/
theorem timedLoop_put : TimedLoop timedPutWake PutWait.timeoutMilliseconds PutWait.start
    (fun f => f.timed = true) TooFull where
  woken := by
    intro f now env w htimed hfull
    rw [timedPutWake_apply, if_pos htimed, if_pos rfl, timedPutLoop_apply, if_pos hfull]
    by_cases hover : f.timeoutMilliseconds - (now - f.start).toInt32 ≤ 0
    · exact .inl ⟨hover, if_pos ⟨htimed, hover⟩⟩
    · exact .inr ⟨_, if_neg fun h => hover h.2, htimed, hfull, rfl, rfl, Int32.not_le.mp hover⟩
  timedOut := by
    intro f now env w htimed
    rw [timedPutWake_apply, if_pos htimed, if_neg (by decide)]

/-- The get is a loop with a time. -/
theorem timedLoop_get : TimedLoop timedGetWake GetWait.timeoutMilliseconds GetWait.start
    (fun f => f.timed = true) NothingToGet where
  woken := by
    intro f now env w htimed hempty
    rw [timedGetWake_apply, if_pos htimed, if_pos rfl, timedGetLoop_apply, if_pos hempty]
    by_cases hover : f.timeoutMilliseconds - (now - f.start).toInt32 ≤ 0
    · exact .inl ⟨hover, if_pos ⟨htimed, hover⟩⟩
    · exact .inr ⟨_, if_neg fun h => hover h.2, htimed, hempty, rfl, rfl, Int32.not_le.mp hover⟩
  timedOut := by
    intro f now env w htimed
    rw [timedGetWake_apply, if_pos htimed, if_neg (by decide)]

/-- A timed put of an element that the queue stays too full for, and a timed
get on a queue that stays empty, enter their wait loops.  They end by
`TimeoutInfo`, and not before the time-out has passed, whatever wakes them,
exactly if the call is entered at the first instant of 1970 with a time-out
of a second or less, and `errno` is `ETIMEDOUT` already. -/
theorem timedOut_iff {timeout : Int32} (htimeout : 0 < timeout) (self : CircularQueue)
    (errno : Int32) (entered : Instant) (env : Environment) (w : Shm) :
    (∀ pData size, w.pMeta.status = .Q_NOMAL → size + headerSize ≤ w.pMeta.qTotalSize →
      size + headerSize > w.pMeta.qLeftSize →
        ∃ f, self.timedPut pData size timeout entered.time env w = .ok (some f) w ∧
          ((∀ rs s, run (putWaits errno) (.waiting f entered) rs = some s →
              s.EndsOnTime timedPutWake errno timeout entered) ↔
            ETIMEDOUT = errno ∧ entered.ns = 0 ∧ timeout ≤ 1000)) ∧
    (w.pMeta.status ≠ .Q_STOP2PUTANDGET → 0 = w.pMeta.elementCount →
      ∃ f, self.timedGet timeout entered.time env w = .ok (some f) w ∧
        ((∀ rs s, run (getWaits errno) (.waiting f entered) rs = some s →
            s.EndsOnTime timedGetWake errno timeout entered) ↔
          ETIMEDOUT = errno ∧ entered.ns = 0 ∧ timeout ≤ 1000)) := by
  have htimed : decide (0 < timeout) = true := decide_eq_true htimeout
  have hzero : ¬ timeout = 0 := by
    rintro rfl
    exact absurd htimeout (by decide)
  have hover : ¬ timeout ≤ 0 := Int32.not_le.mpr htimeout
  constructor
  · intro pData size hstat hfits hfull
    refine ⟨⟨pData, size, size + headerSize, decide (0 < timeout), timeout, entered.time⟩, ?_,
      endsOnTime_iff timedLoop_put env htimeout htimed rfl hfull⟩
    rw [timedPut_apply, if_neg (not_not_intro hstat), if_neg (UInt64.not_lt.mpr hfits),
      if_pos hfull, if_neg hzero, timedPutLoop_apply, if_pos hfull, if_neg fun h => hover h.2]
  · intro hstat hempty
    refine ⟨⟨decide (0 < timeout), timeout, entered.time⟩, ?_,
      endsOnTime_iff timedLoop_get env htimeout htimed rfl ⟨hstat, hempty⟩⟩
    rw [timedGet_apply, if_neg hstat, if_pos hempty, if_neg hzero, timedGetLoop_apply,
      if_pos ⟨hstat, hempty⟩, if_neg fun h => hover h.2]

/-- Half a second, from the first instant of 1970. -/
theorem timedOut_first : ∃ f, timedGet ⟨true⟩ 500 (Instant.time ⟨0, by decide⟩) zeroEnvironment
      smallestQueue = .ok (some f) smallestQueue ∧
    ∀ rs s, run (getWaits ETIMEDOUT) (.waiting f ⟨0, by decide⟩) rs = some s →
      s.EndsOnTime timedGetWake ETIMEDOUT 500 ⟨0, by decide⟩ := by
  obtain ⟨f, hget, hiff⟩ := (timedOut_iff (show (0 : Int32) < 500 by decide) ⟨true⟩ ETIMEDOUT
    ⟨0, by decide⟩ zeroEnvironment smallestQueue).2 (by decide) rfl
  exact ⟨f, hget, hiff.mpr ⟨rfl, rfl, by decide⟩⟩

/-- A day of 2023. -/
def someDay : Instant := ⟨1700000000000000000, by decide⟩

/-- Ten seconds, on a day of 2023: the call is over at once, by
`SyscallExecuteError` or, with an old `ETIMEDOUT`, by `TimeoutInfo`. -/
theorem not_timedOut_someDay :
    (∃ f, timedGet ⟨true⟩ 10000 someDay.time zeroEnvironment smallestQueue =
        .ok (some f) smallestQueue ∧
      ∀ errno, ∃ thrown, run (getWaits errno) (.waiting f someDay)
          [(ETIMEDOUT, ⟨someDay, zeroEnvironment, smallestQueue⟩)] =
            some (.ended (some thrown) someDay) ∧
        (thrown = timeoutInfo ↔ ETIMEDOUT = errno) ∧
        ¬ (TimedCall.ended (some thrown) someDay).EndsOnTime timedGetWake errno 10000 someDay) ∧
    (∃ f, timedPut ⟨true⟩ (onePayload 8).pData 1 10000 someDay.time zeroEnvironment fullQueue =
        .ok (some f) fullQueue ∧
      ∀ errno, ∃ thrown, run (putWaits errno) (.waiting f someDay)
          [(ETIMEDOUT, ⟨someDay, zeroEnvironment, fullQueue⟩)] =
            some (.ended (some thrown) someDay) ∧
        (thrown = timeoutInfo ↔ ETIMEDOUT = errno) ∧
        ¬ (TimedCall.ended (some thrown) someDay).EndsOnTime timedPutWake errno 10000 someDay) := by
  constructor
  · exact ⟨⟨true, 10000, someDay.time⟩, rfl, fun errno =>
      over_at_once errno timedLoop_get ⟨true, 10000, someDay.time⟩ someDay zeroEnvironment
        smallestQueue rfl (by decide) (by decide) (by decide)⟩
  · exact ⟨⟨(onePayload 8).pData, 1, 25, true, 10000, someDay.time⟩, rfl, fun errno =>
      over_at_once errno timedLoop_put ⟨(onePayload 8).pData, 1, 25, true, 10000, someDay.time⟩
        someDay zeroEnvironment fullQueue rfl (by decide) (by decide) (by decide)⟩

end CppFastDevelop
