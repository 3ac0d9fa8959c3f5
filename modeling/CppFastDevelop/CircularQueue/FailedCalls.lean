import CppFastDevelop.CircularQueue.Status

/-!
# CppFastDevelop.CircularQueue.FailedCalls

Calls that end in an exception, and calls that should.  Whatever the status,
a turn that throws has stored nothing: every exception of `TimedPut` and
`TimedGet` comes before the first store, and the ones behind the stores of
`ElementOp` never come (`failed_call_unchanged`).  A producer that is woken
on a stopped queue should throw too, but where there is no room for its
element it goes back to `Wait` (`leavesWhenStopped_iff`).
-/

namespace CppFastDevelop

open Exec Machine Monitor Words

/-! ## turns that throw -/

namespace CircularQueue

section Threw

variable {w w' : Shm} {ds : List (List UInt8)} {p : Payload} {env : Environment}
  {e : BaseException}

/-- Nothing throws behind the stores of a put. -/
theorem timedPutFinish_error {f : PutWait} (hold : Holds w ds) (hf : f.Carries p)
    (h : timedPutFinish f env w = .error e w') : w' = w := by
  have hfinish := timedPutFinish_eq f env w
  by_cases hstat : w.pMeta.status = .Q_NOMAL
  · by_cases hfull : f.elementSize > w.pMeta.qLeftSize
    · rw [if_neg (not_not_intro hstat), if_pos hfull, h] at hfinish
      cases hfinish
      rfl
    · have hroom : weight p.bytes ≤ w.pMeta.qLeftSize.toNat := by
        rw [gt_iff_lt, UInt64.lt_iff_toNat_lt, hf.elementSize, toNat_elementSize] at hfull
        omega
      rcases timedPutFinish_spec hold hstat env hf hroom with ⟨-, herr⟩ | ⟨-, w₁, hok, -⟩
      · rw [herr] at h; cases h; rfl
      · rw [hok] at h; cases h
  · rw [if_pos hstat, h] at hfinish
    cases hfinish
    rfl

/-- A put that fails while it waits has changed nothing. -/
theorem timedPutLoop_error {f : PutWait} (hold : Holds w ds) (hf : f.Carries p)
    (h : timedPutLoop f env w = .error e w') : w' = w := by
  rw [timedPutLoop_apply] at h
  split at h
  · split at h
    · cases h; rfl
    · cases h
  · rw [bind_apply] at h
    cases hfinish : timedPutFinish f env w with
    | ok a w₁ => rw [hfinish] at h; cases h
    | error e' w₁ => rw [hfinish] at h; cases h; exact timedPutFinish_error hold hf hfinish

/-- A put that fails has changed nothing. -/
theorem timedPut_error {self : CircularQueue} {t : Int32} {start : Int64} (hold : Holds w ds)
    (h : timedPut self p.pData p.size t start env w = .error e w') : w' = w := by
  have hf : (⟨p.pData, p.size, p.size + headerSize, decide (0 < t), t, start⟩ :
      PutWait).Carries p := ⟨rfl, rfl, rfl⟩
  rw [timedPut_apply] at h
  split at h
  · cases h; rfl
  split at h
  · cases h; rfl
  split at h
  · split at h
    · cases h; rfl
    · exact timedPutLoop_error hold hf h
  · rw [bind_apply] at h
    cases hfinish : timedPutFinish ⟨p.pData, p.size, p.size + headerSize, decide (0 < t), t, start⟩
        env w with
    | ok a w₁ => rw [hfinish] at h; cases h
    | error e' w₁ => rw [hfinish] at h; cases h; exact timedPutFinish_error hold hf hfinish

/-- Nothing throws behind the stores of a get. -/
theorem timedGetFinish_error (hold : Holds w ds) (h : timedGetFinish env w = .error e w') :
    w' = w := by
  rw [timedGetFinish_eq] at h
  split at h
  · cases h; rfl
  split at h
  · cases h; rfl
  · next hne =>
      rw [hold.elementCount_eq_zero] at hne
      obtain ⟨d, ds', rfl⟩ := List.exists_cons_of_ne_nil hne
      obtain ⟨w₁, hrun, -⟩ := ElementOp.read_spec env hold
      rw [hrun] at h
      cases h

/-- A get that fails while it waits has changed nothing. -/
theorem timedGetLoop_error {f : GetWait} (hold : Holds w ds)
    (h : timedGetLoop f env w = .error e w') : w' = w := by
  rw [timedGetLoop_apply] at h
  split at h
  · split at h
    · cases h; rfl
    · cases h
  · rw [bind_apply] at h
    cases hfinish : timedGetFinish env w with
    | ok a w₁ => rw [hfinish] at h; cases h
    | error e' w₁ => rw [hfinish] at h; cases h; exact timedGetFinish_error hold hfinish

/-- A get that fails has changed nothing. -/
theorem timedGet_error {self : CircularQueue} {t : Int32} {start : Int64} (hold : Holds w ds)
    (h : timedGet self t start env w = .error e w') : w' = w := by
  rw [timedGet_apply] at h
  split at h
  · cases h; rfl
  split at h
  · split at h
    · cases h; rfl
    · exact timedGetLoop_error hold h
  · rw [bind_apply] at h
    cases hfinish : timedGetFinish env w with
    | ok a w₁ => rw [hfinish] at h; cases h
    | error e' w₁ => rw [hfinish] at h; cases h; exact timedGetFinish_error hold hfinish

end Threw

end CircularQueue

/-- A call that throws in its first turn leaves the metadata and the region
as they are. -/
theorem unchanged_of_threw {w : Shm} {ds : List (List UInt8)} (hold : Holds w ds) {c : Request}
    {n : Notify} {e : BaseException} (h : (program.enter c w).2 = .done n (.threw e)) :
    (program.enter c w).1.pMeta = w.pMeta ∧ (program.enter c w).1.pQueue = w.pQueue := by
  cases c with
  | timedPut self p t start env =>
      simp only [program] at h ⊢
      cases hrun : self.timedPut p.pData p.size t start env w with
      | ok r w' => rw [hrun] at h; cases r <;> cases h
      | error e' w' => rw [CircularQueue.timedPut_error hold hrun]; exact ⟨rfl, rfl⟩
  | timedGet self data t start env =>
      simp only [program] at h ⊢
      cases hrun : self.timedGet t start env { w with data := data } with
      | ok r w' => rw [hrun] at h; cases r <;> cases h
      | error e' w' =>
          rw [CircularQueue.timedGet_error (hold.withData data) hrun]
          exact ⟨rfl, rfl⟩
  | stopPut self env => rw [(enter_stop self env w).1]; exact ⟨rfl, rfl⟩
  | stopPutAndGet self env => rw [(enter_stop self env w).2]; exact ⟨rfl, rfl⟩

/-- `TryPut` and `TryGet` end in their first turn. -/
theorem tryPut_ends (self : CircularQueue) (p : Payload) (env : Environment) (w : Shm)
    (l : Waiting) : (program.enter (.tryPut self p env) w).2 ≠ .wait l := by
  simp only [program, Request.tryPut, CircularQueue.timedPut_apply]
  split
  · simp [putTurn]
  split
  · simp [putTurn]
  split
  · simp [putTurn]
  · rw [bind_apply]
    cases CircularQueue.timedPutFinish _ env w <;> simp [putTurn]

/-- A `TryGet` never waits. -/
theorem tryGet_ends (self : CircularQueue) (data : Str) (env : Environment) (w : Shm)
    (l : Waiting) : (program.enter (.tryGet self data env) w).2 ≠ .wait l := by
  simp only [program, Request.tryGet, CircularQueue.timedGet_apply]
  split
  · simp [getTurn]
  split
  · simp [getTurn]
  · rw [bind_apply]
    cases CircularQueue.timedGetFinish env _ <;> simp [getTurn]

/-! ## runs with a call that throws -/

/-- What a memory holds is in its metadata and its region. -/
theorem Holds.congr {w w' : Shm} {ds : List (List UInt8)} (hold : Holds w ds)
    (hmeta : w'.pMeta = w.pMeta) (hqueue : w'.pQueue = w.pQueue) : Holds w' ds := by
  obtain ⟨pMeta, pQueue⟩ := w
  obtain ⟨pMeta', pQueue'⟩ := w'
  cases hmeta
  cases hqueue
  exact { hold with }

/-- The contents are read off the metadata and the region. -/
theorem Shows.congr {w w' : Shm} {c : Contents} (h : Shows w c) (hmeta : w'.pMeta = w.pMeta)
    (hqueue : w'.pQueue = w.pQueue) : Shows w' c :=
  ⟨h.holds.congr hmeta hqueue, by rw [hmeta]; exact h.status, by rw [hmeta]; exact h.qTotalSize⟩

variable {ι : Type} [DecidableEq ι] [Fintype ι]

/-- In whatever state calls and changes of the status have left a created
queue, a call that throws leaves its metadata and its region as they are,
and no later run can tell that it was made. -/
theorem failed_call_unchanged {memSize : UInt64} {w w₀ : Shm}
    (hlo : metaSize.toNat + headerSize.toNat < memSize.toNat) (hhi : memSize.toNat < 2 ^ 63)
    (hcreate : CircularQueue.construct true memSize w = .ok ⟨true⟩ w₀)
    {ls : List (StatusLabel ι)} {s s' : State ι Shm Waiting Answer}
    (hrun : run statusStep (idleCallers w₀) ls = some s) {i : ι} {c : Request}
    (hcall : statusStep s (.call (.enter i c)) = some s') {e : BaseException}
    (hthrow : (program.enter c s.mem).2 = .done .none (.threw e)) :
    s'.mem.pMeta = s.mem.pMeta ∧ s'.mem.pQueue = s.mem.pQueue ∧
      ∀ (hist : History) (ls' : List (StatusLabel ι)),
        (run (recorded statusStep statusNote) (s', hist) ls').map Prod.snd =
          (run (recorded statusStep statusNote) (s, hist) ls').map Prod.snd := by
  have hs := alike_of_run hrun (alike_idleCallers hlo hhi hcreate)
  obtain ⟨contents, hshows, -⟩ := hs.mem
  obtain ⟨hmeta, hqueue⟩ := unchanged_of_threw hshows.holds hthrow
  simp only [statusStep, step] at hcall
  split at hcall
  · next hidle =>
      cases hcall
      have hpc : (s.take i (program.enter c s.mem)).pc = s.pc := by
        simp only [State.take, hthrow, Turn.pc]
        rw [← hidle, Function.update_eq_self]
      have halike : Alike SameContents Waiting.Carries (s.take i (program.enter c s.mem)) s :=
        ⟨⟨contents, hshows.congr hmeta hqueue, hshows⟩, hpc, hpc ▸ hs.locals⟩
      exact ⟨hmeta, hqueue, history_eq_of_contents halike⟩
  · cases hcall

/-- A put is refused on a queue that has been stopped, and leaves no trace. -/
theorem failed_call_unchanged_stopped : ∃ s s' : State (Fin 1) Shm Waiting Answer,
    run statusStep (idleCallers smallestQueue) [.setStatus .Q_STOP2PUT] = some s ∧
    statusStep s (.call (.enter 0 (.tryPut ⟨true⟩ (onePayload 7) zeroEnvironment))) = some s' ∧
    s'.mem.pMeta = s.mem.pMeta ∧ s'.mem.pQueue = s.mem.pQueue ∧
      ∀ (hist : History) (ls' : List (StatusLabel (Fin 1))),
        (run (recorded statusStep statusNote) (s', hist) ls').map Prod.snd =
          (run (recorded statusStep statusNote) (s, hist) ls').map Prod.snd :=
  ⟨_, _, rfl, rfl, failed_call_unchanged (by decide) (by decide) construct_smallestQueue
    (show run statusStep (idleCallers smallestQueue) [.setStatus .Q_STOP2PUT] = some _ from rfl)
    rfl rfl⟩

/-! ## producers woken on a stopped queue -/

omit [DecidableEq ι] [Fintype ι]

/-- A producer that is woken on a stopped queue leaves its wait loop with
`StopPutException` and has stored nothing.  A timed `Wait` that is not
signalled has run out of time and is no wake-up. -/
def LeavesWhenStopped (s : State ι Shm Waiting Answer) : StatusLabel ι → Prop
  | .call (.resume i e) => ∀ p f signalled, s.pc i = .woken (.put p f) signalled →
    (f.timed = true → signalled = true) → s.mem.pMeta.status ≠ .Q_NOMAL →
    program.resume (.put p f) signalled e s.mem =
      (s.mem, .done .none (.threw CircularQueue.putStopped))
  | _ => True

/-- A producer that is woken on a stopped queue finds room for its element. -/
def RoomWhenStopped (s : State ι Shm Waiting Answer) : StatusLabel ι → Prop
  | .call (.resume i _) => ∀ p f signalled, s.pc i = .woken (.put p f) signalled →
    (f.timed = true → signalled = true) → s.mem.pMeta.status ≠ .Q_NOMAL →
    f.elementSize ≤ s.mem.pMeta.qLeftSize
  | _ => True

/-- Either wait loop is left on a stopped queue exactly if there is room. -/
theorem resume_stopped_iff {w : Shm} {p : Payload} {f : PutWait} {signalled : Bool}
    (e : Int64 × Environment) (hwoken : f.timed = true → signalled = true)
    (hstat : w.pMeta.status ≠ .Q_NOMAL) :
    program.resume (.put p f) signalled e w =
        (w, .done .none (.threw CircularQueue.putStopped)) ↔
      f.elementSize ≤ w.pMeta.qLeftSize := by
  obtain ⟨now, env⟩ := e
  have hloop (f' : PutWait) (hsize : f'.elementSize = f.elementSize) :
      putTurn p (CircularQueue.timedPutLoop f' env w) =
          (w, .done .none (.threw CircularQueue.putStopped)) ↔
        f.elementSize ≤ w.pMeta.qLeftSize := by
    have hfinish : CircularQueue.timedPutFinish f' env w = .error CircularQueue.putStopped w := by
      rw [CircularQueue.timedPutFinish_eq, if_pos hstat]
    rw [CircularQueue.timedPutLoop_apply, hsize, ← UInt64.not_lt, ← gt_iff_lt]
    by_cases hfull : f.elementSize > w.pMeta.qLeftSize
    · rw [if_pos hfull]
      refine iff_of_false ?_ (not_not_intro hfull)
      split
      · simp [putTurn, CircularQueue.timeoutInfo, CircularQueue.putStopped]
      · simp [putTurn]
    · rw [if_neg hfull, bind_of_error hfinish]
      exact iff_of_true rfl hfull
  simp only [program, CircularQueue.timedPutWake_apply]
  split
  · next htimed =>
      rw [if_pos (hwoken htimed)]
      exact hloop _ rfl
  · exact hloop f rfl

/-- A woken producer leaves a stopped queue exactly if it finds room. -/
theorem leavesWhenStopped_iff_room (s : State ι Shm Waiting Answer) (l : StatusLabel ι) :
    LeavesWhenStopped s l ↔ RoomWhenStopped s l := by
  cases l with
  | setStatus status => exact Iff.rfl
  | call l =>
      cases l with
      | resume i e =>
          constructor
          · intro h p f signalled hi hwoken hstat
            exact (resume_stopped_iff e hwoken hstat).mp (h p f signalled hi hwoken hstat)
          · intro h p f signalled hi hwoken hstat
            exact (resume_stopped_iff e hwoken hstat).mpr (h p f signalled hi hwoken hstat)
      | enter i c => exact Iff.rfl
      | notify i target => exact Iff.rfl
      | wake i b => exact Iff.rfl

/-- In every run, whatever the queue holds and whenever the status is set,
producers leave their wait loops on a stopped queue exactly if each finds
room for its element when it is woken. -/
theorem leavesWhenStopped_iff [DecidableEq ι] [Fintype ι] (s : State ι Shm Waiting Answer)
    (ls : List (StatusLabel ι)) :
    Along statusStep LeavesWhenStopped s ls ↔ Along statusStep RoomWhenStopped s ls := by
  constructor
  · exact fun h => h.mono fun s l => (leavesWhenStopped_iff_room s l).mp
  · exact fun h => h.mono fun s l => (leavesWhenStopped_iff_room s l).mpr

/-- The queue is full, a producer sleeps, the queue is stopped, and the
producer is woken. -/
def stopSleepingProducer : List (StatusLabel (Fin 2)) :=
  [.call (.enter 0 (.tryPut ⟨true⟩ (onePayload 7) zeroEnvironment)), .call (.notify 0 none),
    .call (.enter 1 (.put ⟨true⟩ (onePayload 8) zeroEnvironment)), .setStatus .Q_STOP2PUT,
    .call (.wake 1 true), .call (.resume 1 (0, zeroEnvironment))]

/-- It goes back to `Wait`. -/
theorem not_leavesWhenStopped_full :
    (∃ s f, run statusStep (idleCallers smallestQueue) stopSleepingProducer = some s ∧
      s.mem.pMeta.status = .Q_STOP2PUT ∧ s.pc 1 = .asleep (.put (onePayload 8) f)) ∧
    ¬ Along statusStep LeavesWhenStopped (idleCallers smallestQueue) stopSleepingProducer := by
  refine ⟨⟨_, _, rfl, rfl, rfl⟩, fun h => ?_⟩
  obtain ⟨-, h⟩ := h _ rfl
  obtain ⟨-, h⟩ := h _ rfl
  obtain ⟨-, h⟩ := h _ rfl
  obtain ⟨-, h⟩ := h _ rfl
  obtain ⟨-, h⟩ := h _ rfl
  obtain ⟨hleaves, -⟩ := h _ rfl
  have hroom := (leavesWhenStopped_iff_room _ _).mp hleaves _ _ _ rfl (fun h => by cases h)
    (by decide)
  exact absurd hroom (by decide)

end CppFastDevelop
