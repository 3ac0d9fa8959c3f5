import CppFastDevelop.CircularQueue.Wakeup

/-!
# CppFastDevelop.CircularQueue.Admission

What `TimedPut` checks before it calls `ElementOp::Write`.  The checks
compare `elementSize`, the sum of the caller's size and a header, with the
sizes of the region.  The sum is taken in 64 bits: it is the size of the
element exactly when it does not wrap, and a size for which it wraps passes
for a tiny one.
-/

namespace CppFastDevelop

open Words Exec Machine Monitor

/-! ## what no call changes -/

/-- The two fields of the metadata that stay as they were created. -/
def frame (w : Shm) : UInt64 × QStatus := (w.pMeta.qTotalSize, w.pMeta.status)

/-- The total size and the status are left alone. -/
abbrev KeepsFrame {α : Type} (op : Op α) : Prop := Exec.Keeps frame op

theorem keepsFrame_getMeta : KeepsFrame getMeta := fun _ => rfl

theorem keepsFrame_modifyMeta {f : QMeta → QMeta}
    (h : ∀ m, (f m).qTotalSize = m.qTotalSize ∧ (f m).status = m.status) :
    KeepsFrame (modifyMeta f) :=
  fun w => Prod.ext (h w.pMeta).1 (h w.pMeta).2

theorem keepsFrame_sub (a b : UInt64) : KeepsFrame (sub a b) := fun _ => rfl

theorem keepsFrame_copyToQueue (pos : UInt64) (src : Place) (cap : Nat) (p : Mem)
    (off n : UInt64) : KeepsFrame (copyToQueue pos src cap p off n) := fun _ => rfl

theorem keepsFrame_copyToHeader (ph : Mem) (off pos n : UInt64) :
    KeepsFrame (copyToHeader ph off pos n) := fun _ => rfl

theorem keepsFrame_resizeData (size : UInt64) : KeepsFrame (resizeData size) := fun _ => rfl

theorem keepsFrame_copyToData (off pos n : UInt64) : KeepsFrame (copyToData off pos n) :=
  fun _ => rfl

theorem keepsFrame_setHeadIndex (i : UInt64) : KeepsFrame (setHeadIndex i) := fun _ => rfl

theorem keepsFrame_setTailIndex (i : UInt64) : KeepsFrame (setTailIndex i) := fun _ => rfl

namespace ElementOp

theorem keepsFrame_queueScene : KeepsFrame queueScene :=
  keepsFrame_getMeta.bind fun _ => (keeps_pure _).ite <| (keeps_pure _).ite <|
    (keeps_pure _).ite <| (keeps_pure _).ite (keeps_throw _)

theorem keepsFrame_queueWriteCase (bodySize : UInt64) : KeepsFrame (queueWriteCase bodySize) :=
  keepsFrame_getMeta.bind fun _ => (keeps_throwIf _ _).bind fun _ => (keeps_pure _).ite <|
    (keeps_pure _).ite <| (keeps_pure _).ite <| (keeps_pure _).ite <|
      (keeps_pure _).ite (keeps_throw _)

theorem keepsFrame_checkHeadIndex : KeepsFrame checkHeadIndex :=
  keepsFrame_getMeta.bind fun _ => keeps_throwIf _ _

theorem keepsFrame_writeRoute1 (cs : EWriteCase) (ph pData : Mem) (size : UInt64) :
    KeepsFrame (writeRoute1 cs ph pData size) :=
  keepsFrame_getMeta.bind fun _ => (keepsFrame_copyToQueue _ _ _ _ _ _).bind fun _ =>
    (keepsFrame_copyToQueue _ _ _ _ _ _).bind fun _ =>
      (keepsFrame_setHeadIndex _).ite (keepsFrame_setHeadIndex _)

/-- No route of `Write` touches the size or the status. -/
theorem keepsFrame_writeRoutes (scene : EQueueScene) (cs : EWriteCase) (ph pData : Mem)
    (size : UInt64) : KeepsFrame (writeRoutes scene cs ph pData size) := by
  cases scene with
  | scene1 =>
      cases cs with
      | case1 => exact keepsFrame_writeRoute1 _ ph pData size
      | case2 => exact keepsFrame_writeRoute1 _ ph pData size
      | case3 => exact fun _ => rfl
      | case4 => exact fun _ => rfl
      | case5 => exact fun _ => rfl
  | scene2 => exact keepsFrame_getMeta.bind fun _ => (keeps_throwIf _ _).bind fun _ _ => rfl
  | scene3 =>
      cases cs with
      | case1 => exact keepsFrame_writeRoute1 _ ph pData size
      | case2 => exact keepsFrame_writeRoute1 _ ph pData size
      | case3 => exact fun _ => rfl
      | case4 => exact fun _ => rfl
      | case5 => exact fun _ => rfl
  | scene4 => exact keeps_throw _

theorem keepsFrame_finishWrite (size : UInt64) (env : Environment) :
    KeepsFrame (finishWrite size env) := by
  refine keepsFrame_getMeta.bind fun _ => (keepsFrame_sub _ _).bind fun _ => ?_
  refine .bind (keepsFrame_modifyMeta ?_) fun _ => keepsFrame_checkHeadIndex
  exact fun _ => ⟨rfl, rfl⟩

/-- A whole `Write` leaves size and status alone. -/
theorem keepsFrame_write (pData : Mem) (size : UInt64) (env : Environment) :
    KeepsFrame (write pData size env) :=
  (keeps_throwIf _ _).bind fun _ => keepsFrame_checkHeadIndex.bind fun _ =>
    keepsFrame_queueScene.bind fun _ => (keepsFrame_queueWriteCase size).bind fun _ =>
      (keepsFrame_writeRoutes _ _ _ _ _).bind fun _ => keepsFrame_finishWrite size env

/-- The end of a read route: the tail index is set and the size returned. -/
theorem keepsFrame_setTailIndex_return (i size : UInt64) :
    KeepsFrame (do setTailIndex i; return size) :=
  (keepsFrame_setTailIndex i).bind fun _ => keeps_pure size

theorem keepsFrame_readRoute1 (ph : Mem) : KeepsFrame (readRoute1 ph) :=
  keepsFrame_getMeta.bind fun _ => (keeps_throwIf _ _).bind fun _ =>
    (keepsFrame_copyToHeader _ _ _ _).bind fun _ => (keeps_throwIf _ _).bind fun _ =>
      (keeps_throwIf _ _).bind fun _ => (keepsFrame_resizeData _).bind fun _ =>
        (keepsFrame_copyToData _ _ _).bind fun _ => keepsFrame_setTailIndex_return _ _

theorem keepsFrame_readRoute2 (cs : UInt8) (ph : Mem) : KeepsFrame (readRoute2 cs ph) :=
  keepsFrame_getMeta.bind fun _ => (keepsFrame_copyToHeader _ _ _ _).bind fun _ =>
    (keeps_throwIf _ _).bind fun _ => (keeps_throwIf _ _).bind fun _ =>
      (keepsFrame_resizeData _).bind fun _ => (keepsFrame_copyToData _ _ _).bind fun _ =>
        (keepsFrame_setTailIndex_return _ _).ite (keepsFrame_setTailIndex_return _ _)

theorem keepsFrame_readRoute3 (ph : Mem) : KeepsFrame (readRoute3 ph) :=
  keepsFrame_getMeta.bind fun _ => (keepsFrame_sub _ _).bind fun _ =>
    (keepsFrame_sub _ _).bind fun _ => (keepsFrame_copyToHeader _ _ _ _).bind fun _ =>
      (keepsFrame_copyToHeader _ _ _ _).bind fun _ => (keeps_throwIf _ _).bind fun _ =>
        (keeps_throwIf _ _).bind fun _ => (keepsFrame_resizeData _).bind fun _ =>
          (keepsFrame_copyToData _ _ _).bind fun _ => keepsFrame_setTailIndex_return _ _

theorem keepsFrame_readRoute4 (ph : Mem) : KeepsFrame (readRoute4 ph) :=
  keepsFrame_getMeta.bind fun _ => (keepsFrame_copyToHeader _ _ _ _).bind fun _ =>
    (keeps_throwIf _ _).bind fun _ => (keeps_throwIf _ _).bind fun _ =>
      (keepsFrame_resizeData _).bind fun _ => (keepsFrame_sub _ _).bind fun _ =>
        (keepsFrame_sub _ _).bind fun _ => (keepsFrame_sub _ _).bind fun _ =>
          (keepsFrame_copyToData _ _ _).bind fun _ => (keepsFrame_copyToData _ _ _).bind fun _ =>
            keepsFrame_setTailIndex_return _ _

theorem keepsFrame_readRoute5 (ph : Mem) : KeepsFrame (readRoute5 ph) :=
  keepsFrame_getMeta.bind fun _ => (keeps_throwIf _ _).bind fun _ =>
    (keepsFrame_copyToHeader _ _ _ _).bind fun _ => (keeps_throwIf _ _).bind fun _ =>
      (keepsFrame_resizeData _).bind fun _ => (keepsFrame_copyToData _ _ _).bind fun _ =>
        keepsFrame_setTailIndex_return _ _

theorem keepsFrame_readCase (ph : Mem) : KeepsFrame (readCase ph) :=
  keepsFrame_getMeta.bind fun _ => (keeps_throwIf _ _).bind fun _ =>
    (keepsFrame_copyToHeader _ _ _ _).bind fun _ => (keepsFrame_readRoute2 _ _).ite <|
      (keepsFrame_readRoute3 _).ite <| (keepsFrame_readRoute4 _).ite <|
        (keepsFrame_readRoute5 _).ite (keeps_throw _)

/-- No route of `Read` touches the size or the status. -/
theorem keepsFrame_readRoutes (scene : EQueueScene) (ph : Mem) :
    KeepsFrame (readRoutes scene ph) := by
  cases scene with
  | scene1 => exact keepsFrame_readRoute1 ph
  | scene2 => exact keepsFrame_readCase ph
  | scene3 => exact keeps_throw _
  | scene4 => exact keepsFrame_readCase ph

theorem keepsFrame_finishRead (size : UInt64) (env : Environment) :
    KeepsFrame (finishRead size env) := by
  refine keepsFrame_getMeta.bind fun _ => (keepsFrame_sub _ _).bind fun _ => ?_
  refine .bind (keepsFrame_modifyMeta ?_) fun _ => keepsFrame_checkHeadIndex
  exact fun _ => ⟨rfl, rfl⟩

/-- A whole `Read` leaves size and status alone. -/
theorem keepsFrame_read (env : Environment) : KeepsFrame (read env) :=
  keepsFrame_queueScene.bind fun _ => keepsFrame_checkHeadIndex.bind fun _ =>
    (keepsFrame_readRoutes _ _).bind fun _ => keepsFrame_finishRead _ env

end ElementOp

namespace CircularQueue

/-- Restoring the lock leaves size and status alone. -/
theorem keepsFrame_checkProcessAndRestoreLock (env : Environment) :
    KeepsFrame (checkProcessAndRestoreLock env) := by
  intro w
  rw [checkProcessAndRestoreLock_apply, finalState_ok]

theorem keepsFrame_timedPutFinish (f : PutWait) (env : Environment) :
    KeepsFrame (timedPutFinish f env) :=
  keepsFrame_getMeta.bind fun _ => (keeps_throwIf _ _).bind fun _ =>
    (keeps_throwIf _ _).bind fun _ => ElementOp.keepsFrame_write _ _ env

/-- Waiting for room leaves size and status alone. -/
theorem keepsFrame_timedPutLoop (f : PutWait) (env : Environment) :
    KeepsFrame (timedPutLoop f env) :=
  keepsFrame_getMeta.bind fun _ => ((keeps_throwIf _ _).bind fun _ => keeps_pure _).ite <|
    (keepsFrame_timedPutFinish f env).bind fun _ => keeps_pure _

/-- A put leaves size and status alone. -/
theorem keepsFrame_timedPut (self : CircularQueue) (pData : Mem) (size : UInt64) (t : Int32)
    (start : Int64) (env : Environment) :
    KeepsFrame (timedPut self pData size t start env) :=
  (keepsFrame_checkProcessAndRestoreLock env).bind fun _ => keepsFrame_getMeta.bind fun _ =>
    (keeps_throwIf _ _).bind fun _ => (keeps_throwIf _ _).bind fun _ =>
      ((keeps_throwIf _ _).bind fun _ => keepsFrame_timedPutLoop _ env).ite <|
        (keepsFrame_timedPutFinish _ env).bind fun _ => keeps_pure _

/-- A put that goes on after a wait leaves size and status alone. -/
theorem keepsFrame_timedPutWake (f : PutWait) (signalled : Bool) (now : Int64)
    (env : Environment) : KeepsFrame (timedPutWake f signalled now env) :=
  ((keeps_throwIf _ _).bind fun _ => keepsFrame_timedPutLoop _ env).ite
    (keepsFrame_timedPutLoop f env)

theorem keepsFrame_timedGetFinish (env : Environment) : KeepsFrame (timedGetFinish env) :=
  keepsFrame_getMeta.bind fun _ => (keeps_throwIf _ _).bind fun _ =>
    (keeps_throwIf _ _).bind fun _ => ElementOp.keepsFrame_read env

/-- Waiting for an element leaves size and status alone. -/
theorem keepsFrame_timedGetLoop (f : GetWait) (env : Environment) :
    KeepsFrame (timedGetLoop f env) :=
  keepsFrame_getMeta.bind fun _ => ((keeps_throwIf _ _).bind fun _ => keeps_pure _).ite <|
    (keepsFrame_timedGetFinish env).bind fun _ => keeps_pure _

/-- A get leaves size and status alone. -/
theorem keepsFrame_timedGet (self : CircularQueue) (t : Int32) (start : Int64)
    (env : Environment) : KeepsFrame (timedGet self t start env) :=
  (keepsFrame_checkProcessAndRestoreLock env).bind fun _ => keepsFrame_getMeta.bind fun _ =>
    (keeps_throwIf _ _).bind fun _ =>
      ((keeps_throwIf _ _).bind fun _ => keepsFrame_timedGetLoop _ env).ite <|
        (keepsFrame_timedGetFinish env).bind fun _ => keeps_pure _

/-- A get that goes on after a wait leaves size and status alone. -/
theorem keepsFrame_timedGetWake (f : GetWait) (signalled : Bool) (now : Int64)
    (env : Environment) : KeepsFrame (timedGetWake f signalled now env) :=
  ((keeps_throwIf _ _).bind fun _ => keepsFrame_timedGetLoop _ env).ite
    (keepsFrame_timedGetLoop f env)

end CircularQueue

/-! ## what no run changes -/

theorem fst_putTurn (p : Payload) (r : EStateM.Result BaseException Shm (Option PutWait)) :
    (putTurn p r).1 = finalState r := by
  cases r with
  | ok o w => cases o <;> rfl
  | error e w => rfl

theorem fst_getTurn (data : Str) (r : EStateM.Result BaseException Shm (Option GetWait)) :
    (getTurn data r).1 = finalState r := by
  cases r with
  | ok o w => cases o <;> rfl
  | error e w => rfl

/-- Entering a call leaves size and status alone. -/
theorem frame_enter (c : Request) (w : Shm) : frame (program.enter c w).1 = frame w := by
  cases c with
  | timedPut self p t start env =>
      exact (congrArg frame (fst_putTurn p _)).trans
        (CircularQueue.keepsFrame_timedPut self p.pData p.size t start env w)
  | timedGet self data t start env =>
      exact (congrArg frame (fst_getTurn data _)).trans
        (CircularQueue.keepsFrame_timedGet self t start env { w with data := data })
  | stopPut self env => rw [(enter_stop self env w).1]
  | stopPutAndGet self env => rw [(enter_stop self env w).2]

/-- Going on with a call leaves size and status alone. -/
theorem frame_resume (l : Waiting) (b : Bool) (e : Int64 × Environment) (w : Shm) :
    frame (program.resume l b e w).1 = frame w := by
  obtain ⟨now, env⟩ := e
  cases l with
  | put p f =>
      exact (congrArg frame (fst_putTurn p _)).trans
        (CircularQueue.keepsFrame_timedPutWake f b now env w)
  | get data f =>
      exact (congrArg frame (fst_getTurn data _)).trans
        (CircularQueue.keepsFrame_timedGetWake f b now env { w with data := data })

/-- Whatever the callers do, the region stays as big as it was created and
the status stays what it was. -/
theorem frame_run {ι : Type} [DecidableEq ι] [Fintype ι]
    {as : List (Label ι Request (Int64 × Environment))} {s s' : State ι Shm Waiting Answer}
    (hrun : run (step program) s as = some s') : frame s'.mem = frame s.mem := by
  have hsound : Sound (fun w => frame w = frame s.mem) (fun _ => True) s' :=
    run_invariant (Sound (fun w => frame w = frame s.mem) fun _ => True)
      (fun t a t' hstep ht => sound_step (fun _ => True)
        (fun c w _ hw => ⟨(frame_enter c w).trans hw, fun _ _ => trivial⟩)
        (fun l b e w _ hw => ⟨(frame_resume l b e w).trans hw, fun _ _ => trivial⟩)
        (by cases a <;> trivial) hstep ht)
      hrun ⟨rfl, fun _ _ _ => trivial⟩
  exact hsound.mem

/-! ## the calls, up to `ElementOp::Write` -/

/-- The type of `ElementOp::Write`. -/
abbrev Write := Mem → UInt64 → Environment → Op Unit

namespace CircularQueue

open QMetaOp

/-! `TimedPut` once more, with what it calls in place of `ElementOp::Write`
as a parameter. -/

def timedPutFinishWith (write : Write) (f : PutWait) (env : Environment) : Op Unit := do
  let m ← getMeta
  throwIf (isStopPut m ∨ isStopPutAndGet m) putStopped
  throwIf (f.elementSize > m.qLeftSize) ⟨.valueError, "elementSize > leftSize wait !", []⟩
  write f.pData f.size env

def timedPutLoopWith (write : Write) (f : PutWait) (env : Environment) :
    Op (Option PutWait) := do
  let m ← getMeta
  if (isStopPut m = false ∨ isStopPutAndGet m = false) ∧ f.elementSize > m.qLeftSize then do
    throwIf (f.timed ∧ f.timeoutMilliseconds ≤ 0) timeoutInfo
    return some f
  else do
    timedPutFinishWith write f env
    return none

def timedPutWith (write : Write) (_self : CircularQueue) (pData : Mem) (size : UInt64)
    (timeoutMilliseconds : Int32) (start : Int64) (env : Environment) : Op (Option PutWait) := do
  checkProcessAndRestoreLock env
  let m ← getMeta
  throwIf (isStopPut m ∨ isStopPutAndGet m) putStopped
  let elementSize := size + headerSize
  throwIf (elementSize > m.qTotalSize) (putTooSmall elementSize m.qTotalSize)
  let f : PutWait :=
    ⟨pData, size, elementSize, decide (0 < timeoutMilliseconds), timeoutMilliseconds, start⟩
  if elementSize > m.qLeftSize then do
    throwIf (timeoutMilliseconds = 0) putFull
    timedPutLoopWith write f env
  else do
    timedPutFinishWith write f env
    return none

def timedPutWakeWith (write : Write) (f : PutWait) (signalled : Bool) (now : Int64)
    (env : Environment) : Op (Option PutWait) :=
  if f.timed then do
    throwIf (!signalled) timeoutInfo
    timedPutLoopWith write
      { f with timeoutMilliseconds := f.timeoutMilliseconds - (now - f.start).toInt32 } env
  else timedPutLoopWith write f env

/-- With `ElementOp::Write` it is `TimedPut`. -/
theorem timedPutWith_write : timedPutWith ElementOp.write = timedPut := rfl

theorem timedPutWakeWith_write : timedPutWakeWith ElementOp.write = timedPutWake := rfl

/-- A turn of a call `TimedPut(pData, size, timeoutMilliseconds)` on a region
of `qTotalSize` bytes: its start, or what follows a `Wait` that one of its
turns has ended in. -/
inductive PutTurn (qTotalSize size : UInt64) : (Write → Op (Option PutWait)) → Prop
  | start (self : CircularQueue) (pData : Mem) (t : Int32) (start : Int64) (env : Environment) :
      PutTurn qTotalSize size fun write => timedPutWith write self pData size t start env
  | wake {turn : Write → Op (Option PutWait)} (hturn : PutTurn qTotalSize size turn)
      {w w' : Shm} {f : PutWait} (htotal : w.pMeta.qTotalSize = qTotalSize)
      (hwait : turn ElementOp.write w = .ok (some f) w') (signalled : Bool) (now : Int64)
      (env : Environment) :
      PutTurn qTotalSize size fun write => timedPutWakeWith write f signalled now env

/-- The turn reaches `ElementOp::Write`: whatever that throws, the turn
throws. -/
def ReachesWrite (turn : Write → Op (Option PutWait)) (w : Shm) : Prop :=
  ∀ e, ∃ w', turn (fun _ _ _ => throw e) w = .error e w'

/-- Payloads of `size` bytes are checked before they are written: no turn
reaches `ElementOp::Write` unless header and payload together are no bigger
than the region and than what is left of it, and a payload that is too big
for the region is refused at once, with nothing changed. -/
structure ChecksSize (w : Shm) (size : UInt64) : Prop where
  reaches : ∀ turn, PutTurn w.pMeta.qTotalSize size turn → ReachesWrite turn w →
    headerSize.toNat + size.toNat ≤ w.pMeta.qTotalSize.toNat ∧
      headerSize.toNat + size.toNat ≤ w.pMeta.qLeftSize.toNat
  refuses : w.pMeta.qTotalSize.toNat < headerSize.toNat + size.toNat →
    ∀ self pData t start env, ∃ e, e.className = .sizeTooSmallException ∧
      timedPut self pData size t start env w = .error e w

/-! ## the checks -/

/-- A turn that ends the same whatever `ElementOp::Write` does has not
reached it. -/
theorem not_reachesWrite {turn : Write → Op (Option PutWait)} {w : Shm}
    (h : ∀ write write', turn write w = turn write' w) : ¬ ReachesWrite turn w := by
  intro hreach
  obtain ⟨w₁, h₁⟩ := hreach putStopped
  obtain ⟨w₂, h₂⟩ := hreach timeoutInfo
  rw [h _ fun _ _ _ => throw timeoutInfo, h₂] at h₁
  simp [putStopped, timeoutInfo] at h₁

/-- `TimedPut` from its start is one of four programs. -/
theorem timedPutWith_apply (write : Write) (self : CircularQueue) (pData : Mem) (size : UInt64)
    (t : Int32) (start : Int64) (env : Environment) (w : Shm) :
    timedPutWith write self pData size t start env w =
      if isStopPut w.pMeta ∨ isStopPutAndGet w.pMeta then .error putStopped w
      else if size + headerSize > w.pMeta.qTotalSize then
        .error (putTooSmall (size + headerSize) w.pMeta.qTotalSize) w
      else if size + headerSize > w.pMeta.qLeftSize then
        (do throwIf (t = 0) putFull
            timedPutLoopWith write
              ⟨pData, size, size + headerSize, decide (0 < t), t, start⟩ env :
          Op (Option PutWait)) w
      else
        (do timedPutFinishWith write
              ⟨pData, size, size + headerSize, decide (0 < t), t, start⟩ env
            return none : Op (Option PutWait)) w := by
  have hmeta (x : QMeta → Op (Option PutWait)) : (getMeta >>= x) w = x w.pMeta w := rfl
  rw [timedPutWith, bind_of_ok (checkProcessAndRestoreLock_apply env w), hmeta,
    throwIf_bind_apply, throwIf_bind_apply]
  simp only [apply_ite (fun x : Op (Option PutWait) => x w)]

/-- `TimedPut` after a `Wait` has run out of time or evaluates the loop
condition again, for the same element. -/
theorem timedPutWakeWith_cases (f : PutWait) (signalled : Bool) (now : Int64)
    (env : Environment) (w : Shm) :
    (∀ write, timedPutWakeWith write f signalled now env w = .error timeoutInfo w) ∨
    ∃ f' : PutWait, f'.size = f.size ∧ f'.elementSize = f.elementSize ∧
      ∀ write, timedPutWakeWith write f signalled now env w = timedPutLoopWith write f' env w := by
  cases htimed : f.timed with
  | false =>
      refine .inr ⟨f, rfl, rfl, fun write => ?_⟩
      rw [timedPutWakeWith, if_neg (by simp [htimed])]
  | true =>
      cases signalled with
      | false =>
          refine .inl fun write => ?_
          rw [timedPutWakeWith, if_pos htimed]
          exact bind_of_error (throwIf_of (by simp) _ _)
      | true =>
          refine .inr ⟨{ f with
            timeoutMilliseconds := f.timeoutMilliseconds - (now - f.start).toInt32 }, rfl, rfl,
            fun write => ?_⟩
          rw [timedPutWakeWith, if_pos htimed]
          exact bind_of_ok (throwIf_of_not (by simp) _ _)

/-- Neither the wait loops nor the check behind them let an element through
that is bigger than what is left. -/
theorem timedPutLoopWith_congr {f : PutWait} {env : Environment} {w : Shm}
    (hlt : f.elementSize > w.pMeta.qLeftSize) (write write' : Write) :
    timedPutLoopWith write f env w = timedPutLoopWith write' f env w := by
  have hfinish : timedPutFinishWith write f env w = timedPutFinishWith write' f env w := by
    simp only [timedPutFinishWith, getMeta, bind_apply, get_apply, pure_apply, throwIf_apply, hlt,
      if_true]
  simp only [timedPutLoopWith, getMeta, bind_apply, get_apply, pure_apply]
  split
  · rfl
  · rw [bind_apply, bind_apply, hfinish]

/-- A wait loop is left with the local variables it was entered with. -/
theorem eq_of_timedPutLoopWith {write : Write} {f f' : PutWait} {env : Environment}
    {w w' : Shm} (h : timedPutLoopWith write f env w = .ok (some f') w') : f' = f := by
  simp only [timedPutLoopWith, getMeta, bind_apply, get_apply, pure_apply] at h
  split at h
  · simp only [bind_apply, throwIf_apply, pure_apply] at h
    grind
  · obtain ⟨_, _, _, hnone⟩ := bind_eq_ok.mp h
    cases hnone

/-- The local variables of a waiting call are about its element, which is no
bigger than the region. -/
theorem PutTurn.waiting {qTotalSize size : UInt64} {turn : Write → Op (Option PutWait)}
    (hturn : PutTurn qTotalSize size turn) {w w' : Shm} {f : PutWait}
    (htotal : w.pMeta.qTotalSize = qTotalSize)
    (hwait : turn ElementOp.write w = .ok (some f) w') :
    f.elementSize = size + headerSize ∧ ¬ size + headerSize > qTotalSize := by
  induction hturn generalizing w w' f with
  | start self pData t start env =>
      beta_reduce at hwait
      rw [timedPutWith_apply, htotal] at hwait
      split at hwait
      · cases hwait
      split at hwait
      · cases hwait
      next hfits =>
        refine ⟨?_, hfits⟩
        split at hwait
        · obtain ⟨_, _, hguard, hloop⟩ := bind_eq_ok.mp hwait
          rw [eq_of_timedPutLoopWith hloop]
        · obtain ⟨_, _, _, hnone⟩ := bind_eq_ok.mp hwait
          cases hnone
  | @wake turn _ _ _ f₀ htotal₀ hwait₀ signalled now env ih =>
      obtain ⟨hsize, hfits⟩ := ih htotal₀ hwait₀
      beta_reduce at hwait
      obtain herr | ⟨f', -, hsize', hloop⟩ := timedPutWakeWith_cases f₀ signalled now env w
      · rw [herr] at hwait
        cases hwait
      · rw [hloop] at hwait
        rw [eq_of_timedPutLoopWith hwait, hsize']
        exact ⟨hsize, hfits⟩

/-- The checks let an element through only if the 64-bit sum is no bigger
than the region and than what is left of it. -/
theorem PutTurn.fits {w : Shm} {size : UInt64} {turn : Write → Op (Option PutWait)}
    (hturn : PutTurn w.pMeta.qTotalSize size turn) (hreach : ReachesWrite turn w) :
    ¬ size + headerSize > w.pMeta.qTotalSize ∧ ¬ size + headerSize > w.pMeta.qLeftSize := by
  cases hturn with
  | start self pData t start env =>
      constructor
      · intro hbig
        refine not_reachesWrite (fun write write' => ?_) hreach
        simp only [timedPutWith_apply, if_pos hbig]
      · intro hfull
        refine not_reachesWrite (fun write write' => ?_) hreach
        simp only [timedPutWith_apply, if_pos hfull]
        simp only [throwIf_bind_apply]
        rw [timedPutLoopWith_congr hfull write write']
  | @wake turn hturn _ _ f htotal hwait signalled now env =>
      obtain ⟨hsize, hfits⟩ := hturn.waiting htotal hwait
      refine ⟨hfits, fun hfull => ?_⟩
      refine not_reachesWrite (fun write write' => ?_) hreach
      obtain herr | ⟨f', -, hsize', hloop⟩ := timedPutWakeWith_cases f signalled now env w
      · rw [herr, herr]
      · rw [hloop, hloop]
        exact timedPutLoopWith_congr (by rw [hsize', hsize]; exact hfull) write write'

/-! ## the sum -/

/-- The sum of size and header is taken modulo 2^64. -/
theorem toNat_size_add (size : UInt64) :
    (size + headerSize).toNat = (headerSize.toNat + size.toNat) % 2 ^ 64 := by
  rw [UInt64.toNat_add, Nat.add_comm]

/-- Where the sum does not wrap, the checks are about the element's size. -/
theorem checksSize_of_lt {w : Shm} {size : UInt64} (hstat : w.pMeta.status = .Q_NOMAL)
    (hlt : headerSize.toNat + size.toNat < 2 ^ 64) : ChecksSize w size := by
  have hsum := toNat_size_add size
  rw [Nat.mod_eq_of_lt hlt] at hsum
  constructor
  · intro turn hturn hreach
    obtain ⟨hbig, hfull⟩ := hturn.fits hreach
    rw [gt_iff_lt, UInt64.lt_iff_toNat_lt, hsum] at hbig hfull
    omega
  · intro hbig self pData t start env
    obtain ⟨hput, hget⟩ := not_stopped hstat
    refine ⟨putTooSmall (size + headerSize) w.pMeta.qTotalSize, rfl, ?_⟩
    rw [← timedPutWith_write, timedPutWith_apply, if_neg (by simp [hput, hget]),
      if_pos (by rw [gt_iff_lt, UInt64.lt_iff_toNat_lt, hsum]; exact hbig)]

/-- Where it wraps, the element is taken for one of less than a header, so
it is not refused and, with room for that, it is written. -/
theorem not_checksSize_of_le {w : Shm} {size : UInt64} (hstat : w.pMeta.status = .Q_NOMAL)
    (htotal : headerSize.toNat < w.pMeta.qTotalSize.toNat)
    (hle : 2 ^ 64 ≤ headerSize.toNat + size.toNat) : ¬ ChecksSize w size := by
  intro hchecks
  obtain ⟨hput, hget⟩ := not_stopped hstat
  have hsum := toNat_size_add size
  have hsize := size.toNat_lt
  have hregion := w.pMeta.qTotalSize.toNat_lt
  rw [toNat_headerSize] at hsum htotal hle
  have hsmall : ¬ size + headerSize > w.pMeta.qTotalSize := by
    rw [gt_iff_lt, UInt64.lt_iff_toNat_lt, hsum]
    omega
  have hrun (write : Write) : timedPutWith write ⟨true⟩ (fun _ => 0) size 0 0 zeroEnvironment w =
      _ := timedPutWith_apply write _ _ _ _ _ _ _
  by_cases hfull : size + headerSize > w.pMeta.qLeftSize
  · obtain ⟨e, he, hthrow⟩ := hchecks.refuses (by rw [toNat_headerSize]; omega) ⟨true⟩
      (fun _ => 0) 0 0 zeroEnvironment
    rw [← timedPutWith_write, hrun, if_neg (by simp [hput, hget]), if_neg hsmall,
      if_pos hfull, throwIf_bind_apply, if_pos rfl] at hthrow
    cases hthrow
    cases he
  · have hreach : ReachesWrite
        (fun write => timedPutWith write ⟨true⟩ (fun _ => 0) size 0 0 zeroEnvironment) w := by
      refine fun e => ⟨w, ?_⟩
      beta_reduce
      rw [hrun, if_neg (by simp [hput, hget]), if_neg hsmall, if_neg hfull]
      refine bind_of_error ?_
      simp only [timedPutFinishWith, getMeta, bind_apply, get_apply, pure_apply, throwIf_apply,
        hput, hget, hfull, Bool.false_eq_true, or_self, if_false, throw_apply]
    obtain ⟨hfits, -⟩ := hchecks.reaches _ (.start ⟨true⟩ (fun _ => 0) 0 0 zeroEnvironment) hreach
    rw [toNat_headerSize] at hfits
    omega

/-- The metadata of a created queue: its region has room for more than a
header. -/
theorem frame_construct {memSize : UInt64} {w w₀ : Shm} {q : CircularQueue}
    (hcreate : construct true memSize w = .ok q w₀) :
    frame w₀ = (memSize - metaSize, .Q_NOMAL) ∧
      headerSize.toNat < w₀.pMeta.qTotalSize.toNat := by
  obtain ⟨_, w₁, hmade, hret⟩ := bind_eq_ok.mp hcreate
  cases hret
  have hmade : create memSize w = .ok () w₀ := hmade
  rw [create, throwIf_bind_apply] at hmade
  split at hmade
  · cases hmade
  next hsize =>
    cases hmade
    rw [UInt64.le_iff_toNat_le, toNat_add_of_lt (by simp), toNat_metaSize, toNat_headerSize]
      at hsize
    refine ⟨rfl, ?_⟩
    show headerSize.toNat < (memSize - metaSize).toNat
    rw [toNat_sub_of_le (by rw [toNat_metaSize]; omega), toNat_metaSize, toNat_headerSize]
    omega

/-- **When the size of a payload is checked.**  In whatever state the calls
of a run leave a queue, payloads of a size are checked before they are
written if and only if the size of the element is a 64-bit number. -/
theorem checksSize_iff {ι : Type} [DecidableEq ι] [Fintype ι] {memSize : UInt64} {w w₀ : Shm}
    {q : CircularQueue} (hcreate : construct true memSize w = .ok q w₀)
    {as : List (Label ι Request (Int64 × Environment))} {s : State ι Shm Waiting Answer}
    (hrun : run (step program) (idleCallers w₀) as = some s) (size : UInt64) :
    ChecksSize s.mem size ↔ headerSize.toNat + size.toNat < 2 ^ 64 := by
  obtain ⟨hframe, htotal⟩ := frame_construct hcreate
  have hkept : frame s.mem = frame w₀ := frame_run hrun
  have hstat : s.mem.pMeta.status = .Q_NOMAL :=
    (congrArg Prod.snd hkept).trans (congrArg Prod.snd hframe)
  have htotal' : headerSize.toNat < s.mem.pMeta.qTotalSize.toNat := by
    rwa [show s.mem.pMeta.qTotalSize = w₀.pMeta.qTotalSize from congrArg Prod.fst hkept]
  constructor
  · intro hchecks
    by_contra hge
    exact not_checksSize_of_le hstat htotal' (Nat.le_of_not_lt hge) hchecks
  · exact checksSize_of_lt hstat

/-- A payload of two bytes, after a consumer has gone to sleep and another
payload has been put. -/
theorem checksSize_iff_sleepThenPut : ∃ s : State (Fin 3) Shm Waiting Answer,
    run (step program) (idleCallers smallestQueue) sleepThenPut = some s ∧
    (ChecksSize s.mem 2 ↔ headerSize.toNat + (2 : UInt64).toNat < 2 ^ 64) := by
  have hrun : ∃ s : State (Fin 3) Shm Waiting Answer,
      run (step program) (idleCallers smallestQueue) sleepThenPut = some s := ⟨_, rfl⟩
  obtain ⟨s, hs⟩ := hrun
  exact ⟨s, hs, checksSize_iff construct_smallestQueue hs 2⟩

/-- A payload of `2 ^ 64 - 1` bytes passes for an element of 23. -/
theorem unchecked_size : ¬ ∀ (n : Nat) (memSize : UInt64) (w w₀ : Shm) (q : CircularQueue)
    (as : List (Label (Fin n) Request (Int64 × Environment)))
    (s : State (Fin n) Shm Waiting Answer) (size : UInt64),
    construct true memSize w = .ok q w₀ →
    run (step program) (idleCallers w₀) as = some s → ChecksSize s.mem size := by
  intro h
  have hchecks := h 0 193 zeroedMemory smallestQueue ⟨true⟩ [] (idleCallers smallestQueue)
    18446744073709551615 construct_smallestQueue rfl
  exact not_checksSize_of_le rfl (by decide) (by decide) hchecks

end CircularQueue

end CppFastDevelop
