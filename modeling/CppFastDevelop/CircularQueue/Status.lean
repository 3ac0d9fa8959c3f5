import CppFastDevelop.CircularQueue.Admission
import CppFastDevelop.CircularQueue.Stop

/-!
# CppFastDevelop.CircularQueue.Status

A queue whose status is set while calls are under way.  `QMetaOp::StopPut`
and `QMetaOp::StopPutAndGet` write one word of the shared memory, from
whatever process, between the critical sections of the callers.  The calls
are then compared with a program over the contents of the queue
(`contentsProgram`): the payloads it holds, its size and its status are all
that decides how a turn ends, so memories with equal contents cannot be told
apart by any later run (`history_eq_of_contents`).
-/

namespace CppFastDevelop

open Exec Machine Monitor Words

variable {ι : Type} [DecidableEq ι] [Fintype ι]

/-! ## setting the status -/

/-- The status is set. -/
def Shm.withStatus (w : Shm) (status : QStatus) : Shm :=
  { w with pMeta := { w.pMeta with status } }

theorem stopPut_apply (w : Shm) : QMetaOp.stopPut w = .ok () (w.withStatus .Q_STOP2PUT) := rfl

theorem stopPutAndGet_apply (w : Shm) :
    QMetaOp.stopPutAndGet w = .ok () (w.withStatus .Q_STOP2PUTANDGET) := rfl

/-- A step of the callers, or the status is set. -/
inductive StatusLabel (ι : Type)
  | call (l : Label ι Request (Int64 × Environment))
  | setStatus (status : QStatus)

def statusStep (s : State ι Shm Waiting Answer) :
    StatusLabel ι → Option (State ι Shm Waiting Answer)
  | .call l => step program s l
  | .setStatus status => some { s with mem := s.mem.withStatus status }

/-- Setting the status is not noted. -/
def statusNote (h : History) (s : State ι Shm Waiting Answer) :
    StatusLabel ι → State ι Shm Waiting Answer → History
  | .call l, s' => note h s l s'
  | .setStatus _, _ => h

/-! ## the calls, one equation each -/

namespace CircularQueue

open QMetaOp

/-- A queue that is not stopped either way is in its normal state. -/
theorem not_stopped_iff {m : QMeta} :
    ¬ (isStopPut m = true ∨ isStopPutAndGet m = true) ↔ m.status = .Q_NOMAL := by
  cases h : m.status <;> simp [isStopPut, isStopPutAndGet, h]

/-- No status is both stopped states, so the status never ends a wait loop of
`TimedPut`. -/
theorem timedPutLoop_apply (f : PutWait) (env : Environment) (w : Shm) :
    timedPutLoop f env w =
      if f.elementSize > w.pMeta.qLeftSize then
        if f.timed ∧ f.timeoutMilliseconds ≤ 0 then .error timeoutInfo w else .ok (some f) w
      else (do timedPutFinish f env; return none : Op (Option PutWait)) w := by
  have hstatus : isStopPut w.pMeta = false ∨ isStopPutAndGet w.pMeta = false := by
    cases h : w.pMeta.status <;> simp [isStopPut, isStopPutAndGet, h]
  have hmeta (x : QMeta → Op (Option PutWait)) : (getMeta >>= x) w = x w.pMeta w := rfl
  rw [timedPutLoop, hmeta]
  by_cases hfull : f.elementSize > w.pMeta.qLeftSize
  · rw [if_pos ⟨hstatus, hfull⟩, if_pos hfull, throwIf_bind_apply]
    rfl
  · rw [if_neg fun h => hfull h.2, if_neg hfull]

/-- The checks behind the loop of a put, and its `Write`. -/
theorem timedPutFinish_eq (f : PutWait) (env : Environment) (w : Shm) :
    timedPutFinish f env w =
      if w.pMeta.status ≠ .Q_NOMAL then .error putStopped w
      else if f.elementSize > w.pMeta.qLeftSize then
        .error ⟨.valueError, "elementSize > leftSize wait !", []⟩ w
      else ElementOp.write f.pData f.size env w := by
  have hmeta (x : QMeta → Op Unit) : (getMeta >>= x) w = x w.pMeta w := rfl
  rw [timedPutFinish, hmeta, throwIf_bind_apply, throwIf_bind_apply]
  by_cases hstat : w.pMeta.status = .Q_NOMAL
  · rw [if_neg (not_stopped_iff.mpr hstat), if_neg (not_not_intro hstat)]
  · rw [if_pos (Decidable.of_not_not (hstat ∘ not_stopped_iff.mp)), if_pos hstat]

/-- A put by cases: stopped, too large, full, or with room. -/
theorem timedPut_apply (self : CircularQueue) (pData : Mem) (size : UInt64) (t : Int32)
    (start : Int64) (env : Environment) (w : Shm) :
    timedPut self pData size t start env w =
      if w.pMeta.status ≠ .Q_NOMAL then .error putStopped w
      else if size + headerSize > w.pMeta.qTotalSize then
        .error (putTooSmall (size + headerSize) w.pMeta.qTotalSize) w
      else if size + headerSize > w.pMeta.qLeftSize then
        if t = 0 then .error putFull w
        else timedPutLoop ⟨pData, size, size + headerSize, decide (0 < t), t, start⟩ env w
      else
        (do timedPutFinish ⟨pData, size, size + headerSize, decide (0 < t), t, start⟩ env
            return none : Op (Option PutWait)) w := by
  rw [← timedPutWith_write, timedPutWith_apply]
  simp only [throwIf_bind_apply]
  by_cases hstat : w.pMeta.status = .Q_NOMAL
  · rw [if_neg (not_stopped_iff.mpr hstat), if_neg (not_not_intro hstat)]
    rfl
  · rw [if_pos (Decidable.of_not_not (hstat ∘ not_stopped_iff.mp)), if_pos hstat]

/-- A put that goes on: its time is charged, and the loop is tried again. -/
theorem timedPutWake_apply (f : PutWait) (signalled : Bool) (now : Int64) (env : Environment)
    (w : Shm) :
    timedPutWake f signalled now env w =
      if f.timed then
        if signalled then
          timedPutLoop
            { f with timeoutMilliseconds := f.timeoutMilliseconds - (now - f.start).toInt32 } env w
        else .error timeoutInfo w
      else timedPutLoop f env w := by
  rw [timedPutWake]
  split
  · rw [throwIf_bind_apply]
    cases signalled <;> rfl
  · rfl

/-- The checks behind the loop of a get, and its `Read`. -/
theorem timedGetFinish_eq (env : Environment) (w : Shm) :
    timedGetFinish env w =
      if w.pMeta.status = .Q_STOP2PUTANDGET then .error getStopped w
      else if 0 = w.pMeta.elementCount then
        .error ⟨.valueError, "0==elementCount before Read() !", []⟩ w
      else ElementOp.read env w := by
  have hmeta (x : QMeta → Op Unit) : (getMeta >>= x) w = x w.pMeta w := rfl
  rw [timedGetFinish, hmeta, throwIf_bind_apply, throwIf_bind_apply]
  simp only [isStopPutAndGet, decide_eq_true_eq]

/-- The loop of a get: it waits while there is nothing and the queue is not stopped. -/
theorem timedGetLoop_apply (f : GetWait) (env : Environment) (w : Shm) :
    timedGetLoop f env w =
      if w.pMeta.status ≠ .Q_STOP2PUTANDGET ∧ 0 = w.pMeta.elementCount then
        if f.timed ∧ f.timeoutMilliseconds ≤ 0 then .error timeoutInfo w else .ok (some f) w
      else (do timedGetFinish env; return none : Op (Option GetWait)) w := by
  have hmeta (x : QMeta → Op (Option GetWait)) : (getMeta >>= x) w = x w.pMeta w := rfl
  rw [timedGetLoop, hmeta]
  simp only [isStopPutAndGet, decide_eq_false_iff_not]
  split
  · rw [throwIf_bind_apply]
    rfl
  · rfl

/-- A get by cases: stopped, empty, or with an element. -/
theorem timedGet_apply (self : CircularQueue) (t : Int32) (start : Int64) (env : Environment)
    (w : Shm) :
    timedGet self t start env w =
      if w.pMeta.status = .Q_STOP2PUTANDGET then .error getStopped w
      else if 0 = w.pMeta.elementCount then
        if t = 0 then .error getEmpty w else timedGetLoop ⟨decide (0 < t), t, start⟩ env w
      else (do timedGetFinish env; return none : Op (Option GetWait)) w := by
  have hmeta (x : QMeta → Op (Option GetWait)) : (getMeta >>= x) w = x w.pMeta w := rfl
  rw [timedGet, bind_of_ok (checkProcessAndRestoreLock_apply env w), hmeta, throwIf_bind_apply]
  simp only [isStopPutAndGet, decide_eq_true_eq]
  split
  · rfl
  · split
    · rw [throwIf_bind_apply]
    · rfl

/-- A get that goes on: its time is charged, and the loop is tried again. -/
theorem timedGetWake_apply (f : GetWait) (signalled : Bool) (now : Int64) (env : Environment)
    (w : Shm) :
    timedGetWake f signalled now env w =
      if f.timed then
        if signalled then
          timedGetLoop
            { f with timeoutMilliseconds := f.timeoutMilliseconds - (now - f.start).toInt32 } env w
        else .error timeoutInfo w
      else timedGetLoop f env w := by
  rw [timedGetWake]
  split
  · rw [throwIf_bind_apply]
    cases signalled <;> rfl
  · rfl

end CircularQueue

/-! ## the contents of a queue -/

/-- What the calls see of a queue. -/
structure Contents where
  qTotalSize : UInt64
  status : QStatus
  elements : List (List UInt8)
  deriving DecidableEq, Repr

namespace Contents

open CircularQueue

/-- The bytes not taken. -/
def leftSize (c : Contents) : Nat := c.qTotalSize.toNat - totalWeight c.elements

def putFinish (c : Contents) (p : Payload) : Contents × Turn Waiting Answer :=
  if c.status ≠ .Q_NOMAL then (c, .done .none (.threw putStopped))
  else if c.leftSize < weight p.bytes then
    (c, .done .none (.threw ⟨.valueError, "elementSize > leftSize wait !", []⟩))
  else if p.bytes = [] then (c, .done .none (.threw emptyBody))
  else ({ c with elements := c.elements ++ [p.bytes] }, .done .one (.stored p.bytes))

def putLoop (c : Contents) (p : Payload) (f : PutWait) : Contents × Turn Waiting Answer :=
  if c.leftSize < weight p.bytes then
    if f.timed ∧ f.timeoutMilliseconds ≤ 0 then (c, .done .none (.threw timeoutInfo))
    else (c, .wait (.put p f))
  else c.putFinish p

def enterPut (c : Contents) (p : Payload) (t : Int32) (start : Int64) :
    Contents × Turn Waiting Answer :=
  if c.status ≠ .Q_NOMAL then (c, .done .none (.threw putStopped))
  else if c.qTotalSize.toNat < weight p.bytes then
    (c, .done .none (.threw (putTooSmall (p.size + headerSize) c.qTotalSize)))
  else if c.leftSize < weight p.bytes then
    if t = 0 then (c, .done .none (.threw putFull))
    else c.putLoop p ⟨p.pData, p.size, p.size + headerSize, decide (0 < t), t, start⟩
  else c.putFinish p

def resumePut (c : Contents) (p : Payload) (f : PutWait) (signalled : Bool) (now : Int64) :
    Contents × Turn Waiting Answer :=
  if f.timed then
    if signalled then
      c.putLoop p
        { f with timeoutMilliseconds := f.timeoutMilliseconds - (now - f.start).toInt32 }
    else (c, .done .none (.threw timeoutInfo))
  else c.putLoop p f

def getFinish (c : Contents) : Contents × Turn Waiting Answer :=
  if c.status = .Q_STOP2PUTANDGET then (c, .done .none (.threw getStopped))
  else match c.elements with
    | [] => (c, .done .none (.threw ⟨.valueError, "0==elementCount before Read() !", []⟩))
    | d :: ds => ({ c with elements := ds }, .done .one (.got d))

def getLoop (c : Contents) (data : Str) (f : GetWait) : Contents × Turn Waiting Answer :=
  if c.status ≠ .Q_STOP2PUTANDGET ∧ c.elements = [] then
    if f.timed ∧ f.timeoutMilliseconds ≤ 0 then (c, .done .none (.threw timeoutInfo))
    else (c, .wait (.get data f))
  else c.getFinish

def enterGet (c : Contents) (data : Str) (t : Int32) (start : Int64) :
    Contents × Turn Waiting Answer :=
  if c.status = .Q_STOP2PUTANDGET then (c, .done .none (.threw getStopped))
  else if c.elements = [] then
    if t = 0 then (c, .done .none (.threw getEmpty))
    else c.getLoop data ⟨decide (0 < t), t, start⟩
  else c.getFinish

def resumeGet (c : Contents) (data : Str) (f : GetWait) (signalled : Bool) (now : Int64) :
    Contents × Turn Waiting Answer :=
  if f.timed then
    if signalled then
      c.getLoop data
        { f with timeoutMilliseconds := f.timeoutMilliseconds - (now - f.start).toInt32 }
    else (c, .done .none (.threw timeoutInfo))
  else c.getLoop data f

end Contents

/-- The calls, over contents. -/
def contentsProgram : Program Contents Request Waiting (Int64 × Environment) Answer where
  enter
    | .timedPut _ p t start _, c => c.enterPut p t start
    | .timedGet _ data t start _, c => c.enterGet data t start
    | .stopPut _ _, c => (c, .done .all .stoppedPut)
    | .stopPutAndGet _ _, c => (c, .done .all .stoppedPutAndGet)
  resume
    | .put p f, signalled, (now, _), c => c.resumePut p f signalled now
    | .get data f, signalled, (now, _), c => c.resumeGet data f signalled now

/-- The memory has these contents. -/
structure Shows (w : Shm) (c : Contents) : Prop where
  holds : Holds w c.elements
  status : w.pMeta.status = c.status
  qTotalSize : w.pMeta.qTotalSize = c.qTotalSize

/-- A turn over the memory and one over its contents are alike. -/
abbrev TurnShows (r : Shm × Turn Waiting Answer) (q : Contents × Turn Waiting Answer) : Prop :=
  TurnAlike Shows Waiting.Carries r q

namespace Shows

open CircularQueue

variable {w : Shm} {c : Contents} {p : Payload} {data : Str}

/-- The room left is that of the contents. -/
theorem leftSize (h : Shows w c) : w.pMeta.qLeftSize.toNat = c.leftSize := by
  have hadd := h.holds.left_add
  rw [Contents.leftSize, ← h.qTotalSize]
  omega

/-- The buffer of the caller is no content. -/
theorem withData (h : Shows w c) (data : Str) : Shows { w with data := data } c :=
  ⟨h.holds.withData data, h.status, h.qTotalSize⟩

/-- The status is set on both sides. -/
theorem withStatus (h : Shows w c) (status : QStatus) :
    Shows (w.withStatus status) { c with status } :=
  ⟨{ h.holds with }, rfl, h.qTotalSize⟩

/-- A memory whose calls keep what `Keeps` says shows the new elements. -/
theorem keeps (h : Shows w c) {w' : Shm} {ds : List (List UInt8)} (hold : Holds w' ds)
    (hkeep : Keeps w w') : Shows w' { c with elements := ds } :=
  ⟨hold, hkeep.status.trans h.status, hkeep.qTotalSize.trans h.qTotalSize⟩

/-- A turn that ends with an exception leaves everything as it is. -/
theorem threw (h : Shows w c) (e : BaseException) :
    TurnShows (w, .done .none (.threw e)) (c, .done .none (.threw e)) :=
  ⟨h, rfl, fun l hl => by cases hl⟩

/-- Both sides wait alike. -/
theorem wait (h : Shows w c) {l : Waiting} (hl : l.Carries) :
    TurnShows (w, .wait l) (c, .wait l) :=
  ⟨h, rfl, fun l' hl' => by cases hl'; exact hl⟩

/-- Whether an element fits can be told from the contents. -/
theorem full_iff (h : Shows w c) :
    p.size + headerSize > w.pMeta.qLeftSize ↔ c.leftSize < weight p.bytes := by
  rw [gt_iff_lt, UInt64.lt_iff_toNat_lt, toNat_elementSize, h.leftSize]

/-- Whether there is an element can be told from the contents. -/
theorem empty_iff (h : Shows w c) : 0 = w.pMeta.elementCount ↔ c.elements = [] :=
  h.holds.elementCount_eq_zero

/-! ### turns of a put -/

/-- The end of a put, on both sides. -/
theorem putFinish (h : Shows w c) {f : PutWait} (hf : f.Carries p) (env : Environment) :
    TurnShows (putTurn p ((do timedPutFinish f env; return none : Op (Option PutWait)) w))
      (c.putFinish p) := by
  have hfinish := timedPutFinish_eq f env w
  rw [hf.elementSize, h.status] at hfinish
  rw [Contents.putFinish]
  by_cases hstat : c.status = .Q_NOMAL
  · rw [if_neg (not_not_intro hstat)] at hfinish ⊢
    by_cases hfull : c.leftSize < weight p.bytes
    · rw [if_pos (h.full_iff.mpr hfull)] at hfinish
      rw [if_pos hfull, bind_of_error hfinish]
      exact h.threw _
    · have hroom : weight p.bytes ≤ w.pMeta.qLeftSize.toNat := by rw [h.leftSize]; omega
      rw [if_neg hfull]
      rcases timedPutFinish_spec h.holds (h.status.trans hstat) env hf hroom with
        ⟨hnil, herr⟩ | ⟨hne, w', hok, hhold, hkeep⟩
      · rw [if_pos hnil, bind_of_error herr]
        exact h.threw _
      · rw [if_neg hne, bind_of_ok hok]
        exact ⟨h.keeps hhold hkeep, rfl, fun l hl => by cases hl⟩
  · rw [if_pos hstat] at hfinish ⊢
    rw [bind_of_error hfinish]
    exact h.threw _

/-- The loop of a put, on both sides. -/
theorem putLoop (h : Shows w c) {f : PutWait} (hf : f.Carries p) (env : Environment) :
    TurnShows (putTurn p (timedPutLoop f env w)) (c.putLoop p f) := by
  rw [timedPutLoop_apply, Contents.putLoop, hf.elementSize]
  by_cases hfull : c.leftSize < weight p.bytes
  · rw [if_pos (h.full_iff.mpr hfull), if_pos hfull]
    by_cases htime : f.timed ∧ f.timeoutMilliseconds ≤ 0
    · rw [if_pos htime, if_pos htime]
      exact h.threw _
    · rw [if_neg htime, if_neg htime]
      exact h.wait hf
  · rw [if_neg (mt h.full_iff.mp hfull), if_neg hfull]
    exact h.putFinish hf env

/-- A put, on both sides. -/
theorem enterPut (h : Shows w c) (self : CircularQueue) (t : Int32) (start : Int64)
    (env : Environment) :
    TurnShows (putTurn p (timedPut self p.pData p.size t start env w))
      (c.enterPut p t start) := by
  have hf : (⟨p.pData, p.size, p.size + headerSize, decide (0 < t), t, start⟩ :
      PutWait).Carries p := ⟨rfl, rfl, rfl⟩
  have hbig : p.size + headerSize > w.pMeta.qTotalSize ↔
      c.qTotalSize.toNat < weight p.bytes := by
    rw [gt_iff_lt, UInt64.lt_iff_toNat_lt, toNat_elementSize, h.qTotalSize]
  rw [timedPut_apply, Contents.enterPut, ← h.status]
  by_cases hstat : w.pMeta.status = .Q_NOMAL
  · rw [if_neg (not_not_intro hstat), if_neg (not_not_intro hstat)]
    by_cases htotal : c.qTotalSize.toNat < weight p.bytes
    · rw [if_pos (hbig.mpr htotal), if_pos htotal, h.qTotalSize]
      exact h.threw _
    · rw [if_neg (mt hbig.mp htotal), if_neg htotal]
      by_cases hfull : c.leftSize < weight p.bytes
      · rw [if_pos (h.full_iff.mpr hfull), if_pos hfull]
        by_cases ht : t = 0
        · rw [if_pos ht, if_pos ht]
          exact h.threw _
        · rw [if_neg ht, if_neg ht]
          exact h.putLoop hf env
      · rw [if_neg (mt h.full_iff.mp hfull), if_neg hfull]
        exact h.putFinish hf env
  · rw [if_pos hstat, if_pos hstat]
    exact h.threw _

/-- A put that goes on, on both sides. -/
theorem resumePut (h : Shows w c) {f : PutWait} (hf : f.Carries p) (signalled : Bool)
    (now : Int64) (env : Environment) :
    TurnShows (putTurn p (timedPutWake f signalled now env w))
      (c.resumePut p f signalled now) := by
  rw [timedPutWake_apply, Contents.resumePut]
  by_cases htimed : f.timed
  · rw [if_pos htimed, if_pos htimed]
    cases signalled with
    | true =>
        have hf' : { f with
            timeoutMilliseconds := f.timeoutMilliseconds - (now - f.start).toInt32 }.Carries p :=
          ⟨hf.pData, hf.size, hf.elementSize⟩
        rw [if_pos rfl, if_pos rfl]
        exact h.putLoop hf' env
    | false => exact h.threw _
  · rw [if_neg htimed, if_neg htimed]
    exact h.putLoop hf env

/-! ### turns of a get -/

/-- The end of a get, on both sides. -/
theorem getFinish (h : Shows w c) (env : Environment) :
    TurnShows (getTurn data ((do timedGetFinish env; return none : Op (Option GetWait)) w))
      c.getFinish := by
  have hfinish := timedGetFinish_eq env w
  rw [h.status] at hfinish
  rw [Contents.getFinish]
  by_cases hstat : c.status = .Q_STOP2PUTANDGET
  · rw [if_pos hstat] at hfinish ⊢
    rw [bind_of_error hfinish]
    exact h.threw _
  · rw [if_neg hstat] at hfinish ⊢
    have hhold := h.holds
    cases helements : c.elements with
    | nil =>
        rw [if_pos (h.empty_iff.mpr helements)] at hfinish
        rw [bind_of_error hfinish]
        exact h.threw _
    | cons d ds =>
        have hnot : ¬ 0 = w.pMeta.elementCount := by
          rw [h.empty_iff, helements]
          exact List.cons_ne_nil d ds
        rw [helements] at hhold
        obtain ⟨w', hrun, hrd⟩ := ElementOp.read_spec env hhold
        obtain ⟨size, -, hmeta⟩ := hrd.pMeta
        have hkeep : Keeps w w' := ⟨by rw [hmeta]; rfl, by rw [hmeta]; rfl, hrd.accesses⟩
        rw [if_neg hnot, hrun] at hfinish
        rw [bind_of_ok hfinish]
        refine ⟨h.keeps (hhold.read hrd) hkeep, ?_, fun l hl => by cases hl⟩
        exact congrArg (fun d => Turn.done Notify.one (Answer.got d)) hrd.data

/-- The loop of a get, on both sides. -/
theorem getLoop (h : Shows w c) (f : GetWait) (env : Environment) :
    TurnShows (getTurn data (timedGetLoop f env w)) (c.getLoop data f) := by
  have hwait : w.pMeta.status ≠ .Q_STOP2PUTANDGET ∧ 0 = w.pMeta.elementCount ↔
      c.status ≠ .Q_STOP2PUTANDGET ∧ c.elements = [] := by
    rw [h.status, h.empty_iff]
  rw [timedGetLoop_apply, Contents.getLoop]
  by_cases hempty : c.status ≠ .Q_STOP2PUTANDGET ∧ c.elements = []
  · rw [if_pos (hwait.mpr hempty), if_pos hempty]
    split
    · exact h.threw _
    · exact h.wait trivial
  · rw [if_neg (mt hwait.mp hempty), if_neg hempty]
    exact h.getFinish env

/-- A get, on both sides. -/
theorem enterGet (h : Shows w c) (self : CircularQueue) (t : Int32) (start : Int64)
    (env : Environment) :
    TurnShows (getTurn data (timedGet self t start env w)) (c.enterGet data t start) := by
  rw [timedGet_apply, Contents.enterGet, h.status]
  split
  · exact h.threw _
  · by_cases hempty : c.elements = []
    · rw [if_pos (h.empty_iff.mpr hempty), if_pos hempty]
      split
      · exact h.threw _
      · exact h.getLoop _ env
    · rw [if_neg (mt h.empty_iff.mp hempty), if_neg hempty]
      exact h.getFinish env

/-- A get that goes on, on both sides. -/
theorem resumeGet (h : Shows w c) (f : GetWait) (signalled : Bool) (now : Int64)
    (env : Environment) :
    TurnShows (getTurn data (timedGetWake f signalled now env w))
      (c.resumeGet data f signalled now) := by
  rw [timedGetWake_apply, Contents.resumeGet]
  split
  · cases signalled with
    | true =>
        rw [if_pos rfl, if_pos rfl]
        exact h.getLoop _ env
    | false => exact h.threw _
  · exact h.getLoop _ env

/-! ### turns -/

/-- Whatever the status, a call begins as its contents say. -/
theorem enter (h : Shows w c) (r : Request) :
    TurnShows (program.enter r w) (contentsProgram.enter r c) := by
  cases r with
  | timedPut self p t start env => exact h.enterPut self t start env
  | timedGet self data t start env => exact (h.withData data).enterGet self t start env
  | stopPut self env =>
      rw [(enter_stop self env w).1]
      exact ⟨h, rfl, fun l hl => by cases hl⟩
  | stopPutAndGet self env =>
      rw [(enter_stop self env w).2]
      exact ⟨h, rfl, fun l hl => by cases hl⟩

/-- So does it go on after a wait. -/
theorem resume (h : Shows w c) {l : Waiting} (hl : l.Carries) (signalled : Bool)
    (e : Int64 × Environment) :
    TurnShows (program.resume l signalled e w) (contentsProgram.resume l signalled e c) := by
  obtain ⟨now, env⟩ := e
  cases l with
  | put p f => exact h.resumePut hl signalled now env
  | get data f => exact (h.withData data).resumeGet f signalled now env

end Shows

/-! ## runs from equal contents -/

/-- Two memories with the same contents. -/
def SameContents (w w' : Shm) : Prop := ∃ c, Shows w c ∧ Shows w' c

/-- Two memories with the same contents answer alike. -/
theorem SameContents.of_turnShows {r r' : Shm × Turn Waiting Answer}
    {q : Contents × Turn Waiting Answer} (h : TurnShows r q) (h' : TurnShows r' q) :
    TurnAlike SameContents Waiting.Carries r r' :=
  ⟨⟨q.1, h.mem, h'.mem⟩, h.turn.trans h'.turn.symm, h.locals⟩

omit [DecidableEq ι] [Fintype ι] in
/-- A status set in both leaves two runs alike. -/
theorem alike_withStatus {s t : State ι Shm Waiting Answer}
    (h : Alike SameContents Waiting.Carries s t) (status : QStatus) :
    Alike SameContents Waiting.Carries { s with mem := s.mem.withStatus status }
      { t with mem := t.mem.withStatus status } := by
  obtain ⟨c, hs, ht⟩ := h.mem
  exact ⟨⟨_, hs.withStatus status, ht.withStatus status⟩, h.pc, h.locals⟩

/-- Callers of queues with the same contents take the same steps. -/
theorem alike_statusStep {s t : State ι Shm Waiting Answer}
    (h : Alike SameContents Waiting.Carries s t) (l : StatusLabel ι) :
    Option.Rel (Alike SameContents Waiting.Carries) (statusStep s l) (statusStep t l) := by
  cases l with
  | call l =>
      refine alike_step ?_ ?_ h l
      · rintro c w w' ⟨contents, hw, hw'⟩
        exact SameContents.of_turnShows (hw.enter c) (hw'.enter c)
      · rintro l b e w w' hl ⟨contents, hw, hw'⟩
        exact SameContents.of_turnShows (hw.resume hl b e) (hw'.resume hl b e)
  | setStatus status => exact .some (alike_withStatus h status)

omit [DecidableEq ι] [Fintype ι] in
/-- The same is noted of them. -/
theorem statusNote_eq {s t : State ι Shm Waiting Answer}
    (h : Alike SameContents Waiting.Carries s t) (hist : History) (l : StatusLabel ι)
    (s' t' : State ι Shm Waiting Answer) : statusNote hist s l s' = statusNote hist t l t' := by
  obtain ⟨c, hs, ht⟩ := h.mem
  cases l with
  | setStatus status => rfl
  | call l =>
      cases l with
      | enter i r =>
          have hturn := (hs.enter r).turn.trans (ht.enter r).turn.symm
          simp only [statusNote, note, hturn]
      | resume i e =>
          simp only [statusNote, note, ← h.pc]
          split
          · next l b hi =>
              have hl := h.locals i l (by rw [hi]; rfl)
              rw [(hs.resume hl b e).turn.trans (ht.resume hl b e).turn.symm]
          · rfl
      | notify i target => simp only [statusNote, note, ← h.pc]
      | wake i b => rfl

/-- Later runs cannot tell queues with the same contents apart: the same
steps are enabled, and the same payloads are stored and handed out. -/
theorem history_eq_of_contents {s t : State ι Shm Waiting Answer}
    (h : Alike SameContents Waiting.Carries s t) (hist : History) (ls : List (StatusLabel ι)) :
    (run (recorded statusStep statusNote) (s, hist) ls).map Prod.snd =
      (run (recorded statusStep statusNote) (t, hist) ls).map Prod.snd :=
  map_snd_run_recorded (fun _ _ l h => alike_statusStep h l)
    (fun _ _ l k s' t' h => statusNote_eq h k l s' t') h hist ls

/-- In every run the queue has contents. -/
theorem alike_of_run {s s' : State ι Shm Waiting Answer} {ls : List (StatusLabel ι)}
    (hrun : run statusStep s ls = some s') (h : Alike SameContents Waiting.Carries s s) :
    Alike SameContents Waiting.Carries s' s' := by
  refine run_invariant (fun s => Alike SameContents Waiting.Carries s s) ?_ hrun h
  intro s l t hstep hs
  have hrel := alike_statusStep hs l
  rw [hstep] at hrel
  cases hrel with
  | some hnext => exact hnext

omit [DecidableEq ι] [Fintype ι] in
/-- The callers of a created queue before their first call. -/
theorem alike_idleCallers {memSize : UInt64} {w w₀ : Shm}
    (hlo : metaSize.toNat + headerSize.toNat < memSize.toNat) (hhi : memSize.toNat < 2 ^ 63)
    (hcreate : CircularQueue.construct true memSize w = .ok ⟨true⟩ w₀) :
    Alike SameContents Waiting.Carries (idleCallers w₀ : State ι Shm Waiting Answer)
      (idleCallers w₀) := by
  obtain ⟨w₁, hrun, hold, -⟩ := create_spec w hlo hhi
  rw [hrun] at hcreate
  cases hcreate
  have hshows : Shows w₀ ⟨w₀.pMeta.qTotalSize, w₀.pMeta.status, []⟩ := ⟨hold, rfl, rfl⟩
  exact ⟨⟨_, hshows, hshows⟩, rfl, fun i l hl => by cases hl⟩

end CppFastDevelop
