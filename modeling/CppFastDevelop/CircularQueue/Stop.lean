import CppFastDevelop.CircularQueue.Threads

/-!
# CppFastDevelop.CircularQueue.Stop

What a stop request means to later calls.  `CircularQueue::StopPut` and
`CircularQueue::StopPutAndGet` take the mutex, broadcast and return, but
they never set the status the other calls look at: `QMetaOp::StopPut` and
`QMetaOp::StopPutAndGet`, which would, have no caller.  So a run honours its
stop requests exactly when no call is made that one should refuse
(`honoursStop_iff_noLateCall`).  Elements are handed out in order all the
same.

Runs are over all calls, with and without time-outs, over all
interleavings, and with spurious wake-ups.
-/

namespace CppFastDevelop

open Exec Machine Monitor

variable {ι : Type} [DecidableEq ι] [Fintype ι]

/-! ## the record of a run -/

/-- What has happened: which stop requests have returned, which payloads
have been queued, and which have been handed out. -/
structure History where
  stopPut : Bool := false
  stopPutAndGet : Bool := false
  written : List (List UInt8) := []
  taken : List (List UInt8) := []

/-- A turn that ended a put or a get is noted. -/
def History.noteTurn (h : History) : Turn Waiting Answer → History
  | .done _ (.stored d) => { h with written := h.written ++ [d] }
  | .done _ (.got d) => { h with taken := h.taken ++ [d] }
  | _ => h

/-- A stop request returns after its broadcast. -/
def History.noteReturn (h : History) : Pc Waiting Answer → History
  | .notifying _ .stoppedPut => { h with stopPut := true }
  | .notifying _ .stoppedPutAndGet => { h with stopPutAndGet := true }
  | _ => h

/-- A system of callers, with its history. -/
abbrev Recorded (ι : Type) := State ι Shm Waiting Answer × History

/-- The note taken of a step. -/
def note (h : History) (s : State ι Shm Waiting Answer) :
    Label ι Request (Int64 × Environment) → State ι Shm Waiting Answer → History
  | .enter _ c, _ => h.noteTurn (program.enter c s.mem).2
  | .resume i e, _ => match s.pc i with
    | .woken l b => h.noteTurn (program.resume l b e s.mem).2
    | _ => h
  | .notify i _, _ => h.noteReturn (s.pc i)
  | .wake _ _, _ => h

/-! ## what a stop request asks for -/

def Request.IsPut : Request → Prop
  | .timedPut _ _ _ _ _ => True
  | _ => False

def Request.IsGet : Request → Prop
  | .timedGet _ _ _ _ _ => True
  | _ => False

/-- The call throws `e` in its first critical section and leaves the queue
as it is. -/
def Refuses (w : Shm) (c : Request) (e : BaseException) : Prop :=
  (program.enter c w).2 = .done .none (.threw e) ∧
    (program.enter c w).1.pMeta = w.pMeta ∧ (program.enter c w).1.pQueue = w.pQueue

/-- The call hands out the oldest element that has not been handed out, if
there is one. -/
def Drains (w : Shm) (h : History) (c : Request) : Prop :=
  ∀ d rest, h.written = h.taken ++ d :: rest → (program.enter c w).2 = .done .one (.got d)

/-- An element is handed out in its turn. -/
def InOrder (h : History) (t : Turn Waiting Answer) : Prop :=
  ∀ d, t = .done .one (.got d) → ∃ rest, h.written = h.taken ++ d :: rest

/-- A step honours the stop requests that have returned: puts are refused
after either, gets after `StopPutAndGet`; after `StopPut` gets drain the
queue in order. -/
def HonoursStop (s : Recorded ι) : Label ι Request (Int64 × Environment) → Prop
  | .enter _ c =>
    (c.IsPut → s.2.stopPut = true ∨ s.2.stopPutAndGet = true →
      Refuses s.1.mem c CircularQueue.putStopped) ∧
    (c.IsGet → s.2.stopPutAndGet = true → Refuses s.1.mem c CircularQueue.getStopped) ∧
    (c.IsGet → s.2.stopPut = true → s.2.stopPutAndGet = false →
      Drains s.1.mem s.2 c ∧ InOrder s.2 (program.enter c s.1.mem).2)
  | .resume i e => s.2.stopPut = true →
    ∀ l b, s.1.pc i = .woken l b → InOrder s.2 (program.resume l b e s.1.mem).2
  | _ => True

/-- A step does not begin a call that a stop request should refuse. -/
def NoLateCall (s : Recorded ι) : Label ι Request (Int64 × Environment) → Prop
  | .enter _ c =>
    (c.IsPut → s.2.stopPut = false ∧ s.2.stopPutAndGet = false) ∧
    (c.IsGet → s.2.stopPutAndGet = false)
  | _ => True

/-! ## the invariant -/

/-- The memory holds what was written and not yet taken, in state
`Q_NOMAL`. -/
def Serves (w : Shm) (h : History) : Prop :=
  w.pMeta.status = .Q_NOMAL ∧ ∃ ds, Holds w ds ∧ h.written = h.taken ++ ds

/-- Local variables of a put carry its payload. -/
def Waiting.Carries : Waiting → Prop
  | .put p f => f.Carries p
  | .get _ _ => True

/-- A turn keeps the invariant, and is noted. -/
def TurnServes (h : History) (r : Shm × Turn Waiting Answer) : Prop :=
  Serves r.1 (h.noteTurn r.2) ∧ ∀ l, r.2 = .wait l → l.Carries

/-- A put that has ended is in the history, or has left no trace in it. -/
theorem PutEnds.serves {w : Shm} {h : History} {ds : List (List UInt8)} {p : Payload}
    {timed : Prop} {r : Shm × Turn Waiting Answer} (hr : PutEnds w ds p timed r)
    (hold : Holds w ds) (hstat : w.pMeta.status = .Q_NOMAL) (hw : h.written = h.taken ++ ds) :
    TurnServes h r := by
  cases hr with
  | threw e _ _ => exact ⟨⟨hstat, ds, hold, hw⟩, fun l hl => by cases hl⟩
  | waits f hf _ _ => exact ⟨⟨hstat, ds, hold, hw⟩, fun l hl => by cases hl; exact hf⟩
  | stored w' _ hhold hkeep =>
      refine ⟨⟨hkeep.status.trans hstat, _, hhold, ?_⟩, fun l hl => by cases hl⟩
      show h.written ++ [p.bytes] = h.taken ++ (ds ++ [p.bytes])
      rw [hw, List.append_assoc]

/-- A get that has ended is in the history, or has left no trace in it. -/
theorem GetEnds.serves {w : Shm} {h : History} {ds : List (List UInt8)} {data : Str}
    {timed : Prop} {r : Shm × Turn Waiting Answer} (hr : GetEnds w ds data timed r)
    (hold : Holds w ds) (hstat : w.pMeta.status = .Q_NOMAL) (hw : h.written = h.taken ++ ds) :
    TurnServes h r := by
  cases hr with
  | threw e _ _ => exact ⟨⟨hstat, ds, hold.withData data, hw⟩, fun l hl => by cases hl⟩
  | waits f _ _ =>
      exact ⟨⟨hstat, ds, hold.withData data, hw⟩, fun l hl => by cases hl; trivial⟩
  | got d ds' w' hds hhold hkeep =>
      refine ⟨⟨hkeep.status.trans hstat, ds', hhold, ?_⟩, fun l hl => by cases hl⟩
      show h.written = h.taken ++ [d] ++ ds'
      rw [hw, hds, List.append_assoc]
      rfl

/-- Entering a call keeps the invariant. -/
theorem enter_serves {w : Shm} {h : History} (c : Request) (hs : Serves w h) :
    TurnServes h (program.enter c w) := by
  obtain ⟨hstat, ds, hold, hw⟩ := hs
  cases c with
  | timedPut self p t start env =>
      exact (enter_timedPut hold hstat self p t start env).serves hold hstat hw
  | timedGet self data t start env =>
      exact (enter_timedGet hold hstat self data t start env).serves hold hstat hw
  | stopPut self env =>
      rw [(enter_stop self env w).1]
      exact ⟨⟨hstat, ds, hold, hw⟩, fun l hl => by cases hl⟩
  | stopPutAndGet self env =>
      rw [(enter_stop self env w).2]
      exact ⟨⟨hstat, ds, hold, hw⟩, fun l hl => by cases hl⟩

/-- So does resuming one. -/
theorem resume_serves {w : Shm} {h : History} {l : Waiting} (hl : l.Carries) (b : Bool)
    (e : Int64 × Environment) (hs : Serves w h) : TurnServes h (program.resume l b e w) := by
  obtain ⟨hstat, ds, hold, hw⟩ := hs
  obtain ⟨now, env⟩ := e
  cases l with
  | put p f => exact (resume_put hold hstat hl b now env).serves hold hstat hw
  | get data f => exact (resume_get hold hstat f data b now env).serves hold hstat hw

/-- The invariant of a run. -/
structure RunInv (s : Recorded ι) : Prop where
  sound : Sound Serving Waiting.Carries s.1
  serves : Serves s.1.mem s.2

/-- A queue that serves a history is one that is serving. -/
theorem Serves.serving {w : Shm} {h : History} (hs : Serves w h) : Serving w := by
  obtain ⟨hstat, ds, hold, _⟩ := hs
  exact ⟨⟨ds, hold⟩, hstat⟩

/-- A memory that serves does so with some history. -/
theorem Serving.serves {w : Shm} (hs : Serving w) : ∃ h, Serves w h := by
  obtain ⟨⟨ds, hold⟩, hstat⟩ := hs
  exact ⟨{ written := ds }, hstat, ds, hold, rfl⟩

/-- The flags of the history are no part of what the memory serves. -/
theorem Serves.noteReturn {w : Shm} {h : History} (hs : Serves w h) (p : Pc Waiting Answer) :
    Serves w (h.noteReturn p) := by
  unfold History.noteReturn
  split
  · exact hs
  · exact hs
  · exact hs

/-- One step keeps the invariant. -/
theorem runInv_step {s s' : Recorded ι} {a : Label ι Request (Int64 × Environment)}
    (hstep : recorded (step program) note s a = some s') (h : RunInv s) : RunInv s' := by
  obtain ⟨hs, hnote⟩ := recorded_eq_some.mp hstep
  refine ⟨?_, ?_⟩
  · refine sound_step (fun _ => True) ?_ ?_ (a := a) ?_ hs h.sound
    · intro c w _ hw
      obtain ⟨hist, hserves⟩ := hw.serves
      exact ⟨(enter_serves c hserves).1.serving, (enter_serves c hserves).2⟩
    · intro l b e w hl hw
      obtain ⟨hist, hserves⟩ := hw.serves
      exact ⟨(resume_serves hl b e hserves).1.serving, (resume_serves hl b e hserves).2⟩
    · cases a <;> trivial
  · rw [hnote]
    rcases step_cases hs with ⟨i, c, rfl, _, hs'⟩ | ⟨i, e, l, b, rfl, hi, hs'⟩ |
      ⟨i, o, j, l, rfl, _, _, hs'⟩ | ⟨i, o, rfl, _, _, hs'⟩ | ⟨i, o, rfl, _, hs'⟩ |
      ⟨i, l, b, rfl, _, hs'⟩
    · rw [hs']; exact (enter_serves c h.serves).1
    · have hl := h.sound.locals i l (by rw [hi]; rfl)
      rw [hs']
      simp only [note, hi]
      exact (resume_serves hl b e h.serves).1
    · rw [hs']; exact h.serves.noteReturn _
    · rw [hs']; exact h.serves.noteReturn _
    · rw [hs']; exact h.serves.noteReturn _
    · rw [hs']; exact h.serves

/-- A turn that keeps the invariant hands out an element in its turn. -/
theorem TurnServes.inOrder {h : History} {r : Shm × Turn Waiting Answer} (hr : TurnServes h r) :
    InOrder h r.2 := by
  intro d hd
  obtain ⟨⟨_, ds, _, hw⟩, _⟩ := hr
  rw [hd] at hw
  have hw' : h.written = h.taken ++ [d] ++ ds := hw
  exact ⟨ds, by rw [hw', List.append_assoc]; rfl⟩

/-! ## stop requests and late calls -/

/-- No put is refused for a stop request. -/
theorem not_refuses_put {w : Shm} {h : History} (hs : Serves w h) {c : Request} (hc : c.IsPut) :
    ¬ Refuses w c CircularQueue.putStopped := by
  obtain ⟨hstat, ds, hold, _⟩ := hs
  rintro ⟨hturn, _⟩
  cases c with
  | timedPut self p t start env =>
      have hends := enter_timedPut hold hstat self p t start env
      generalize program.enter (.timedPut self p t start env) w = r at hends hturn
      cases hends with
      | threw e he _ => cases hturn; exact he rfl
      | waits f _ _ _ => cases hturn
      | stored w' _ _ _ => cases hturn
  | timedGet self data t start env => cases hc
  | stopPut self env => cases hc
  | stopPutAndGet self env => cases hc

/-- No get is refused for a stop request. -/
theorem not_refuses_get {w : Shm} {h : History} (hs : Serves w h) {c : Request} (hc : c.IsGet) :
    ¬ Refuses w c CircularQueue.getStopped := by
  obtain ⟨hstat, ds, hold, _⟩ := hs
  rintro ⟨hturn, _⟩
  cases c with
  | timedPut self p t start env => cases hc
  | timedGet self data t start env =>
      have hends := enter_timedGet hold hstat self data t start env
      generalize program.enter (.timedGet self data t start env) w = r at hends hturn
      cases hends with
      | threw e he _ => cases hturn; exact he rfl
      | waits f _ _ => cases hturn
      | got d ds' w' _ _ _ => cases hturn
  | stopPut self env => cases hc
  | stopPutAndGet self env => cases hc

/-- A get that begins on a queue with elements takes the oldest. -/
theorem drains_get {w : Shm} {h : History} (hs : Serves w h) {c : Request} (hc : c.IsGet) :
    Drains w h c := by
  obtain ⟨hstat, ds, hold, hw⟩ := hs
  intro d rest hdr
  have hds : ds = d :: rest := List.append_cancel_left (hw.symm.trans hdr)
  cases c with
  | timedPut self p t start env => cases hc
  | timedGet self data t start env =>
      simp only [program]
      rcases CircularQueue.timedGet_cases (hold.withData data) hstat self t start env with
        ⟨hnil, _⟩ | ⟨_, w', hrun, ⟨d', ds', hds', hdata, _⟩, _⟩
      · rw [hnil] at hds; cases hds
      · rw [hds] at hds'
        cases hds'
        rw [hrun, getTurn, hdata]
  | stopPut self env => cases hc
  | stopPutAndGet self env => cases hc

omit [DecidableEq ι] [Fintype ι] in
/-- A step honours the stop requests exactly when it is no late call. -/
theorem honoursStop_iff {s : Recorded ι} (h : RunInv s)
    (a : Label ι Request (Int64 × Environment)) : HonoursStop s a ↔ NoLateCall s a := by
  cases a with
  | enter i c =>
      constructor
      · rintro ⟨hput, hget, _⟩
        refine ⟨fun hc => ⟨?_, ?_⟩, fun hc => ?_⟩
        · rw [← Bool.not_eq_true]
          exact fun htrue => not_refuses_put h.serves hc (hput hc (.inl htrue))
        · rw [← Bool.not_eq_true]
          exact fun htrue => not_refuses_put h.serves hc (hput hc (.inr htrue))
        · rw [← Bool.not_eq_true]
          exact fun htrue => not_refuses_get h.serves hc (hget hc htrue)
      · rintro ⟨hput, hget⟩
        refine ⟨fun hc hstop => ?_, fun hc hstop => ?_, fun hc _ _ => ?_⟩
        · obtain ⟨h1, h2⟩ := hput hc
          rw [h1, h2] at hstop
          simp at hstop
        · rw [hget hc] at hstop
          cases hstop
        · exact ⟨drains_get h.serves hc, (enter_serves c h.serves).inOrder⟩
  | resume i e =>
      refine iff_of_true (fun _ l b hi => ?_) trivial
      have hl := h.sound.locals i l (by rw [hi]; rfl)
      exact (resume_serves hl b e h.serves).inOrder
  | notify i target => exact Iff.rfl
  | wake i b => exact Iff.rfl

/-- The callers before their first call, and an empty record. -/
def notStarted (w : Shm) : Recorded ι := (⟨w, fun _ => .idle⟩, {})

/-- A run on a created queue honours the stop requests exactly when no call
begins that a returned stop request should refuse. -/
theorem honoursStop_iff_noLateCall {w w₀ : Shm} {memSize : UInt64}
    (hlo : metaSize.toNat + headerSize.toNat < memSize.toNat) (hhi : memSize.toNat < 2 ^ 63)
    (hcreate : CircularQueue.construct true memSize w = .ok ⟨true⟩ w₀)
    (as : List (Label ι Request (Int64 × Environment))) :
    Along (recorded (step program) note) HonoursStop (notStarted w₀) as ↔
      Along (recorded (step program) note) NoLateCall (notStarted w₀) as := by
  obtain ⟨w₁, hrun₁, hold, hstat, _⟩ := create_spec w hlo hhi
  rw [hrun₁] at hcreate
  cases hcreate
  have hinv : RunInv (notStarted w₀ : Recorded ι) :=
    ⟨⟨⟨⟨_, hold⟩, hstat⟩, fun i l hl => by cases hl⟩, hstat, [], hold, rfl⟩
  exact along_iff_of_invariant RunInv (fun _ _ _ => runInv_step)
    (fun _ a _ _ h => honoursStop_iff h a) hinv

/-- Two threads: one stops putting, and before that the other puts. -/
theorem honoursStop_iff_noLateCall_193 :
    Along (recorded (step program) note) HonoursStop (notStarted smallestQueue)
        [.enter 1 (.tryPut ⟨false⟩ (onePayload 7) zeroEnvironment), .notify 1 none,
          .enter (0 : Fin 2) (.stopPut ⟨true⟩ zeroEnvironment), .notify 0 none] ↔
      Along (recorded (step program) note) NoLateCall (notStarted smallestQueue)
        [.enter 1 (.tryPut ⟨false⟩ (onePayload 7) zeroEnvironment), .notify 1 none,
          .enter (0 : Fin 2) (.stopPut ⟨true⟩ zeroEnvironment), .notify 0 none] :=
  honoursStop_iff_noLateCall (by decide) (by decide) construct_smallestQueue _

/-- After `StopPut` has returned a `TryPut` is still served. -/
theorem stop_not_honoured :
    ¬ ∀ (n : Nat) (w w₀ : Shm) (memSize : UInt64)
      (as : List (Label (Fin n) Request (Int64 × Environment))),
      metaSize.toNat + headerSize.toNat < memSize.toNat → memSize.toNat < 2 ^ 63 →
      CircularQueue.construct true memSize w = .ok ⟨true⟩ w₀ →
      Along (recorded (step program) note) HonoursStop (notStarted w₀) as := by
  intro h
  have hrun := h 1 zeroedMemory smallestQueue 193
    [.enter 0 (.stopPut ⟨true⟩ zeroEnvironment), .notify 0 none,
      .enter 0 (.tryPut ⟨true⟩ (onePayload 7) zeroEnvironment)]
    (by decide) (by decide) construct_smallestQueue
  obtain ⟨_, hrun⟩ := hrun _ rfl
  obtain ⟨_, hrun⟩ := hrun _ rfl
  obtain ⟨⟨hput, _⟩, _⟩ := hrun _ rfl
  obtain ⟨hturn, _⟩ := hput trivial (.inl rfl)
  have hserved : (program.enter (.tryPut ⟨true⟩ (onePayload 7) zeroEnvironment)
      smallestQueue).2 = .done .one (.stored [7]) := rfl
  have hclash := hserved.symm.trans hturn
  cases hclash

end CppFastDevelop
