import CppFastDevelop.CircularQueue.QueueSpec
import CppFastDevelop.Lib.Machine
import CppFastDevelop.Lib.BoundedFifo

/-!
# CppFastDevelop.CircularQueue.Refinement

The circular queue in terms of what it is for.  Runs of `TryPut` and
`TryGet`, through any number of handles on one memory, are compared with a
bounded FIFO of byte strings (`tryPut_tryGet_refines_fifo`); the copies and
subtractions made on the way are safe (`tryPut_tryGet_safe`); and the ten
copy routes are compared with a writer and a reader that go byte by byte
around the ring (`write_read_eq_reference`).

The mutex serialises the calls, so a run is a list of calls.
-/

namespace CppFastDevelop

open RingBuffer Exec Machine ElementOp

/-! ## runs of calls -/

/-- One call of a run: another handle is constructed on the memory, or a
handle is used. -/
inductive Call
  | attach (memSize : UInt64)
  | tryPut (self : CircularQueue) (p : Payload) (env : Environment)
  | tryGet (self : CircularQueue) (data : Str) (env : Environment)

/-- How a call ends. -/
inductive Outcome
  | attached
  | stored
  | got (data : List UInt8)
  | waiting
  | threw (e : ExceptionClass)
  deriving DecidableEq, Repr

/-- What is seen of a call: its end, and the counters after it. -/
structure Observation where
  outcome : Outcome
  elementCount : Nat
  qLeftSize : Nat
  deriving DecidableEq, Repr

/-- The call itself.  `TryGet` is handed whatever string the caller has. -/
def Call.op : Call → Op Outcome
  | .attach memSize => do
    let _ ← CircularQueue.construct false memSize
    return .attached
  | .tryPut self p env => do
    match ← self.tryPut p.pData p.size env with
    | none => return .stored
    | some _ => return .waiting
  | .tryGet self data env => do
    modify fun w => { w with data := data }
    match ← self.tryGet env with
    | none => return .got (← get).data.toList
    | some _ => return .waiting

/-- One call on the memory. -/
def serve (w : Shm) (c : Call) : Observation × Shm :=
  let r := c.op w
  let w' := finalState r
  let outcome := match r with
    | .ok o _ => o
    | .error e _ => .threw e.className
  (⟨outcome, w'.pMeta.elementCount.toNat, w'.pMeta.qLeftSize.toNat⟩, w')

/-- The payload of a put is not empty. -/
def Call.NonEmpty : Call → Prop
  | .tryPut _ p _ => p.bytes ≠ []
  | _ => True

/-! ## the abstract queue -/

/-- A queue of byte strings, weighed with their headers. -/
abbrev Fifo (cap : Nat) := BoundedFifo (List UInt8) weight cap

/-- One call on the abstract queue. -/
def Fifo.serve {cap : Nat} (q : Fifo cap) (c : Call) : Observation × Fifo cap :=
  let (outcome, q') : Outcome × Fifo cap := match c with
    | .attach _ => (.attached, q)
    | .tryPut _ p _ => match q.put p.bytes with
      | (.tooBig, q') => (.threw .sizeTooSmallException, q')
      | (.full, q') => (.threw .queueFullException, q')
      | (.stored, q') => (.stored, q')
    | .tryGet _ _ _ => match q.get with
      | (none, q') => (.threw .queueFullException, q')
      | (some d, q') => (.got d, q')
  (⟨outcome, q'.items.length, q'.left⟩, q')

/-- The memory represents the abstract queue. -/
structure Represents {cap : Nat} (w : Shm) (q : Fifo cap) : Prop where
  holds : Holds w q.items
  status : w.pMeta.status = .Q_NOMAL
  cap_eq : w.pMeta.qTotalSize.toNat = cap

/-- The counters are those of the abstract queue. -/
theorem Represents.counters {cap : Nat} {w : Shm} {q : Fifo cap} (h : Represents w q) :
    w.pMeta.elementCount.toNat = q.items.length ∧ w.pMeta.qLeftSize.toNat = q.left := by
  have hcount := h.holds.count_eq
  have hadd := h.holds.left_add
  have hcap := h.cap_eq
  have hleft := q.load_add_left
  have hload : q.load = totalWeight q.items := rfl
  exact ⟨hcount, by omega⟩

/-! ## one call -/

/-- How `TryPut` ends, case by case. -/
theorem tryPut_op_cases {w : Shm} {ds : List (List UInt8)} (hold : Holds w ds)
    (hstat : w.pMeta.status = .Q_NOMAL) (self : CircularQueue) (p : Payload)
    (env : Environment) :
    (w.pMeta.qTotalSize.toNat < weight p.bytes ∧ ∃ e, e.className = .sizeTooSmallException ∧
      (Call.tryPut self p env).op w = .error e w) ∨
    (weight p.bytes ≤ w.pMeta.qTotalSize.toNat ∧ w.pMeta.qLeftSize.toNat < weight p.bytes ∧
      ∃ e, e.className = .queueFullException ∧ (Call.tryPut self p env).op w = .error e w) ∨
    (p.bytes = [] ∧ (Call.tryPut self p env).op w = .error emptyBody w) ∨
    (weight p.bytes ≤ w.pMeta.qLeftSize.toNat ∧ ∃ w', (Call.tryPut self p env).op w =
      .ok .stored w' ∧ Holds w' (ds ++ [p.bytes]) ∧ Keeps w w') := by
  rcases CircularQueue.timedPut_cases hold hstat self 0 0 env with
    ⟨hbig, herr⟩ | ⟨hfit, hfull, ⟨_, herr⟩ | ⟨hne, _⟩⟩ | ⟨hleft, ⟨hnil, herr⟩ | ⟨_, w', hok, h⟩⟩
  · exact .inl ⟨hbig, _, rfl, bind_of_error herr⟩
  · exact .inr (.inl ⟨hfit, hfull, _, rfl, bind_of_error herr⟩)
  · exact absurd rfl hne
  · exact .inr (.inr (.inl ⟨hnil, bind_of_error herr⟩))
  · exact .inr (.inr (.inr ⟨hleft, w', bind_of_ok hok, h⟩))

/-- How `TryGet` ends, case by case. -/
theorem tryGet_op_cases {w : Shm} {ds : List (List UInt8)} (hold : Holds w ds)
    (hstat : w.pMeta.status = .Q_NOMAL) (self : CircularQueue) (data : Str)
    (env : Environment) :
    (ds = [] ∧ ∃ w', (Call.tryGet self data env).op w = .error CircularQueue.getEmpty w' ∧
      Holds w' ds ∧ Keeps w w') ∨
    (∃ d ds' w', ds = d :: ds' ∧ (Call.tryGet self data env).op w = .ok (.got d) w' ∧
      Holds w' ds' ∧ Keeps w w') := by
  -- the caller's string is no part of the queue
  have hold' : Holds { w with data := data } ds := { hold with }
  have hkeep : Keeps w { w with data := data } := ⟨rfl, rfl, id⟩
  rcases CircularQueue.timedGet_cases hold' hstat self 0 0 env with
    ⟨hnil, ⟨_, herr⟩ | ⟨hne, _⟩⟩ | ⟨_, w', hok, ⟨d, ds', hds, hdata, hhold⟩, hkeeps⟩
  · have hrun : (Call.tryGet self data env).op w = .error CircularQueue.getEmpty _ :=
      (bind_of_ok rfl).trans (bind_of_error herr)
    exact .inl ⟨hnil, _, hrun, hold', hkeep⟩
  · exact absurd rfl hne
  · refine .inr ⟨d, ds', w', hds, ?_, hhold, hkeep.trans hkeeps⟩
    have hrun : (Call.tryGet self data env).op w = .ok (.got w'.data.toList) w' :=
      (bind_of_ok rfl).trans (bind_of_ok hok)
    rw [hrun, hdata]

/-- A memory that serves callers: it holds a queue and nobody stopped it. -/
def Serving (w : Shm) : Prop := (∃ ds, Holds w ds) ∧ w.pMeta.status = .Q_NOMAL

/-- Every call leaves such a memory behind, and adds safe accesses only. -/
theorem serving_serve {w : Shm} (h : Serving w) (c : Call) :
    Serving (serve w c).2 ∧ (AllSafe w.accesses → AllSafe (serve w c).2.accesses) := by
  obtain ⟨⟨ds, hold⟩, hstat⟩ := h
  have hkept {w' : Shm} {ds' : List (List UInt8)} (hhold : Holds w' ds') (hkeep : Keeps w w') :
      Serving w' ∧ (AllSafe w.accesses → AllSafe w'.accesses) :=
    ⟨⟨⟨ds', hhold⟩, hkeep.status.trans hstat⟩, hkeep.accesses⟩
  cases c with
  | attach memSize => exact hkept hold (Keeps.refl w)
  | tryPut self p env =>
      rcases tryPut_op_cases hold hstat self p env with
        ⟨_, e, _, hrun⟩ | ⟨_, _, e, _, hrun⟩ | ⟨_, hrun⟩ | ⟨_, w', hrun, hhold, hkeep⟩
      · simp only [serve, hrun, finalState_error]; exact hkept hold (Keeps.refl w)
      · simp only [serve, hrun, finalState_error]; exact hkept hold (Keeps.refl w)
      · simp only [serve, hrun, finalState_error]; exact hkept hold (Keeps.refl w)
      · simp only [serve, hrun, finalState_ok]; exact hkept hhold hkeep
  | tryGet self data env =>
      rcases tryGet_op_cases hold hstat self data env with
        ⟨_, w', hrun, hhold, hkeep⟩ | ⟨d, ds', w', _, hrun, hhold, hkeep⟩
      · simp only [serve, hrun, finalState_error]; exact hkept hhold hkeep
      · simp only [serve, hrun, finalState_ok]; exact hkept hhold hkeep

/-- So does every run of calls. -/
theorem serving_after {w₀ : Shm} (h : Serving w₀) (calls : List Call) :
    Serving (after serve w₀ calls) ∧
      (AllSafe w₀.accesses → AllSafe (after serve w₀ calls).accesses) :=
  after_invariant (fun _ => True)
    (fun w => Serving w ∧ (AllSafe w₀.accesses → AllSafe w.accesses))
    (fun _ c _ hw => ⟨(serving_serve hw.1 c).1, (serving_serve hw.1 c).2 ∘ hw.2⟩)
    (fun _ _ => trivial) ⟨h, id⟩

/-- A call on the memory and the same call on the abstract queue it
represents are seen alike, and the results represent each other. -/
theorem serve_refines {cap : Nat} {w : Shm} {q : Fifo cap} {c : Call} (hc : c.NonEmpty)
    (h : Represents w q) :
    (serve w c).1 = (q.serve c).1 ∧ Represents (serve w c).2 (q.serve c).2 := by
  -- it is enough to compare the outcomes: the counters follow
  have hsame {w' : Shm} {q' : Fifo cap} {o : Outcome} (h' : Represents w' q') :
      (⟨o, w'.pMeta.elementCount.toNat, w'.pMeta.qLeftSize.toNat⟩ : Observation) =
        ⟨o, q'.items.length, q'.left⟩ := by
    rw [h'.counters.1, h'.counters.2]
  have hcap := h.cap_eq
  have hleft := h.counters.2
  cases c with
  | attach memSize => exact ⟨hsame h, h⟩
  | tryPut self p env =>
      rcases tryPut_op_cases h.holds h.status self p env with
        ⟨hbig, e, he, hrun⟩ | ⟨hfit, hfull, e, he, hrun⟩ | ⟨hnil, _⟩ |
          ⟨hroom, w', hrun, hhold, hkeep⟩
      · have hput : q.put p.bytes = (.tooBig, q) := BoundedFifo.put_tooBig (by omega)
        simp only [serve, Fifo.serve, hrun, finalState_error, he, hput]
        exact ⟨hsame h, h⟩
      · have hput : q.put p.bytes = (.full, q) := BoundedFifo.put_full (by omega) (by omega)
        simp only [serve, Fifo.serve, hrun, finalState_error, he, hput]
        exact ⟨hsame h, h⟩
      · exact absurd hnil hc
      · obtain ⟨hres, hitems⟩ : (q.put p.bytes).1 = .stored ∧
            (q.put p.bytes).2.items = q.items ++ [p.bytes] := BoundedFifo.put_stored (by omega)
        have hput : q.put p.bytes = (.stored, (q.put p.bytes).2) := Prod.ext hres rfl
        have h' : Represents w' (q.put p.bytes).2 :=
          ⟨hitems ▸ hhold, hkeep.status.trans h.status, by rw [hkeep.qTotalSize, hcap]⟩
        rw [Fifo.serve, hput]
        simp only [serve, hrun, finalState_ok]
        exact ⟨hsame h', h'⟩
  | tryGet self data env =>
      rcases tryGet_op_cases h.holds h.status self data env with
        ⟨hnil, w', hrun, hhold, hkeep⟩ | ⟨d, ds', w', hds, hrun, hhold, hkeep⟩
      · have hget : q.get = (none, q) := BoundedFifo.get_of_items_nil hnil
        have h' : Represents w' q :=
          ⟨hhold, hkeep.status.trans h.status, by rw [hkeep.qTotalSize, hcap]⟩
        simp only [serve, Fifo.serve, hrun, finalState_error, hget]
        exact ⟨hsame h', h'⟩
      · obtain ⟨hres, hitems⟩ := BoundedFifo.get_of_items_cons hds
        have hget : q.get = (some d, q.get.2) := Prod.ext hres rfl
        have h' : Represents w' q.get.2 :=
          ⟨hitems ▸ hhold, hkeep.status.trans h.status, by rw [hkeep.qTotalSize, hcap]⟩
        rw [Fifo.serve, hget]
        simp only [serve, hrun, finalState_ok]
        exact ⟨hsame h', h'⟩

/-! ## the queue is a bounded FIFO -/

/-- Seen from outside, a run of `TryPut` and `TryGet` on a created queue is a
run of the bounded FIFO of capacity `qTotalSize`: every call ends alike, and
`elementCount` and `qLeftSize` are the FIFO's after it. -/
theorem tryPut_tryGet_refines_fifo (w : Shm) (memSize : UInt64)
    (hlo : metaSize.toNat + headerSize.toNat < memSize.toNat) (hhi : memSize.toNat < 2 ^ 63)
    (calls : List Call) (hcalls : ∀ c ∈ calls, c.NonEmpty) :
    ∃ w₀, CircularQueue.construct true memSize w = .ok ⟨true⟩ w₀ ∧
      answers serve w₀ calls =
        answers Fifo.serve (BoundedFifo.empty : Fifo w₀.pMeta.qTotalSize.toNat) calls := by
  obtain ⟨w₀, hrun, hold, hstat, _⟩ := create_spec w hlo hhi
  have hrep : Represents w₀ (BoundedFifo.empty : Fifo w₀.pMeta.qTotalSize.toNat) :=
    ⟨hold, hstat, rfl⟩
  exact ⟨w₀, hrun, answers_eq_of_simulation (fun _ _ _ => serve_refines) hcalls hrep⟩

/-- Memory nobody has used yet. -/
def zeroedMemory : Shm where
  pMeta := ⟨[], [], 0, 0, 0, 0, 0, 0, 0, 0, [], .Q_NOMAL⟩
  pQueue := fun _ => 0
  data := ⟨0, fun _ => 0⟩

/-- An environment in which every reading is zero. -/
def zeroEnvironment : Environment := ⟨0, 0, 0, false, #v[0, 0, 0, 0], fun _ => 0⟩

/-- A payload of one byte. -/
def onePayload (b : UInt8) : Payload := ⟨[b], by simp⟩

/-- In a region of 27 bytes the second element does not fit before the first
is taken. -/
theorem tryPut_tryGet_refines_fifo_195 :
    ∃ w₀, CircularQueue.construct true 195 zeroedMemory = .ok ⟨true⟩ w₀ ∧
      answers serve w₀ [.tryPut ⟨true⟩ (onePayload 7) zeroEnvironment,
          .attach 195, .tryPut ⟨false⟩ (onePayload 8) zeroEnvironment,
          .tryGet ⟨false⟩ ⟨0, fun _ => 0⟩ zeroEnvironment] =
        answers Fifo.serve (BoundedFifo.empty : Fifo w₀.pMeta.qTotalSize.toNat)
          [.tryPut ⟨true⟩ (onePayload 7) zeroEnvironment,
          .attach 195, .tryPut ⟨false⟩ (onePayload 8) zeroEnvironment,
          .tryGet ⟨false⟩ ⟨0, fun _ => 0⟩ zeroEnvironment] :=
  tryPut_tryGet_refines_fifo zeroedMemory 195 (by decide) (by decide) _
    (by simp [Call.NonEmpty, onePayload])

/-! ## safety of the copies and subtractions -/

/-- No call made on this memory throws a `ValueError`, but the one for a
payload of size zero. -/
def ThrowsNoValueError (w : Shm) : Prop :=
  ∀ (c : Call) (e : BaseException) (w' : Shm), c.op w = .error e w' →
    e.className = .valueError → e = emptyBody ∧ ¬ c.NonEmpty

/-- In every state of a run the checks of routes and indices hold. -/
theorem throwsNoValueError_of_serving {w : Shm} (h : Serving w) : ThrowsNoValueError w := by
  intro c e w' hrun he
  obtain ⟨⟨ds, hold⟩, hstat⟩ := h
  cases c with
  | attach memSize => cases hrun
  | tryPut self p env =>
      rcases tryPut_op_cases hold hstat self p env with
        ⟨_, e', he', hr⟩ | ⟨_, _, e', he', hr⟩ | ⟨hnil, hr⟩ | ⟨_, w'', hr, _⟩
      · rw [hr] at hrun; cases hrun; rw [he'] at he; cases he
      · rw [hr] at hrun; cases hrun; rw [he'] at he; cases he
      · rw [hr] at hrun; cases hrun; exact ⟨rfl, fun hne => hne hnil⟩
      · rw [hr] at hrun; cases hrun
  | tryGet self data env =>
      rcases tryGet_op_cases hold hstat self data env with
        ⟨_, w'', hr, _⟩ | ⟨d, ds', w'', _, hr, _⟩
      · rw [hr] at hrun; cases hrun; cases he
      · rw [hr] at hrun; cases hrun

/-- In every state runs of `TryPut` and `TryGet` reach, all copies made so
far stayed inside their buffers, no subtraction wrapped, and no check of the
writer or the reader fails. -/
theorem tryPut_tryGet_safe (w : Shm) (memSize : UInt64)
    (hlo : metaSize.toNat + headerSize.toNat < memSize.toNat) (hhi : memSize.toNat < 2 ^ 63)
    (calls : List Call) :
    ∃ w₀, CircularQueue.construct true memSize { w with accesses := [] } = .ok ⟨true⟩ w₀ ∧
      AllSafe (after serve w₀ calls).accesses ∧ ThrowsNoValueError (after serve w₀ calls) := by
  obtain ⟨w₀, hrun, hold, hstat, _, hacc⟩ := create_spec { w with accesses := [] } hlo hhi
  obtain ⟨hserving, hsafe⟩ := serving_after ⟨⟨_, hold⟩, hstat⟩ calls
  exact ⟨w₀, hrun, hsafe (hacc ▸ allSafe_nil), throwsNoValueError_of_serving hserving⟩

/-- A put, a get and a put across the end of a region of 27 bytes. -/
theorem tryPut_tryGet_safe_195 :
    ∃ w₀, CircularQueue.construct true 195 { zeroedMemory with accesses := [] } =
        .ok ⟨true⟩ w₀ ∧
      AllSafe (after serve w₀ [.tryPut ⟨true⟩ (onePayload 7) zeroEnvironment,
        .tryGet ⟨true⟩ ⟨0, fun _ => 0⟩ zeroEnvironment,
        .tryPut ⟨true⟩ (onePayload 8) zeroEnvironment]).accesses ∧
      ThrowsNoValueError (after serve w₀ [.tryPut ⟨true⟩ (onePayload 7) zeroEnvironment,
        .tryGet ⟨true⟩ ⟨0, fun _ => 0⟩ zeroEnvironment,
        .tryPut ⟨true⟩ (onePayload 8) zeroEnvironment]) :=
  tryPut_tryGet_safe zeroedMemory 195 (by decide) (by decide) _

/-! ## the routes and the ring -/

/-- The reference writer: the bytes of the header and of the payload, one at
a time around the ring, and the head behind them. -/
def refWrite (w : Shm) (h : ElementHeader) (d : List UInt8) : Mem × Nat :=
  (store w.pMeta.qTotalSize.toNat w.pQueue w.pMeta.headIndex.toNat (h.toBytes ++ d),
    (w.pMeta.headIndex.toNat + headerSize.toNat + d.length) % w.pMeta.qTotalSize.toNat)

/-- The reference reader: the bytes of the header and of the body it
announces, one at a time around the ring, and the tail behind them. -/
def refRead (w : Shm) : List UInt8 × Nat :=
  let T := w.pMeta.qTotalSize.toNat
  let tail := w.pMeta.tailIndex.toNat
  let h := ElementHeader.ofBytes (load T w.pQueue tail headerSize.toNat)
  (load T w.pQueue (tail + headerSize.toNat) h.bodyLen.toNat,
    (tail + headerSize.toNat + h.bodyLen.toNat) % T)

/-- The writer, whatever its route, is the reference writer for every
payload that fits. -/
def WritesAsReference (w : Shm) : Prop :=
  ∀ (p : Payload) (env : Environment), p.bytes ≠ [] →
    headerSize.toNat + p.bytes.length ≤ w.pMeta.qLeftSize.toNat →
    ∃ cs w', queueWriteCase p.size w = .ok cs w ∧ write p.pData p.size env w = .ok () w' ∧
      (w'.pQueue, w'.pMeta.headIndex.toNat) = refWrite w (writeHeader cs p.size env) p.bytes

/-- The reader, whatever its route, is the reference reader for every string
it is given to fill. -/
def ReadsAsReference (w : Shm) : Prop :=
  w.pMeta.elementCount ≠ 0 → ∀ (data : Str) (env : Environment),
    ∃ w', read env { w with data := data } = .ok () w' ∧
      (w'.data.toList, w'.pMeta.tailIndex.toNat) = refRead w

/-- In every state of a run a write is that of the reference. -/
theorem writesAsReference_of_serving {w : Shm} (h : Serving w) : WritesAsReference w := by
  intro p env hne hleft
  obtain ⟨⟨ds, hold⟩, _⟩ := h
  have hadd := hold.left_add
  simp only [toNat_headerSize] at hleft
  have hcase := queueWriteCase_apply hold.bounds p.toNat_size (by omega)
    (List.length_pos_iff.mpr hne)
  obtain ⟨w', hrun, hwr⟩ := write_spec env (hold.roomFor hne hleft) p.toNat_size hleft
  refine ⟨_, w', hcase, hrun, Prod.ext hwr.pQueue ?_⟩
  show w'.pMeta.headIndex.toNat = _
  rw [hwr.headIndex, weight, ← Nat.add_assoc]
  rfl

/-- In every state of a run a read is that of the reference. -/
theorem readsAsReference_of_serving {w : Shm} (h : Serving w) : ReadsAsReference w := by
  intro hne data env
  obtain ⟨⟨ds, hold⟩, _⟩ := h
  have hds : ds ≠ [] := fun hnil => hne (hold.elementCount_eq_zero.mpr hnil).symm
  obtain ⟨d, ds', rfl⟩ := List.exists_cons_of_ne_nil hds
  obtain ⟨_, ⟨h, hlen, _, hload⟩, _⟩ := hold.layout
  have hold' : Holds { w with data := data } (d :: ds') := { hold with }
  obtain ⟨w', hrun, hrd⟩ := read_spec env hold'
  rw [weight, load_add] at hload
  obtain ⟨hhdr, hbody⟩ := List.append_inj hload (by simp)
  have href : refRead w =
      (d, (w.pMeta.tailIndex.toNat + weight d) % w.pMeta.qTotalSize.toNat) := by
    simp only [refRead, toNat_headerSize, hhdr, ElementHeader.ofBytes_toBytes, hlen, hbody,
      weight, Nat.add_assoc]
  exact ⟨w', hrun, by rw [href, hrd.data, hrd.tailIndex]⟩

/-- In every state runs of `TryPut` and `TryGet` reach, the routes of the
writer and of the reader agree with going byte by byte around the ring. -/
theorem write_read_eq_reference (w : Shm) (memSize : UInt64)
    (hlo : metaSize.toNat + headerSize.toNat < memSize.toNat) (hhi : memSize.toNat < 2 ^ 63)
    (calls : List Call) :
    ∃ w₀, CircularQueue.construct true memSize w = .ok ⟨true⟩ w₀ ∧
      WritesAsReference (after serve w₀ calls) ∧ ReadsAsReference (after serve w₀ calls) := by
  obtain ⟨w₀, hrun, hold, hstat, _, _⟩ := create_spec w hlo hhi
  obtain ⟨hserving, _⟩ := serving_after ⟨⟨_, hold⟩, hstat⟩ calls
  exact ⟨w₀, hrun, writesAsReference_of_serving hserving, readsAsReference_of_serving hserving⟩

/-- After a put and a get in a region of 27 bytes the next header is split
over its end. -/
theorem write_read_eq_reference_195 :
    ∃ w₀, CircularQueue.construct true 195 zeroedMemory = .ok ⟨true⟩ w₀ ∧
      WritesAsReference (after serve w₀ [.tryPut ⟨true⟩ (onePayload 7) zeroEnvironment,
        .tryGet ⟨true⟩ ⟨0, fun _ => 0⟩ zeroEnvironment]) ∧
      ReadsAsReference (after serve w₀ [.tryPut ⟨true⟩ (onePayload 7) zeroEnvironment,
        .tryGet ⟨true⟩ ⟨0, fun _ => 0⟩ zeroEnvironment]) :=
  write_read_eq_reference zeroedMemory 195 (by decide) (by decide) _

end CppFastDevelop
