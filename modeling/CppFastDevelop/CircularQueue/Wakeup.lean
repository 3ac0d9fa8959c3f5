import CppFastDevelop.CircularQueue.Threads

/-!
# CppFastDevelop.CircularQueue.Wakeup

Producers looping on `Put` and consumers looping on `Get`.  They sleep on
one condition variable and every operation signals once, so a `Signal` may
reach a sleeper that cannot go on while another could: a consumer wakes a
second consumer, and the producers sleep on with room in the queue
(`stuck_reachable`).  As long as no `Signal` is wasted so, the system does
not get stuck (`not_stuck_of_rouses`).
-/

namespace CppFastDevelop

open Exec Machine Monitor

/-! ## producers and consumers -/

/-- What a thread loops on. -/
inductive Role
  | producer
  | consumer
  deriving DecidableEq, Repr

/-- A step of such loops: producers call `Put` with payloads that fit into
the region, consumers call `Get`, and nobody is woken but by a `Signal`. -/
def LoopsOn {ι E : Type} (role : ι → Role) (cap : Nat) : Label ι Request E → Prop
  | .enter i c => match role i with
    | .producer => ∃ self p env, c = .put self p env ∧ weight p.bytes ≤ cap
    | .consumer => ∃ self data env, c = .get self data env
  | .wake _ _ => False
  | _ => True

/-- A caller inside `Wait` could go on. -/
def CanProceed (w : Shm) : Waiting → Prop
  | .put _ f => f.elementSize ≤ w.pMeta.qLeftSize
  | .get _ _ => w.pMeta.elementCount ≠ 0

instance (w : Shm) (l : Waiting) : Decidable (CanProceed w l) :=
  match l with
  | .put _ f => inferInstanceAs (Decidable (f.elementSize ≤ w.pMeta.qLeftSize))
  | .get _ _ => inferInstanceAs (Decidable (w.pMeta.elementCount ≠ 0))

/-- A caller that goes on signals in its turn; a `Put` of nothing throws
instead. -/
def Waiting.Signals : Waiting → Bool → Prop
  | .put p _, _ => p.bytes ≠ []
  | .get _ _, _ => True

/-- Every caller is asleep, no `Signal` is still to be issued, and some
sleeper could go on. -/
def Stuck {ι : Type} (s : State ι Shm Waiting Answer) : Prop :=
  (∀ i, (s.pc i).isAsleep = true) ∧ ∃ i l, s.pc i = .asleep l ∧ CanProceed s.mem l

/-- Thread `i` sleeps and could go on. -/
def sleepsInVain {ι : Type} (s : State ι Shm Waiting Answer) (i : ι) : Bool :=
  match s.pc i with
  | .asleep l => decide (CanProceed s.mem l)
  | _ => false

/-- Being stuck can be decided thread by thread. -/
theorem stuck_iff {ι : Type} (s : State ι Shm Waiting Answer) :
    Stuck s ↔ (∀ i, (s.pc i).isAsleep = true) ∧ ∃ i, sleepsInVain s i = true := by
  refine and_congr_right fun _ => exists_congr fun i => ?_
  unfold sleepsInVain
  cases h : s.pc i with
  | asleep l => simp
  | idle => simp
  | woken l b => simp
  | notifying n o => simp

instance {ι : Type} [Fintype ι] (s : State ι Shm Waiting Answer) : Decidable (Stuck s) :=
  decidable_of_iff _ (stuck_iff s).symm

/-! ## turns of untimed calls -/

/-- The local variables of an untimed call. -/
def Waiting.Untimed : Waiting → Prop
  | .put p f => f.Carries p ∧ f.timed = false
  | .get _ f => f.timed = false

/-- `Put` and `Get`, as against the calls with a time-out. -/
def Request.Blocking : Request → Prop
  | .timedPut _ _ t _ _ => t < 0
  | .timedGet _ _ t _ _ => t < 0
  | _ => False

/-- A put can go on where its element fits. -/
theorem canProceed_put {w : Shm} {p : Payload} {f : PutWait} (hf : f.Carries p) :
    CanProceed w (.put p f) ↔ weight p.bytes ≤ w.pMeta.qLeftSize.toNat := by
  rw [CanProceed, hf.elementSize, UInt64.le_iff_toNat_le, CircularQueue.toNat_elementSize]

/-- A get can go on where there is an element. -/
theorem canProceed_get {w : Shm} {ds : List (List UInt8)} (hold : Holds w ds) (data : Str)
    (f : GetWait) : CanProceed w (.get data f) ↔ ds ≠ [] := by
  rw [CanProceed, ne_comm, ne_eq, hold.elementCount_eq_zero]

/-- The buffer of the caller lets nobody go on. -/
theorem canProceed_withData (w : Shm) (data : Str) (l : Waiting) :
    CanProceed { w with data := data } l ↔ CanProceed w l := by
  cases l <;> rfl

/-- A turn of an untimed put: sound, quiet unless it signals, and it signals
if there was room for a payload. -/
theorem PutEnds.untimed {w : Shm} {ds : List (List UInt8)} {p : Payload} {timed : Prop}
    {r : Shm × Turn Waiting Answer} (h : PutEnds w ds p timed r) (ht : ¬ timed)
    (hold : Holds w ds) (hstat : w.pMeta.status = .Q_NOMAL) :
    TurnSound Serving Waiting.Untimed r ∧ TurnQuiet CanProceed w r ∧
      (weight p.bytes ≤ w.pMeta.qLeftSize.toNat → p.bytes ≠ [] → r.2.notifies) := by
  cases h with
  | threw e _ hwhy =>
      refine ⟨⟨⟨⟨ds, hold⟩, hstat⟩, fun l hl => by cases hl⟩, fun l => Iff.rfl, ?_⟩
      intro hroom hne
      rcases hwhy with hnil | hfull | htimed
      · exact absurd hnil hne
      · omega
      · exact absurd htimed ht
  | waits f hf hleft htimed =>
      have hf' : f.timed = false := by
        cases hfalse : f.timed with
        | false => rfl
        | true => exact absurd (htimed hfalse) ht
      refine ⟨⟨⟨⟨ds, hold⟩, hstat⟩, ?_⟩, ⟨?_, fun l => Iff.rfl⟩, fun hroom => by omega⟩
      · intro l hl
        cases hl
        exact ⟨hf, hf'⟩
      · rw [canProceed_put hf]
        omega
  | stored w' hne hhold hkeep =>
      exact ⟨⟨⟨⟨_, hhold⟩, hkeep.status.trans hstat⟩, fun l hl => by cases hl⟩, trivial,
        fun _ _ => trivial⟩

/-- A turn of an untimed get: sound, quiet unless it signals, and it signals
if there was an element. -/
theorem GetEnds.untimed {w : Shm} {ds : List (List UInt8)} {data : Str} {timed : Prop}
    {r : Shm × Turn Waiting Answer} (h : GetEnds w ds data timed r) (ht : ¬ timed)
    (hold : Holds w ds) (hstat : w.pMeta.status = .Q_NOMAL) :
    TurnSound Serving Waiting.Untimed r ∧ TurnQuiet CanProceed w r ∧
      (ds ≠ [] → r.2.notifies) := by
  cases h with
  | threw e _ hwhy =>
      refine ⟨⟨⟨⟨ds, hold.withData data⟩, hstat⟩, fun l hl => by cases hl⟩,
        canProceed_withData w data, ?_⟩
      intro hne
      rcases hwhy with hnil | htimed
      · exact absurd hnil hne
      · exact absurd htimed ht
  | waits f hnil htimed =>
      have hf' : f.timed = false := by
        cases hfalse : f.timed with
        | false => rfl
        | true => exact absurd (htimed hfalse) ht
      refine ⟨⟨⟨⟨ds, hold.withData data⟩, hstat⟩, ?_⟩, ⟨?_, canProceed_withData w data⟩,
        fun hne => absurd hnil hne⟩
      · intro l hl
        cases hl
        exact hf'
      · rw [canProceed_withData, canProceed_get hold]
        exact not_not.mpr hnil
  | got d ds' w' hds hhold hkeep =>
      exact ⟨⟨⟨⟨_, hhold⟩, hkeep.status.trans hstat⟩, fun l hl => by cases hl⟩, trivial,
        fun _ => trivial⟩

/-- The rule of `Lib.Monitor` for entering a call. -/
theorem enter_blocking (c : Request) (w : Shm) (hc : c.Blocking) (h : Serving w) :
    TurnSound Serving Waiting.Untimed (program.enter c w) ∧
      TurnQuiet CanProceed w (program.enter c w) := by
  obtain ⟨⟨ds, hold⟩, hstat⟩ := h
  cases c with
  | timedPut self p t start env =>
      obtain ⟨hsound, hquiet, _⟩ :=
        (enter_timedPut hold hstat self p t start env).untimed (not_not.mpr hc) hold hstat
      exact ⟨hsound, hquiet⟩
  | timedGet self data t start env =>
      obtain ⟨hsound, hquiet, _⟩ :=
        (enter_timedGet hold hstat self data t start env).untimed (not_not.mpr hc) hold hstat
      exact ⟨hsound, hquiet⟩
  | stopPut self env => cases hc
  | stopPutAndGet self env => cases hc

/-- The rule of `Lib.Monitor` for resuming one. -/
theorem resume_untimed (l : Waiting) (b : Bool) (e : Int64 × Environment) (w : Shm)
    (hl : l.Untimed) (h : Serving w) :
    TurnSound Serving Waiting.Untimed (program.resume l b e w) ∧
      TurnQuiet CanProceed w (program.resume l b e w) ∧
      (CanProceed w l → l.Signals b → (program.resume l b e w).2.notifies) := by
  obtain ⟨⟨ds, hold⟩, hstat⟩ := h
  obtain ⟨now, env⟩ := e
  cases l with
  | put p f =>
      obtain ⟨hf, huntimed⟩ := hl
      obtain ⟨hsound, hquiet, hgo⟩ :=
        (resume_put hold hstat hf b now env).untimed (by rw [huntimed]; simp) hold hstat
      exact ⟨hsound, hquiet, fun hcan => hgo ((canProceed_put hf).mp hcan)⟩
  | get data f =>
      have huntimed : f.timed = false := hl
      obtain ⟨hsound, hquiet, hgo⟩ :=
        (resume_get hold hstat f data b now env).untimed (by rw [huntimed]; simp) hold hstat
      exact ⟨hsound, hquiet, fun hcan _ => hgo ((canProceed_get hold data f).mp hcan)⟩

/-! ## runs -/

/-- The callers before their first call. -/
def idleCallers {ι : Type} (w : Shm) : State ι Shm Waiting Answer := ⟨w, fun _ => .idle⟩

/-- What the loops call is a blocking put or get. -/
theorem LoopsOn.admits {ι E : Type} {role : ι → Role} {cap : Nat} {a : Label ι Request E}
    (h : LoopsOn role cap a) : a.Admits Request.Blocking := by
  cases a with
  | enter i c =>
      simp only [LoopsOn] at h
      split at h
      · obtain ⟨self, p, env, rfl, _⟩ := h
        show (-1 : Int32) < 0
        decide
      · obtain ⟨self, data, env, rfl⟩ := h
        show (-1 : Int32) < 0
        decide
  | resume i e => trivial
  | notify i target => trivial
  | wake i b => trivial

/-- If along a run on a created queue no `Signal` is wasted, the callers are
not stuck at its end. -/
theorem not_stuck_of_rouses {ι : Type} [DecidableEq ι] [Fintype ι] (role : ι → Role)
    {w w₀ : Shm} {memSize : UInt64} (hlo : metaSize.toNat + headerSize.toNat < memSize.toNat)
    (hhi : memSize.toNat < 2 ^ 63)
    (hcreate : CircularQueue.construct true memSize w = .ok ⟨true⟩ w₀)
    {as : List (Label ι Request (Int64 × Environment))} {s : State ι Shm Waiting Answer}
    (halong : Along (step program)
      (fun s a => LoopsOn role w₀.pMeta.qTotalSize.toNat a ∧
        Rouses CanProceed Waiting.Signals s a) (idleCallers w₀) as)
    (hrun : run (step program) (idleCallers w₀) as = some s) : ¬ Stuck s := by
  obtain ⟨w₁, hrun₁, hold, hstat, _⟩ := create_spec w hlo hhi
  rw [hrun₁] at hcreate
  cases hcreate
  have hsound : Sound Serving Waiting.Untimed (idleCallers w₀ : State ι Shm Waiting Answer) :=
    ⟨⟨⟨_, hold⟩, hstat⟩, fun i l hl => by cases hl⟩
  have hatt : Attended CanProceed Waiting.Signals
      (idleCallers w₀ : State ι Shm Waiting Answer) := by
    rintro ⟨i, l, hi, _⟩
    cases hi
  have halong' := halong.mono fun s a (h : _ ∧ _) => And.imp_left LoopsOn.admits h
  obtain ⟨_, hatt'⟩ := run_attended enter_blocking resume_untimed halong' hrun hsound hatt
  rintro ⟨hasleep, hable⟩
  rcases hatt' hable with ⟨k, n, o, _, hk⟩ | ⟨k, l, b, hk, _⟩
  · have := hasleep k
    rw [hk] at this
    cases this
  · have := hasleep k
    rw [hk] at this
    cases this

/-- One producer and two consumers. -/
def oneProducer : Fin 3 → Role
  | 0 => .producer
  | _ => .consumer

/-- A consumer goes to sleep and a producer puts an element. -/
def sleepThenPut : List (Label (Fin 3) Request (Int64 × Environment)) :=
  [.enter 1 (.get ⟨false⟩ ⟨0, fun _ => 0⟩ zeroEnvironment),
    .enter 0 (.put ⟨true⟩ (onePayload 7) zeroEnvironment)]

theorem along_sleepThenPut : Along (step program)
    (fun s a => LoopsOn oneProducer smallestQueue.pMeta.qTotalSize.toNat a ∧
      Rouses CanProceed Waiting.Signals s a)
    (idleCallers smallestQueue) sleepThenPut := by
  intro s₁ _
  refine ⟨⟨⟨_, _, _, rfl⟩, trivial⟩, ?_⟩
  intro s₂ _
  exact ⟨⟨⟨_, _, _, rfl, by decide⟩, trivial⟩, trivial⟩

/-- After these two steps the producer's `Signal` is still to be issued. -/
theorem not_stuck_sleepThenPut : ∃ s : State (Fin 3) Shm Waiting Answer,
    run (step program) (idleCallers smallestQueue) sleepThenPut = some s ∧ ¬ Stuck s :=
  ⟨_, rfl, not_stuck_of_rouses oneProducer (by decide) (by decide) construct_smallestQueue
    along_sleepThenPut rfl⟩

/-- Both consumers sleep; the element the producer puts wakes one of them;
the producer finds the region full and goes to sleep; the consumer takes the
element and wakes the other consumer, which finds nothing; all sleep. -/
def wrongSleeper : List (Label (Fin 3) Request (Int64 × Environment)) :=
  [.enter 1 (.get ⟨false⟩ ⟨0, fun _ => 0⟩ zeroEnvironment),
    .enter 2 (.get ⟨false⟩ ⟨0, fun _ => 0⟩ zeroEnvironment),
    .enter 0 (.put ⟨true⟩ (onePayload 7) zeroEnvironment),
    .notify 0 (some 1),
    .enter 0 (.put ⟨true⟩ (onePayload 8) zeroEnvironment),
    .resume 1 (0, zeroEnvironment),
    .notify 1 (some 2),
    .enter 1 (.get ⟨false⟩ ⟨0, fun _ => 0⟩ zeroEnvironment),
    .resume 2 (0, zeroEnvironment)]

/-- Some runs end with every caller asleep although a producer could go on. -/
theorem stuck_reachable :
    ¬ ∀ (n : Nat) (role : Fin n → Role) (w w₀ : Shm) (memSize : UInt64)
      (as : List (Label (Fin n) Request (Int64 × Environment)))
      (s : State (Fin n) Shm Waiting Answer),
      metaSize.toNat + headerSize.toNat < memSize.toNat → memSize.toNat < 2 ^ 63 →
      CircularQueue.construct true memSize w = .ok ⟨true⟩ w₀ →
      Along (step program) (fun _ a => LoopsOn role w₀.pMeta.qTotalSize.toNat a)
        (idleCallers w₀) as →
      run (step program) (idleCallers w₀) as = some s → ¬ Stuck s := by
  intro h
  have hend : ∃ s, run (step program) (idleCallers smallestQueue) wrongSleeper = some s ∧
      Stuck s := by
    have hcheck : (run (step program) (idleCallers smallestQueue) wrongSleeper).any
        (fun s => decide (Stuck s)) = true := by decide +kernel
    obtain ⟨s, hs, hstuck⟩ := (Option.any_eq_true _ _).mp hcheck
    exact ⟨s, hs, of_decide_eq_true hstuck⟩
  obtain ⟨s, hs, hstuck⟩ := hend
  have hloops : ∀ a ∈ wrongSleeper,
      LoopsOn oneProducer smallestQueue.pMeta.qTotalSize.toNat a := by
    simp only [wrongSleeper, List.forall_mem_cons]
    refine ⟨⟨_, _, _, rfl⟩, ⟨_, _, _, rfl⟩, ⟨_, _, _, rfl, by decide⟩, trivial,
      ⟨_, _, _, rfl, by decide⟩, trivial, trivial, ⟨_, _, _, rfl⟩, trivial, ?_⟩
    simp
  have halong := along_of_forall_mem (step program) hloops (idleCallers smallestQueue)
  exact h 3 oneProducer zeroedMemory smallestQueue 193 wrongSleeper s (by decide) (by decide)
    construct_smallestQueue halong hs hstuck

end CppFastDevelop
