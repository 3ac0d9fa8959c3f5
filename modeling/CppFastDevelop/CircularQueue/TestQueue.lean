import CppFastDevelop.CircularQueue.Linearizable
import CppFastDevelop.Lib.Client
import CppFastDevelop.Lib.Decimal
import Mathlib.Data.Fintype.Option
import Mathlib.Data.List.TakeWhile

/-!
# CppFastDevelop.CircularQueue.TestQueue

The programs `test_queue_put.cpp` and `test_queue_get.cpp`, one process of the
first and any number of the second, on one queue.  The producer puts its
serial number, printed with twenty digits, and counts on; a consumer prints
what it gets until it gets `close`.

The programs are clients of the atomic queue, so what they print does not
depend on how their calls interleave: between them the consumers get the
serial numbers in order, each once (`serials_handed_out_in_order`).
-/

namespace CppFastDevelop

open CString Exec Machine Monitor Atomic

/-! ## test_queue_put.cpp -/

/-- `Run`, between two turns of its loop. -/
structure TestQueuePut where
  serialno : UInt64
  running : Bool
  deriving DecidableEq, Repr

namespace TestQueuePut

/-- `data`, as `snprintf` leaves it. -/
def data (serialno : UInt64) : List UInt8 :=
  snprintf 1024 (padLeft 20 '0' (unsigned serialno.toNat))

/-- The string in `data`. -/
def text (serialno : UInt64) : List UInt8 := (cstr (data serialno)).getD []

theorem length_digits (serialno : UInt64) :
    (padLeft 20 '0' (unsigned serialno.toNat)).length = 20 := by
  have hlt : serialno.toNat < 10 ^ 20 := Nat.lt_trans serialno.toNat_lt (by decide)
  exact length_padLeft (length_unsigned_le hlt (by decide))

/-- The text of a serial number: twenty digits. -/
theorem text_eq (serialno : UInt64) :
    text serialno = padLeft 20 '0' (unsigned serialno.toNat) := by
  have hlen := length_digits serialno
  have hzero : 0 ∉ padLeft 20 '0' (unsigned serialno.toNat) :=
    fun h => absurd (isDigit_of_mem_zeros h) (by decide)
  rw [text, data, snprintf_of_lt (by omega), cstr_append hzero, Option.getD_some]

/-- Every text has twenty bytes. -/
theorem length_text (serialno : UInt64) : (text serialno).length = 20 := by
  rw [text_eq, length_digits]

theorem isDigit_of_mem_text {serialno : UInt64} {c : UInt8} (h : c ∈ text serialno) :
    isDigit c = true := isDigit_of_mem_zeros (text_eq serialno ▸ h)

/-- What `Put` is handed. -/
def payload (serialno : UInt64) : Payload := ⟨text serialno, by rw [length_text]; decide⟩

end TestQueuePut

/-- `0==strncmp(s.c_str(), t, s.size())`. -/
def startsWith (s : String) (t : List UInt8) : Bool := t.take (ofString s).length = ofString s

/-- A text of digits starts with no word. -/
theorem startsWith_text {s : String} (hs : ∃ c, (ofString s).head? = some c ∧ isDigit c = false)
    (serialno : UInt64) : startsWith s (TestQueuePut.text serialno) = false := by
  obtain ⟨c, hc, hdigit⟩ := hs
  rw [startsWith, decide_eq_false_iff_not]
  intro heq
  have htake : c ∈ (TestQueuePut.text serialno).take (ofString s).length := by
    rw [heq]
    exact List.mem_of_mem_head? hc
  rw [TestQueuePut.isDigit_of_mem_text (List.mem_of_mem_take htake)] at hdigit
  cases hdigit

/-! ## test_queue_get.cpp -/

/-- `Run`, between two turns of its loop; `printed` only watches. -/
structure TestQueueGet where
  printed : List (List UInt8)
  running : Bool
  deriving DecidableEq, Repr

namespace TestQueueGet

/-- A string that nothing has been put into. -/
def emptyData : Str := ⟨0, fun _ => 0⟩

/-- The turn, once `Get` has stored an element. -/
def print (g : TestQueueGet) (data : List UInt8) : TestQueueGet :=
  let text := data.takeWhile (· != 0)
  ⟨g.printed ++ [text], !startsWith "close" text⟩

end TestQueueGet

/-! ## the programs as clients -/

/-- A process of one of the programs. -/
inductive TestQueue
  | put (p : TestQueuePut)
  | get (g : TestQueueGet)
  deriving DecidableEq, Repr

namespace TestQueue

/-- The next call of the loop. -/
def Calls : TestQueue → Request → Prop
  | .put p, c => p.running = true ∧ startsWith "quit" (TestQueuePut.text p.serialno) = false ∧
    ∃ env, c = .put ⟨true⟩ (TestQueuePut.payload p.serialno) env
  | .get g, c => g.running = true ∧ ∃ env, c = .get ⟨false⟩ TestQueueGet.emptyData env

/-- The rest of the turn; an exception ends the program. -/
def next : TestQueue → Answer → TestQueue
  | .put p, .stored _ => .put { p with serialno := p.serialno + 1 }
  | .put p, _ => .put { p with running := false }
  | .get g, .got data => .get (g.print data)
  | .get g, _ => .get { g with running := false }

def client : Client TestQueue Request Answer := ⟨Calls, next⟩

/-- One producer, and the consumers `κ`, before their first turn. -/
def start {κ : Type} : Option κ → TestQueue
  | none => .put ⟨0, true⟩
  | some _ => .get ⟨[], true⟩

/-! ## what the processes have done -/

/-- The texts of the first serial numbers. -/
def serials (k : Nat) : List (List UInt8) :=
  (List.range k).map fun n => TestQueuePut.text (UInt64.ofNat n)

/-- The next serial number is put behind the others. -/
theorem serials_succ (k : Nat) :
    serials (k + 1) = serials k ++ [TestQueuePut.text (UInt64.ofNat k)] := by
  simp [serials, List.range_succ]

/-- A consumer prints all of a text, and goes on. -/
theorem print_text {g : TestQueueGet} {d : List UInt8} {k : Nat} (h : d ∈ serials k) :
    g.print d = ⟨g.printed ++ [d], true⟩ := by
  obtain ⟨n, -, rfl⟩ := List.mem_map.mp h
  have htext : (TestQueuePut.text (UInt64.ofNat n)).takeWhile (· != 0) =
      TestQueuePut.text (UInt64.ofNat n) := by
    refine List.takeWhile_eq_self_iff.mpr fun c hc => ?_
    have hdigit := TestQueuePut.isDigit_of_mem_text hc
    have hne : c ≠ 0 := fun hzero => absurd (hzero ▸ hdigit) (by decide)
    simpa using hne
  rw [TestQueueGet.print, htext, startsWith_text ⟨99, rfl, rfl⟩]
  rfl

/-- The producer has put `k` texts. -/
inductive HasPut : Nat → Atomic.Place Request Answer → TestQueue → Prop
  | idle (k : Nat) : HasPut k .idle (.put ⟨UInt64.ofNat k, true⟩)
  | called (k : Nat) (env : Environment) :
    HasPut k (.called (.put ⟨true⟩ (TestQueuePut.payload (UInt64.ofNat k)) env))
      (.put ⟨UInt64.ofNat k, true⟩)
  | answered (k : Nat) :
    HasPut (k + 1) (.answered (.stored (TestQueuePut.text (UInt64.ofNat k))))
      (.put ⟨UInt64.ofNat k, true⟩)

/-- A consumer has been handed the elements `ds`. -/
inductive HasGot : List (List UInt8) → Atomic.Place Request Answer → TestQueue → Prop
  | idle (ds : List (List UInt8)) : HasGot ds .idle (.get ⟨ds, true⟩)
  | called (ds : List (List UInt8)) (env : Environment) :
    HasGot ds (.called (.get ⟨false⟩ TestQueueGet.emptyData env)) (.get ⟨ds, true⟩)
  | answered (ds : List (List UInt8)) (d : List UInt8) :
    HasGot (ds ++ [d]) (.answered (.got d)) (.get ⟨ds, true⟩)

/-- Between its calls the producer knows its next serial number and no more. -/
theorem HasPut.eq_of_idle {k : Nat} {y : TestQueue} (h : HasPut k .idle y) :
    y = .put ⟨UInt64.ofNat k, true⟩ := by
  cases h
  rfl

/-- Between its calls a consumer has what it has got and no more. -/
theorem HasGot.eq_of_idle {ds : List (List UInt8)} {y : TestQueue} (h : HasGot ds .idle y) :
    y = .get ⟨ds, true⟩ := by
  cases h
  rfl

section Invariant

variable {κ : Type} [DecidableEq κ]

/-- What a consumer has been handed, of all that was handed out. -/
def handedTo (log : List (κ × List UInt8)) (j : κ) : List (List UInt8) :=
  (log.filter fun e => e.1 = j).map Prod.snd

/-- `k` texts have been put, and those that are not queued have been handed
out, in order. -/
structure HandedOut {cap : Nat} (log : List (κ × List UInt8)) (k : Nat)
    (a : Object (Option κ) (Fifo cap) Request Answer) (x : Option κ → TestQueue) : Prop where
  serials : log.map Prod.snd ++ a.value.items = serials k
  put : HasPut k (a.place none) (x none)
  got : ∀ j, HasGot (handedTo log j) (a.place (some j)) (x (some j))

variable {cap : Nat} {log : List (κ × List UInt8)} {k : Nat}
  {a : Object (Option κ) (Fifo cap) Request Answer} {x : Option κ → TestQueue}

/-- One text more is handed to one consumer. -/
theorem handedTo_append (log : List (κ × List UInt8)) (i : κ) (d : List UInt8) (j : κ) :
    handedTo (log ++ [(i, d)]) j = if i = j then handedTo log j ++ [d] else handedTo log j := by
  by_cases hij : i = j <;> simp [handedTo, List.filter_append, hij]

/-- Only the producer moves. -/
theorem HandedOut.move_none (h : HandedOut log k a x) {k' : Nat} {p : Atomic.Place Request Answer}
    {v : Fifo cap} {y : TestQueue} (hserials : log.map Prod.snd ++ v.items = TestQueue.serials k')
    (hput : HasPut k' p y) : HandedOut log k' (a.move none p v) (Function.update x none y) := by
  refine ⟨hserials, ?_, fun j => ?_⟩
  · simpa using hput
  · simpa using h.got j

/-- Only one consumer moves. -/
theorem HandedOut.move_some (h : HandedOut log k a x) {i : κ} {log' : List (κ × List UInt8)}
    {p : Atomic.Place Request Answer} {v : Fifo cap} {y : TestQueue}
    (hserials : log'.map Prod.snd ++ v.items = TestQueue.serials k)
    (hothers : ∀ j, j ≠ i → handedTo log' j = handedTo log j)
    (hgot : HasGot (handedTo log' i) p y) :
    HandedOut log' k (a.move (some i) p v) (Function.update x (some i) y) := by
  refine ⟨hserials, ?_, fun j => ?_⟩
  · simpa using h.put
  · by_cases hj : j = i
    · subst hj
      simpa using hgot
    · rw [hothers j hj, Object.move_place, Function.update_of_ne (by simpa using hj),
        Function.update_of_ne (by simpa using hj)]
      exact h.got j

/-- What a call of the producer answers: there is room for a text. -/
theorem eq_of_answers_put {q q' : Fifo cap} {p : Payload} {env : Environment} {o : Answer}
    (hne : p.bytes ≠ []) (hcap : weight p.bytes ≤ cap)
    (h : q.Answers (.put ⟨true⟩ p env) o q') :
    o = .stored p.bytes ∧ q'.items = q.items ++ [p.bytes] := by
  cases h with
  | stored _ hput => exact ⟨rfl, BoundedFifo.items_of_put_stored hput⟩
  | tooBig hput =>
      rw [BoundedFifo.put_tooBig_iff] at hput
      omega
  | nothing hnil => exact absurd hnil hne
  | putTimeout ht => exact absurd ht (by decide)
  | putWaitFailed ht => exact absurd ht (by decide)

/-- An untimed get of a queue that goes on is answered with the first element. -/
theorem eq_of_answers_get {q q' : Fifo cap} {env : Environment} {o : Answer}
    (h : q.Answers (.get ⟨false⟩ TestQueueGet.emptyData env) o q') :
    ∃ d, o = .got d ∧ q.items = d :: q'.items := by
  cases h with
  | got hget => exact ⟨_, rfl, BoundedFifo.items_of_get_some hget⟩
  | getTimeout ht => exact absurd ht (by decide)
  | getWaitFailed ht => exact absurd ht (by decide)

theorem keeps_handedOut (hcap : 44 ≤ cap) :
    client.Keeps Fifo.Answers fun (a : Object (Option κ) (Fifo cap) Request Answer) x =>
      ∃ log k, HandedOut log k a x where
  call {a x i c} h hi hcalls := by
    obtain ⟨log, k, h⟩ := h
    cases i with
    | none =>
        have hx := (hi ▸ h.put).eq_of_idle
        rw [hx] at hcalls
        obtain ⟨-, -, env, rfl⟩ := hcalls
        have hmove := h.move_none h.serials (.called k env)
        rw [← hx, Function.update_eq_self] at hmove
        exact ⟨log, k, hmove⟩
    | some j =>
        have hx := (hi ▸ h.got j).eq_of_idle
        rw [hx] at hcalls
        obtain ⟨-, env, rfl⟩ := hcalls
        have hmove := h.move_some (i := j) h.serials (fun _ _ => rfl) (.called _ env)
        rw [← hx, Function.update_eq_self] at hmove
        exact ⟨log, k, hmove⟩
  act {a x i c o v} h hi hv := by
    obtain ⟨log, k, h⟩ := h
    cases i with
    | none =>
        have hput := h.put
        rw [hi] at hput
        generalize hx : x none = y at hput
        cases hput with
        | called k env =>
            have hne : TestQueuePut.text (UInt64.ofNat k) ≠ [] :=
              List.ne_nil_of_length_pos (by rw [TestQueuePut.length_text]; decide)
            obtain ⟨rfl, hitems⟩ := eq_of_answers_put hne
              (by simpa [weight, TestQueuePut.payload, TestQueuePut.length_text] using hcap) hv
            have hserials : log.map Prod.snd ++ v.items = TestQueue.serials (k + 1) := by
              rw [hitems, ← List.append_assoc, h.serials, serials_succ]
              rfl
            have hmove := h.move_none hserials (.answered k)
            rw [← hx, Function.update_eq_self] at hmove
            exact ⟨log, k + 1, hmove⟩
    | some j =>
        have hgot := h.got j
        rw [hi] at hgot
        generalize hx : x (some j) = y at hgot
        generalize hds : handedTo log j = ds at hgot
        cases hgot with
        | called ds env =>
            obtain ⟨d, rfl, hitems⟩ := eq_of_answers_get hv
            have hserials : (log ++ [(j, d)]).map Prod.snd ++ v.items = TestQueue.serials k := by
              rw [← h.serials, hitems]
              simp
            have hothers (i : κ) (hne : i ≠ j) : handedTo (log ++ [(j, d)]) i = handedTo log i := by
              rw [handedTo_append, if_neg (Ne.symm hne)]
            have hgot : HasGot (handedTo (log ++ [(j, d)]) j) (.answered (.got d))
                (.get ⟨ds, true⟩) := by
              rw [handedTo_append, if_pos rfl, hds]
              exact .answered ds d
            have hmove := h.move_some hserials hothers hgot
            rw [← hx, Function.update_eq_self] at hmove
            exact ⟨_, k, hmove⟩
  ret {a x i o} h hi := by
    obtain ⟨log, k, h⟩ := h
    cases i with
    | none =>
        have hput := h.put
        rw [hi] at hput
        generalize hx : x none = y at hput
        cases hput with
        | answered k =>
            refine ⟨log, k + 1, h.move_none h.serials ?_⟩
            have hnext : UInt64.ofNat k + 1 = UInt64.ofNat (k + 1) := by simp
            simp only [client, next, hnext]
            exact .idle (k + 1)
    | some j =>
        have hgot := h.got j
        rw [hi] at hgot
        generalize hx : x (some j) = y at hgot
        generalize hds : handedTo log j = ds at hgot
        cases hgot with
        | answered ds d =>
            refine ⟨log, k, h.move_some (i := j) h.serials (fun _ _ => rfl) ?_⟩
            have hd : d ∈ TestQueue.serials k := by
              have hmem : d ∈ handedTo log j := by simp [hds]
              obtain ⟨e, he, rfl⟩ := List.mem_map.mp hmem
              rw [← h.serials]
              exact List.mem_append_left _ (List.mem_map_of_mem (List.mem_filter.mp he).1)
            simp only [client, next, print_text hd, hds]
            exact .idle _

/-- At the beginning nothing is handed out. -/
theorem handedOut_fresh :
    HandedOut [] 0 (.fresh .empty : Object (Option κ) (Fifo cap) Request Answer) start where
  serials := rfl
  put := .idle 0
  got _ := .idle []

/-- Where the processes are, seen from outside: the consumer may not have
printed yet what it has been handed last, and the producer may not have
counted what it has put last. -/
structure Progress (ds : List (List UInt8)) (log : List (κ × List UInt8)) (k : Nat)
    (x : Option κ → TestQueue) : Prop where
  serials : log.map Prod.snd ++ ds = serials k
  put : ∃ n, x none = .put ⟨UInt64.ofNat n, true⟩ ∧ n ≤ k ∧ k ≤ n + 1
  got : ∀ j, ∃ printed, x (some j) = .get ⟨printed, true⟩ ∧ printed <+: handedTo log j ∧
    (handedTo log j).length ≤ printed.length + 1

/-- What is handed out and what is queued are the serials put so far. -/
theorem HandedOut.progress (h : HandedOut log k a x) : Progress a.value.items log k x where
  serials := h.serials
  put := by
    have hput := h.put
    generalize a.place none = p at hput
    generalize x none = y at hput
    cases hput with
    | idle => exact ⟨k, rfl, Nat.le_refl _, Nat.le_succ _⟩
    | called _ env => exact ⟨k, rfl, Nat.le_refl _, Nat.le_succ _⟩
    | answered k => exact ⟨k, rfl, Nat.le_succ _, Nat.le_refl _⟩
  got j := by
    have hgot := h.got j
    generalize a.place (some j) = p at hgot
    generalize x (some j) = y at hgot
    generalize handedTo log j = ds at hgot
    cases hgot with
    | idle ds => exact ⟨ds, rfl, List.prefix_refl _, Nat.le_succ _⟩
    | called ds env => exact ⟨ds, rfl, List.prefix_refl _, Nat.le_succ _⟩
    | answered ds d => exact ⟨ds, rfl, List.prefix_append _ _, by simp⟩

variable [Fintype κ]

/-- **The consumers print the serial numbers.**  One producer and any number
of consumers run on a queue with room for a text.  However their calls
interleave: what has been handed out is the texts of the first serial numbers,
in order, and the queue holds those that follow; each consumer has printed
what it has been handed, and none of the processes has ended. -/
theorem serials_handed_out_in_order {w w₀ : Shm} {memSize : UInt64} (hlo : 212 ≤ memSize.toNat)
    (hhi : memSize.toNat < 2 ^ 63)
    (hcreate : CircularQueue.construct true memSize w = .ok ⟨true⟩ w₀)
    (as : List (Label (Option κ) Request (Int64 × Environment)))
    {s : State (Option κ) Shm Waiting Answer} {h : List (Event (Option κ) Request Answer)}
    (hrun : run (recorded (step program) (observe program)) (⟨w₀, fun _ => .idle⟩, []) as =
      some (s, h))
    (hobeys : client.Obeys start h) :
    ∃ ds log k, Holds s.mem ds ∧ Progress ds log k (client.after start h) := by
  obtain ⟨w₁, hrun₁, hold, hstat, htotal, -⟩ := create_spec w
    (by simp only [toNat_metaSize, toNat_headerSize]; omega) hhi
  rw [hrun₁] at hcreate
  cases hcreate
  have hempty : Represents w₀ (.empty : Fifo (memSize.toNat - 168)) := ⟨hold, hstat, htotal⟩
  obtain ⟨q, hlin, hrep⟩ := linearizable_of_monitor program_implements hempty hrun
  obtain ⟨a, rfl, log, k, hhanded⟩ := Client.invariant_of_linearizes
    (keeps_handedOut (by omega)) hlin hobeys ⟨[], 0, handedOut_fresh⟩
  exact ⟨a.value.items, log, k, hrep.holds, hhanded.progress⟩

end Invariant

/-- The queue created in 212 bytes: room for one text. -/
def textQueue : Shm := finalState (CircularQueue.construct true 212 zeroedMemory)

/-- The first text is put and got. -/
def firstText {κ : Type} (i : κ) : List (Label (Option κ) Request (Int64 × Environment)) :=
  [.enter (some i) (.get ⟨false⟩ TestQueueGet.emptyData zeroEnvironment),
    .enter none (.put ⟨true⟩ (TestQueuePut.payload 0) zeroEnvironment),
    .notify none (some (some i)), .resume (some i) (0, zeroEnvironment), .notify (some i) none]

theorem serials_handed_out_in_order_firstText :
    ∃ s h, run (recorded (step program) (observe program)) (⟨textQueue, fun _ => .idle⟩, [])
        (firstText (0 : Fin 2)) = some (s, h) ∧
      client.after start h (some 0) = .get ⟨[TestQueuePut.text 0], true⟩ ∧
      ∃ ds log k, Holds s.mem ds ∧ Progress ds log k (client.after start h) := by
  refine ⟨_, [.call (some 0) (.get ⟨false⟩ TestQueueGet.emptyData zeroEnvironment),
    .call none (.put ⟨true⟩ (TestQueuePut.payload 0) zeroEnvironment),
    .ret none (.stored (TestQueuePut.text 0)), .ret (some 0) (.got (TestQueuePut.text 0))],
    rfl, rfl, ?_⟩
  have hcreate : CircularQueue.construct true 212 zeroedMemory = .ok ⟨true⟩ textQueue := rfl
  exact serials_handed_out_in_order (by decide) (by decide) hcreate (firstText 0) rfl
    ⟨⟨rfl, _, rfl⟩, ⟨rfl, by decide, _, rfl⟩, trivial, trivial, trivial⟩

end TestQueue

end CppFastDevelop
