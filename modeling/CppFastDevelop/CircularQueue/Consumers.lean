import CppFastDevelop.CircularQueue.Wakeup
import CppFastDevelop.Lib.SharedSignal
import Mathlib.Data.Fintype.Option

/-!
# CppFastDevelop.CircularQueue.Consumers

One producer that loops on `Put` with elements of one size, and consumers that
loop on `Get`.  They are the processes of `Lib.SharedSignal` with as much room
as the region has for such elements, so they never all sleep exactly if there
are no more consumers than elements fit (`never_allAsleep_iff`).
-/

namespace CppFastDevelop

open Exec Machine Monitor

variable {κ : Type}

/-! ## the loops -/

/-- The producer calls `Put` with an element of `size` bytes, and the
consumers call `Get`. -/
def PutsElements {E : Type} (size : Nat) : Label (Option κ) Request E → Prop
  | .enter none c => ∃ self p env, c = .put self p env ∧ p.bytes.length = size
  | .enter (some _) c => ∃ self data env, c = .get self data env
  | _ => True

/-- How a turn of the producer ends. -/
inductive PutTurn (w : Shm) (ds : List (List UInt8)) (p : Payload) :
    Shm × Turn Waiting Answer → Prop
  | waits (f : PutWait) (hf : f.Carries p) (htimed : f.timed = false)
      (hfull : w.pMeta.qLeftSize.toNat < weight p.bytes) : PutTurn w ds p (w, .wait (.put p f))
  | stored (w' : Shm) (hfit : weight p.bytes ≤ w.pMeta.qLeftSize.toNat)
      (hhold : Holds w' (ds ++ [p.bytes])) (hkeep : Keeps w w') :
      PutTurn w ds p (w', .done .one (.stored p.bytes))

/-- How a turn of a consumer ends. -/
inductive GetTurn (w : Shm) (ds : List (List UInt8)) : Shm × Turn Waiting Answer → Prop
  | waits (data : Str) (f : GetWait) (htimed : f.timed = false) (hnil : ds = []) :
      GetTurn w ds ({ w with data := data }, .wait (.get data f))
  | got (d : List UInt8) (ds' : List (List UInt8)) (w' : Shm) (hds : ds = d :: ds')
      (hhold : Holds w' ds') (hkeep : Keeps w w') : GetTurn w ds (w', .done .one (.got d))

section Turns

variable {w : Shm} {ds : List (List UInt8)} (hold : Holds w ds) (hstat : w.pMeta.status = .Q_NOMAL)

include hold hstat

/-- A put of an element that the region can hold is stored, or waits for room. -/
theorem enter_put (self : CircularQueue) {p : Payload} (env : Environment) (hne : p.bytes ≠ [])
    (hfits : weight p.bytes ≤ w.pMeta.qTotalSize.toNat) :
    PutTurn w ds p (program.enter (.put self p env) w) := by
  simp only [program, Request.put]
  rcases CircularQueue.timedPut_cases (p := p) hold hstat self (-1) 0 env with
    ⟨hbig, _⟩ | ⟨_, hfull, ⟨hzero, _⟩ | ⟨_, f, hf, hrun, huntimed⟩⟩ |
      ⟨hfit, ⟨hnil, _⟩ | ⟨_, w', hrun, hhold, hkeep⟩⟩
  · omega
  · exact absurd hzero (by decide)
  · rw [hrun]
    exact .waits f hf (huntimed (by decide)) hfull
  · exact absurd hnil hne
  · rw [hrun]
    exact .stored w' hfit hhold hkeep

/-- An untimed put that goes on is stored, or waits again. -/
theorem resume_put_untimed {p : Payload} {f : PutWait} (hf : f.Carries p) (htimed : f.timed = false)
    (hne : p.bytes ≠ []) (b : Bool) (e : Int64 × Environment) :
    PutTurn w ds p (program.resume (.put p f) b e w) := by
  simp only [program]
  rcases CircularQueue.timedPutWake_cases hold hstat b e.1 e.2 hf with
    ⟨htrue, _⟩ | ⟨hfull, f', hf', heq, hrun⟩ | ⟨hfit, ⟨hnil, _⟩ | ⟨_, w', hrun, hhold, hkeep⟩⟩
  · rw [htimed] at htrue
    cases htrue
  · rw [hrun]
    exact .waits f' hf' (heq.trans htimed) hfull
  · exact absurd hnil hne
  · rw [hrun]
    exact .stored w' hfit hhold hkeep

/-- A get ends with the first element, or waits for one. -/
theorem enter_get (self : CircularQueue) (data : Str) (env : Environment) :
    GetTurn w ds (program.enter (.get self data env) w) := by
  simp only [program, Request.get]
  rcases CircularQueue.timedGet_cases (hold.withData data) hstat self (-1) 0 env with
    ⟨hnil, ⟨hzero, _⟩ | ⟨_, f, hrun, huntimed⟩⟩ | ⟨_, w', hrun, ⟨d, ds', hds, hdata, hhold⟩, hkeep⟩
  · exact absurd hzero (by decide)
  · rw [hrun]
    exact .waits data f (huntimed (by decide)) hnil
  · rw [hrun, getTurn, hdata]
    exact .got d ds' w' hds hhold ⟨hkeep.qTotalSize, hkeep.status, hkeep.accesses⟩

/-- An untimed get that goes on is answered, or waits again. -/
theorem resume_get_untimed {f : GetWait} (htimed : f.timed = false) (data : Str) (b : Bool)
    (e : Int64 × Environment) : GetTurn w ds (program.resume (.get data f) b e w) := by
  simp only [program]
  rcases CircularQueue.timedGetWake_cases (hold.withData data) hstat b e.1 e.2 with
    ⟨htrue, _⟩ | ⟨hnil, f', heq, hrun⟩ | ⟨_, w', hrun, ⟨d, ds', hds, hdata, hhold⟩, hkeep⟩
  · rw [htimed] at htrue
    cases htrue
  · rw [hrun]
    exact .waits data f' (heq.trans htimed) hnil
  · rw [hrun, getTurn, hdata]
    exact .got d ds' w' hds hhold ⟨hkeep.qTotalSize, hkeep.status, hkeep.accesses⟩

end Turns

/-! ## the processes as those of `Lib.SharedSignal` -/

/-- Where a process is. -/
def modeOf : Pc Waiting Answer → SharedSignal.Mode
  | .idle => .idle
  | .asleep _ => .asleep
  | .woken _ _ => .woken
  | .notifying _ _ => .notifying

/-- What the producer may be about. -/
inductive ProducerAt (size : Nat) : Pc Waiting Answer → Prop
  | idle : ProducerAt size .idle
  | asleep {p : Payload} {f : PutWait} (hf : f.Carries p) (htimed : f.timed = false)
      (hsize : p.bytes.length = size) : ProducerAt size (.asleep (.put p f))
  | woken {p : Payload} {f : PutWait} (b : Bool) (hf : f.Carries p) (htimed : f.timed = false)
      (hsize : p.bytes.length = size) : ProducerAt size (.woken (.put p f) b)
  | notifying (o : Answer) : ProducerAt size (.notifying .one o)

/-- What a consumer may be about. -/
inductive ConsumerAt : Pc Waiting Answer → Prop
  | idle : ConsumerAt .idle
  | asleep {data : Str} {f : GetWait} (htimed : f.timed = false) :
      ConsumerAt (.asleep (.get data f))
  | woken {data : Str} {f : GetWait} (b : Bool) (htimed : f.timed = false) :
      ConsumerAt (.woken (.get data f) b)
  | notifying (o : Answer) : ConsumerAt (.notifying .one o)

/-- A wake-up does not change what a process is about. -/
theorem ProducerAt.wake {size : Nat} {l : Waiting} (h : ProducerAt size (.asleep l)) (b : Bool) :
    ProducerAt size (.woken l b) := by
  cases h with
  | asleep hf htimed hsize => exact .woken b hf htimed hsize

/-- A consumer stays at its get when it is woken. -/
theorem ConsumerAt.wake {l : Waiting} (h : ConsumerAt (.asleep l)) (b : Bool) :
    ConsumerAt (.woken l b) := by
  cases h with
  | asleep htimed => exact .woken b htimed

/-- The queue holds elements of `size` bytes. -/
structure HoldsElements (size cap : Nat) (w : Shm) : Prop where
  holds : ∃ ds, Holds w ds ∧ ∀ d ∈ ds, d.length = size
  status : w.pMeta.status = .Q_NOMAL
  cap_eq : w.pMeta.qTotalSize.toNat = cap

/-- And every process is about its own loop. -/
structure Looping (size cap : Nat) (s : State (Option κ) Shm Waiting Answer) : Prop where
  mem : HoldsElements size cap s.mem
  producer : ProducerAt size (s.pc none)
  consumers : ∀ j, ConsumerAt (s.pc (some j))

/-- The state, as `Lib.SharedSignal` sees it. -/
def overview (s : State (Option κ) Shm Waiting Answer) : SharedSignal.State κ :=
  ⟨modeOf (s.pc none), fun j => modeOf (s.pc (some j)), s.mem.pMeta.elementCount.toNat⟩

theorem overview_producer (s : State (Option κ) Shm Waiting Answer) :
    (overview s).producer = modeOf (s.pc none) := rfl

theorem overview_consumers (s : State (Option κ) Shm Waiting Answer) (j : κ) :
    (overview s).consumers j = modeOf (s.pc (some j)) := rfl

/-- Elements of one length weigh the same. -/
theorem totalWeight_of_length {ds : List (List UInt8)} {size : Nat}
    (h : ∀ d ∈ ds, d.length = size) : totalWeight ds = ds.length * (24 + size) := by
  induction ds with
  | nil => simp
  | cons d ds ih =>
      rw [totalWeight_cons, ih fun e he => h e (List.mem_cons_of_mem d he), weight,
        h d List.mem_cons_self, List.length_cons, Nat.succ_mul, Nat.add_comm]

/-- There is no room for one more exactly if as many elements are queued as
fit. -/
theorem left_lt_iff {w : Shm} {ds : List (List UInt8)} (hold : Holds w ds) {size cap : Nat}
    (hcap : w.pMeta.qTotalSize.toNat = cap) (hsize : ∀ d ∈ ds, d.length = size) :
    w.pMeta.qLeftSize.toNat < 24 + size ↔
      cap / (24 + size) ≤ w.pMeta.elementCount.toNat := by
  have hadd := hold.left_add
  rw [hcap, totalWeight_of_length hsize] at hadd
  rw [hold.count_eq, ← Nat.lt_succ_iff, Nat.div_lt_iff_lt_mul (by omega), Nat.succ_mul]
  omega

variable [DecidableEq κ] {s : State (Option κ) Shm Waiting Answer} {size cap : Nat}

/-- A step of the producer, in the overview. -/
theorem overview_update_none (m : Shm) (pc : Option κ → Pc Waiting Answer)
    (x : Pc Waiting Answer) : overview ⟨m, Function.update pc none x⟩ =
      ⟨modeOf x, fun j => modeOf (pc (some j)), m.pMeta.elementCount.toNat⟩ := by
  simp [overview]

theorem modes_update (pc : Option κ → Pc Waiting Answer) (j : κ) (x : Pc Waiting Answer) :
    (fun i => modeOf (Function.update pc (some j) x (some i))) =
      Function.update (fun i => modeOf (pc (some i))) j (modeOf x) := by
  funext i
  by_cases hij : i = j
  · subst hij
    simp
  · rw [Function.update_of_ne hij, Function.update_of_ne (by simpa using hij)]

/-- A step of a consumer, in the overview. -/
theorem overview_update_some (m : Shm) (pc : Option κ → Pc Waiting Answer) (j : κ)
    (x : Pc Waiting Answer) : overview ⟨m, Function.update pc (some j) x⟩ =
      ⟨modeOf (pc none), Function.update (fun i => modeOf (pc (some i))) j (modeOf x),
        m.pMeta.elementCount.toNat⟩ := by
  simp only [overview, modes_update, Function.update_of_ne (Option.some_ne_none j).symm]

/-- The queue goes on to hold elements of one length. -/
theorem HoldsElements.keep {w w' : Shm} (h : HoldsElements size cap w) {ds : List (List UInt8)}
    (hhold : Holds w' ds) (hlen : ∀ d ∈ ds, d.length = size) (hkeep : Keeps w w') :
    HoldsElements size cap w' :=
  ⟨⟨ds, hhold, hlen⟩, hkeep.status.trans h.status, by rw [hkeep.qTotalSize, h.cap_eq]⟩

/-- The producer moves. -/
theorem Looping.update_none (h : Looping size cap s) {m : Shm} {x : Pc Waiting Answer}
    (hm : HoldsElements size cap m) (hx : ProducerAt size x) :
    Looping size cap ⟨m, Function.update s.pc none x⟩ where
  mem := hm
  producer := by simpa using hx
  consumers j := by simpa using h.consumers j

/-- A consumer moves. -/
theorem Looping.update_some (h : Looping size cap s) {m : Shm} {j : κ} {x : Pc Waiting Answer}
    (hm : HoldsElements size cap m) (hx : ConsumerAt x) :
    Looping size cap ⟨m, Function.update s.pc (some j) x⟩ where
  mem := hm
  producer := by simpa using h.producer
  consumers i := by
    by_cases hij : i = j
    · subst hij
      simpa using hx
    · simpa [Function.update_of_ne, hij] using h.consumers i

/-! ## what a turn does -/

section Turns

variable (h : Looping size cap s)

include h

/-- The producer goes to sleep on a full region, or else puts an element. -/
theorem Looping.putTurn {p : Payload} {r : Shm × Turn Waiting Answer}
    (hsize : p.bytes.length = size) (hr : ∀ ds, Holds s.mem ds → PutTurn s.mem ds p r) :
    Looping size cap (s.take none r) ∧
      (cap / (24 + size) ≤ (overview s).items ∧
          overview (s.take none r) = { overview s with producer := .asleep } ∨
        (overview s).items < cap / (24 + size) ∧ overview (s.take none r) =
          { overview s with producer := .notifying, items := (overview s).items + 1 }) := by
  obtain ⟨ds, hold, hlen⟩ := h.mem.holds
  have hroom := left_lt_iff hold h.mem.cap_eq hlen
  have hweight : weight p.bytes = 24 + size := by rw [weight, hsize]
  cases hr ds hold with
  | waits f hf htimed hfull =>
      rw [hweight, hroom] at hfull
      exact ⟨h.update_none h.mem (.asleep hf htimed hsize),
        .inl ⟨hfull, overview_update_none _ _ _⟩⟩
  | stored w' hfit hhold hkeep =>
      rw [hweight, ← Nat.not_lt, hroom, Nat.not_le] at hfit
      have hlen' : ∀ d ∈ ds ++ [p.bytes], d.length = size := by
        intro d hd
        rcases List.mem_append.mp hd with hd | hd
        · exact hlen d hd
        · rw [List.mem_singleton.mp hd, hsize]
      refine ⟨h.update_none (h.mem.keep hhold hlen' hkeep) (.notifying _), .inr ⟨hfit, ?_⟩⟩
      have hcount : w'.pMeta.elementCount.toNat = (overview s).items + 1 := by
        rw [hhold.count_eq, overview, hold.count_eq, List.length_append, List.length_singleton]
      exact (overview_update_none _ _ _).trans (by rw [hcount]; rfl)

/-- A consumer goes to sleep on an empty region, or else takes an element. -/
theorem Looping.getTurn {j : κ} {r : Shm × Turn Waiting Answer}
    (hr : ∀ ds, Holds s.mem ds → GetTurn s.mem ds r) :
    Looping size cap (s.take (some j) r) ∧
      ((overview s).items = 0 ∧ overview (s.take (some j) r) =
          { overview s with consumers := Function.update (overview s).consumers j .asleep } ∨
        0 < (overview s).items ∧ overview (s.take (some j) r) =
          { overview s with
            consumers := Function.update (overview s).consumers j .notifying
            items := (overview s).items - 1 }) := by
  obtain ⟨ds, hold, hlen⟩ := h.mem.holds
  have hitems : (overview s).items = ds.length := hold.count_eq
  cases hr ds hold with
  | waits data f htimed hnil =>
      subst hnil
      have hm : HoldsElements size cap { s.mem with data := data } :=
        h.mem.keep (hold.withData data) hlen ⟨rfl, rfl, id⟩
      exact ⟨h.update_some hm (.asleep htimed), .inl ⟨hitems, overview_update_some _ _ _ _⟩⟩
  | got d ds' w' hds hhold hkeep =>
      subst hds
      have hlen' : ∀ e ∈ ds', e.length = size := fun e he => hlen e (List.mem_cons_of_mem d he)
      rw [List.length_cons] at hitems
      refine ⟨h.update_some (h.mem.keep hhold hlen' hkeep) (.notifying _), .inr ⟨by omega, ?_⟩⟩
      have hcount : w'.pMeta.elementCount.toNat = (overview s).items - 1 := by
        rw [hhold.count_eq, hitems, Nat.add_sub_cancel]
      exact (overview_update_some _ _ _ _).trans (by rw [hcount]; rfl)

end Turns

/-! ## what a step does -/

open SharedSignal (Move)

section Steps

variable (hsize : 0 < size) (hfits : 24 + size ≤ cap) (h : Looping size cap s)

include hsize hfits h

omit [DecidableEq κ] in
/-- What the producer's next put does. -/
theorem Looping.enter_put {self : CircularQueue} {p : Payload} {env : Environment}
    (hlen : p.bytes.length = size) (ds : List (List UInt8)) (hold : Holds s.mem ds) :
    PutTurn s.mem ds p (program.enter (.put self p env) s.mem) := by
  have hne : p.bytes ≠ [] := List.ne_nil_of_length_pos (by omega)
  refine CppFastDevelop.enter_put hold h.mem.status self env hne ?_
  rw [weight, h.mem.cap_eq, hlen]
  exact hfits

omit [DecidableEq κ] hfits in
/-- What the producer's put does when it goes on. -/
theorem Looping.resume_put {p : Payload} {f : PutWait} (hf : f.Carries p) (htimed : f.timed = false)
    (hlen : p.bytes.length = size) (b : Bool) (e : Int64 × Environment) (ds : List (List UInt8))
    (hold : Holds s.mem ds) : PutTurn s.mem ds p (program.resume (.put p f) b e s.mem) := by
  have hne : p.bytes ≠ [] := List.ne_nil_of_length_pos (by omega)
  exact resume_put_untimed hold h.mem.status hf htimed hne b e

omit hsize hfits in
/-- A turn of the producer is a move. -/
theorem Looping.put_move {p : Payload} {r : Shm × Turn Waiting Answer}
    (hready : (overview s).producer.Ready) (hlen : p.bytes.length = size)
    (hr : ∀ ds, Holds s.mem ds → PutTurn s.mem ds p r) : Looping size cap (s.take none r) ∧
      Move (cap / (24 + size)) (overview s) (overview (s.take none r)) := by
  obtain ⟨hloop, ⟨hfull, heq⟩ | ⟨hroom, heq⟩⟩ := h.putTurn hlen hr
  · exact ⟨hloop, heq ▸ .block hready hfull⟩
  · exact ⟨hloop, heq ▸ .put hready hroom⟩

omit hsize hfits in
/-- A turn of a consumer is a move. -/
theorem Looping.get_move {j : κ} {r : Shm × Turn Waiting Answer}
    (hready : ((overview s).consumers j).Ready)
    (hr : ∀ ds, Holds s.mem ds → GetTurn s.mem ds r) : Looping size cap (s.take (some j) r) ∧
      Move (cap / (24 + size)) (overview s) (overview (s.take (some j) r)) := by
  obtain ⟨hloop, ⟨hnil, heq⟩ | ⟨hpos, heq⟩⟩ := h.getTurn hr
  · exact ⟨hloop, heq ▸ .wait hready hnil⟩
  · exact ⟨hloop, heq ▸ .take hready hpos⟩

/-- Entering a call is a move of the overview. -/
theorem Looping.enter {i : Option κ} {c : Request}
    (hl : PutsElements (E := Int64 × Environment) size (.enter i c)) (hi : s.pc i = .idle) :
    Looping size cap (s.take i (program.enter c s.mem)) ∧
      Move (cap / (24 + size)) (overview s) (overview (s.take i (program.enter c s.mem))) := by
  cases i with
  | none =>
      obtain ⟨self, p, env, rfl, hlen⟩ := hl
      have hready : (overview s).producer = .idle := by rw [overview_producer, hi]; rfl
      exact h.put_move (.inl hready) hlen (h.enter_put hsize hfits hlen)
  | some j =>
      obtain ⟨self, data, env, rfl⟩ := hl
      have hready : (overview s).consumers j = .idle := by rw [overview_consumers, hi]; rfl
      exact h.get_move (.inl hready) fun ds hold => enter_get hold h.mem.status self data env

omit hfits in
/-- Going on with a call is a move of the overview. -/
theorem Looping.resume {i : Option κ} {l : Waiting} {b : Bool} (hi : s.pc i = .woken l b)
    (e : Int64 × Environment) : Looping size cap (s.take i (program.resume l b e s.mem)) ∧
      Move (cap / (24 + size)) (overview s) (overview (s.take i (program.resume l b e s.mem))) := by
  cases i with
  | none =>
      have hready : (overview s).producer = .woken := by rw [overview_producer, hi]; rfl
      have hat := h.producer
      rw [hi] at hat
      cases hat with
      | woken b hf htimed hlen =>
          exact h.put_move (.inr hready) hlen (h.resume_put hsize hf htimed hlen b e)
  | some j =>
      have hready : (overview s).consumers j = .woken := by rw [overview_consumers, hi]; rfl
      have hat := h.consumers j
      rw [hi] at hat
      cases hat with
      | woken b htimed =>
          exact h.get_move (.inr hready) fun ds hold =>
            resume_get_untimed hold h.mem.status htimed _ b e

omit hsize hfits in
/-- A wake-up, by a signal or for no reason. -/
theorem Looping.wake {i : Option κ} {l : Waiting} (hi : s.pc i = .asleep l) (b : Bool) :
    Looping size cap ⟨s.mem, Function.update s.pc i (.woken l b)⟩ := by
  cases i with
  | none => exact h.update_none h.mem ((hi ▸ h.producer).wake b)
  | some j => exact h.update_some h.mem ((hi ▸ h.consumers j).wake b)

omit hsize hfits in
/-- A process that has signalled. -/
theorem Looping.idle (i : Option κ) :
    Looping size cap ⟨s.mem, Function.update s.pc i .idle⟩ := by
  cases i with
  | none => exact h.update_none h.mem .idle
  | some j => exact h.update_some h.mem .idle

omit [DecidableEq κ] hsize hfits in
/-- What a process that has still to signal may have before it. -/
theorem Looping.notifying {i : Option κ} {n : Notify} {o : Answer} (hi : s.pc i = .notifying n o) :
    n = .one := by
  cases i with
  | none =>
      have hat := h.producer
      rw [hi] at hat
      cases hat
      rfl
  | some j =>
      have hat := h.consumers j
      rw [hi] at hat
      cases hat
      rfl

end Steps

/-! ### signals -/

section Signals

variable {l : Waiting} {b : Bool}

/-- The producer's signal wakes one consumer. -/
theorem overview_signal {j : κ} : overview ⟨s.mem,
      Function.update (Function.update s.pc (some j) (.woken l b)) none .idle⟩ =
    { overview s with
      producer := .idle
      consumers := Function.update (overview s).consumers j .woken } := by
  rw [overview_update_none, modes_update]
  rfl

/-- A consumer's signal may wake the producer. -/
theorem overview_signalProducer {i : κ} : overview ⟨s.mem,
      Function.update (Function.update s.pc none (.woken l b)) (some i) .idle⟩ =
    { overview s with
      producer := .woken
      consumers := Function.update (overview s).consumers i .idle } := by
  rw [overview_update_some]
  simp [overview, modeOf]

/-- A consumer's signal may wake another consumer. -/
theorem overview_signalConsumer {i j : κ} : overview ⟨s.mem,
      Function.update (Function.update s.pc (some j) (.woken l b)) (some i) .idle⟩ =
    { overview s with
      consumers := Function.update (Function.update (overview s).consumers j .woken) i .idle } := by
  rw [overview_update_some, modes_update, Function.update_of_ne (Option.some_ne_none j).symm]
  rfl

theorem modeOf_ne_asleep {x : Pc Waiting Answer} : modeOf x ≠ .asleep ↔ x.isAsleep = false := by
  cases x <;> simp [modeOf, Pc.isAsleep]

variable {room : Nat}

/-- A signal is a move, whether it reaches a sleeper. -/
theorem move_notify {i t : Option κ} {o : Answer} (hi : s.pc i = .notifying .one o)
    (ht : s.pc t = .asleep l) : Move room (overview s)
      (overview ⟨s.mem, Function.update (Function.update s.pc t (.woken l b)) i .idle⟩) := by
  cases i with
  | none =>
      have hp : (overview s).producer = .notifying := by rw [overview_producer, hi]; rfl
      cases t with
      | none =>
          rw [hi] at ht
          cases ht
      | some j =>
          rw [overview_signal]
          exact .signal hp (by rw [overview_consumers, ht]; rfl)
  | some i =>
      have hi' : (overview s).consumers i = .notifying := by rw [overview_consumers, hi]; rfl
      cases t with
      | none =>
          rw [overview_signalProducer]
          exact .signalProducer hi' (by rw [overview_producer, ht]; rfl)
      | some j =>
          rw [overview_signalConsumer]
          exact .signalConsumer hi' (by rw [overview_consumers, ht]; rfl)

/-- A signal that finds nobody asleep is a move of the overview. -/
theorem move_notifyNone {i : Option κ} {o : Answer} (hi : s.pc i = .notifying .one o)
    (hnone : ∀ t, (s.pc t).isAsleep = false) :
    Move room (overview s) (overview ⟨s.mem, Function.update s.pc i .idle⟩) := by
  have hcons (j : κ) : (overview s).consumers j ≠ .asleep := modeOf_ne_asleep.mpr (hnone (some j))
  cases i with
  | none =>
      rw [overview_update_none]
      exact .signalNobody (by rw [overview_producer, hi]; rfl) hcons
  | some i =>
      rw [overview_update_some]
      exact .signalNone (by rw [overview_consumers, hi]; rfl) (modeOf_ne_asleep.mpr (hnone none))
        hcons

variable [Fintype κ]

/-- Every step of such processes is a move. -/
theorem Looping.step (hsize : 0 < size) (hfits : 24 + size ≤ cap) (h : Looping size cap s)
    {s' : State (Option κ) Shm Waiting Answer} {a : Label (Option κ) Request (Int64 × Environment)}
    (ha : PutsElements size a) (hstep : Monitor.step program s a = some s') :
    Looping size cap s' ∧ Move (cap / (24 + size)) (overview s) (overview s') := by
  rcases step_cases hstep with ⟨i, c, rfl, hi, rfl⟩ | ⟨i, e, l, b, rfl, hi, rfl⟩ |
    ⟨i, o, t, l, rfl, hi, ht, rfl⟩ | ⟨i, o, rfl, hi, hnone, rfl⟩ | ⟨i, o, rfl, hi, rfl⟩ |
    ⟨i, l, b, rfl, hi, rfl⟩
  · exact h.enter hsize hfits ha hi
  · exact h.resume hsize hi e
  · exact ⟨(h.wake ht true).idle i, move_notify hi ht⟩
  · exact ⟨h.idle i, move_notifyNone hi hnone⟩
  · cases h.notifying hi
  · refine ⟨h.wake hi b, ?_⟩
    cases i with
    | none =>
        rw [overview_update_none]
        exact .wakeProducer (by rw [overview_producer, hi]; rfl)
    | some j =>
        rw [overview_update_some]
        exact .wakeConsumer (by rw [overview_consumers, hi]; rfl)

/-! ### every move is a step -/

section Modes

variable {x : Pc Waiting Answer}

theorem eq_idle_of_modeOf (h : modeOf x = .idle) : x = .idle := by
  cases x <;> first | rfl | cases h

theorem eq_asleep_of_modeOf (h : modeOf x = .asleep) : ∃ l, x = .asleep l := by
  cases x <;> first | exact ⟨_, rfl⟩ | cases h

theorem eq_woken_of_modeOf (h : modeOf x = .woken) : ∃ l b, x = .woken l b := by
  cases x <;> first | exact ⟨_, _, rfl⟩ | cases h

theorem eq_notifying_of_modeOf (h : modeOf x = .notifying) : ∃ n o, x = .notifying n o := by
  cases x <;> first | exact ⟨_, _, rfl⟩ | cases h

end Modes

/-- The element the producer puts. -/
def element {size : Nat} (h : 24 + size < 2 ^ 64) : Payload :=
  ⟨List.replicate size 0, by rw [List.length_replicate]; omega⟩

/-- A producer that may look at the queue has a step in which it does. -/
theorem Looping.exists_putTurn (h : Looping size cap s) (hsize : 0 < size)
    (hfits : 24 + size ≤ cap) (hcap : cap < 2 ^ 63) (hready : (overview s).producer.Ready) :
    ∃ a p r, PutsElements (E := Int64 × Environment) size a ∧ p.bytes.length = size ∧
      (∀ ds, Holds s.mem ds → PutTurn s.mem ds p r) ∧
      Monitor.step program s a = some (s.take none r) := by
  rcases hready with hidle | hwoken
  · have hpc := eq_idle_of_modeOf hidle
    let p : Payload := element (show 24 + size < 2 ^ 64 by omega)
    have hlen : p.bytes.length = size := List.length_replicate
    have hstep : Monitor.step program s (.enter none (.put ⟨true⟩ p zeroEnvironment)) =
        some (s.take none (program.enter (.put ⟨true⟩ p zeroEnvironment) s.mem)) := by
      simp only [Monitor.step, hpc]
    exact ⟨.enter none _, p, _, ⟨_, p, _, rfl, hlen⟩, hlen, h.enter_put hsize hfits hlen, hstep⟩
  · obtain ⟨l, b, hpc⟩ := eq_woken_of_modeOf hwoken
    have hat := h.producer
    rw [hpc] at hat
    cases hat with
    | @woken p f _ hf htimed hlen =>
        have hstep : Monitor.step program s (.resume none (0, zeroEnvironment)) =
            some (s.take none (program.resume (.put p f) b (0, zeroEnvironment) s.mem)) := by
          simp only [Monitor.step, hpc]
        exact ⟨.resume none _, p, _, trivial, hlen, h.resume_put hsize hf htimed hlen b _, hstep⟩

/-- A consumer that is ready can make its next turn. -/
theorem Looping.exists_getTurn (h : Looping size cap s) {j : κ}
    (hready : ((overview s).consumers j).Ready) :
    ∃ a r, PutsElements (E := Int64 × Environment) size a ∧
      (∀ ds, Holds s.mem ds → GetTurn s.mem ds r) ∧
      Monitor.step program s a = some (s.take (some j) r) := by
  rcases hready with hidle | hwoken
  · have hpc := eq_idle_of_modeOf hidle
    let c : Request := .get ⟨false⟩ ⟨0, fun _ => 0⟩ zeroEnvironment
    have hstep : Monitor.step program s (.enter (some j) c) =
        some (s.take (some j) (program.enter c s.mem)) := by
      simp only [Monitor.step, hpc]
    exact ⟨.enter (some j) c, _, ⟨_, _, _, rfl⟩,
      fun ds hold => enter_get hold h.mem.status _ _ _, hstep⟩
  · obtain ⟨l, b, hpc⟩ := eq_woken_of_modeOf hwoken
    have hat := h.consumers j
    rw [hpc] at hat
    cases hat with
    | @woken data f _ htimed =>
        have hstep : Monitor.step program s (.resume (some j) (0, zeroEnvironment)) =
            some (s.take (some j) (program.resume (.get data f) b (0, zeroEnvironment) s.mem)) := by
          simp only [Monitor.step, hpc]
        exact ⟨.resume (some j) _, _, trivial, fun ds hold =>
          resume_get_untimed hold h.mem.status htimed data b _, hstep⟩

omit [DecidableEq κ] [Fintype κ] in
/-- A process that still has to signal. -/
theorem Looping.pc_notifying (h : Looping size cap s) {i : Option κ}
    (hi : modeOf (s.pc i) = .notifying) : ∃ o, s.pc i = .notifying .one o := by
  obtain ⟨n, o, hpc⟩ := eq_notifying_of_modeOf hi
  exact ⟨o, h.notifying hpc ▸ hpc⟩

/-- A signal wakes the thread it reaches. -/
theorem step_notify {i t : Option κ} {o : Answer} (hi : s.pc i = .notifying .one o)
    (ht : s.pc t = .asleep l) : Monitor.step program s (.notify i (some t)) =
      some ⟨s.mem, Function.update (Function.update s.pc t (.woken l true)) i .idle⟩ := by
  simp only [Monitor.step, hi, State.notifyOne, ht]

/-- Where nobody sleeps, a signal is lost. -/
theorem step_notifyNone {i : Option κ} {o : Answer} (hi : s.pc i = .notifying .one o)
    (hnone : ∀ t, (s.pc t).isAsleep = false) : Monitor.step program s (.notify i none) =
      some ⟨s.mem, Function.update s.pc i .idle⟩ := by
  simp only [Monitor.step, hi, State.notifyOne, if_pos hnone]

/-- A sleeper may wake without a signal, or by its time. -/
theorem step_wake {i : Option κ} (hi : s.pc i = .asleep l) (b : Bool) :
    Monitor.step program s (.wake i b) = some ⟨s.mem, Function.update s.pc i (.woken l b)⟩ := by
  simp only [Monitor.step, hi]

/-- Every move is one that the processes may make. -/
theorem Looping.exists_step (h : Looping size cap s) (hsize : 0 < size) (hfits : 24 + size ≤ cap)
    (hcap : cap < 2 ^ 63) {t : SharedSignal.State κ}
    (hmove : Move (cap / (24 + size)) (overview s) t) :
    ∃ a s', PutsElements (E := Int64 × Environment) size a ∧
      Monitor.step program s a = some s' ∧ overview s' = t := by
  have hnobody (hp : (overview s).producer ≠ .asleep)
      (hnone : ∀ j, (overview s).consumers j ≠ .asleep) (i : Option κ) :
      (s.pc i).isAsleep = false := by
    cases i with
    | none => exact modeOf_ne_asleep.mp hp
    | some j => exact modeOf_ne_asleep.mp (hnone j)
  cases hmove with
  | put hp hroom =>
      obtain ⟨a, p, r, ha, hlen, hr, hstep⟩ := h.exists_putTurn hsize hfits hcap hp
      obtain ⟨-, ⟨hfull, _⟩ | ⟨_, heq⟩⟩ := h.putTurn hlen hr
      · omega
      · exact ⟨a, _, ha, hstep, heq⟩
  | block hp hroom =>
      obtain ⟨a, p, r, ha, hlen, hr, hstep⟩ := h.exists_putTurn hsize hfits hcap hp
      obtain ⟨-, ⟨_, heq⟩ | ⟨hless, _⟩⟩ := h.putTurn hlen hr
      · exact ⟨a, _, ha, hstep, heq⟩
      · omega
  | take hj hitems =>
      obtain ⟨a, r, ha, hr, hstep⟩ := h.exists_getTurn hj
      obtain ⟨-, ⟨hnil, _⟩ | ⟨_, heq⟩⟩ := h.getTurn hr
      · omega
      · exact ⟨a, _, ha, hstep, heq⟩
  | wait hj hitems =>
      obtain ⟨a, r, ha, hr, hstep⟩ := h.exists_getTurn hj
      obtain ⟨-, ⟨_, heq⟩ | ⟨hpos, _⟩⟩ := h.getTurn hr
      · exact ⟨a, _, ha, hstep, heq⟩
      · omega
  | @signal j hp hj =>
      obtain ⟨o, hi⟩ := h.pc_notifying hp
      obtain ⟨l, ht⟩ := eq_asleep_of_modeOf hj
      exact ⟨.notify none (some (some j)), _, trivial, step_notify hi ht, overview_signal⟩
  | signalNobody hp hnone =>
      obtain ⟨o, hi⟩ := h.pc_notifying hp
      have hall := hnobody (by rw [hp]; decide) hnone
      exact ⟨.notify none none, _, trivial, step_notifyNone hi hall, overview_update_none _ _ _⟩
  | @signalProducer i hi hp =>
      obtain ⟨o, hi⟩ := h.pc_notifying hi
      obtain ⟨l, ht⟩ := eq_asleep_of_modeOf hp
      exact ⟨.notify (some i) (some none), _, trivial, step_notify hi ht, overview_signalProducer⟩
  | @signalConsumer i j hi hj =>
      obtain ⟨o, hi⟩ := h.pc_notifying hi
      obtain ⟨l, ht⟩ := eq_asleep_of_modeOf hj
      exact ⟨.notify (some i) (some (some j)), _, trivial, step_notify hi ht,
        overview_signalConsumer⟩
  | @signalNone i hi hp hnone =>
      obtain ⟨o, hi⟩ := h.pc_notifying hi
      exact ⟨.notify (some i) none, _, trivial, step_notifyNone hi (hnobody hp hnone),
        overview_update_some _ _ _ _⟩
  | wakeProducer hp =>
      obtain ⟨l, hi⟩ := eq_asleep_of_modeOf hp
      exact ⟨.wake none true, _, trivial, step_wake hi true, overview_update_none _ _ _⟩
  | @wakeConsumer j hj =>
      obtain ⟨l, hi⟩ := eq_asleep_of_modeOf hj
      exact ⟨.wake (some j) true, _, trivial, step_wake hi true, overview_update_some _ _ _ _⟩

end Signals

/-! ## runs -/

section Runs

variable [Fintype κ]

/-- Every run of the queue is a run of its overview. -/
theorem reaches_of_run (hsize : 0 < size) (hfits : 24 + size ≤ cap) (h : Looping size cap s)
    {as : List (Label (Option κ) Request (Int64 × Environment))}
    {s' : State (Option κ) Shm Waiting Answer} (has : ∀ a ∈ as, PutsElements size a)
    (hrun : run (Monitor.step program) s as = some s') :
    Looping size cap s' ∧
      Relation.ReflTransGen (Move (cap / (24 + size))) (overview s) (overview s') := by
  refine run_invariant_along (C := fun _ a => PutsElements size a)
    (fun t => Looping size cap t ∧
      Relation.ReflTransGen (Move (cap / (24 + size))) (overview s) (overview t)) ?_
    (along_of_forall_mem _ has s) hrun ⟨h, .refl⟩
  rintro t a t' ha hstep ⟨ht, hreach⟩
  obtain ⟨ht', hmove⟩ := ht.step hsize hfits ha hstep
  exact ⟨ht', hreach.tail hmove⟩

/-- Every run of the overview is one of the queue. -/
theorem exists_run_of_reaches (hsize : 0 < size) (hfits : 24 + size ≤ cap) (hcap : cap < 2 ^ 63)
    (h : Looping size cap s) {t : SharedSignal.State κ}
    (hreach : Relation.ReflTransGen (Move (cap / (24 + size))) (overview s) t) :
    ∃ (as : List (Label (Option κ) Request (Int64 × Environment))) (s' : _),
      (∀ a ∈ as, PutsElements size a) ∧ run (Monitor.step program) s as = some s' ∧
        Looping size cap s' ∧ overview s' = t := by
  induction hreach with
  | refl => exact ⟨[], s, nofun, rfl, h, rfl⟩
  | tail _ hmove ih =>
      obtain ⟨as, s', has, hrun, hloop, rfl⟩ := ih
      obtain ⟨a, s'', ha, hstep, heq⟩ := hloop.exists_step hsize hfits hcap hmove
      refine ⟨as ++ [a], s'', ?_, run_concat_eq_some.mpr ⟨s', hrun, hstep⟩,
        (hloop.step hsize hfits ha hstep).1, heq⟩
      simpa [or_imp, forall_and] using ⟨has, ha⟩

omit [DecidableEq κ] [Fintype κ] in
/-- All sleep in the overview where all sleep in the queue. -/
theorem allAsleep_overview (s : State (Option κ) Shm Waiting Answer) :
    (overview s).AllAsleep ↔ ∀ i, (s.pc i).isAsleep = true := by
  have hmode (x : Pc Waiting Answer) : modeOf x = .asleep ↔ x.isAsleep = true := by
    cases x <;> simp [modeOf, Pc.isAsleep]
  simp only [SharedSignal.State.AllAsleep, overview, hmode, Option.forall]

/-- **Exactly how many consumers a queue can serve.**  One producer puts
elements of one size and `κ` consumers get them.  Whatever the order of turns,
signals and wake-ups, the processes never all sleep in `Wait`, if and only if
there are no more consumers than such elements fit into the queue; and once
they all sleep, only a wake-up that nobody asked for leads on. -/
theorem never_allAsleep_iff [Nonempty κ] {w w₀ : Shm} {memSize : UInt64} (hsize : 0 < size)
    (hlo : 168 + (24 + size) ≤ memSize.toNat) (hhi : memSize.toNat < 2 ^ 63)
    (hcreate : CircularQueue.construct true memSize w = .ok ⟨true⟩ w₀) :
    ((∀ (as : List (Label (Option κ) Request (Int64 × Environment))) (s : _),
      (∀ a ∈ as, PutsElements size a) → run (Monitor.step program) (idleCallers w₀) as = some s →
        ∃ i, (s.pc i).isAsleep = false) ↔
      Fintype.card κ ≤ (memSize.toNat - 168) / (24 + size)) ∧
    ∀ (s s' : State (Option κ) Shm Waiting Answer)
      (a : Label (Option κ) Request (Int64 × Environment)), (∀ i, (s.pc i).isAsleep = true) →
      Monitor.step program s a = some s' → ∃ i b, a = .wake i b := by
  refine ⟨?_, fun s s' a hall hstep => eq_wake_of_allAsleep hall hstep⟩
  obtain ⟨w₁, hrun₁, hold, hstat, htotal, -⟩ := create_spec w
    (by simp only [toNat_metaSize, toNat_headerSize]; omega) hhi
  rw [hrun₁] at hcreate
  cases hcreate
  have hfits : 24 + size ≤ memSize.toNat - 168 := by omega
  have hcap : memSize.toNat - 168 < 2 ^ 63 := by omega
  have hstart : Looping size (memSize.toNat - 168)
      (idleCallers w₀ : State (Option κ) Shm Waiting Answer) :=
    ⟨⟨⟨[], hold, nofun⟩, hstat, htotal⟩, .idle, fun _ => .idle⟩
  have hfresh : overview (idleCallers w₀ : State (Option κ) Shm Waiting Answer) = .fresh := by
    have hcount : w₀.pMeta.elementCount.toNat = 0 := hold.count_eq
    rw [overview, idleCallers, hcount]
    rfl
  constructor
  · intro hnever
    by_contra hmore
    obtain ⟨t, hreach, hall⟩ := SharedSignal.allAsleep_reachable
      (Nat.div_pos hfits (by omega)) (Nat.not_le.mp hmore)
    rw [← hfresh] at hreach
    obtain ⟨as, s, has, hrun, -, rfl⟩ := exists_run_of_reaches hsize hfits hcap hstart hreach
    obtain ⟨i, hi⟩ := hnever as s has hrun
    rw [(allAsleep_overview s).mp hall i] at hi
    cases hi
  · intro hcard as s has hrun
    obtain ⟨-, hreach⟩ := reaches_of_run hsize hfits hstart has hrun
    rw [hfresh] at hreach
    by_contra hnone
    refine SharedSignal.not_allAsleep_of_card_le hcard hreach ((allAsleep_overview s).mpr ?_)
    exact fun i => eq_true_of_ne_false fun hi => hnone ⟨i, hi⟩

end Runs

/-- Where one element of one byte fits, one consumer can be served, and two
cannot. -/
theorem never_allAsleep_iff_193 :
    (∀ (as : List (Label (Option (Fin 1)) Request (Int64 × Environment))) (s : _),
      (∀ a ∈ as, PutsElements 1 a) →
      run (Monitor.step program) (idleCallers smallestQueue) as = some s →
        ∃ i, (s.pc i).isAsleep = false) ∧
    ¬ ∀ (as : List (Label (Option (Fin 2)) Request (Int64 × Environment))) (s : _),
      (∀ a ∈ as, PutsElements 1 a) →
      run (Monitor.step program) (idleCallers smallestQueue) as = some s →
        ∃ i, (s.pc i).isAsleep = false := by
  constructor
  · exact (never_allAsleep_iff (by decide) (by decide) (by decide)
      construct_smallestQueue).1.mpr (by decide)
  · intro hnever
    have hcard := (never_allAsleep_iff (by decide) (by decide) (by decide)
      construct_smallestQueue).1.mp hnever
    exact absurd hcard (by decide)

end CppFastDevelop
