import CppFastDevelop.Lib.Monitor
import Mathlib.Data.Finset.Card

/-!
# CppFastDevelop.Lib.LockedSignal

The programs of `Lib.Monitor` under another discipline: the notification at
the end of a turn is issued while the mutex is still held, and a turn that
waits gives the mutex up in a step of its own, so one may look between the
two.  Beside the calls under the mutex there are requests that write to the
memory without it, a word at a time, and then broadcast.

`Effect` says what a step can do.  Threads are counted by where they are;
`count_update` is how a count changes when one thread moves.
-/

namespace LockedSignal

open Monitor

variable {ι σ C L E O U : Type}

/-! ## threads -/

/-- Where a thread is. -/
inductive Pc (L U : Type)
  | idle
  | parking (l : L) -- has decided to wait and holds the mutex
  | asleep (l : L)
  | woken (l : L) (signalled : Bool)
  | writing (u : U)
  | broadcasting
  deriving DecidableEq, Repr

namespace Pc

def isParking : Pc L U → Bool
  | .parking _ => true
  | _ => false

def isAsleep : Pc L U → Bool
  | .asleep _ => true
  | _ => false

def isWoken : Pc L U → Bool
  | .woken _ _ => true
  | _ => false

/-- A broadcast reaches a thread. -/
def rouse : Pc L U → Pc L U
  | .asleep l => .woken l true
  | p => p

end Pc

/-- The shared memory and the threads. -/
structure State (ι σ L U : Type) where
  mem : σ
  pc : ι → Pc L U

/-- Nobody holds the mutex. -/
def State.Free (s : State ι σ L U) : Prop := ∀ i, (s.pc i).isParking = false

instance [Fintype ι] (s : State ι σ L U) : Decidable s.Free :=
  inferInstanceAs (Decidable (∀ i, (s.pc i).isParking = false))

/-! ## steps -/

/-- One step of the system.  `target` is the sleeper a notification reaches;
`wake` is a wake-up nobody asked for. -/
inductive Label (ι C E U : Type)
  | enter (i : ι) (c : C) (target : Option ι)
  | resume (i : ι) (e : E) (target : Option ι)
  | park (i : ι)
  | wake (i : ι) (signalled : Bool)
  | stop (i : ι) (u : U)
  | write (i : ι)
  | broadcast (i : ι)
  deriving DecidableEq, Repr

/-- A step of a request that writes without the mutex. -/
def Label.IsStop : Label ι C E U → Prop
  | .stop _ _ | .write _ | .broadcast _ => True
  | .enter _ _ _ | .resume _ _ _ | .park _ | .wake _ _ => False

instance : DecidablePred (Label.IsStop : Label ι C E U → Prop)
  | .stop _ _ | .write _ | .broadcast _ => isTrue trivial
  | .enter _ _ _ | .resume _ _ _ | .park _ | .wake _ _ => isFalse id

section Step

variable [DecidableEq ι]

/-- Thread `i` has taken a turn. -/
def State.take [Fintype ι] (s : State ι σ L U) (i : ι) (target : Option ι) :
    σ × Turn L O → Option (State ι σ L U)
  | (m, .wait l) => some ⟨m, Function.update s.pc i (.parking l)⟩
  | (m, .done .none _) => some ⟨m, Function.update s.pc i .idle⟩
  | (m, .done .one _) => match target with
    | some j => match s.pc j with
      | .asleep l => some ⟨m, Function.update (Function.update s.pc j (.woken l true)) i .idle⟩
      | _ => none
    | none =>
      if ∀ j, (s.pc j).isAsleep = false then some ⟨m, Function.update s.pc i .idle⟩ else none
  | (m, .done .all _) => some ⟨m, Function.update (fun j => (s.pc j).rouse) i .idle⟩

/-- One step, where it is enabled.  `next` writes one word of a request and
says what is left of it. -/
def step [Fintype ι] (P : Program σ C L E O) (next : U → σ → σ × Option U)
    (s : State ι σ L U) : Label ι C E U → Option (State ι σ L U)
  | .enter i c target => match s.pc i with
    | .idle => if s.Free then s.take i target (P.enter c s.mem) else none
    | _ => none
  | .resume i e target => match s.pc i with
    | .woken l b => if s.Free then s.take i target (P.resume l b e s.mem) else none
    | _ => none
  | .park i => match s.pc i with
    | .parking l => some ⟨s.mem, Function.update s.pc i (.asleep l)⟩
    | _ => none
  | .wake i b => match s.pc i with
    | .asleep l => some ⟨s.mem, Function.update s.pc i (.woken l b)⟩
    | _ => none
  | .stop i u => match s.pc i with
    | .idle => some ⟨s.mem, Function.update s.pc i (.writing u)⟩
    | _ => none
  | .write i => match s.pc i with
    | .writing u =>
      some ⟨(next u s.mem).1,
        Function.update s.pc i ((next u s.mem).2.elim .broadcasting .writing)⟩
    | _ => none
  | .broadcast i => match s.pc i with
    | .broadcasting => some ⟨s.mem, Function.update (fun j => (s.pc j).rouse) i .idle⟩
    | _ => none

/-! ## what a step does -/

/-- How a turn leaves the system. -/
inductive Taken (s : State ι σ L U) (i : ι) : Option ι → σ × Turn L O → State ι σ L U → Prop
  | wait {m : σ} {l : L} {target : Option ι} :
    Taken s i target (m, .wait l) ⟨m, Function.update s.pc i (.parking l)⟩
  | done {m : σ} {o : O} {target : Option ι} :
    Taken s i target (m, .done .none o) ⟨m, Function.update s.pc i .idle⟩
  | signal {m : σ} {o : O} {j : ι} {l : L} (hj : s.pc j = .asleep l) :
    Taken s i (some j) (m, .done .one o)
      ⟨m, Function.update (Function.update s.pc j (.woken l true)) i .idle⟩
  | signalNobody {m : σ} {o : O} (hnone : ∀ j, (s.pc j).isAsleep = false) :
    Taken s i none (m, .done .one o) ⟨m, Function.update s.pc i .idle⟩
  | broadcast {m : σ} {o : O} {target : Option ι} :
    Taken s i target (m, .done .all o)
      ⟨m, Function.update (fun j => (s.pc j).rouse) i .idle⟩

theorem taken_of_take [Fintype ι] {s s' : State ι σ L U} {i : ι} {target : Option ι}
    {r : σ × Turn L O} (h : s.take i target r = some s') : Taken s i target r s' := by
  obtain ⟨m, t⟩ := r
  cases t with
  | wait l => cases h; exact .wait
  | done n o =>
      cases n with
      | none => cases h; exact .done
      | all => cases h; exact .broadcast
      | one =>
          cases target with
          | some j =>
              simp only [State.take] at h
              split at h
              · next hj => cases h; exact .signal hj
              · cases h
          | none =>
              simp only [State.take] at h
              split at h
              · next hnone => cases h; exact .signalNobody hnone
              · cases h

/-- What a step can be. -/
inductive Effect (P : Program σ C L E O) (next : U → σ → σ × Option U) (s : State ι σ L U) :
    Label ι C E U → State ι σ L U → Prop
  | enter {i : ι} {c : C} {target : Option ι} {s' : State ι σ L U} (hi : s.pc i = .idle)
      (hfree : s.Free) (htaken : Taken s i target (P.enter c s.mem) s') :
    Effect P next s (.enter i c target) s'
  | resume {i : ι} {e : E} {l : L} {b : Bool} {target : Option ι} {s' : State ι σ L U}
      (hi : s.pc i = .woken l b) (hfree : s.Free)
      (htaken : Taken s i target (P.resume l b e s.mem) s') :
    Effect P next s (.resume i e target) s'
  | park {i : ι} {l : L} (hi : s.pc i = .parking l) :
    Effect P next s (.park i) ⟨s.mem, Function.update s.pc i (.asleep l)⟩
  | wake {i : ι} {l : L} {b : Bool} (hi : s.pc i = .asleep l) :
    Effect P next s (.wake i b) ⟨s.mem, Function.update s.pc i (.woken l b)⟩
  | stop {i : ι} {u : U} (hi : s.pc i = .idle) :
    Effect P next s (.stop i u) ⟨s.mem, Function.update s.pc i (.writing u)⟩
  | write {i : ι} {u : U} (hi : s.pc i = .writing u) :
    Effect P next s (.write i) ⟨(next u s.mem).1,
      Function.update s.pc i ((next u s.mem).2.elim .broadcasting .writing)⟩
  | broadcast {i : ι} (hi : s.pc i = .broadcasting) :
    Effect P next s (.broadcast i)
      ⟨s.mem, Function.update (fun j => (s.pc j).rouse) i .idle⟩

theorem step_effect [Fintype ι] {P : Program σ C L E O} {next : U → σ → σ × Option U}
    {s s' : State ι σ L U} {a : Label ι C E U} (h : step P next s a = some s') :
    Effect P next s a s' := by
  cases a with
  | enter i c target =>
      simp only [step] at h
      split at h
      · next hi =>
          split at h
          · next hfree => exact .enter hi hfree (taken_of_take h)
          · cases h
      · cases h
  | resume i e target =>
      simp only [step] at h
      split at h
      · next l b hi =>
          split at h
          · next hfree => exact .resume hi hfree (taken_of_take h)
          · cases h
      · cases h
  | park i =>
      simp only [step] at h
      split at h
      · next l hi => cases h; exact .park hi
      · cases h
  | wake i b =>
      simp only [step] at h
      split at h
      · next l hi => cases h; exact .wake hi
      · cases h
  | stop i u =>
      simp only [step] at h
      split at h
      · next hi => cases h; exact .stop hi
      · cases h
  | write i =>
      simp only [step] at h
      split at h
      · next u hi => cases h; exact .write hi
      · cases h
  | broadcast i =>
      simp only [step] at h
      split at h
      · next hi => cases h; exact .broadcast hi
      · cases h

end Step

/-! ## counting threads -/

section Count

variable {β : Type} [Fintype ι]

/-- How many threads are at a place of the given kind. -/
def count (p : β → Bool) (f : ι → β) : Nat := (Finset.univ.filter fun i => p (f i) = true).card

theorem count_eq_zero {p : β → Bool} {f : ι → β} : count p f = 0 ↔ ∀ i, p (f i) = false := by
  simp [count, Finset.filter_eq_empty_iff]

theorem count_le_count {p : β → Bool} {f g : ι → β} (h : ∀ i, p (f i) = true → p (g i) = true) :
    count p f ≤ count p g := by
  apply Finset.card_le_card
  intro i hi
  rw [Finset.mem_filter] at hi ⊢
  exact ⟨hi.1, h i hi.2⟩

/-- A thread that moves leaves one kind of place and enters another. -/
theorem count_update [DecidableEq ι] (p : β → Bool) (f : ι → β) (i : ι) (x : β) :
    count p (Function.update f i x) + (p (f i)).toNat = count p f + (p x).toNat := by
  have hsplit (g : ι → β) : count p g =
      (p (g i)).toNat + ((Finset.univ.erase i).filter fun k => p (g k) = true).card := by
    rw [count, ← Finset.insert_erase (Finset.mem_univ i), Finset.filter_insert]
    cases h : p (g i) with
    | false => simp
    | true => simp [Nat.add_comm]
  have hrest : ((Finset.univ.erase i).filter fun k => p (Function.update f i x k) = true) =
      (Finset.univ.erase i).filter fun k => p (f k) = true := by
    refine Finset.filter_congr fun k hk => ?_
    rw [Function.update_of_ne (Finset.ne_of_mem_erase hk)]
  rw [hsplit (Function.update f i x), hsplit f, hrest, Function.update_self]
  omega

end Count

end LockedSignal
