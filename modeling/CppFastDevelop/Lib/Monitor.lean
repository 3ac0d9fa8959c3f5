import CppFastDevelop.Lib.Machine
import Mathlib.Data.Fintype.Basic
import Mathlib.Logic.Function.Basic

/-!
# CppFastDevelop.Lib.Monitor

Threads that share a memory behind one mutex and sleep on one condition
variable.  A call is a sequence of *turns* under the mutex: it is entered,
and whenever it waits it gives the mutex up and is resumed after it has been
woken.  A turn that ends the call may leave a notification to be issued once
the mutex has been released; the call returns after it.

The programs say what a turn does to the memory; this module says how turns,
notifications and wake-ups interleave.  `Attended` is the property a lost
wake-up breaks, and `run_attended` the rule that establishes it: it is kept
as long as every single notification that matters reaches a sleeper that
can go on.
-/

namespace Monitor

open Machine

variable {ι σ C L E O : Type}

/-! ## threads and turns -/

/-- What is still to be issued after the mutex has been released. -/
inductive Notify
  | none
  | one
  | all
  deriving DecidableEq, Repr

/-- How a turn ends: the call waits with its local variables, or it is over
with an answer. -/
inductive Turn (L O : Type)
  | wait (l : L)
  | done (n : Notify) (o : O)

/-- Where a thread is. -/
inductive Pc (L O : Type)
  | idle
  | asleep (l : L)
  | woken (l : L) (signalled : Bool)
  | notifying (n : Notify) (o : O)

/-- Where the turn leaves the thread. -/
def Turn.pc : Turn L O → Pc L O
  | .wait l => .asleep l
  | .done .none _ => .idle
  | .done .one o => .notifying .one o
  | .done .all o => .notifying .all o

def Pc.isAsleep : Pc L O → Bool
  | .asleep _ => true
  | _ => false

/-- The turns of the calls in `C`; `E` is what a resumed turn reads from its
surroundings. -/
structure Program (σ C L E O : Type) where
  enter : C → σ → σ × Turn L O
  resume : L → Bool → E → σ → σ × Turn L O

/-- The shared memory and the threads. -/
structure State (ι σ L O : Type) where
  mem : σ
  pc : ι → Pc L O

/-- One step of the system.  `wake` is a wake-up nobody asked for: a
time-out, or a spurious one. -/
inductive Label (ι C E : Type)
  | enter (i : ι) (c : C)
  | resume (i : ι) (e : E)
  | notify (i : ι) (target : Option ι)
  | wake (i : ι) (signalled : Bool)

section Step

variable [DecidableEq ι]

/-- Thread `i` has taken a turn. -/
def State.take (s : State ι σ L O) (i : ι) (r : σ × Turn L O) : State ι σ L O :=
  ⟨r.1, Function.update s.pc i r.2.pc⟩

/-- A single notification wakes one sleeper, whichever; it is lost if there
is none. -/
def State.notifyOne [Fintype ι] (s : State ι σ L O) (i : ι) : Option ι → Option (State ι σ L O)
  | some j => match s.pc j with
    | .asleep l => some ⟨s.mem, Function.update (Function.update s.pc j (.woken l true)) i .idle⟩
    | _ => none
  | none =>
    if ∀ j, (s.pc j).isAsleep = false then some ⟨s.mem, Function.update s.pc i .idle⟩ else none

/-- A broadcast wakes every sleeper. -/
def State.notifyAll (s : State ι σ L O) (i : ι) : State ι σ L O where
  mem := s.mem
  pc := Function.update (fun j => match s.pc j with
    | .asleep l => .woken l true
    | p => p) i .idle

/-- One step, where it is enabled. -/
def step [Fintype ι] (P : Program σ C L E O) (s : State ι σ L O) :
    Label ι C E → Option (State ι σ L O)
  | .enter i c => match s.pc i with
    | .idle => some (s.take i (P.enter c s.mem))
    | _ => none
  | .resume i e => match s.pc i with
    | .woken l b => some (s.take i (P.resume l b e s.mem))
    | _ => none
  | .notify i target => match s.pc i with
    | .notifying .one _ => s.notifyOne i target
    | .notifying .all _ => if target.isNone then some (s.notifyAll i) else none
    | _ => none
  | .wake i b => match s.pc i with
    | .asleep l => some ⟨s.mem, Function.update s.pc i (.woken l b)⟩
    | _ => none

/-- What a step can be. -/
theorem step_cases [Fintype ι] {P : Program σ C L E O} {s s' : State ι σ L O}
    {a : Label ι C E} (h : step P s a = some s') :
    (∃ i c, a = .enter i c ∧ s.pc i = .idle ∧ s' = s.take i (P.enter c s.mem)) ∨
    (∃ i e l b, a = .resume i e ∧ s.pc i = .woken l b ∧
      s' = s.take i (P.resume l b e s.mem)) ∨
    (∃ i o j l, a = .notify i (some j) ∧ s.pc i = .notifying .one o ∧ s.pc j = .asleep l ∧
      s' = ⟨s.mem, Function.update (Function.update s.pc j (.woken l true)) i .idle⟩) ∨
    (∃ i o, a = .notify i none ∧ s.pc i = .notifying .one o ∧
      (∀ j, (s.pc j).isAsleep = false) ∧ s' = ⟨s.mem, Function.update s.pc i .idle⟩) ∨
    (∃ i o, a = .notify i none ∧ s.pc i = .notifying .all o ∧ s' = s.notifyAll i) ∨
    (∃ i l b, a = .wake i b ∧ s.pc i = .asleep l ∧
      s' = ⟨s.mem, Function.update s.pc i (.woken l b)⟩) := by
  cases a with
  | enter i c =>
      simp only [step] at h
      split at h
      · next hi => exact .inl ⟨i, c, rfl, hi, by simpa using h.symm⟩
      · cases h
  | resume i e =>
      simp only [step] at h
      split at h
      · next l b hi => exact .inr (.inl ⟨i, e, l, b, rfl, hi, by simpa using h.symm⟩)
      · cases h
  | notify i target =>
      simp only [step] at h
      split at h
      · next o hi =>
          cases target with
          | some j =>
              simp only [State.notifyOne] at h
              split at h
              · next l hj =>
                  exact .inr (.inr (.inl ⟨i, o, j, l, rfl, hi, hj, by simpa using h.symm⟩))
              · cases h
          | none =>
              simp only [State.notifyOne] at h
              split at h
              · next hall =>
                  exact .inr (.inr (.inr (.inl ⟨i, o, rfl, hi, hall, by simpa using h.symm⟩)))
              · cases h
      · next o hi =>
          cases target with
          | some j => cases h
          | none =>
              exact .inr (.inr (.inr (.inr (.inl ⟨i, o, rfl, hi, by simpa using h.symm⟩))))
      · cases h
  | wake i b =>
      simp only [step] at h
      split at h
      · next l hi =>
          exact .inr (.inr (.inr (.inr (.inr ⟨i, l, b, rfl, hi, by simpa using h.symm⟩))))
      · cases h

/-- Where every thread sleeps, no step is left but a wake-up nobody asked
for. -/
theorem eq_wake_of_allAsleep [Fintype ι] {P : Program σ C L E O} {s s' : State ι σ L O}
    {a : Label ι C E} (hall : ∀ i, (s.pc i).isAsleep = true) (h : step P s a = some s') :
    ∃ i b, a = .wake i b := by
  rcases step_cases h with ⟨i, _, _, hi, _⟩ | ⟨i, _, _, _, _, hi, _⟩ | ⟨i, _, _, _, _, hi, _⟩ |
    ⟨i, _, _, hi, _⟩ | ⟨i, _, _, hi, _⟩ | ⟨i, _, b, rfl, _⟩
  -- an idle, a woken or a notifying thread does not sleep
  case inr.inr.inr.inr.inr => exact ⟨i, b, rfl⟩
  all_goals
    have hi' := hall i
    rw [hi] at hi'
    cases hi'

/-! ## invariants of the memory and of the waiting calls -/

/-- The local variables of a call that is in its wait. -/
def Pc.locals : Pc L O → Option L
  | .asleep l => some l
  | .woken l _ => some l
  | _ => none

/-- A turn keeps the memory's invariant and leaves good local variables. -/
structure TurnSound (Inv : σ → Prop) (Ok : L → Prop) (r : σ × Turn L O) : Prop where
  mem : Inv r.1
  locals : ∀ l, r.2 = .wait l → Ok l

/-- The memory meets its invariant, and so do the local variables of every
call that is in its wait. -/
structure Sound (Inv : σ → Prop) (Ok : L → Prop) (s : State ι σ L O) : Prop where
  mem : Inv s.mem
  locals : ∀ i l, (s.pc i).locals = some l → Ok l

/-- Only calls of the given kind are made. -/
def Label.Admits (Call : C → Prop) : Label ι C E → Prop
  | .enter _ c => Call c
  | _ => True

/-- A turn leaves local variables only where it waits. -/
theorem locals_pc {t : Turn L O} {l : L} (h : t.pc.locals = some l) : t = .wait l := by
  cases t with
  | wait l' => cases h; rfl
  | done n o => cases n <;> cases h

theorem Sound.take {Inv : σ → Prop} {Ok : L → Prop} {s : State ι σ L O} (h : Sound Inv Ok s)
    (i : ι) {r : σ × Turn L O} (hr : TurnSound Inv Ok r) : Sound Inv Ok (s.take i r) := by
  refine ⟨hr.mem, fun k l hk => ?_⟩
  by_cases hki : k = i
  · subst hki
    simp only [State.take, Function.update_self] at hk
    exact hr.locals l (locals_pc hk)
  · simp only [State.take, Function.update_of_ne hki] at hk
    exact h.locals k l hk

variable [Fintype ι] {P : Program σ C L E O} {Inv : σ → Prop} {Ok : L → Prop} {Call : C → Prop}

/-- Turns that keep the invariants make steps that do. -/
theorem sound_step (Call : C → Prop)
    (henter : ∀ c m, Call c → Inv m → TurnSound Inv Ok (P.enter c m))
    (hresume : ∀ l b e m, Ok l → Inv m → TurnSound Inv Ok (P.resume l b e m))
    {s s' : State ι σ L O} {a : Label ι C E} (ha : a.Admits Call) (hstep : step P s a = some s')
    (h : Sound Inv Ok s) : Sound Inv Ok s' := by
  -- waking a thread does not touch its local variables
  have hwoken {j : ι} {l : L} {b : Bool} (hj : s.pc j = .asleep l) (k : ι) :
      (Function.update s.pc j (.woken l b) k).locals = (s.pc k).locals := by
    by_cases hkj : k = j
    · subst hkj; rw [Function.update_self, hj]; rfl
    · rw [Function.update_of_ne hkj]
  have hidle {i : ι} {f : ι → Pc L O} (hf : ∀ k, (f k).locals = (s.pc k).locals) (k : ι) (l : L)
      (hk : (Function.update f i .idle k).locals = some l) : Ok l := by
    by_cases hki : k = i
    · subst hki; rw [Function.update_self] at hk; cases hk
    · rw [Function.update_of_ne hki, hf] at hk; exact h.locals k l hk
  rcases step_cases hstep with ⟨i, c, rfl, _, rfl⟩ | ⟨i, e, l, b, rfl, hi, rfl⟩ |
    ⟨i, o, j, l, rfl, _, hj, rfl⟩ | ⟨i, o, rfl, _, _, rfl⟩ | ⟨i, o, rfl, _, rfl⟩ |
    ⟨i, l, b, rfl, hi, rfl⟩
  · exact h.take i (henter c s.mem ha h.mem)
  · exact h.take i (hresume l b e s.mem (h.locals i l (by rw [hi]; rfl)) h.mem)
  · exact ⟨h.mem, hidle (hwoken hj)⟩
  · exact ⟨h.mem, hidle fun _ => rfl⟩
  · refine ⟨h.mem, hidle fun k => ?_⟩
    cases hk : s.pc k <;> rfl
  · exact ⟨h.mem, fun k l' hk => h.locals k l' (by rwa [hwoken hi] at hk)⟩

/-! ## no wake-up is lost -/

section Attended

variable (able : σ → L → Prop) (useful : L → Bool → Prop)

/-- Some call is on its way that will issue a notification: one that still
has to, or one that has been woken and can go on. -/
def OnItsWay (s : State ι σ L O) (except : Option ι) : Prop :=
  (∃ k n o, some k ≠ except ∧ s.pc k = .notifying n o) ∨
  (∃ k l b, s.pc k = .woken l b ∧ able s.mem l ∧ useful l b)

/-- If some sleeper can go on, a call is on its way. -/
def Attended (s : State ι σ L O) : Prop :=
  (∃ k l, s.pc k = .asleep l ∧ able s.mem l) → OnItsWay able useful s none

/-- A single notification is not wasted: if some sleeper can go on and no
other call is on its way, it wakes a sleeper that can go on. -/
def Rouses (s : State ι σ L O) : Label ι C E → Prop
  | .notify i target => (∃ o, s.pc i = .notifying .one o) →
      (∃ k l, s.pc k = .asleep l ∧ able s.mem l) →
      OnItsWay able useful s (some i) ∨
        ∃ j l, target = some j ∧ s.pc j = .asleep l ∧ able s.mem l ∧ useful l true
  | _ => True

/-- A turn that issues no notification changes nothing for the sleepers, and
one that waits cannot go on. -/
def TurnQuiet (m : σ) : σ × Turn L O → Prop
  | (m', .wait l) => ¬ able m' l ∧ ∀ l', able m' l' ↔ able m l'
  | (m', .done .none _) => ∀ l', able m' l' ↔ able m l'
  | _ => True

/-- The turn ends with a notification. -/
def Turn.notifies : Turn L O → Prop
  | .done .one _ => True
  | .done .all _ => True
  | _ => False

variable {able useful}

omit [Fintype ι] in
/-- A turn keeps sleepers attended, unless it was the woken call that was on
its way and it did not get anywhere. -/
theorem Attended.take {s : State ι σ L O} (h : Attended able useful s) {i : ι}
    {r : σ × Turn L O} (hquiet : TurnQuiet able s.mem r)
    (hi : (∀ n o, s.pc i ≠ .notifying n o) ∧
      ∀ l b, s.pc i = .woken l b → able s.mem l → useful l b → r.2.notifies)
    (hsleep : ∀ l, s.pc i ≠ .asleep l) : Attended able useful (s.take i r) := by
  obtain ⟨m', t⟩ := r
  by_cases hn : t.notifies
  · -- the thread itself is on its way
    intro _
    refine .inl ⟨i, ?_⟩
    simp only [State.take, Function.update_self]
    cases t with
    | wait l => cases hn
    | done n o =>
        cases n with
        | none => cases hn
        | one => exact ⟨.one, o, by simp, rfl⟩
        | all => exact ⟨.all, o, by simp, rfl⟩
  · -- otherwise the turn was quiet, and who was on its way still is
    have hable : ∀ l', able m' l' ↔ able s.mem l' := by
      cases t with
      | wait l => exact hquiet.2
      | done n o =>
          cases n with
          | none => exact hquiet
          | one => exact absurd trivial hn
          | all => exact absurd trivial hn
    rintro ⟨k, l, hk, hkable⟩
    have hki : k ≠ i := by
      intro hki
      subst hki
      simp only [State.take, Function.update_self] at hk hkable
      cases t with
      | wait l' => cases hk; exact hquiet.1 hkable
      | done n o => cases n <;> cases hk
    simp only [State.take, Function.update_of_ne hki] at hk hkable
    rcases h ⟨k, l, hk, (hable l).mp hkable⟩ with ⟨k', n, o, _, hk'⟩ | ⟨k', l', b, hk', hab, hus⟩
    · have hne : k' ≠ i := fun heq => hi.1 n o (heq ▸ hk')
      exact .inl ⟨k', n, o, by simp, by simp only [State.take, Function.update_of_ne hne, hk']⟩
    · have hne : k' ≠ i := fun heq => hn (hi.2 l' b (heq ▸ hk') hab hus)
      exact .inr ⟨k', l', b, by simp only [State.take, Function.update_of_ne hne, hk'],
        (hable l').mpr hab, hus⟩

/-- One step keeps sleepers attended. -/
theorem attended_step
    (henter : ∀ c m, Call c → Inv m → TurnQuiet able m (P.enter c m))
    (hresume : ∀ l b e m, Ok l → Inv m → TurnQuiet able m (P.resume l b e m) ∧
      (able m l → useful l b → (P.resume l b e m).2.notifies))
    {s s' : State ι σ L O} {a : Label ι C E} (ha : a.Admits Call)
    (hrouse : Rouses able useful s a) (hstep : step P s a = some s') (hsound : Sound Inv Ok s)
    (h : Attended able useful s) : Attended able useful s' := by
  rcases step_cases hstep with ⟨i, c, rfl, hi, rfl⟩ | ⟨i, e, l, b, rfl, hi, rfl⟩ |
    ⟨i, o, j, l, rfl, hi, hj, rfl⟩ | ⟨i, o, rfl, _, hall, rfl⟩ | ⟨i, o, rfl, _, rfl⟩ |
    ⟨i, l, b, rfl, hi, rfl⟩
  · refine h.take (henter c s.mem ha hsound.mem) ⟨?_, ?_⟩ ?_ <;> simp [hi]
  · obtain ⟨hquiet, hgo⟩ := hresume l b e s.mem (hsound.locals i l (by rw [hi]; rfl)) hsound.mem
    refine h.take hquiet ⟨by simp [hi], ?_⟩ (by simp [hi])
    intro l' b' heq hab hus
    rw [hi] at heq
    cases heq
    exact hgo hab hus
  · rintro ⟨k, l', hk, hkable⟩
    have hji : j ≠ i := by rintro rfl; rw [hi] at hj; cases hj
    have hki : k ≠ i := by rintro rfl; simp at hk
    have hkj : k ≠ j := by
      rintro rfl; simp [Function.update_of_ne hji] at hk
    simp only [Function.update_of_ne hki, Function.update_of_ne hkj] at hk
    rcases hrouse ⟨o, hi⟩ ⟨k, l', hk, hkable⟩ with
      (⟨k', n, o', hne, hk'⟩ | ⟨k', l₂, b, hk', hab, hus⟩) | ⟨j', l₂, htarget, hj', hab, hus⟩
    · have hk'i : k' ≠ i := fun heq => hne (by rw [heq])
      have hk'j : k' ≠ j := by rintro rfl; rw [hj] at hk'; cases hk'
      exact .inl ⟨k', n, o', by simp, by
        simp only [Function.update_of_ne hk'i, Function.update_of_ne hk'j, hk']⟩
    · have hk'i : k' ≠ i := by rintro rfl; rw [hi] at hk'; cases hk'
      have hk'j : k' ≠ j := by rintro rfl; rw [hj] at hk'; cases hk'
      exact .inr ⟨k', l₂, b, by
        simp only [Function.update_of_ne hk'i, Function.update_of_ne hk'j, hk'], hab, hus⟩
    · cases htarget
      rw [hj] at hj'
      cases hj'
      exact .inr ⟨j, l, true, by
        simp only [Function.update_of_ne hji, Function.update_self], hab, hus⟩
  · -- nobody sleeps
    rintro ⟨k, l', hk, _⟩
    have hki : k ≠ i := by rintro rfl; simp at hk
    simp only [Function.update_of_ne hki] at hk
    have := hall k
    rw [hk] at this
    cases this
  · -- nobody sleeps any more
    rintro ⟨k, l', hk, _⟩
    have hki : k ≠ i := by rintro rfl; simp [State.notifyAll] at hk
    simp only [State.notifyAll, Function.update_of_ne hki] at hk
    cases hpc : s.pc k <;> rw [hpc] at hk <;> cases hk
  · rintro ⟨k, l', hk, hkable⟩
    have hki : k ≠ i := by rintro rfl; simp at hk
    simp only [Function.update_of_ne hki] at hk
    rcases h ⟨k, l', hk, hkable⟩ with ⟨k', n, o', hne, hk'⟩ | ⟨k', l₂, b', hk', hab, hus⟩
    · have hk'i : k' ≠ i := by rintro rfl; rw [hi] at hk'; cases hk'
      exact .inl ⟨k', n, o', hne, by simp only [Function.update_of_ne hk'i, hk']⟩
    · have hk'i : k' ≠ i := by rintro rfl; rw [hi] at hk'; cases hk'
      exact .inr ⟨k', l₂, b', by simp only [Function.update_of_ne hk'i, hk'], hab, hus⟩

/-- Runs of admitted calls in which no notification is wasted keep sleepers
attended. -/
theorem run_attended
    (henter : ∀ c m, Call c → Inv m →
      TurnSound Inv Ok (P.enter c m) ∧ TurnQuiet able m (P.enter c m))
    (hresume : ∀ l b e m, Ok l → Inv m →
      TurnSound Inv Ok (P.resume l b e m) ∧ TurnQuiet able m (P.resume l b e m) ∧
        (able m l → useful l b → (P.resume l b e m).2.notifies))
    {s s' : State ι σ L O} {as : List (Label ι C E)}
    (halong : Along (step P) (fun s a => a.Admits Call ∧ Rouses able useful s a) s as)
    (hrun : run (step P) s as = some s') (hsound : Sound Inv Ok s)
    (h : Attended able useful s) : Sound Inv Ok s' ∧ Attended able useful s' := by
  refine run_invariant_along (fun s => Sound Inv Ok s ∧ Attended able useful s) ?_ halong hrun
    ⟨hsound, h⟩
  intro s a s' hc hs hi
  have hsound' := sound_step Call (fun c m hcall hm => (henter c m hcall hm).1)
    (fun l b e m hl hm => (hresume l b e m hl hm).1) hc.1 hs hi.1
  have hatt := attended_step (fun c m hcall hm => (henter c m hcall hm).2)
    (fun l b e m hl hm => (hresume l b e m hl hm).2) hc.1 hc.2 hs hi.1 hi.2
  exact ⟨hsound', hatt⟩

end Attended

/-! ## programs that behave alike -/

section Alike

variable {τ : Type} {Q : Program τ C L E O} {R : σ → τ → Prop}

/-- Two turns end alike and leave related memories; calls that wait do so
with good local variables. -/
structure TurnAlike (R : σ → τ → Prop) (Ok : L → Prop) (r : σ × Turn L O) (q : τ × Turn L O) :
    Prop where
  mem : R r.1 q.1
  turn : r.2 = q.2
  locals : ∀ l, r.2 = .wait l → Ok l

/-- Related memories, and threads that are equally far. -/
structure Alike (R : σ → τ → Prop) (Ok : L → Prop) (s : State ι σ L O) (t : State ι τ L O) :
    Prop where
  mem : R s.mem t.mem
  pc : s.pc = t.pc
  locals : ∀ i l, (s.pc i).locals = some l → Ok l

omit [Fintype ι] in
theorem Alike.take {s : State ι σ L O} {t : State ι τ L O} (h : Alike R Ok s t) (i : ι)
    {r : σ × Turn L O} {q : τ × Turn L O} (hr : TurnAlike R Ok r q) :
    Alike R Ok (s.take i r) (t.take i q) := by
  have hsound : Sound (fun _ => True) Ok s := ⟨trivial, h.locals⟩
  refine ⟨hr.mem, ?_, (hsound.take i ⟨trivial, hr.locals⟩).locals⟩
  simp only [State.take, h.pc, hr.turn]

/-- Programs whose turns are alike take the same steps. -/
theorem alike_step
    (henter : ∀ c m n, R m n → TurnAlike R Ok (P.enter c m) (Q.enter c n))
    (hresume : ∀ l b e m n, Ok l → R m n → TurnAlike R Ok (P.resume l b e m) (Q.resume l b e n))
    {s : State ι σ L O} {t : State ι τ L O} (h : Alike R Ok s t) (a : Label ι C E) :
    Option.Rel (Alike R Ok) (step P s a) (step Q t a) := by
  have hsame (f : ι → Pc L O) (hf : ∀ k l, (f k).locals = some l → Ok l) :
      Alike R Ok ⟨s.mem, f⟩ ⟨t.mem, f⟩ := ⟨h.mem, rfl, hf⟩
  have hidle {f : ι → Pc L O} {i : ι} (hf : ∀ k l, (f k).locals = some l → Ok l) (k : ι) (l : L)
      (hk : (Function.update f i .idle k).locals = some l) : Ok l := by
    by_cases hki : k = i
    · subst hki; rw [Function.update_self] at hk; cases hk
    · rw [Function.update_of_ne hki] at hk; exact hf k l hk
  have hwoken {j : ι} {l : L} (b : Bool) (hj : s.pc j = .asleep l) (k : ι) (l' : L)
      (hk : (Function.update s.pc j (.woken l b) k).locals = some l') : Ok l' := by
    by_cases hkj : k = j
    · subst hkj
      rw [Function.update_self] at hk
      exact h.locals k l' (by rw [hj]; exact hk)
    · rw [Function.update_of_ne hkj] at hk; exact h.locals k l' hk
  cases a with
  | enter i c =>
      simp only [step, ← h.pc]
      split
      · exact .some (h.take i (henter c _ _ h.mem))
      · exact .none
  | resume i e =>
      simp only [step, ← h.pc]
      split
      · next l b hi =>
          exact .some (h.take i (hresume l b e _ _ (h.locals i l (by rw [hi]; rfl)) h.mem))
      · exact .none
  | notify i target =>
      simp only [step, ← h.pc]
      split
      · cases target with
        | some j =>
            simp only [State.notifyOne, ← h.pc]
            split
            · next hj => exact .some (hsame _ (hidle (hwoken true hj)))
            · exact .none
        | none =>
            simp only [State.notifyOne, ← h.pc]
            split
            · exact .some (hsame _ (hidle h.locals))
            · exact .none
      · split
        · simp only [State.notifyAll, ← h.pc]
          refine .some (hsame _ (hidle fun k l hk => h.locals k l ?_))
          cases hpc : s.pc k <;> simp only [hpc] at hk <;> exact hk
        · exact .none
      · exact .none
  | wake i b =>
      simp only [step, ← h.pc]
      split
      · next hi => exact .some (hsame _ (hwoken b hi))
      · exact .none

end Alike

end Step

end Monitor
