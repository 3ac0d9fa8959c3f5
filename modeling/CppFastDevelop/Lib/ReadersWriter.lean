import CppFastDevelop.Lib.Atomic

/-!
# CppFastDevelop.Lib.ReadersWriter

Threads that share a memory behind a lock which readers hold together and a
writer holds alone.  What a call does while it holds the lock is a sequence of
accesses, and other threads take their steps between any two of them.

Readers do not change the memory, so nobody sees a writer half done, and the
calls are those of an object that carries out each at one moment
(`linearizable`).
-/

namespace ReadersWriter

open Machine
open Atomic (Event Spec Object Linearizes Step Steps rel_update rel_update_left)

variable {ι α σ C L O : Type}

/-! ## threads -/

inductive Kind
  | read
  | write
  deriving DecidableEq, Repr

/-- Which lock a call takes, and the accesses it makes with it, one at a
time. -/
structure Program (σ C L O : Type) where
  kind : C → Kind
  enter : C → L
  access : L → σ → σ × (L ⊕ O)

/-- Where a thread is. -/
inductive Pc (C L O : Type)
  | idle
  | waiting (c : C)
  | inside (k : Kind) (l : L)
  | leaving (k : Kind) (o : O) -- still holds the lock
  | returning (o : O)

/-- The lock a thread holds. -/
def Pc.holds : Pc C L O → Option Kind
  | .inside k _ | .leaving k _ => some k
  | _ => none

/-- The shared memory and the threads. -/
structure State (ι σ C L O : Type) where
  mem : σ
  pc : ι → Pc C L O

namespace State

/-- Nobody has called. -/
def fresh (m : σ) : State ι σ C L O := ⟨m, fun _ => .idle⟩

/-- Whether the lock can be had. -/
def Admits (s : State ι σ C L O) : Kind → Prop
  | .read => ∀ i, (s.pc i).holds ≠ some .write
  | .write => ∀ i, (s.pc i).holds = none

instance [Fintype ι] (s : State ι σ C L O) : (k : Kind) → Decidable (s.Admits k)
  | .read => inferInstanceAs (Decidable (∀ i, (s.pc i).holds ≠ some .write))
  | .write => inferInstanceAs (Decidable (∀ i, (s.pc i).holds = none))

end State

/-! ## steps -/

inductive Label (ι C : Type)
  | call (i : ι) (c : C)
  | acquire (i : ι)
  | access (i : ι)
  | release (i : ι)
  | ret (i : ι)
  deriving DecidableEq, Repr

/-- Where an access leaves the thread. -/
def after (k : Kind) : L ⊕ O → Pc C L O
  | .inl l => .inside k l
  | .inr o => .leaving k o

@[simp] theorem holds_after (k : Kind) (r : L ⊕ O) : (after k r : Pc C L O).holds = some k := by
  cases r <;> rfl

section Step

variable [DecidableEq ι]

/-- The thread `i` goes on, and leaves the memory `m`. -/
def State.go (s : State ι σ C L O) (i : ι) (p : Pc C L O) (m : σ) : State ι σ C L O :=
  ⟨m, Function.update s.pc i p⟩

@[simp] theorem State.go_mem (s : State ι σ C L O) (i : ι) (p : Pc C L O) (m : σ) :
    (s.go i p m).mem = m := rfl

@[simp] theorem State.go_pc (s : State ι σ C L O) (i : ι) (p : Pc C L O) (m : σ) :
    (s.go i p m).pc = Function.update s.pc i p := rfl

/-- One step, where it is enabled. -/
def step [Fintype ι] (P : Program σ C L O) (s : State ι σ C L O) :
    Label ι C → Option (State ι σ C L O)
  | .call i c => match s.pc i with
    | .idle => some (s.go i (.waiting c) s.mem)
    | _ => none
  | .acquire i => match s.pc i with
    | .waiting c =>
      if s.Admits (P.kind c) then some (s.go i (.inside (P.kind c) (P.enter c)) s.mem) else none
    | _ => none
  | .access i => match s.pc i with
    | .inside k l => some (s.go i (after k (P.access l s.mem).2) (P.access l s.mem).1)
    | _ => none
  | .release i => match s.pc i with
    | .leaving _ o => some (s.go i (.returning o) s.mem)
    | _ => none
  | .ret i => match s.pc i with
    | .returning _ => some (s.go i .idle s.mem)
    | _ => none

/-- What a step can be. -/
inductive Effect (P : Program σ C L O) (s : State ι σ C L O) :
    Label ι C → State ι σ C L O → Prop
  | call {i : ι} {c : C} (hi : s.pc i = .idle) :
    Effect P s (.call i c) (s.go i (.waiting c) s.mem)
  | acquire {i : ι} {c : C} (hi : s.pc i = .waiting c) (hlock : s.Admits (P.kind c)) :
    Effect P s (.acquire i) (s.go i (.inside (P.kind c) (P.enter c)) s.mem)
  | access {i : ι} {k : Kind} {l : L} {m : σ} {r : L ⊕ O} (hi : s.pc i = .inside k l)
      (hr : P.access l s.mem = (m, r)) :
    Effect P s (.access i) (s.go i (after k r) m)
  | release {i : ι} {k : Kind} {o : O} (hi : s.pc i = .leaving k o) :
    Effect P s (.release i) (s.go i (.returning o) s.mem)
  | ret {i : ι} {o : O} (hi : s.pc i = .returning o) :
    Effect P s (.ret i) (s.go i .idle s.mem)

theorem step_effect [Fintype ι] {P : Program σ C L O} {s s' : State ι σ C L O} {a : Label ι C}
    (h : step P s a = some s') : Effect P s a s' := by
  cases a with
  | call i c =>
      simp only [step] at h
      split at h
      · next hi => cases h; exact .call hi
      · cases h
  | acquire i =>
      simp only [step] at h
      split at h
      · next hi =>
          split at h
          · next hlock => cases h; exact .acquire hi hlock
          · cases h
      · cases h
  | access i =>
      simp only [step] at h
      split at h
      · next hi => cases h; exact .access hi rfl
      · cases h
  | release i =>
      simp only [step] at h
      split at h
      · next hi => cases h; exact .release hi
      · cases h
  | ret i =>
      simp only [step] at h
      split at h
      · next hi => cases h; exact .ret hi
      · cases h

end Step

/-- What is seen of a step. -/
def seen (s : State ι σ C L O) : Label ι C → List (Event ι C O)
  | .call i c => [.call i c]
  | .ret i => match s.pc i with
    | .returning o => [.ret i o]
    | _ => []
  | _ => []

/-- The history so far is kept beside the state. -/
def observe (h : List (Event ι C O)) (s : State ι σ C L O) (a : Label ι C)
    (_ : State ι σ C L O) : List (Event ι C O) := h ++ seen s a

/-! ## exclusion -/

/-- A writer is alone. -/
def Exclusive (s : State ι σ C L O) : Prop :=
  ∀ i j, (s.pc i).holds = some .write → (s.pc j).holds ≠ none → i = j

/-- A thread that takes the lock. -/
theorem Exclusive.acquire [DecidableEq ι] {s : State ι σ C L O} (h : Exclusive s) {i : ι}
    {k : Kind} (hlock : s.Admits k) {p : Pc C L O} (hp : p.holds = some k) (m : σ) :
    Exclusive (s.go i p m) := by
  intro a b ha hb
  rw [State.go_pc] at ha hb
  by_cases hai : a = i <;> by_cases hbi : b = i
  · rw [hai, hbi]
  · subst hai
    rw [Function.update_self, hp] at ha
    cases ha
    rw [Function.update_of_ne hbi] at hb
    exact absurd (hlock b) hb
  · rw [Function.update_of_ne hai] at ha
    cases k with
    | read => exact absurd ha (hlock a)
    | write => rw [hlock a] at ha; cases ha
  · rw [Function.update_of_ne hai] at ha
    rw [Function.update_of_ne hbi] at hb
    exact h a b ha hb

/-- A thread that does not. -/
theorem Exclusive.go [DecidableEq ι] {s : State ι σ C L O} (h : Exclusive s) {i : ι}
    {p : Pc C L O} (hp : p.holds = none ∨ p.holds = (s.pc i).holds) (m : σ) :
    Exclusive (s.go i p m) := by
  have hheld (j : ι) (k : Kind) (hj : (Function.update s.pc i p j).holds = some k) :
      (s.pc j).holds = some k := by
    by_cases hji : j = i
    · subst hji
      rw [Function.update_self] at hj
      rcases hp with hp | hp
      · rw [hp] at hj; cases hj
      · rwa [← hp]
    · rwa [Function.update_of_ne hji] at hj
  intro a b ha hb
  obtain ⟨k, hk⟩ := Option.ne_none_iff_exists'.mp hb
  exact h a b (hheld a _ ha) (by rw [hheld b k hk]; exact Option.some_ne_none k)

/-! ## accesses -/

open Atomic (Place)

/-- An access leaves the call half done, or carries it out.  `Mid` says what a
call that found the value `v` has made of the memory so far. -/
def Acts (P : Program σ C L O) (S : Spec α C O) (R : σ → α → Prop)
    (Mid : C → α → L → σ → Prop) (c : C) (v : α) (m : σ) : σ × (L ⊕ O) → Prop
  | (m', .inl l) => Mid c v l m' ∧ (P.kind c = .read → m' = m)
  | (m', .inr o) => ∃ v', S v c o v' ∧ R m' v' ∧ (P.kind c = .read → m' = m ∧ v' = v)

/-- Every access of a program does. -/
structure Implements (P : Program σ C L O) (S : Spec α C O) (R : σ → α → Prop)
    (Mid : C → α → L → σ → Prop) : Prop where
  enter : ∀ c m v, R m v → Mid c v (P.enter c) m
  access : ∀ c v l m, Mid c v l m → Acts P S R Mid c v m (P.access l m)

/-- Where a thread is, seen from outside. -/
inductive At (P : Program σ C L O) (Mid : C → α → L → σ → Prop) (v : α) (m : σ) :
    Pc C L O → Place C O → Prop
  | idle : At P Mid v m .idle .idle
  | waiting (c : C) : At P Mid v m (.waiting c) (.called c)
  | inside {c : C} {l : L} (h : Mid c v l m) : At P Mid v m (.inside (P.kind c) l) (.called c)
  | leaving (k : Kind) (o : O) : At P Mid v m (.leaving k o) (.answered o)
  | returning (o : O) : At P Mid v m (.returning o) (.answered o)

namespace At

variable {P : Program σ C L O} {Mid : C → α → L → σ → Prop} {v v' : α} {m m' : σ}
  {p : Pc C L O} {q : Place C O}

theorem eq_idle (h : At P Mid v m .idle q) : q = .idle := by
  cases h
  rfl

theorem eq_called {c : C} (h : At P Mid v m (.waiting c) q) : q = .called c := by
  cases h
  rfl

theorem exists_inside {k : Kind} {l : L} (h : At P Mid v m (.inside k l) q) :
    ∃ c, q = .called c ∧ P.kind c = k ∧ Mid c v l m := by
  cases h with
  | inside h => exact ⟨_, rfl, rfl, h⟩

theorem eq_answered {k : Kind} {o : O} (h : At P Mid v m (.leaving k o) q) : q = .answered o := by
  cases h
  rfl

theorem eq_answered_of_returning {o : O} (h : At P Mid v m (.returning o) q) :
    q = .answered o := by
  cases h
  rfl

/-- Who does not hold the lock does not see the memory. -/
theorem of_holds_eq_none (h : At P Mid v m p q) (hp : p.holds = none) : At P Mid v' m' p q := by
  cases h with
  | idle => exact .idle
  | waiting c => exact .waiting c
  | inside h => cases hp
  | leaving k o => cases hp
  | returning o => exact .returning o

end At

/-- Somebody is between two accesses to write. -/
def State.Writing (s : State ι σ C L O) : Prop := ∃ i l, s.pc i = .inside .write l

/-- The threads are where the callers of the object are. -/
structure Follows (P : Program σ C L O) (R : σ → α → Prop) (Mid : C → α → L → σ → Prop)
    (s : State ι σ C L O) (a : Object ι α C O) : Prop where
  exclusive : Exclusive s
  mem : ¬ s.Writing → R s.mem a.value
  place : ∀ i, At P Mid a.value s.mem (s.pc i) (a.place i)

namespace Follows

variable {P : Program σ C L O} {R : σ → α → Prop} {Mid : C → α → L → σ → Prop}
  {s : State ι σ C L O} {a : Object ι α C O}

/-- Where somebody may take the lock nobody is writing. -/
theorem mem_of_admits (h : Follows P R Mid s a) {k : Kind} (hlock : s.Admits k) :
    R s.mem a.value := by
  refine h.mem fun ⟨i, l, hi⟩ => ?_
  have hholds : (s.pc i).holds = some .write := by rw [hi]; rfl
  cases k with
  | read => exact hlock i hholds
  | write => rw [hlock i] at hholds; cases hholds

/-- Where somebody reads nobody is writing. -/
theorem mem_of_read (h : Follows P R Mid s a) {i : ι} {l : L} (hi : s.pc i = .inside .read l) :
    R s.mem a.value := by
  refine h.mem fun ⟨j, l', hj⟩ => ?_
  have hji : j = i := h.exclusive j i (by rw [hj]; rfl) (by rw [hi]; exact Option.some_ne_none _)
  rw [hji, hi] at hj
  cases hj

/-- What the others see when a thread has made an access. -/
theorem others (h : Follows P R Mid s a) {i : ι} {k : Kind} {l : L} (hi : s.pc i = .inside k l)
    {m : σ} {v : α} (hread : k = .read → m = s.mem ∧ v = a.value) :
    ∀ j, j ≠ i → At P Mid v m (s.pc j) (a.place j) := by
  intro j hj
  cases k with
  | read =>
      obtain ⟨rfl, rfl⟩ := hread rfl
      exact h.place j
  | write =>
      refine (h.place j).of_holds_eq_none ?_
      by_contra hholds
      exact hj (h.exclusive i j (by rw [hi]; rfl) hholds).symm

/-- A thread that does not touch the memory goes on, and its caller with it. -/
theorem go [DecidableEq ι] (h : Follows P R Mid s a) {i : ι} {p : Pc C L O} {q : Place C O}
    (hexclusive : Exclusive (s.go i p s.mem)) (hwrite : ∀ l, s.pc i ≠ .inside .write l)
    (hp : At P Mid a.value s.mem p q) :
    Follows P R Mid (s.go i p s.mem) (a.move i q a.value) where
  exclusive := hexclusive
  mem := fun hnone => h.mem fun ⟨j, l, hj⟩ => by
    have hji : j ≠ i := fun hji => hwrite l (hji ▸ hj)
    exact hnone ⟨j, l, by rw [State.go_pc, Function.update_of_ne hji, hj]⟩
  place := rel_update (fun k _ => h.place k) hp

end Follows

/-! ## linearizability -/

variable [DecidableEq ι] [Fintype ι] {P : Program σ C L O} {S : Spec α C O} {R : σ → α → Prop}
  {Mid : C → α → L → σ → Prop} {s s' : State ι σ C L O} {a : Object ι α C O}

/-- Every step of the threads is one that the atomic object may take: a call
is carried out by its last access. -/
theorem follows_step (hP : Implements P S R Mid) {l : Label ι C}
    (hstep : step P s l = some s') (h : Follows P R Mid s a) :
    ∃ b, Steps S a (seen s l) b ∧ Follows P R Mid s' b := by
  cases step_effect hstep with
  | @call i c hi =>
      have hplace := h.place i
      rw [hi] at hplace
      refine ⟨_, (Step.call c hplace.eq_idle).steps, h.go ?_ ?_ (.waiting c)⟩
      · exact h.exclusive.go (.inl rfl) s.mem
      · rw [hi]
        exact fun l hl => by cases hl
  | @acquire i c hi hlock =>
      have hplace := h.place i
      rw [hi] at hplace
      have hmid := hP.enter c s.mem a.value (h.mem_of_admits hlock)
      refine ⟨a, .refl a, h.exclusive.acquire hlock rfl s.mem,
        fun _ => h.mem_of_admits hlock, rel_update_left (fun k _ => h.place k) ?_⟩
      rw [hplace.eq_called]
      exact .inside hmid
  | @access i k l m r hi hr =>
      have hplace := h.place i
      rw [hi] at hplace
      obtain ⟨c, hc, rfl, hmid⟩ := hplace.exists_inside
      have hacts := hP.access c a.value l s.mem hmid
      rw [hr] at hacts
      have hexclusive : Exclusive (s.go i (after (P.kind c) r) m) :=
        h.exclusive.go (.inr (by rw [hi, holds_after]; rfl)) m
      cases r with
      | inl l' =>
          obtain ⟨hmid', hread⟩ := hacts
          refine ⟨a, .refl a, hexclusive, fun hnone => ?_,
            rel_update_left (h.others hi fun hk => ⟨hread hk, rfl⟩) ?_⟩
          · cases hk : P.kind c with
            | read =>
                rw [State.go_mem, hread hk]
                exact h.mem_of_read (hk ▸ hi)
            | write =>
                exact absurd ⟨i, l', by rw [State.go_pc, Function.update_self, hk]; rfl⟩ hnone
          · rw [hc]
            exact .inside hmid'
      | inr o =>
          obtain ⟨v', hv, hm, hread⟩ := hacts
          exact ⟨_, (Step.act hc hv).steps, hexclusive, fun _ => hm,
            rel_update (h.others hi hread) (.leaving _ o)⟩
  | @release i k o hi =>
      have hplace := h.place i
      rw [hi] at hplace
      have hfollows := h.go (i := i) (p := .returning o) (q := .answered o)
        (h.exclusive.go (.inl rfl) s.mem) (by rw [hi]; exact fun l hl => by cases hl)
        (.returning o)
      rw [← hplace.eq_answered, Object.move, Function.update_eq_self] at hfollows
      exact ⟨a, .refl a, hfollows⟩
  | @ret i o hi =>
      have hplace := h.place i
      rw [hi] at hplace
      refine ⟨a.move i .idle a.value, ?_, h.go ?_ ?_ .idle⟩
      · simp only [seen, hi]
        exact (Step.ret hplace.eq_answered_of_returning).steps
      · exact h.exclusive.go (.inl rfl) s.mem
      · rw [hi]
        exact fun l hl => by cases hl

/-- Whatever the threads do, they are where the callers of the atomic object
may be. -/
theorem follows_run (hP : Implements P S R Mid) {m : σ} {v : α} (hm : R m v)
    {ls : List (Label ι C)} {h : List (Event ι C O)}
    (hrun : run (recorded (step P) observe) (.fresh m, []) ls = some (s, h)) :
    ∃ a, Steps S (.fresh v) h a ∧ Follows P R Mid s a := by
  have hfresh : Follows P R Mid (.fresh m : State ι σ C L O) (.fresh v) :=
    ⟨fun _ _ hi => (by cases hi), fun _ => hm, fun _ => .idle⟩
  refine run_invariant (fun r : State ι σ C L O × List (Event ι C O) =>
    ∃ a, Steps S (.fresh v) r.2 a ∧ Follows P R Mid r.1 a) ?_ hrun ⟨_, .refl _, hfresh⟩
  rintro r l r' hstep ⟨a, ha, hfollows⟩
  obtain ⟨hs, hnote⟩ := recorded_eq_some.mp hstep
  obtain ⟨b, hb, hfollows'⟩ := follows_step hP hs hfollows
  exact ⟨b, hnote ▸ ha.trans hb, hfollows'⟩

/-- **Threads under a readers-writer lock are linearizable**, and where nobody
is writing the memory is what the object holds. -/
theorem linearizable (hP : Implements P S R Mid) {m : σ} {v : α} (hm : R m v)
    {ls : List (Label ι C)} {h : List (Event ι C O)}
    (hrun : run (recorded (step P) observe) (.fresh m, []) ls = some (s, h)) :
    ∃ v', Linearizes S v h v' ∧ (¬ s.Writing → R s.mem v') := by
  obtain ⟨a, ha, hfollows⟩ := follows_run hP hm hrun
  exact ⟨a.value, ⟨a, ha, rfl⟩, hfollows.mem⟩

/-- Where everybody has returned, so have the callers of the object. -/
theorem steps_of_idle (hP : Implements P S R Mid) {m : σ} {v : α} (hm : R m v)
    {ls : List (Label ι C)} {h : List (Event ι C O)}
    (hrun : run (recorded (step P) observe) (.fresh m, []) ls = some (s, h))
    (hidle : ∀ i, s.pc i = .idle) :
    ∃ a, Steps S (.fresh v) h a ∧ (∀ i, a.place i = .idle) ∧ R s.mem a.value := by
  obtain ⟨a, ha, hfollows⟩ := follows_run hP hm hrun
  refine ⟨a, ha, fun i => ?_, hfollows.mem fun ⟨i, l, hi⟩ => ?_⟩
  · have hplace := hfollows.place i
    rw [hidle i] at hplace
    exact hplace.eq_idle
  · rw [hidle i] at hi
    cases hi

end ReadersWriter
