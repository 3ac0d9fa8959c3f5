import CppFastDevelop.Lib.LockedSignal
import CppFastDevelop.Lib.Machine

/-!
# CppFastDevelop.Lib.StopBroadcast

Requests that set a flag without the mutex and then broadcast, as the
programs of `Lib.LockedSignal` make them.  A thread that waits only while the
flag is not set is reached by the broadcast if it sleeps by then; it is missed
if it has decided to wait and still holds the mutex.

`Awake` is what such requests are for: once the flag is set and no broadcast
is to come, nobody sleeps or is about to.  A step keeps it as long as nobody
decides to wait after the flag is set, and the last broadcast to come does
not fall between a thread's decision and its sleep (`awake_step`).
-/

namespace LockedSignal

open Monitor Machine

variable {ι σ C L E O U : Type}

/-! ## places -/

namespace Pc

/-- A request that has still to broadcast. -/
def isStopping : Pc L U → Bool
  | .writing _ => true
  | .broadcasting => true
  | _ => false

/-- Asleep, or about to be. -/
def isWaiting (p : Pc L U) : Bool := p.isAsleep || p.isParking

@[simp] theorem isWaiting_idle : (idle : Pc L U).isWaiting = false := rfl

@[simp] theorem isWaiting_woken (l : L) (b : Bool) : (woken l b : Pc L U).isWaiting = false := rfl

@[simp] theorem isWaiting_writing (u : U) : (writing u : Pc L U).isWaiting = false := rfl

@[simp] theorem isStopping_asleep (l : L) : (asleep l : Pc L U).isStopping = false := rfl

@[simp] theorem isStopping_broadcasting : (broadcasting : Pc L U).isStopping = true := rfl

@[simp] theorem isStopping_rouse (p : Pc L U) : p.rouse.isStopping = p.isStopping := by
  cases p <;> rfl

@[simp] theorem isParking_rouse (p : Pc L U) : p.rouse.isParking = p.isParking := by
  cases p <;> rfl

@[simp] theorem isWaiting_rouse (p : Pc L U) : p.rouse.isWaiting = p.isParking := by
  cases p <;> rfl

@[simp] theorem rouse_eq_broadcasting {p : Pc L U} : p.rouse = broadcasting ↔ p = broadcasting := by
  cases p <;> simp [rouse]

theorem isWaiting_eq_false {p : Pc L U} :
    p.isWaiting = false ↔ p.isAsleep = false ∧ p.isParking = false := by
  simp [isWaiting]

end Pc

/-- A broadcast is to come. -/
def State.StopPending (s : State ι σ L U) : Prop := ∃ i, (s.pc i).isStopping = true

instance [Fintype ι] (s : State ι σ L U) : Decidable s.StopPending :=
  inferInstanceAs (Decidable (∃ i, (s.pc i).isStopping = true))

/-- Who is about to broadcast has set the flag. -/
def State.Flagged (flag : σ → Bool) (s : State ι σ L U) : Prop :=
  ∀ i, s.pc i = .broadcasting → flag s.mem = true

/-- Once the flag is set and no broadcast is to come, nobody sleeps or is
about to. -/
def State.Awake (flag : σ → Bool) (s : State ι σ L U) : Prop :=
  flag s.mem = true → (∀ i, (s.pc i).isStopping = false) → ∀ i, (s.pc i).isWaiting = false

/-- What is asked of the flag: calls leave it alone, and a request sets it
before it broadcasts and never clears it. -/
structure StopFlag (flag : σ → Bool) (P : Program σ C L E O) (next : U → σ → σ × Option U) :
    Prop where
  enter : ∀ c m, flag (P.enter c m).1 = flag m
  resume : ∀ l b e m, flag (P.resume l b e m).1 = flag m
  write : ∀ u m, flag m = true → flag (next u m).1 = true
  last : ∀ u m, (next u m).2 = none → flag (next u m).1 = true

/-! ## conditions on a step -/

/-- Nobody decides to wait once the flag is set. -/
def WaitsBefore (flag : σ → Bool) (P : Program σ C L E O) (s : State ι σ L U) :
    Label ι C E U → Prop
  | .enter _ c _ => flag s.mem = true → ∀ l, (P.enter c s.mem).2 ≠ .wait l
  | .resume i e _ =>
    flag s.mem = true → ∀ l b, s.pc i = .woken l b → ∀ l', (P.resume l b e s.mem).2 ≠ .wait l'
  | _ => True

/-- The last broadcast to come is made while nobody is between the decision
to wait and the sleep. -/
def BroadcastsFree (s : State ι σ L U) : Label ι C E U → Prop
  | .broadcast i => (∀ j, j ≠ i → (s.pc j).isStopping = false) → s.Free
  | _ => True

instance [DecidableEq ι] [Fintype ι] (s : State ι σ L U) :
    DecidablePred (BroadcastsFree s : Label ι C E U → Prop)
  | .broadcast i =>
    inferInstanceAs (Decidable ((∀ j, j ≠ i → (s.pc j).isStopping = false) → s.Free))
  | .enter _ _ _ | .resume _ _ _ | .park _ | .wake _ _ | .stop _ _ | .write _ => isTrue trivial

/-! ## steps -/

section Steps

variable [DecidableEq ι] {flag : σ → Bool} {P : Program σ C L E O} {next : U → σ → σ × Option U}
  {s s' : State ι σ L U} {a : Label ι C E U} {i k : ι} {m : σ} {r : σ × Turn L O}
  {target : Option ι}

omit [DecidableEq ι] in
theorem State.not_stopPending : ¬ s.StopPending ↔ ∀ i, (s.pc i).isStopping = false := by
  simp [State.StopPending]

theorem mem_of_taken (htaken : Taken s i target r s') : s'.mem = r.1 := by
  cases htaken <;> rfl

/-- A turn ends no request. -/
theorem isStopping_of_taken (htaken : Taken s i target r s') (hi : (s.pc i).isStopping = false)
    (hk : (s.pc k).isStopping = true) : (s'.pc k).isStopping = true := by
  have hki : k ≠ i := fun heq => by rw [heq, hi] at hk; cases hk
  cases htaken with
  | @signal m o j l hj =>
      have hkj : k ≠ j := fun heq => by rw [heq, hj] at hk; cases hk
      simpa [hki, hkj] using hk
  | _ => simpa [hki] using hk

/-- A turn brings nobody before a broadcast. -/
theorem broadcasting_of_taken (htaken : Taken s i target r s')
    (hk : s'.pc k = .broadcasting) : s.pc k = .broadcasting := by
  cases htaken <;> grind [Function.update_apply, Pc.rouse_eq_broadcasting]

/-! ### the flag -/

/-- No step clears the flag. -/
theorem flag_step [Fintype ι] (hflag : StopFlag flag P next) (hstep : step P next s a = some s')
    (h : flag s.mem = true) : flag s'.mem = true := by
  cases step_effect hstep with
  | enter _ _ htaken => rw [mem_of_taken htaken, hflag.enter, h]
  | resume _ _ htaken => rw [mem_of_taken htaken, hflag.resume, h]
  | write => exact hflag.write _ _ h
  | _ => exact h

theorem flagged_step [Fintype ι] (hflag : StopFlag flag P next)
    (hstep : step P next s a = some s') (h : s.Flagged flag) : s'.Flagged flag := by
  intro k hk
  cases step_effect hstep with
  | @write i u hi =>
      by_cases hki : k = i
      · simp only [hki, Function.update_self] at hk
        cases hnext : (next u s.mem).2 with
        | none => exact hflag.last u s.mem hnext
        | some u' => rw [hnext] at hk; cases hk
      · simp only [Function.update_of_ne hki] at hk
        exact hflag.write u s.mem (h k hk)
  | enter _ _ htaken =>
      exact flag_step hflag hstep (h k (broadcasting_of_taken htaken hk))
  | resume _ _ htaken =>
      exact flag_step hflag hstep (h k (broadcasting_of_taken htaken hk))
  | _ => exact h k (by grind [Function.update_apply, Pc.rouse_eq_broadcasting])

/-- A step that sets the flag leaves a broadcast to come, and it takes a
broadcast to end a request. -/
theorem stopPending_step [Fintype ι] (hflag : StopFlag flag P next)
    (hstep : step P next s a = some s') (ha : ∀ i, a ≠ .broadcast i)
    (h : flag s.mem = true → s.StopPending) : flag s'.mem = true → s'.StopPending := by
  have hmove {m : σ} {j : ι} {x : Pc L U} (hj : (s.pc j).isStopping = false) :
      s.StopPending → State.StopPending ⟨m, Function.update s.pc j x⟩ := fun ⟨k, hk⟩ => by
    have hkj : k ≠ j := fun heq => by rw [heq, hj] at hk; cases hk
    exact ⟨k, by simpa [hkj] using hk⟩
  have htake {r : σ × Turn L O} {target : Option ι} {j : ι} (hj : (s.pc j).isStopping = false)
      (hr : flag r.1 = flag s.mem) (htaken : Taken s j target r s') :
      flag s'.mem = true → s'.StopPending := fun hset => by
    rw [mem_of_taken htaken, hr] at hset
    obtain ⟨k, hk⟩ := h hset
    exact ⟨k, isStopping_of_taken htaken hj hk⟩
  cases step_effect hstep with
  | enter hi _ htaken => exact htake (by rw [hi]; rfl) (hflag.enter _ _) htaken
  | resume hi _ htaken => exact htake (by rw [hi]; rfl) (hflag.resume _ _ _ _) htaken
  | park hi => exact fun hset => hmove (by rw [hi]; rfl) (h hset)
  | wake hi => exact fun hset => hmove (by rw [hi]; rfl) (h hset)
  | stop hi => exact fun hset => hmove (by rw [hi]; rfl) (h hset)
  | @write i u hi =>
      refine fun _ => ⟨i, ?_⟩
      simp only [Function.update_self]
      cases (next u s.mem).2 <;> rfl
  | broadcast => exact absurd rfl (ha _)

/-! ### sleepers -/

/-- One thread moves. -/
theorem State.Awake.update (h : s.Awake flag) {x : Pc L U} (hflag : flag m = flag s.mem)
    (hstopping : (s.pc i).isStopping = false)
    (hwaiting : x.isWaiting = true → (s.pc i).isWaiting = true ∨ flag m = false) :
    State.Awake flag ⟨m, Function.update s.pc i x⟩ := by
  intro hset hnone k
  simp only at hset hnone ⊢
  have hold (j : ι) : (s.pc j).isStopping = false := by
    have hj := hnone j
    grind [Function.update_apply]
  have hawake := h (hflag.symm.trans hset) hold
  have hi := hawake i
  have hk := hawake k
  grind [Function.update_apply]

omit [DecidableEq ι] in
/-- Everybody who sleeps is woken. -/
theorem State.Awake.rouse (h : s.Awake flag) (hflag : flag m = flag s.mem) :
    State.Awake flag ⟨m, fun j => (s.pc j).rouse⟩ := by
  intro hset hnone k
  simp only [Pc.isStopping_rouse] at hset hnone
  simp only [Pc.isWaiting_rouse]
  exact (Pc.isWaiting_eq_false.mp (h (hflag.symm.trans hset) hnone k)).2

/-- A turn of a thread that waits only while the flag is not set. -/
theorem State.Awake.take (h : s.Awake flag) (hi : (s.pc i).isStopping = false)
    (hflag : flag r.1 = flag s.mem) (hwait : flag s.mem = true → ∀ l, r.2 ≠ .wait l)
    (htaken : Taken s i target r s') : s'.Awake flag := by
  cases htaken with
  | @wait m l _ =>
      have hclear : flag m = false := by
        rw [hflag, Bool.eq_false_iff]
        exact fun hset => hwait hset l rfl
      exact h.update hflag hi fun _ => .inr hclear
  | done => exact h.update hflag hi (by simp)
  | @signal m o j l hj =>
      have hwoken : State.Awake flag ⟨m, Function.update s.pc j (.woken l true)⟩ :=
        h.update hflag (by rw [hj, Pc.isStopping_asleep]) (by simp)
      have hi' : (Function.update s.pc j (.woken l true) i).isStopping = false := by
        by_cases hij : i = j
        · rw [hij, Function.update_self]; rfl
        · rw [Function.update_of_ne hij, hi]
      exact hwoken.update rfl hi' (by simp)
  | signalNobody => exact h.update hflag hi (by simp)
  | broadcast => exact (h.rouse hflag).update rfl (by simpa using hi) (by simp)

/-- After the last broadcast only those wait who were about to sleep. -/
theorem isWaiting_broadcast (hlast : ∀ j, j ≠ i → (s.pc j).isStopping = false)
    (hi : s.pc i = .broadcasting) :
    (∀ j, (Function.update (fun j => (s.pc j).rouse) i .idle j).isStopping = false) ∧
      ∀ k, (Function.update (fun j => (s.pc j).rouse) i .idle k).isWaiting =
        (s.pc k).isParking := by
  constructor
  · intro j
    by_cases hji : j = i
    · rw [hji, Function.update_self]; rfl
    · rw [Function.update_of_ne hji, Pc.isStopping_rouse, hlast j hji]
  · intro k
    by_cases hki : k = i
    · rw [hki, Function.update_self, hi]; rfl
    · rw [Function.update_of_ne hki, Pc.isWaiting_rouse]

/-- One step. -/
theorem awake_step [Fintype ι] (hflag : StopFlag flag P next) (hstep : step P next s a = some s')
    (hwait : WaitsBefore flag P s a) (hfree : BroadcastsFree s a) (h : s.Awake flag) :
    s'.Awake flag := by
  cases step_effect hstep with
  | enter hi _ htaken => exact h.take (by rw [hi]; rfl) (hflag.enter _ _) hwait htaken
  | resume hi _ htaken =>
      exact h.take (by rw [hi]; rfl) (hflag.resume _ _ _ _) (fun hset => hwait hset _ _ hi) htaken
  | park hi => exact h.update rfl (by rw [hi]; rfl) fun _ => .inl (by rw [hi]; rfl)
  | wake hi => exact h.update rfl (by rw [hi]; rfl) (by simp)
  | stop hi => exact h.update rfl (by rw [hi]; rfl) (by simp)
  | @write i u hi =>
      -- the broadcast of this request is still to come
      intro _ hnone
      have hi' := hnone i
      simp only [Function.update_self] at hi'
      cases hnext : (next u s.mem).2 <;> rw [hnext] at hi' <;> cases hi'
  | @broadcast i hi =>
      intro _ hnone k
      have hlast (j : ι) (hj : j ≠ i) : (s.pc j).isStopping = false := by
        have hj' := hnone j
        simpa [hj] using hj'
      exact ((isWaiting_broadcast hlast hi).2 k).trans (hfree hlast k)

/-- Conversely, a broadcast after which nobody sleeps or is about to was made
while nobody was about to. -/
theorem broadcastsFree_of_awake [Fintype ι] (hstep : step P next s a = some s')
    (h : s.Flagged flag) (h' : s'.Awake flag) : BroadcastsFree s a := by
  cases step_effect hstep with
  | @broadcast i hi =>
      intro hlast k
      obtain ⟨hnone, hwaiting⟩ := isWaiting_broadcast hlast hi
      exact (hwaiting k).symm.trans (h' (h i hi) hnone k)
  | _ => trivial

end Steps

/-! ## runs -/

section Runs

variable [DecidableEq ι] [Fintype ι] {flag : σ → Bool} {P : Program σ C L E O}
  {next : U → σ → σ × Option U} {s s' : State ι σ L U} {as : List (Label ι C E U)}

/-- A request that has completed has set the flag. -/
theorem flag_of_mem_broadcast (hflag : StopFlag flag P next)
    (hrun : run (step P next) s as = some s') (h : s.Flagged flag) {i : ι}
    (hi : .broadcast i ∈ as) : flag s'.mem = true := by
  obtain ⟨bs, cs, rfl⟩ := List.append_of_mem hi
  obtain ⟨t, hbs, hcs⟩ := run_append_eq_some.mp hrun
  obtain ⟨t', hstep, hcs⟩ := run_cons_eq_some.mp hcs
  have ht : t.Flagged flag :=
    run_invariant (State.Flagged flag) (fun _ _ _ => flagged_step hflag) hbs h
  have hset : flag t.mem = true := by
    cases step_effect hstep with
    | broadcast hi => exact ht i hi
  exact run_invariant (fun t => flag t.mem = true) (fun _ _ _ => flag_step hflag) hcs
    (flag_step hflag hstep hset)

/-- The flag is set by requests only. -/
theorem exists_broadcast_of_flag (hflag : StopFlag flag P next)
    (hrun : run (step P next) s as = some s') (h : flag s.mem = false)
    (hset : flag s'.mem = true) (hnone : ¬ s'.StopPending) : ∃ i, .broadcast i ∈ as := by
  refine Classical.byContradiction fun hmem => hnone ?_
  have hne : ∀ a ∈ as, ∀ i, a ≠ .broadcast i := fun a ha i heq => hmem ⟨i, heq ▸ ha⟩
  exact run_invariant_along (fun t => flag t.mem = true → t.StopPending)
    (fun _ _ _ ha hstep => stopPending_step hflag hstep ha)
    (along_of_forall_mem (step P next) hne s) hrun (by simp [h]) hset

end Runs

end LockedSignal
