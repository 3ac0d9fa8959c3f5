import CppFastDevelop.Lib.LockedSignal

/-!
# CppFastDevelop.Lib.Atomic

What the callers of a shared object see, and what they would see of an object
that carries out each call at one moment between the call and its return: a
history of the one `Linearizes` if it is one of the other.

Threads whose turns each either wait, changing nothing, or carry out their
call, have no other histories (`linearizable_of_monitor`,
`linearizable_of_lockedSignal`), whatever the order of turns, notifications
and wake-ups.
-/

namespace Atomic

open Machine

variable {ι α σ C L E O U : Type}

/-! ## the atomic object -/

/-- What is seen of an object: calls and their returns. -/
inductive Event (ι C O : Type)
  | call (i : ι) (c : C)
  | ret (i : ι) (o : O)
  deriving DecidableEq, Repr

/-- What a call may answer, and what it leaves behind. -/
abbrev Spec (α C O : Type) := α → C → O → α → Prop

/-- Where a caller is. -/
inductive Place (C O : Type)
  | idle
  | called (c : C)
  | answered (o : O)

/-- A value, and its callers. -/
structure Object (ι α C O : Type) where
  value : α
  place : ι → Place C O

namespace Object

/-- Nobody has called. -/
def fresh (v : α) : Object ι α C O := ⟨v, fun _ => .idle⟩

variable [DecidableEq ι]

/-- The caller `i` goes on, and leaves the value `v`. -/
def move (a : Object ι α C O) (i : ι) (p : Place C O) (v : α) : Object ι α C O :=
  ⟨v, Function.update a.place i p⟩

@[simp] theorem move_value (a : Object ι α C O) (i : ι) (p : Place C O) (v : α) :
    (a.move i p v).value = v := rfl

@[simp] theorem move_place (a : Object ι α C O) (i : ι) (p : Place C O) (v : α) :
    (a.move i p v).place = Function.update a.place i p := rfl

end Object

section Steps

variable [DecidableEq ι]

/-- A caller calls, its call is carried out, or it returns. -/
inductive Step (S : Spec α C O) :
    Object ι α C O → List (Event ι C O) → Object ι α C O → Prop
  | call {a : Object ι α C O} {i : ι} (c : C) (hi : a.place i = .idle) :
    Step S a [.call i c] (a.move i (.called c) a.value)
  | act {a : Object ι α C O} {i : ι} {c : C} {o : O} {v : α} (hi : a.place i = .called c)
      (hv : S a.value c o v) : Step S a [] (a.move i (.answered o) v)
  | ret {a : Object ι α C O} {i : ι} {o : O} (hi : a.place i = .answered o) :
    Step S a [.ret i o] (a.move i .idle a.value)

/-- Steps, and what is seen of them. -/
inductive Steps (S : Spec α C O) :
    Object ι α C O → List (Event ι C O) → Object ι α C O → Prop
  | refl (a : Object ι α C O) : Steps S a [] a
  | tail {a b c : Object ι α C O} {h es : List (Event ι C O)} (hab : Steps S a h b)
      (hbc : Step S b es c) : Steps S a (h ++ es) c

/-- The atomic object, with the value `v` to begin with, may have the history
`h` and be left with the value `v'`. -/
def Linearizes (S : Spec α C O) (v : α) (h : List (Event ι C O)) (v' : α) : Prop :=
  ∃ a, Steps S (.fresh v) h a ∧ a.value = v'

theorem Step.steps {S : Spec α C O} {a b : Object ι α C O} {es : List (Event ι C O)}
    (h : Step S a es b) : Steps S a es b := .tail (.refl a) h

theorem Steps.trans {S : Spec α C O} {a b c : Object ι α C O} {h h' : List (Event ι C O)}
    (hab : Steps S a h b) (hbc : Steps S b h' c) : Steps S a (h ++ h') c := by
  induction hbc with
  | refl => rwa [List.append_nil]
  | tail _ hstep ih =>
      rw [← List.append_assoc]
      exact .tail ih hstep

/-- What has been answered, and what has been returned. -/
theorem Steps.answers {S : Spec α C O} {Q : O → Prop} (hQ : ∀ v c o v', S v c o v' → Q o)
    {a b : Object ι α C O} {h : List (Event ι C O)} (hsteps : Steps S a h b)
    (ha : ∀ i o, a.place i = .answered o → Q o) :
    (∀ i o, b.place i = .answered o → Q o) ∧ ∀ i o, .ret i o ∈ h → Q o := by
  induction hsteps with
  | refl => exact ⟨ha, fun _ _ hmem => absurd hmem List.not_mem_nil⟩
  | @tail b c h es _ hstep ih =>
      obtain ⟨hb, hh⟩ := ih
      have hmove {i : ι} {p : Place C O} (hp : ∀ o, p = .answered o → Q o) :
          ∀ j o, Function.update b.place i p j = .answered o → Q o :=
        (Function.forall_update_iff b.place fun _ p => ∀ o, p = .answered o → Q o).mpr
          ⟨hp, fun j _ => hb j⟩
      have happend (hes : ∀ i o, .ret i o ∈ es → Q o) (i : ι) (o : O)
          (hmem : .ret i o ∈ h ++ es) : Q o :=
        (List.mem_append.mp hmem).elim (hh i o) (hes i o)
      cases hstep with
      | call c hi =>
          exact ⟨hmove fun _ hp => (by cases hp), happend fun _ _ hmem => by simp at hmem⟩
      | act hi hv =>
          refine ⟨hmove fun o hp => ?_, happend fun _ _ hmem => by simp at hmem⟩
          cases hp
          exact hQ _ _ _ _ hv
      | @ret i o hi =>
          refine ⟨hmove fun _ hp => (by cases hp), happend fun j o' hmem => ?_⟩
          obtain ⟨rfl, rfl⟩ : j = i ∧ o' = o := by simpa using hmem
          exact hb _ _ hi

/-- Every answer is one that the object gives. -/
theorem Linearizes.answers {S : Spec α C O} {Q : O → Prop} (hQ : ∀ v c o v', S v c o v' → Q o)
    {v v' : α} {h : List (Event ι C O)} (hlin : Linearizes S v h v') {i : ι} {o : O}
    (hmem : .ret i o ∈ h) : Q o := by
  obtain ⟨a, hsteps, -⟩ := hlin
  exact (hsteps.answers hQ fun _ _ hfresh => by cases hfresh).2 i o hmem

end Steps

/-! ## turns -/

open Monitor

/-- A turn of the call `c` waits, or carries it out. -/
def TurnActs (S : Spec α C O) (R : σ → α → Prop) (Ok : C → L → Prop) (v : α) (c : C) :
    σ × Turn L O → Prop
  | (m, .wait l) => Ok c l ∧ R m v
  | (m, .done _ o) => ∃ v', S v c o v' ∧ R m v'

/-- Every turn of a program does.  `R` says what the memory stands for, and
`Ok` which call the local variables of a waiting thread belong to. -/
structure Implements (P : Program σ C L E O) (S : Spec α C O) (R : σ → α → Prop)
    (Ok : C → L → Prop) : Prop where
  enter : ∀ c m v, R m v → TurnActs S R Ok v c (P.enter c m)
  resume : ∀ c l b e m v, Ok c l → R m v → TurnActs S R Ok v c (P.resume l b e m)

/-- One thread moves, and its caller with it. -/
theorem rel_update [DecidableEq ι] {X Y : Type} {Q : X → Y → Prop} {f : ι → X} {g : ι → Y}
    {i : ι} (h : ∀ k, k ≠ i → Q (f k) (g k)) {x : X} {y : Y} (hi : Q x y) (k : ι) :
    Q (Function.update f i x k) (Function.update g i y k) := by
  by_cases hk : k = i
  · subst hk
    rwa [Function.update_self, Function.update_self]
  · rw [Function.update_of_ne hk, Function.update_of_ne hk]
    exact h k hk

/-- One thread moves, and its callers do not see it. -/
theorem rel_update_left [DecidableEq ι] {X Y : Type} {Q : X → Y → Prop} {f : ι → X} {g : ι → Y}
    {i : ι} (h : ∀ k, k ≠ i → Q (f k) (g k)) {x : X} (hi : Q x (g i)) (k : ι) :
    Q (Function.update f i x k) (g k) := by
  have hk := rel_update h hi k
  rwa [Function.update_eq_self] at hk

/-! ## threads of `Lib.Monitor` -/

section Monitor

/-- What is seen of the end of a turn: a call that has nobody to notify
returns at once. -/
def seenOfTurn (i : ι) : Turn L O → List (Event ι C O)
  | .done .none o => [.ret i o]
  | _ => []

/-- What is seen of a step. -/
def seen (P : Program σ C L E O) (s : State ι σ L O) : Label ι C E → List (Event ι C O)
  | .enter i c => .call i c :: seenOfTurn i (P.enter c s.mem).2
  | .resume i e => match s.pc i with
    | .woken l b => seenOfTurn i (P.resume l b e s.mem).2
    | _ => []
  | .notify i _ => match s.pc i with
    | .notifying _ o => [.ret i o]
    | _ => []
  | .wake _ _ => []

/-- The history so far is kept beside the state. -/
def observe (P : Program σ C L E O) (h : List (Event ι C O)) (s : State ι σ L O)
    (a : Label ι C E) (_ : State ι σ L O) : List (Event ι C O) := h ++ seen P s a

/-- Where a thread is, seen from outside. -/
inductive At (Ok : C → L → Prop) : Pc L O → Place C O → Prop
  | idle : At Ok .idle .idle
  | asleep {c : C} {l : L} (h : Ok c l) : At Ok (.asleep l) (.called c)
  | woken {c : C} {l : L} (b : Bool) (h : Ok c l) : At Ok (.woken l b) (.called c)
  | notifying (n : Notify) (o : O) : At Ok (.notifying n o) (.answered o)

theorem At.eq_idle {Ok : C → L → Prop} {p : Place C O} (h : At Ok .idle p) : p = .idle := by
  cases h
  rfl

theorem At.eq_called {Ok : C → L → Prop} {p : Place C O} {l : L} {b : Bool}
    (h : At Ok (.woken l b) p) : ∃ c, p = .called c ∧ Ok c l := by
  cases h with
  | woken b h => exact ⟨_, rfl, h⟩

theorem At.eq_answered {Ok : C → L → Prop} {p : Place C O} {n : Notify} {o : O}
    (h : At Ok (.notifying n o) p) : p = .answered o := by
  cases h
  rfl

/-- A thread that is woken is as before to its callers. -/
theorem At.wake {Ok : C → L → Prop} {p : Place C O} {l : L} (h : At Ok (.asleep l) p)
    (b : Bool) : At Ok (.woken l b) p := by
  cases h with
  | asleep h => exact .woken b h

/-- The threads are where the callers of the object are. -/
structure Follows (R : σ → α → Prop) (Ok : C → L → Prop) (s : State ι σ L O)
    (a : Object ι α C O) : Prop where
  mem : R s.mem a.value
  place : ∀ i, At Ok (s.pc i) (a.place i)

variable [DecidableEq ι] {P : Program σ C L E O} {S : Spec α C O} {R : σ → α → Prop}
  {Ok : C → L → Prop} {s s' : State ι σ L O} {a : Object ι α C O}

/-- A turn of a caller. -/
theorem follows_take {i : ι} {c : C} {r : σ × Turn L O}
    (h : ∀ k, k ≠ i → At Ok (s.pc k) (a.place k)) (hi : a.place i = .called c)
    (hr : TurnActs S R Ok a.value c r) :
    ∃ b, Steps S a (seenOfTurn i r.2) b ∧ Follows R Ok (s.take i r) b := by
  obtain ⟨m, t⟩ := r
  cases t with
  | wait l => exact ⟨a, .refl a, hr.2, rel_update_left h (by rw [hi]; exact .asleep hr.1)⟩
  | done n o =>
      obtain ⟨v, hv, hm⟩ := hr
      have hact : Steps S a [] (a.move i (.answered o) v) := (Step.act hi hv).steps
      cases n with
      | none =>
          refine ⟨_, hact.trans (Step.ret (Function.update_self ..)).steps, hm, fun k => ?_⟩
          simp only [Object.move_place, Function.update_idem]
          exact rel_update h .idle k
      | one => exact ⟨_, hact, hm, rel_update h (.notifying .one o)⟩
      | all => exact ⟨_, hact, hm, rel_update h (.notifying .all o)⟩

variable [Fintype ι]

/-- Every step of the threads is one that the atomic object may take. -/
theorem follows_step (hP : Implements P S R Ok) {l : Label ι C E}
    (hstep : Monitor.step P s l = some s') (h : Follows R Ok s a) :
    ∃ b, Steps S a (seen P s l) b ∧ Follows R Ok s' b := by
  have hothers (i : ι) : ∀ k, k ≠ i → At Ok (s.pc k) (a.place k) := fun k _ => h.place k
  have hret {i : ι} {n : Notify} {o : O} (hi : s.pc i = .notifying n o) (target : Option ι) :
      Steps S a (seen P s (.notify i target)) (a.move i .idle a.value) := by
    simp only [seen, hi]
    exact (Step.ret (hi ▸ h.place i).eq_answered).steps
  rcases step_cases hstep with ⟨i, c, rfl, hi, rfl⟩ | ⟨i, e, l, b, rfl, hi, rfl⟩ |
    ⟨i, o, j, l, rfl, hi, hj, rfl⟩ | ⟨i, o, rfl, hi, -, rfl⟩ | ⟨i, o, rfl, hi, rfl⟩ |
    ⟨i, l, b, rfl, hi, rfl⟩
  · obtain ⟨b, hb, hfollows⟩ := follows_take (a := a.move i (.called c) a.value) (s := s)
      (fun k hk => by rw [Object.move_place, Function.update_of_ne hk]; exact h.place k)
      (Function.update_self ..) (hP.enter c s.mem a.value h.mem)
    exact ⟨b, (Step.call c (hi ▸ h.place i).eq_idle).steps.trans hb, hfollows⟩
  · obtain ⟨c, hc, hok⟩ := (hi ▸ h.place i).eq_called
    obtain ⟨b', hb, hfollows⟩ := follows_take (hothers i) hc
      (hP.resume c l b e s.mem a.value hok h.mem)
    refine ⟨b', ?_, hfollows⟩
    simp only [seen, hi]
    exact hb
  · refine ⟨_, hret hi (some j), h.mem, rel_update (fun k _ => ?_) .idle⟩
    exact rel_update_left (hothers j) ((hj ▸ h.place j).wake true) k
  · exact ⟨_, hret hi none, h.mem, rel_update (hothers i) .idle⟩
  · refine ⟨_, hret hi none, h.mem, rel_update (fun k _ => ?_) .idle⟩
    have hk := h.place k
    split
    · next l heq =>
        rw [heq] at hk
        exact hk.wake true
    · exact hk
  · exact ⟨a, .refl a, h.mem, rel_update_left (hothers i) ((hi ▸ h.place i).wake b)⟩

/-- **Threads whose turns act are linearizable**: what their callers see of a
run is what they would see of the atomic object. -/
theorem linearizable_of_monitor (hP : Implements P S R Ok) {m : σ} {v : α} (hm : R m v)
    {ls : List (Label ι C E)} {h : List (Event ι C O)}
    (hrun : run (recorded (Monitor.step P) (observe P)) (⟨m, fun _ => .idle⟩, []) ls =
      some (s, h)) : ∃ v', Linearizes S v h v' ∧ R s.mem v' := by
  have hinv : ∃ a, Steps S (.fresh v) h a ∧ Follows R Ok s a := by
    refine run_invariant (fun r : State ι σ L O × List (Event ι C O) =>
      ∃ a, Steps S (.fresh v) r.2 a ∧ Follows R Ok r.1 a) ?_ hrun
      ⟨_, .refl _, hm, fun _ => .idle⟩
    rintro r l r' hstep ⟨a, ha, hfollows⟩
    obtain ⟨hs, hnote⟩ := recorded_eq_some.mp hstep
    obtain ⟨b, hb, hfollows'⟩ := follows_step hP hs hfollows
    exact ⟨b, hnote ▸ ha.trans hb, hfollows'⟩
  obtain ⟨a, ha, hfollows⟩ := hinv
  exact ⟨a.value, ⟨a, ha, rfl⟩, hfollows.mem⟩

end Monitor

/-! ## threads of `Lib.LockedSignal` -/

section LockedSignal

open LockedSignal (Taken)

/-- Calls under the mutex, and writes of a word without it. -/
def withWrites (S : Spec α C O) (W : α → U → α → Prop) : Spec α (C ⊕ U) (O ⊕ Unit)
  | v, .inl c, .inl o, v' => S v c o v'
  | v, .inr u, .inr (), v' => W v u v'
  | _, _, _, _ => False

/-- What is seen of a turn: the notification does not hold up the return. -/
def seenAtOnce (i : ι) : Turn L O → List (Event ι (C ⊕ U) (O ⊕ Unit))
  | .done _ o => [.ret i (.inl o)]
  | .wait _ => []

/-- What is seen of a step.  A request that writes without the mutex is seen
word by word. -/
def seenLocked (P : Program σ C L E O) (s : LockedSignal.State ι σ L U) :
    LockedSignal.Label ι C E U → List (Event ι (C ⊕ U) (O ⊕ Unit))
  | .enter i c _ => .call i (.inl c) :: seenAtOnce i (P.enter c s.mem).2
  | .resume i e _ => match s.pc i with
    | .woken l b => seenAtOnce i (P.resume l b e s.mem).2
    | _ => []
  | .write i => match s.pc i with
    | .writing u => [.call i (.inr u), .ret i (.inr ())]
    | _ => []
  | .park _ | .wake _ _ | .stop _ _ | .broadcast _ => []

def observeLocked (P : Program σ C L E O) (h : List (Event ι (C ⊕ U) (O ⊕ Unit)))
    (s : LockedSignal.State ι σ L U) (a : LockedSignal.Label ι C E U)
    (_ : LockedSignal.State ι σ L U) : List (Event ι (C ⊕ U) (O ⊕ Unit)) :=
  h ++ seenLocked P s a

/-- Where a thread is, seen from outside. -/
inductive Stands (Ok : C → L → Prop) :
    LockedSignal.Pc L U → Place (C ⊕ U) (O ⊕ Unit) → Prop
  | idle : Stands Ok .idle .idle
  | parking {c : C} {l : L} (h : Ok c l) : Stands Ok (.parking l) (.called (.inl c))
  | asleep {c : C} {l : L} (h : Ok c l) : Stands Ok (.asleep l) (.called (.inl c))
  | woken {c : C} {l : L} (b : Bool) (h : Ok c l) : Stands Ok (.woken l b) (.called (.inl c))
  | writing (u : U) : Stands Ok (.writing u) .idle
  | broadcasting : Stands Ok .broadcasting .idle

namespace Stands

variable {Ok : C → L → Prop} {p : Place (C ⊕ U) (O ⊕ Unit)} {l : L} {b : Bool}

theorem eq_idle (h : Stands Ok .idle p) : p = .idle := by
  cases h
  rfl

theorem eq_called (h : Stands Ok (.woken l b) p) : ∃ c, p = .called (.inl c) ∧ Ok c l := by
  cases h with
  | woken b h => exact ⟨_, rfl, h⟩

theorem park (h : Stands Ok (.parking l) p) : Stands Ok (.asleep l) p := by
  cases h with
  | parking h => exact .asleep h

theorem wake (h : Stands Ok (.asleep l) p) (b : Bool) : Stands Ok (.woken l b) p := by
  cases h with
  | asleep h => exact .woken b h

theorem eq_idle_of_writing {u : U} (h : Stands Ok (.writing u) p) : p = .idle := by
  cases h
  rfl

theorem eq_idle_of_broadcasting (h : Stands Ok .broadcasting p) : p = .idle := by
  cases h
  rfl

theorem rouse {q : LockedSignal.Pc L U} (h : Stands Ok q p) : Stands Ok q.rouse p := by
  cases h with
  | asleep h => exact .woken true h
  | idle => exact .idle
  | parking h => exact .parking h
  | woken b h => exact .woken b h
  | writing u => exact .writing u
  | broadcasting => exact .broadcasting

end Stands

/-- The threads are where the callers of the object are. -/
structure Attends (R : σ → α → Prop) (Ok : C → L → Prop) (s : LockedSignal.State ι σ L U)
    (a : Object ι α (C ⊕ U) (O ⊕ Unit)) : Prop where
  mem : R s.mem a.value
  place : ∀ i, Stands Ok (s.pc i) (a.place i)

variable [DecidableEq ι] {P : Program σ C L E O} {S : Spec α C O} {W : α → U → α → Prop}
  {next : U → σ → σ × Option U} {R : σ → α → Prop} {Ok : C → L → Prop}
  {s s' : LockedSignal.State ι σ L U} {a : Object ι α (C ⊕ U) (O ⊕ Unit)}

/-- A turn of a caller. -/
theorem attends_taken {i : ι} {c : C} {target : Option ι} {r : σ × Turn L O}
    (h : ∀ k, k ≠ i → Stands Ok (s.pc k) (a.place k)) (hi : a.place i = .called (.inl c))
    (hr : TurnActs S R Ok a.value c r) (htaken : Taken s i target r s') :
    ∃ b, Steps (withWrites S W) a (seenAtOnce i r.2) b ∧ Attends R Ok s' b := by
  have hact {o : O} {v : α} (hv : S a.value c o v) :
      Steps (withWrites S W) a [.ret i (.inl o)] (a.move i .idle v) := by
    have hret := (Step.act (S := withWrites S W) (o := .inl o) hi hv).steps.trans
      (Step.ret (Function.update_self ..)).steps
    simpa only [Object.move, Function.update_idem, List.nil_append] using hret
  cases htaken with
  | wait => exact ⟨a, .refl a, hr.2, rel_update_left h (by rw [hi]; exact .parking hr.1)⟩
  | done =>
      obtain ⟨v, hv, hm⟩ := hr
      exact ⟨_, hact hv, hm, rel_update h .idle⟩
  | @signal m o j l hj =>
      obtain ⟨v, hv, hm⟩ := hr
      refine ⟨_, hact hv, hm, rel_update (fun k hk => ?_) .idle⟩
      by_cases hkj : k = j
      · subst hkj
        rw [Function.update_self]
        exact (hj ▸ h k hk).wake true
      · rw [Function.update_of_ne hkj]
        exact h k hk
  | signalNobody =>
      obtain ⟨v, hv, hm⟩ := hr
      exact ⟨_, hact hv, hm, rel_update h .idle⟩
  | broadcast =>
      obtain ⟨v, hv, hm⟩ := hr
      exact ⟨_, hact hv, hm, rel_update (fun k hk => (h k hk).rouse) .idle⟩

variable [Fintype ι]

theorem attends_step (hP : Implements P S R Ok)
    (hW : ∀ u m v, R m v → ∃ v', W v u v' ∧ R (next u m).1 v')
    {l : LockedSignal.Label ι C E U} (hstep : LockedSignal.step P next s l = some s')
    (h : Attends R Ok s a) :
    ∃ b, Steps (withWrites S W) a (seenLocked P s l) b ∧ Attends R Ok s' b := by
  have hothers (i : ι) : ∀ k, k ≠ i → Stands Ok (s.pc k) (a.place k) := fun k _ => h.place k
  cases LockedSignal.step_effect hstep with
  | @enter i c target s' hi hfree htaken =>
      obtain ⟨b, hb, hattends⟩ := attends_taken (a := a.move i (.called (.inl c)) a.value)
        (W := W) (fun k hk => by rw [Object.move_place, Function.update_of_ne hk]; exact h.place k)
        (Function.update_self ..) (hP.enter c s.mem a.value h.mem) htaken
      exact ⟨b, (Step.call _ (hi ▸ h.place i).eq_idle).steps.trans hb, hattends⟩
  | @resume i e l b target s' hi hfree htaken =>
      obtain ⟨c, hc, hok⟩ := (hi ▸ h.place i).eq_called
      obtain ⟨b', hb, hattends⟩ := attends_taken (W := W) (hothers i) hc
        (hP.resume c l b e s.mem a.value hok h.mem) htaken
      refine ⟨b', ?_, hattends⟩
      simp only [seenLocked, hi]
      exact hb
  | @park i l hi =>
      exact ⟨a, .refl a, h.mem, rel_update_left (hothers i) (hi ▸ h.place i).park⟩
  | @wake i l b hi =>
      exact ⟨a, .refl a, h.mem, rel_update_left (hothers i) ((hi ▸ h.place i).wake b)⟩
  | @stop i u hi =>
      refine ⟨a, .refl a, h.mem, rel_update_left (hothers i) ?_⟩
      have hat := h.place i
      rw [hi] at hat
      rw [hat.eq_idle]
      exact .writing u
  | @write i u hi =>
      have hidle := (hi ▸ h.place i).eq_idle_of_writing
      obtain ⟨v, hv, hm⟩ := hW u s.mem a.value h.mem
      refine ⟨a.move i .idle v, ?_, hm, rel_update (hothers i) ?_⟩
      · have hcall := (Step.call (S := withWrites S W) (.inr u) hidle).steps
        have hact := hcall.trans (Step.act (o := .inr ()) (Function.update_self ..) hv).steps
        have hret := hact.trans (Step.ret (Function.update_self ..)).steps
        simp only [seenLocked, hi]
        simpa only [Object.move, Function.update_idem, List.append_nil, List.singleton_append]
          using hret
      · cases (next u s.mem).2 with
        | none => exact .broadcasting
        | some u' => exact .writing u'
  | @broadcast i hi =>
      have hidle := (hi ▸ h.place i).eq_idle_of_broadcasting
      refine ⟨a, .refl a, h.mem, rel_update_left (fun k _ => (h.place k).rouse) ?_⟩
      rw [hidle]
      exact .idle

/-- The same for threads that notify before they release the mutex, beside
requests that write without it. -/
theorem linearizable_of_lockedSignal (hP : Implements P S R Ok)
    (hW : ∀ u m v, R m v → ∃ v', W v u v' ∧ R (next u m).1 v') {m : σ} {v : α} (hm : R m v)
    {ls : List (LockedSignal.Label ι C E U)} {h : List (Event ι (C ⊕ U) (O ⊕ Unit))}
    (hrun : run (recorded (LockedSignal.step P next) (observeLocked P))
      (⟨m, fun _ => .idle⟩, []) ls = some (s, h)) :
    ∃ v', Linearizes (withWrites S W) v h v' ∧ R s.mem v' := by
  have hinv : ∃ a, Steps (withWrites S W) (.fresh v) h a ∧ Attends R Ok s a := by
    refine run_invariant (fun r : LockedSignal.State ι σ L U × List (Event ι (C ⊕ U) (O ⊕ Unit)) =>
      ∃ a, Steps (withWrites S W) (.fresh v) r.2 a ∧ Attends R Ok r.1 a) ?_ hrun
      ⟨_, .refl _, hm, fun _ => .idle⟩
    rintro r l r' hstep ⟨a, ha, hattends⟩
    obtain ⟨hs, hnote⟩ := recorded_eq_some.mp hstep
    obtain ⟨b, hb, hattends'⟩ := attends_step hP hW hs hattends
    exact ⟨b, hnote ▸ ha.trans hb, hattends'⟩
  obtain ⟨a, ha, hattends⟩ := hinv
  exact ⟨a.value, ⟨a, ha, rfl⟩, hattends.mem⟩

end LockedSignal

end Atomic
