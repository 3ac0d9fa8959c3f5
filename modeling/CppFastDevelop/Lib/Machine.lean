/-!
# CppFastDevelop.Lib.Machine

Runs of two kinds of machines.

A *service* answers every input: `answers` is the list of its answers and
`after` the state they leave.  Two services that keep a relation between
their states while answering alike are not to be told apart by any run
(`answers_eq_of_simulation`).

A *labelled* machine takes a step only where it is enabled: `run` folds a
partial step over a list of labels.  Invariants are lifted from steps to
runs once, here; `Along` says that a condition holds of every step a run
takes, and `run_invariant_along` lifts invariants whose step needs it.

This module depends only on the Lean 4 core library.
-/

namespace Machine

/-! ## services -/

section Service

variable {σ τ ι ο : Type}

/-- The answers of a service to a list of inputs. -/
def answers (f : σ → ι → ο × σ) : σ → List ι → List ο
  | _, [] => []
  | s, i :: is => (f s i).1 :: answers f (f s i).2 is

/-- The state a list of inputs leaves a service in. -/
def after (f : σ → ι → ο × σ) : σ → List ι → σ
  | s, [] => s
  | s, i :: is => after f (f s i).2 is

/-- A property that valid inputs preserve holds after every list of them. -/
theorem after_invariant {f : σ → ι → ο × σ} (Valid : ι → Prop) (I : σ → Prop)
    (hstep : ∀ s i, Valid i → I s → I (f s i).2) {s : σ} {is : List ι}
    (hvalid : ∀ i ∈ is, Valid i) (hs : I s) : I (after f s is) := by
  induction is generalizing s with
  | nil => exact hs
  | cons i is ih =>
      have hi : Valid i := hvalid i (by simp)
      have his : ∀ j ∈ is, Valid j := fun j hj => hvalid j (by simp [hj])
      exact ih his (hstep s i hi hs)

/-- A service whose answers do not depend on the state it is in. -/
theorem answers_eq_map {f : σ → ι → ο × σ} {I : σ → Prop} {a : ι → ο}
    (hstep : ∀ s i, I s → (f s i).1 = a i ∧ I (f s i).2) {s : σ} (hs : I s) (is : List ι) :
    answers f s is = is.map a := by
  induction is generalizing s with
  | nil => rfl
  | cons i is ih =>
      obtain ⟨hanswer, hnext⟩ := hstep s i hs
      rw [answers, hanswer, ih hnext, List.map_cons]

/-- Two services related by a simulation give the same answers. -/
theorem answers_eq_of_simulation {f : σ → ι → ο × σ} {g : τ → ι → ο × τ} {Valid : ι → Prop}
    {R : σ → τ → Prop}
    (hstep : ∀ s t i, Valid i → R s t → (f s i).1 = (g t i).1 ∧ R (f s i).2 (g t i).2)
    {s : σ} {t : τ} {is : List ι} (hvalid : ∀ i ∈ is, Valid i) (hst : R s t) :
    answers f s is = answers g t is := by
  induction is generalizing s t with
  | nil => rfl
  | cons i is ih =>
      have his : ∀ j ∈ is, Valid j := fun j hj => hvalid j (by simp [hj])
      obtain ⟨hans, hnext⟩ := hstep s t i (hvalid i (by simp)) hst
      rw [answers, answers, hans, ih his hnext]

end Service

/-! ## labelled machines -/

section Labelled

variable {σ ℓ : Type} (step : σ → ℓ → Option σ)

/-- The state a list of labels leads to, if every one of them is enabled. -/
def run : σ → List ℓ → Option σ
  | s, [] => some s
  | s, l :: ls => (step s l).bind fun s' => run s' ls

/-- Every step the run takes meets a condition on the state before it and
its label. -/
def Along (C : σ → ℓ → Prop) : σ → List ℓ → Prop
  | _, [] => True
  | s, l :: ls => ∀ s', step s l = some s' → C s l ∧ Along C s' ls

/-- The machine that keeps a record of its steps beside its state. -/
def recorded {η : Type} (note : η → σ → ℓ → σ → η) (s : σ × η) (l : ℓ) : Option (σ × η) :=
  (step s.1 l).map fun s' => (s', note s.2 s.1 l s')

variable {step}

@[simp] theorem run_nil (s : σ) : run step s [] = some s := rfl

theorem run_cons_eq_some {s s' : σ} {l : ℓ} {ls : List ℓ} :
    run step s (l :: ls) = some s' ↔ ∃ t, step s l = some t ∧ run step t ls = some s' := by
  rw [run, Option.bind_eq_some_iff]

/-- A run is split where its list of labels is. -/
theorem run_append_eq_some {s s' : σ} {ls ls' : List ℓ} :
    run step s (ls ++ ls') = some s' ↔
      ∃ t, run step s ls = some t ∧ run step t ls' = some s' := by
  induction ls generalizing s with
  | nil => simp
  | cons l ls ih =>
      simp only [List.cons_append, run_cons_eq_some, ih]
      constructor
      · rintro ⟨t, hl, u, hls, hls'⟩
        exact ⟨u, ⟨t, hl, hls⟩, hls'⟩
      · rintro ⟨u, ⟨t, hl, hls⟩, hls'⟩
        exact ⟨t, hl, u, hls, hls'⟩

/-- The last label of a run. -/
theorem run_concat_eq_some {s s' : σ} {ls : List ℓ} {l : ℓ} :
    run step s (ls ++ [l]) = some s' ↔ ∃ t, run step s ls = some t ∧ step t l = some s' := by
  simp [run_append_eq_some, run_cons_eq_some]

/-- An invariant whose step may rely on a condition holds at the end of
every run along which the condition does. -/
theorem run_invariant_along {C : σ → ℓ → Prop} (I : σ → Prop)
    (hstep : ∀ s l s', C s l → step s l = some s' → I s → I s')
    {s s' : σ} {ls : List ℓ} (halong : Along step C s ls) (hrun : run step s ls = some s')
    (hs : I s) : I s' := by
  induction ls generalizing s with
  | nil => cases hrun; exact hs
  | cons l ls ih =>
      obtain ⟨t, hl, hls⟩ := run_cons_eq_some.mp hrun
      obtain ⟨hc, hrest⟩ := halong t hl
      exact ih hrest hls (hstep s l t hc hl hs)

/-- A condition that holds of every step holds along every run. -/
theorem along_of_forall {C : σ → ℓ → Prop} (h : ∀ s l, C s l) (s : σ) (ls : List ℓ) :
    Along step C s ls := by
  induction ls generalizing s with
  | nil => trivial
  | cons l ls ih => exact fun t _ => ⟨h s l, ih t⟩

variable (step) in
/-- A condition on labels that holds of all of them holds along the run. -/
theorem along_of_forall_mem {C : ℓ → Prop} {ls : List ℓ} (h : ∀ l ∈ ls, C l) (s : σ) :
    Along step (fun _ l => C l) s ls := by
  induction ls generalizing s with
  | nil => trivial
  | cons l ls ih => exact fun t _ => ⟨h l (by simp), ih (fun k hk => h k (by simp [hk])) t⟩

/-- Whether a condition holds along a run is decided by running it. -/
instance decidableAlong {C : σ → ℓ → Prop} [∀ s l, Decidable (C s l)] :
    ∀ (s : σ) (ls : List ℓ), Decidable (Along step C s ls)
  | _, [] => isTrue trivial
  | s, l :: ls =>
    match h : step s l with
    | none => isTrue fun t ht => by rw [h] at ht; cases ht
    | some t =>
      have : Decidable (Along step C t ls) := decidableAlong t ls
      decidable_of_iff (C s l ∧ Along step C t ls)
        ⟨fun hc u hu => by rw [h] at hu; cases hu; exact hc, fun hc => hc t h⟩

/-- A weaker condition holds along the same runs. -/
theorem Along.mono {C D : σ → ℓ → Prop} {s : σ} {ls : List ℓ} (h : Along step C s ls)
    (himp : ∀ s l, C s l → D s l) : Along step D s ls := by
  induction ls generalizing s with
  | nil => trivial
  | cons l ls ih => exact fun t ht => ⟨himp s l (h t ht).1, ih (h t ht).2⟩

/-- A condition that holds along a run holds along every part it begins with. -/
theorem Along.of_prefix {C : σ → ℓ → Prop} {s : σ} {ks ls : List ℓ} (h : Along step C s ls)
    (hks : ks <+: ls) : Along step C s ks := by
  induction ks generalizing s ls with
  | nil => trivial
  | cons k ks ih =>
      obtain ⟨ms, rfl⟩ := hks
      exact fun t ht => ⟨(h t ht).1, ih (h t ht).2 (List.prefix_append ks ms)⟩

/-- Two conditions that hold along a run hold together. -/
theorem Along.and {C D : σ → ℓ → Prop} {s : σ} {ls : List ℓ} (hc : Along step C s ls)
    (hd : Along step D s ls) : Along step (fun s l => C s l ∧ D s l) s ls := by
  induction ls generalizing s with
  | nil => trivial
  | cons l ls ih =>
      exact fun t ht => ⟨⟨(hc t ht).1, (hd t ht).1⟩, ih (hc t ht).2 (hd t ht).2⟩

/-- An invariant of the steps holds at the end of every run. -/
theorem run_invariant (I : σ → Prop)
    (hstep : ∀ s l s', step s l = some s' → I s → I s')
    {s s' : σ} {ls : List ℓ} (hrun : run step s ls = some s') (hs : I s) : I s' :=
  run_invariant_along I (fun s l t _ => hstep s l t)
    (along_of_forall (C := fun _ _ => True) (fun _ _ => trivial) s ls) hrun hs

/-- Conditions that an invariant makes equivalent hold along the same runs. -/
theorem along_iff_of_invariant {C D : σ → ℓ → Prop} (I : σ → Prop)
    (hstep : ∀ s l s', step s l = some s' → I s → I s')
    (h : ∀ s l s', step s l = some s' → I s → (C s l ↔ D s l)) {s : σ} {ls : List ℓ}
    (hs : I s) : Along step C s ls ↔ Along step D s ls := by
  induction ls generalizing s with
  | nil => exact Iff.rfl
  | cons l ls ih =>
      have hsplit (t : σ) (ht : step s l = some t) :
          (C s l ∧ Along step C t ls) ↔ (D s l ∧ Along step D t ls) :=
        and_congr (h s l t ht hs) (ih (hstep s l t ht hs))
      exact ⟨fun hc t ht => (hsplit t ht).mp (hc t ht), fun hd t ht => (hsplit t ht).mpr (hd t ht)⟩

/-- Where the condition keeps an invariant that implies `P`, and no step from
it into a state with `P` breaks the condition, every state a run goes through
has `P` exactly if the condition holds along the run.  The steps may rely on
the labels of the run. -/
theorem forall_reached_iff_along_of_valid {P I : σ → Prop} {C : σ → ℓ → Prop} {Valid : ℓ → Prop}
    (himp : ∀ s, I s → P s)
    (hkeep : ∀ s l s', Valid l → step s l = some s' → C s l → I s → I s')
    (hmeet : ∀ s l s', Valid l → step s l = some s' → I s → P s' → C s l) {s : σ} {ls : List ℓ}
    (hvalid : ∀ l ∈ ls, Valid l) (hs : I s) :
    (∀ ks, ks <+: ls → ∀ t, run step s ks = some t → P t) ↔ Along step C s ls := by
  induction ls generalizing s with
  | nil =>
      refine ⟨fun _ => trivial, fun _ ks hks t ht => ?_⟩
      rw [List.prefix_nil.mp hks] at ht
      cases ht
      exact himp s hs
  | cons l ls ih =>
      have hl' : Valid l := hvalid l (by simp)
      have hls' : ∀ k ∈ ls, Valid k := fun k hk => hvalid k (by simp [hk])
      constructor
      · intro h t hl
        have ht : P t := h [l] (by simp) t (run_cons_eq_some.mpr ⟨t, hl, rfl⟩)
        have hc : C s l := hmeet s l t hl' hl hs ht
        refine ⟨hc, (ih hls' (hkeep s l t hl' hl hc hs)).mp ?_⟩
        intro ks hks u hu
        exact h (l :: ks) (by simpa using hks) u (run_cons_eq_some.mpr ⟨t, hl, hu⟩)
      · intro h ks hks u hu
        cases ks with
        | nil => cases hu; exact himp s hs
        | cons k ks =>
            obtain ⟨rfl, hrest⟩ := List.cons_prefix_cons.mp hks
            obtain ⟨t, hl, hls⟩ := run_cons_eq_some.mp hu
            obtain ⟨hc, halong⟩ := h t hl
            exact (ih hls' (hkeep s k t hl' hl hc hs)).mpr halong ks hrest u hls

theorem forall_reached_iff_along_of_invariant {P I : σ → Prop} {C : σ → ℓ → Prop}
    (himp : ∀ s, I s → P s) (hkeep : ∀ s l s', step s l = some s' → C s l → I s → I s')
    (hmeet : ∀ s l s', step s l = some s' → I s → P s' → C s l) {s : σ} {ls : List ℓ}
    (hs : I s) : (∀ ks, ks <+: ls → ∀ t, run step s ks = some t → P t) ↔ Along step C s ls :=
  forall_reached_iff_along_of_valid himp (fun s l s' _ => hkeep s l s')
    (fun s l s' _ => hmeet s l s') (fun _ _ => trivial) hs

/-- If a step keeps `I` exactly where `C` holds, then every state a run goes
through has `I` exactly if `C` holds along the run.  The step may rely on an
invariant `J`. -/
theorem forall_reached_iff_along {I J : σ → Prop} {C : σ → ℓ → Prop}
    (hinv : ∀ s l s', step s l = some s' → J s → J s')
    (hstep : ∀ s l s', step s l = some s' → J s → I s → (I s' ↔ C s l)) {s : σ} {ls : List ℓ}
    (hj : J s) (hs : I s) :
    (∀ ks, ks <+: ls → ∀ t, run step s ks = some t → I t) ↔ Along step C s ls :=
  forall_reached_iff_along_of_invariant (I := fun s => J s ∧ I s) (fun _ h => h.2)
    (fun s l s' hl hc h => ⟨hinv s l s' hl h.1, (hstep s l s' hl h.1 h.2).mpr hc⟩)
    (fun s l s' hl h hs' => (hstep s l s' hl h.1 h.2).mp hs') ⟨hj, hs⟩

/-- Where a map takes the steps of a machine to those of another, as long as
an invariant holds, it takes runs to runs. -/
theorem run_map {τ : Type} {step' : τ → ℓ → Option τ} (f : σ → τ) {I : σ → Prop}
    {Valid : ℓ → Prop} (hinv : ∀ s l s', Valid l → step s l = some s' → I s → I s')
    (hstep : ∀ s l, Valid l → I s → step' (f s) l = (step s l).map f) {s : σ} {ls : List ℓ}
    (hvalid : ∀ l ∈ ls, Valid l) (hs : I s) : run step' (f s) ls = (run step s ls).map f := by
  induction ls generalizing s with
  | nil => rfl
  | cons l ls ih =>
      have hl : Valid l := hvalid l (by simp)
      have hls : ∀ k ∈ ls, Valid k := fun k hk => hvalid k (by simp [hk])
      rw [run, run, hstep s l hl hs]
      cases hnext : step s l with
      | none => rfl
      | some t => exact ih hls (hinv s l t hl hnext hs)

/-- A step of the recorded machine is a step of the machine, noted. -/
theorem recorded_eq_some {η : Type} {note : η → σ → ℓ → σ → η} {s t : σ × η} {l : ℓ} :
    recorded step note s l = some t ↔ step s.1 l = some t.1 ∧ t.2 = note s.2 s.1 l t.1 := by
  obtain ⟨t, k⟩ := t
  simp only [recorded, Option.map_eq_some_iff, Prod.mk.injEq]
  constructor
  · rintro ⟨u, hu, rfl, rfl⟩
    exact ⟨hu, rfl⟩
  · rintro ⟨ht, rfl⟩
    exact ⟨t, ht, rfl, rfl⟩

/-- A recorded run is a run. -/
theorem run_of_run_recorded {η : Type} {note : η → σ → ℓ → σ → η} {s t : σ × η} {ls : List ℓ}
    (hrun : run (recorded step note) s ls = some t) : run step s.1 ls = some t.1 := by
  induction ls generalizing s with
  | nil => cases hrun; rfl
  | cons l ls ih =>
      obtain ⟨u, hl, hls⟩ := run_cons_eq_some.mp hrun
      exact run_cons_eq_some.mpr ⟨u.1, (recorded_eq_some.mp hl).1, ih hls⟩

/-- Every run of a machine can be recorded. -/
theorem exists_run_recorded {η : Type} (note : η → σ → ℓ → σ → η) {s s' : σ} {ls : List ℓ}
    (hrun : run step s ls = some s') (k : η) :
    ∃ k', run (recorded step note) (s, k) ls = some (s', k') := by
  induction ls generalizing s k with
  | nil => cases hrun; exact ⟨k, rfl⟩
  | cons l ls ih =>
      obtain ⟨t, hl, hls⟩ := run_cons_eq_some.mp hrun
      obtain ⟨k', hk'⟩ := ih hls (note k s l t)
      exact ⟨k', run_cons_eq_some.mpr ⟨_, recorded_eq_some.mpr ⟨hl, rfl⟩, hk'⟩⟩

/-- Related states whose steps are related, and noted alike, have the same
record after every run. -/
theorem map_snd_run_recorded {η : Type} {note : η → σ → ℓ → σ → η} {R : σ → σ → Prop}
    (hstep : ∀ s t l, R s t → Option.Rel R (step s l) (step t l))
    (hnote : ∀ s t l k s' t', R s t → note k s l s' = note k t l t') {s t : σ} (hst : R s t)
    (k : η) (ls : List ℓ) :
    (run (recorded step note) (s, k) ls).map Prod.snd =
      (run (recorded step note) (t, k) ls).map Prod.snd := by
  induction ls generalizing s t k with
  | nil => rfl
  | cons l ls ih =>
      have hrel := hstep s t l hst
      simp only [run, recorded]
      generalize step s l = x at hrel ⊢
      generalize step t l = y at hrel ⊢
      cases hrel with
      | none => rfl
      | @some s' t' hnext =>
          rw [Option.map_some, Option.map_some, hnote s t l k s' t' hst]
          exact ih hnext _

end Labelled

end Machine
