/-!
# CppFastDevelop.Lib.Exec

Rules for programs over a state that may stop with an exception and keep
the state they had reached, i.e. core's `EStateM`.  A program is *run* by
applying it to a state; the equations below push that application through
the program's structure, so a straight-line program is executed by
rewriting, and an inversion lemma takes a finished run apart.

This module depends only on the Lean 4 core library.
-/

namespace Exec

variable {ε σ α β : Type}

/-! ## running a program -/

/-- The state and result of a run, whether it returned or threw. -/
def finalState : EStateM.Result ε σ α → σ
  | .ok _ s => s
  | .error _ s => s

@[simp] theorem finalState_ok (a : α) (s : σ) :
    finalState (.ok a s : EStateM.Result ε σ α) = s := rfl

@[simp] theorem finalState_error (e : ε) (s : σ) :
    finalState (.error e s : EStateM.Result ε σ α) = s := rfl

@[simp] theorem pure_apply (a : α) (s : σ) :
    (pure a : EStateM ε σ α) s = .ok a s := rfl

@[simp] theorem get_apply (s : σ) : (get : EStateM ε σ σ) s = .ok s s := rfl

@[simp] theorem set_apply (s s' : σ) : (set s' : EStateM ε σ PUnit) s = .ok ⟨⟩ s' := rfl

@[simp] theorem modify_apply (f : σ → σ) (s : σ) :
    (modify f : EStateM ε σ PUnit) s = .ok ⟨⟩ (f s) := rfl

@[simp] theorem throw_apply (e : ε) (s : σ) :
    (throw e : EStateM ε σ α) s = .error e s := rfl

/-- Sequencing runs the first program and hands its result and state on. -/
theorem bind_apply (x : EStateM ε σ α) (f : α → EStateM ε σ β) (s : σ) :
    (x >>= f) s = match x s with
      | .ok a s' => f a s'
      | .error e s' => .error e s' := rfl

theorem map_apply (f : α → β) (x : EStateM ε σ α) (s : σ) :
    (f <$> x) s = match x s with
      | .ok a s' => .ok (f a) s'
      | .error e s' => .error e s' := rfl

/-- A first program that returns is replaced by its result. -/
theorem bind_of_ok {x : EStateM ε σ α} {f : α → EStateM ε σ β} {s s' : σ} {a : α}
    (h : x s = .ok a s') : (x >>= f) s = f a s' := by
  rw [bind_apply, h]

/-- A first program that throws ends the whole program. -/
theorem bind_of_error {x : EStateM ε σ α} {f : α → EStateM ε σ β} {s s' : σ} {e : ε}
    (h : x s = .error e s') : (x >>= f) s = .error e s' := by
  rw [bind_apply, h]

/-- A sequence that returned is two runs that returned. -/
theorem bind_eq_ok {x : EStateM ε σ α} {f : α → EStateM ε σ β} {s s'' : σ} {b : β} :
    (x >>= f) s = .ok b s'' ↔ ∃ a s', x s = .ok a s' ∧ f a s' = .ok b s'' := by
  rw [bind_apply]
  constructor
  · intro h
    cases hx : x s with
    | ok a s' => exact ⟨a, s', rfl, by simpa [hx] using h⟩
    | error e s' => simp [hx] at h
  · rintro ⟨a, s', hx, hf⟩
    rw [hx]; exact hf

/-- A sequence that threw did so in its first program or in its second. -/
theorem bind_eq_error {x : EStateM ε σ α} {f : α → EStateM ε σ β} {s s'' : σ} {e : ε} :
    (x >>= f) s = .error e s'' ↔
      x s = .error e s'' ∨ ∃ a s', x s = .ok a s' ∧ f a s' = .error e s'' := by
  rw [bind_apply]
  constructor
  · intro h
    cases hx : x s with
    | ok a s' => exact .inr ⟨a, s', rfl, by simpa [hx] using h⟩
    | error e' s' => exact .inl (by simpa [hx] using h)
  · rintro (hx | ⟨a, s', hx, hf⟩)
    · rw [hx]
    · rw [hx]; exact hf

/-! ## guards -/

/-- Throw `e` when `c` holds, go on otherwise. -/
def throwIf (c : Prop) [Decidable c] (e : ε) : EStateM ε σ Unit :=
  if c then throw e else pure ()

@[simp] theorem throwIf_apply (c : Prop) [Decidable c] (e : ε) (s : σ) :
    (throwIf c e : EStateM ε σ Unit) s = if c then .error e s else .ok () s := by
  unfold throwIf; split <;> rfl

/-- A guard in front of a program. -/
theorem throwIf_bind_apply (c : Prop) [Decidable c] (e : ε) (f : Unit → EStateM ε σ β) (s : σ) :
    (throwIf c e >>= f) s = if c then .error e s else f () s := by
  rw [bind_apply, throwIf_apply]
  by_cases h : c
  · rw [if_pos h, if_pos h]
  · rw [if_neg h, if_neg h]

theorem throwIf_of_not {c : Prop} [Decidable c] (h : ¬ c) (e : ε) (s : σ) :
    (throwIf c e : EStateM ε σ Unit) s = .ok () s := by
  rw [throwIf_apply, if_neg h]

theorem throwIf_of {c : Prop} [Decidable c] (h : c) (e : ε) (s : σ) :
    (throwIf c e : EStateM ε σ Unit) s = .error e s := by
  rw [throwIf_apply, if_pos h]

/-! ## what a program does not change -/

/-- The program leaves `f` of the state as it is, whether it returns or
throws. -/
def Keeps (f : σ → β) (x : EStateM ε σ α) : Prop := ∀ s, f (finalState (x s)) = f s

/-- The program leaves `f` of the state as it is when it throws. -/
def KeepsOnThrow (f : σ → β) (x : EStateM ε σ α) : Prop :=
  ∀ s e s', x s = .error e s' → f s' = f s

section Keeps

variable {γ : Type} {f : σ → γ}

theorem keeps_pure (a : α) : Keeps f (pure a : EStateM ε σ α) := fun _ => rfl

theorem keeps_modify {g : σ → σ} (h : ∀ s, f (g s) = f s) :
    Keeps f (modify g : EStateM ε σ PUnit) := h

theorem keeps_throw (e : ε) : Keeps f (throw e : EStateM ε σ α) := fun _ => rfl

theorem Keeps.ite {c : Prop} [Decidable c] {x y : EStateM ε σ α} (hx : Keeps f x)
    (hy : Keeps f y) : Keeps f (if c then x else y) := by
  split
  · exact hx
  · exact hy

theorem keeps_throwIf (c : Prop) [Decidable c] (e : ε) :
    Keeps f (throwIf c e : EStateM ε σ Unit) :=
  (keeps_throw e).ite (keeps_pure ())

theorem Keeps.bind {x : EStateM ε σ α} {g : α → EStateM ε σ β} (hx : Keeps f x)
    (hg : ∀ a, Keeps f (g a)) : Keeps f (x >>= g) := by
  intro s
  have hs := hx s
  rw [bind_apply]
  cases hrun : x s with
  | ok a s' =>
      rw [hrun] at hs
      exact (hg a s').trans hs
  | error e s' =>
      rw [hrun] at hs
      exact hs

theorem Keeps.onThrow {x : EStateM ε σ α} (hx : Keeps f x) : KeepsOnThrow f x := by
  intro s e s' herror
  have hs := hx s
  rwa [herror] at hs

/-- A program may do what it likes after the last point where it throws. -/
theorem KeepsOnThrow.bind {x : EStateM ε σ α} {g : α → EStateM ε σ β} (hx : Keeps f x)
    (hg : ∀ a, KeepsOnThrow f (g a)) : KeepsOnThrow f (x >>= g) := by
  intro s e s' herror
  have hs := hx s
  rw [bind_apply] at herror
  cases hrun : x s with
  | ok a t =>
      rw [hrun] at hs herror
      exact (hg a t e s' herror).trans hs
  | error e' t =>
      rw [hrun] at hs herror
      cases herror
      exact hs

end Keeps

/-! ## what a program may throw -/

/-- Whatever the program throws when it is run in `s` has the property. -/
def ThrowsFrom (P : ε → Prop) (s : σ) (x : EStateM ε σ α) : Prop :=
  ∀ e s', x s = .error e s' → P e

/-- Whatever the program throws has the property. -/
def Throws (P : ε → Prop) (x : EStateM ε σ α) : Prop := ∀ s, ThrowsFrom P s x

section Throws

variable {P : ε → Prop}

theorem throws_pure (a : α) : Throws P (pure a : EStateM ε σ α) :=
  fun _ _ _ herror => by cases herror

theorem throws_modify (g : σ → σ) : Throws P (modify g : EStateM ε σ PUnit) :=
  fun _ _ _ herror => by cases herror

/-- Only the first program is known to start in `s`. -/
theorem ThrowsFrom.bind {x : EStateM ε σ α} {g : α → EStateM ε σ β} {s : σ}
    (hx : ThrowsFrom P s x) (hg : ∀ a, Throws P (g a)) : ThrowsFrom P s (x >>= g) := by
  intro e s' herror
  rw [bind_apply] at herror
  cases hrun : x s with
  | ok a t => rw [hrun] at herror; exact hg a t e s' herror
  | error e' t => rw [hrun] at herror; cases herror; exact hx _ _ hrun

/-- A first program that returns is passed over. -/
theorem throwsFrom_bind_of_ok {x : EStateM ε σ α} {g : α → EStateM ε σ β} {s s' : σ} {a : α}
    (hx : x s = .ok a s') (hg : ThrowsFrom P s' (g a)) : ThrowsFrom P s (x >>= g) := by
  intro e t herror
  rw [bind_of_ok hx] at herror
  exact hg e t herror

theorem Throws.bind {x : EStateM ε σ α} {g : α → EStateM ε σ β} (hx : Throws P x)
    (hg : ∀ a, Throws P (g a)) : Throws P (x >>= g) :=
  fun s => (hx s).bind hg

end Throws

end Exec
