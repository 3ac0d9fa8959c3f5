/-!
# CppFastDevelop.Lib.Chain

A chain of buffers that are worked through front to back.  One *pass* moves
bytes of the first buffer until it is complete, then of the next, and stops
at the first buffer it cannot complete, when the other side has ended, or at
an error.  What moving bytes of one buffer means is a parameter, so the
chain may be one that is filled or one that is emptied.

`Underway` says that a chain is in order between passes: no buffer is
complete and only the first has been begun.  `pass_spec` says that a pass
keeps this, and accounts for every byte it moves.

`FailsBehind` says that a pass failed after it had completed a buffer, so
that what it completed is still in the chain (`chain_pass_eq`).

`passCalls` are the calls of the other side that a pass makes.  What is true
of the calls for one buffer, that they move what is moved or that they are
answered from a list, is true of those of a pass.

This module depends only on the Lean 4 core library.
-/

namespace Chain

variable {ε B κ α γ : Type}

/-! ## passes -/

/-- An attempt to move bytes of one buffer; `κ` is what the other side still
has to offer. -/
structure Attempt (ε B κ α : Type) where
  buffer : B
  moved : List α
  ended : Bool
  failure : Option ε
  rest : κ

/-- A pass over a chain: the chain with its buffers as the pass leaves them,
those among them it completed, and how it ended. -/
structure Pass (ε B κ α : Type) where
  chain : List B
  complete : List B
  moved : List α
  ended : Bool
  allComplete : Bool
  failure : Option ε
  rest : κ

/-- The loop over the chain. -/
def pass (move : B → κ → Attempt ε B κ α) (isComplete : B → Except ε Bool) :
    List B → κ → Pass ε B κ α
  | [], k => ⟨[], [], [], false, false, none, k⟩
  | b :: bs, k =>
    let a := move b k
    match a.failure with
    | some e => ⟨a.buffer :: bs, [], a.moved, false, false, some e, a.rest⟩
    | none =>
      if a.ended then ⟨a.buffer :: bs, [], a.moved, true, false, none, a.rest⟩
      else
        match isComplete a.buffer with
        | .error e => ⟨a.buffer :: bs, [], a.moved, false, false, some e, a.rest⟩
        | .ok false => ⟨a.buffer :: bs, [], a.moved, false, false, none, a.rest⟩
        | .ok true =>
          let p := pass move isComplete bs a.rest
          ⟨a.buffer :: p.chain, a.buffer :: p.complete, a.moved ++ p.moved, p.ended,
            p.allComplete || bs.isEmpty, p.failure, p.rest⟩

/-- What moving bytes does not change, a pass does not change. -/
theorem map_chain_pass {move : B → κ → Attempt ε B κ α} (isComplete : B → Except ε Bool)
    (label : B → γ) (h : ∀ b k, label (move b k).buffer = label b) (bs : List B) (k : κ) :
    (pass move isComplete bs k).chain.map label = bs.map label := by
  induction bs generalizing k with
  | nil => rfl
  | cons b bs ih =>
      simp only [pass]
      split
      · simp [h]
      · split
        · simp [h]
        · split
          · simp [h]
          · simp [h]
          · simp [h, ih]

/-- A pass that meets no error completes the first buffers of the chain it
leaves. -/
theorem complete_append_pass {move : B → κ → Attempt ε B κ α} {isComplete : B → Except ε Bool}
    {bs : List B} {k : κ} (h : (pass move isComplete bs k).failure = none) :
    (pass move isComplete bs k).complete ++ (pass move isComplete bs k).chain.drop
        (pass move isComplete bs k).complete.length = (pass move isComplete bs k).chain := by
  induction bs generalizing k with
  | nil => rfl
  | cons b bs ih =>
      simp only [pass] at h ⊢
      split at h
      · cases h
      · split at h
        · next hended => simp [hended]
        · next hended =>
            split at h
            · cases h
            · simp [hended]
            · next hfull => simpa [hended, hfull] using ih h

/-- A pass fails as moving bytes or asking for completeness does. -/
theorem failure_pass {move : B → κ → Attempt ε B κ α} {isComplete : B → Except ε Bool}
    (P : ε → Prop) (hmove : ∀ b k e, (move b k).failure = some e → P e)
    (hcomplete : ∀ b e, isComplete b = .error e → P e) (bs : List B) (k : κ) {e : ε}
    (h : (pass move isComplete bs k).failure = some e) : P e := by
  induction bs generalizing k with
  | nil => cases h
  | cons b bs ih =>
      simp only [pass] at h
      split at h
      · next hfail => cases h; exact hmove b k _ hfail
      · split at h
        · cases h
        · split at h
          · next herror => cases h; exact hcomplete _ _ herror
          · cases h
          · exact ih _ h

/-! ## passes that fail -/

/-- Moving bytes of the buffer completes it, and the pass goes on. -/
def Completes (move : B → κ → Attempt ε B κ α) (isComplete : B → Except ε Bool) (b : B) (k : κ) :
    Prop :=
  (move b k).failure = none ∧ (move b k).ended = false ∧ isComplete (move b k).buffer = .ok true

/-- A pass over the chain fails at one of its buffers: at moving its bytes
or at asking whether that has completed it. -/
inductive Fails (move : B → κ → Attempt ε B κ α) (isComplete : B → Except ε Bool) :
    List B → κ → Prop
  | move {b : B} {bs : List B} {k : κ} {e : ε} (h : (move b k).failure = some e) :
    Fails move isComplete (b :: bs) k
  | isComplete {b : B} {bs : List B} {k : κ} {e : ε} (hmove : (move b k).failure = none)
      (hended : (move b k).ended = false) (h : isComplete (move b k).buffer = .error e) :
    Fails move isComplete (b :: bs) k
  | behind {b : B} {bs : List B} {k : κ} (hb : Completes move isComplete b k)
      (h : Fails move isComplete bs (move b k).rest) : Fails move isComplete (b :: bs) k

/-- A pass over the chain completes its first buffer and fails behind it. -/
inductive FailsBehind (move : B → κ → Attempt ε B κ α) (isComplete : B → Except ε Bool) :
    List B → κ → Prop
  | intro {b : B} {bs : List B} {k : κ} (hb : Completes move isComplete b k)
      (h : Fails move isComplete bs (move b k).rest) : FailsBehind move isComplete (b :: bs) k

section Failing

variable {move : B → κ → Attempt ε B κ α} {isComplete : B → Except ε Bool}

/-- A pass that goes on from its first buffer. -/
theorem pass_of_completes {b : B} {k : κ} (bs : List B) (hb : Completes move isComplete b k) :
    pass move isComplete (b :: bs) k =
      let p := pass move isComplete bs (move b k).rest
      ⟨(move b k).buffer :: p.chain, (move b k).buffer :: p.complete, (move b k).moved ++ p.moved,
        p.ended, p.allComplete || bs.isEmpty, p.failure, p.rest⟩ := by
  obtain ⟨hmove, hended, hfull⟩ := hb
  simp [pass, hmove, hended, hfull]

/-- A pass that does not go on from its first buffer. -/
theorem pass_of_not_completes {b : B} {k : κ} (bs : List B)
    (hb : ¬ Completes move isComplete b k) :
    (pass move isComplete (b :: bs) k).chain = (move b k).buffer :: bs ∧
      (pass move isComplete (b :: bs) k).complete = [] := by
  simp only [pass]
  split
  · simp
  · next hmove =>
      split
      · simp
      · next hended =>
          split
          · simp
          · simp
          · next hfull => exact absurd ⟨hmove, by simpa using hended, hfull⟩ hb

theorem failure_pass_isSome_iff (bs : List B) (k : κ) :
    (pass move isComplete bs k).failure.isSome ↔ Fails move isComplete bs k := by
  induction bs generalizing k with
  | nil => exact iff_of_false (by simp [pass]) fun h => by cases h
  | cons b bs ih =>
      by_cases hb : Completes move isComplete b k
      · rw [pass_of_completes bs hb, ih]
        refine ⟨.behind hb, fun h => ?_⟩
        cases h with
        | move h => rw [hb.1] at h; cases h
        | isComplete _ _ h => rw [hb.2.2] at h; cases h
        | behind _ h => exact h
      · constructor
        · intro h
          obtain ⟨e, he⟩ := Option.isSome_iff_exists.mp h
          simp only [pass] at he
          split at he
          · next hmove => exact .move hmove
          · next hmove =>
              split at he
              · cases he
              · next hended =>
                  split at he
                  · next herror => exact .isComplete hmove (by simpa using hended) herror
                  · cases he
                  · next hfull => exact absurd ⟨hmove, by simpa using hended, hfull⟩ hb
        · intro h
          cases h with
          | move h => simp [pass, h]
          | isComplete hmove hended h => simp [pass, hmove, hended, h]
          | behind hb' _ => exact absurd hb' hb

/-- The buffers a failing pass has completed are lost exactly if it fails
behind the first. -/
theorem failsBehind_iff {bs : List B} {k : κ} :
    FailsBehind move isComplete bs k ↔
      (pass move isComplete bs k).failure.isSome ∧ (pass move isComplete bs k).complete ≠ [] := by
  cases bs with
  | nil => exact iff_of_false (fun h => by cases h) (by simp [pass])
  | cons b bs =>
      by_cases hb : Completes move isComplete b k
      · rw [pass_of_completes bs hb, failure_pass_isSome_iff]
        refine ⟨fun h => ?_, fun h => .intro hb h.1⟩
        cases h with
        | intro _ h => exact ⟨h, by simp⟩
      · refine iff_of_false (fun h => ?_) fun h => h.2 (pass_of_not_completes bs hb).2
        cases h with
        | intro hb' _ => exact hb hb'

/-- Moving bytes of a buffer that is not complete leaves it so, if it fails
or sees the other side end. -/
structure StaysOpen (move : B → κ → Attempt ε B κ α) (isComplete : B → Except ε Bool) : Prop where
  failed : ∀ b k e, isComplete b ≠ .ok true → (move b k).failure = some e →
    isComplete (move b k).buffer ≠ .ok true
  ended : ∀ b k, (move b k).failure = none → (move b k).ended = true →
    isComplete (move b k).buffer ≠ .ok true

/-- A pass leaves the buffers it has completed in front, and behind them
only such as are not complete. -/
theorem chain_pass_eq (hopen : StaysOpen move isComplete) {bs : List B} {k : κ}
    (hbs : ∀ b ∈ bs, isComplete b ≠ .ok true) :
    ∃ rest, (pass move isComplete bs k).chain = (pass move isComplete bs k).complete ++ rest ∧
      (∀ b ∈ (pass move isComplete bs k).complete, isComplete b = .ok true) ∧
      ∀ b ∈ rest, isComplete b ≠ .ok true := by
  induction bs generalizing k with
  | nil => exact ⟨[], rfl, by simp [pass], by simp⟩
  | cons b bs ih =>
      have htail : ∀ c ∈ bs, isComplete c ≠ .ok true := fun c hc => hbs c (by simp [hc])
      by_cases hb : Completes move isComplete b k
      · obtain ⟨rest, hchain, hcomplete, hrest⟩ := ih (k := (move b k).rest) htail
        rw [pass_of_completes bs hb]
        refine ⟨rest, by simp [hchain], ?_, hrest⟩
        simp only [List.mem_cons, forall_eq_or_imp]
        exact ⟨hb.2.2, hcomplete⟩
      · obtain ⟨hchain, hcomplete⟩ := pass_of_not_completes bs hb
        rw [hchain, hcomplete]
        refine ⟨_, rfl, by simp, ?_⟩
        simp only [List.mem_cons, forall_eq_or_imp]
        refine ⟨fun hfull => ?_, htail⟩
        cases hmove : (move b k).failure with
        | some e => exact hopen.failed b k e (hbs b (by simp)) hmove hfull
        | none =>
            cases hended : (move b k).ended with
            | true => exact hopen.ended b k hmove hended hfull
            | false => exact hb ⟨hmove, hended, hfull⟩

/-- The buffers of a chain that are complete. -/
def completed (isComplete : B → Except ε Bool) (bs : List B) : List B :=
  bs.filter fun b => match isComplete b with
    | .ok full => full
    | .error _ => false

theorem completed_eq_nil {bs : List B} :
    completed isComplete bs = [] ↔ ∀ b ∈ bs, isComplete b ≠ .ok true := by
  rw [completed, List.filter_eq_nil_iff]
  refine forall_congr' fun b => imp_congr_right fun _ => ?_
  cases isComplete b <;> simp

/-- The complete buffers that a pass leaves are those it has completed. -/
theorem completed_chain_pass (hopen : StaysOpen move isComplete) {bs : List B} {k : κ}
    (hbs : ∀ b ∈ bs, isComplete b ≠ .ok true) :
    completed isComplete (pass move isComplete bs k).chain =
      (pass move isComplete bs k).complete := by
  obtain ⟨rest, hchain, hcomplete, hrest⟩ := chain_pass_eq hopen hbs (k := k)
  have hopen' : completed isComplete rest = [] := completed_eq_nil.mpr hrest
  rw [hchain, completed, List.filter_append, ← completed, ← completed, hopen', List.append_nil,
    completed, List.filter_eq_self]
  intro b hb
  simp [hcomplete b hb]

end Failing

/-! ## what a pass asks of the other side -/

section Calls

variable {τ : Type} {move : B → κ → Attempt ε B κ α} {isComplete : B → Except ε Bool}
variable {calls : B → κ → List τ}

/-- The calls of the other side that a pass makes, where `calls` are those
that moving bytes of one buffer makes. -/
def passCalls (move : B → κ → Attempt ε B κ α) (isComplete : B → Except ε Bool)
    (calls : B → κ → List τ) : List B → κ → List τ
  | [], _ => []
  | b :: bs, k =>
    let a := move b k
    calls b k ++ match a.failure, a.ended, isComplete a.buffer with
      | none, false, .ok true => passCalls move isComplete calls bs a.rest
      | _, _, _ => []

theorem passCalls_of_completes {b : B} {k : κ} (bs : List B)
    (hb : Completes move isComplete b k) :
    passCalls move isComplete calls (b :: bs) k =
      calls b k ++ passCalls move isComplete calls bs (move b k).rest := by
  obtain ⟨hmove, hended, hfull⟩ := hb
  simp [passCalls, hmove, hended, hfull]

theorem passCalls_of_not_completes {b : B} {k : κ} (bs : List B)
    (hb : ¬ Completes move isComplete b k) :
    passCalls move isComplete calls (b :: bs) k = calls b k := by
  simp only [passCalls]
  split
  · next hmove hended hfull => exact absurd ⟨hmove, hended, hfull⟩ hb
  · exact List.append_nil _

/-- A pass that stops at its first buffer ends as moving its bytes does. -/
theorem pass_stops {b : B} {k : κ} (bs : List B) (hb : ¬ Completes move isComplete b k) :
    (pass move isComplete (b :: bs) k).moved = (move b k).moved ∧
      (pass move isComplete (b :: bs) k).rest = (move b k).rest ∧
      ((pass move isComplete (b :: bs) k).failure = none →
        (move b k).failure = none ∧
          (pass move isComplete (b :: bs) k).ended = (move b k).ended) := by
  simp only [pass]
  split
  · exact ⟨rfl, rfl, fun h => by cases h⟩
  · next hmove =>
      split
      · next hended => exact ⟨rfl, rfl, fun _ => ⟨hmove, hended.symm⟩⟩
      · next hended =>
          rw [Bool.not_eq_true] at hended
          split
          · exact ⟨rfl, rfl, fun h => by cases h⟩
          · exact ⟨rfl, rfl, fun _ => ⟨hmove, hended.symm⟩⟩
          · next hfull => exact absurd ⟨hmove, hended, hfull⟩ hb

/-- What a pass moves is what its calls move. -/
theorem moved_pass {f : List τ → List α} (hnil : f [] = [])
    (happend : ∀ xs ys, f (xs ++ ys) = f xs ++ f ys)
    (hmove : ∀ b k, (move b k).moved = f (calls b k)) (bs : List B) (k : κ) :
    (pass move isComplete bs k).moved = f (passCalls move isComplete calls bs k) := by
  induction bs generalizing k with
  | nil => exact hnil.symm
  | cons b bs ih =>
      by_cases hb : Completes move isComplete b k
      · rw [pass_of_completes bs hb, passCalls_of_completes bs hb, happend, ← hmove, ← ih]
      · rw [(pass_stops bs hb).1, passCalls_of_not_completes bs hb, hmove]

/-- A pass sees the other side end exactly if one of its calls does. -/
theorem ended_pass_iff {Ended : τ → Prop}
    (hmove : ∀ b k, (move b k).failure = none →
      ((move b k).ended = true ↔ ∃ t ∈ calls b k, Ended t)) {bs : List B} {k : κ}
    (hok : (pass move isComplete bs k).failure = none) :
    (pass move isComplete bs k).ended = true ↔
      ∃ t ∈ passCalls move isComplete calls bs k, Ended t := by
  induction bs generalizing k with
  | nil => simp [pass, passCalls]
  | cons b bs ih =>
      by_cases hb : Completes move isComplete b k
      · rw [pass_of_completes bs hb] at hok ⊢
        have hopen : ¬ ∃ t ∈ calls b k, Ended t := by
          rw [← hmove b k hb.1, hb.2.1]
          exact Bool.false_ne_true
        rw [passCalls_of_completes bs hb, ih hok]
        simp only [List.mem_append, or_and_right, exists_or, hopen, false_or]
      · obtain ⟨-, -, hstop⟩ := pass_stops bs hb
        obtain ⟨hfree, hended⟩ := hstop hok
        rw [hended, passCalls_of_not_completes bs hb, hmove b k hfree]

/-- What relates the calls of every move to what they leave of the other
side relates those of a pass to what it leaves. -/
theorem rest_pass {A : κ → List τ → κ → Prop} (hnil : ∀ k, A k [] k)
    (happend : ∀ k k' k'' xs ys, A k xs k' → A k' ys k'' → A k (xs ++ ys) k'')
    (hmove : ∀ b k, A k (calls b k) (move b k).rest) (bs : List B) (k : κ) :
    A k (passCalls move isComplete calls bs k) (pass move isComplete bs k).rest := by
  induction bs generalizing k with
  | nil => exact hnil k
  | cons b bs ih =>
      by_cases hb : Completes move isComplete b k
      · rw [pass_of_completes bs hb, passCalls_of_completes bs hb]
        exact happend _ _ _ _ _ (hmove b k) (ih _)
      · rw [(pass_stops bs hb).2.1, passCalls_of_not_completes bs hb]
        exact hmove b k

end Calls

/-! ## chains in order -/

section Cell

variable (Good : B → Prop) (progress : B → List α) (size : B → Nat)

/-- A buffer that still has bytes to move. -/
structure Unfinished (b : B) : Prop where
  good : Good b
  lt : (progress b).length < size b

/-- A buffer all of whose bytes have been moved. -/
structure Finished (b : B) : Prop where
  good : Good b
  eq : (progress b).length = size b

/-- A chain between passes: nothing is complete, and only the first buffer
has been begun. -/
def Underway : List B → Prop
  | [] => True
  | b :: bs => Unfinished Good progress size b ∧
      ∀ c ∈ bs, Unfinished Good progress size c ∧ progress c = []

/-- What moving bytes of an unfinished buffer must do: it appends what it
moves to the buffer's progress, and it is known whether that completes it. -/
structure Moves (move : B → κ → Attempt ε B κ α) (isComplete : B → Except ε Bool) : Prop where
  good : ∀ b k, Unfinished Good progress size b → Good (move b k).buffer
  progress_eq : ∀ b k, Unfinished Good progress size b → (move b k).failure = none →
    progress (move b k).buffer = progress b ++ (move b k).moved
  size_eq : ∀ b k, size (move b k).buffer = size b
  moved_le : ∀ b k, Unfinished Good progress size b →
    (progress b).length + (move b k).moved.length ≤ size b
  ended_lt : ∀ b k, Unfinished Good progress size b → (move b k).ended = true →
    (progress b).length + (move b k).moved.length < size b
  isComplete_eq : ∀ b, Good b → isComplete b = .ok (decide ((progress b).length = size b))

variable {Good progress size}

/-- A chain in order may be extended by a buffer not yet begun. -/
theorem Underway.concat {bs : List B} {b : B} (h : Underway Good progress size bs)
    (hb : Unfinished Good progress size b) (hnew : progress b = []) :
    Underway Good progress size (bs ++ [b]) := by
  cases bs with
  | nil => exact ⟨hb, by simp⟩
  | cons c cs =>
      refine ⟨h.1, fun d hd => ?_⟩
      rcases List.mem_append.mp hd with hcs | hnew'
      · exact h.2 d hcs
      · rw [List.mem_singleton.mp hnew']
        exact ⟨hb, hnew⟩

/-- The rest of a chain in order has not been begun. -/
theorem Underway.tail {b : B} {bs : List B} (h : Underway Good progress size (b :: bs)) :
    Underway Good progress size bs ∧ ∀ c ∈ bs, progress c = [] := by
  refine ⟨?_, fun c hc => (h.2 c hc).2⟩
  cases bs with
  | nil => trivial
  | cons c cs => exact ⟨(h.2 c (by simp)).1, fun d hd => h.2 d (by simp [hd])⟩

/-- What a pass without an error leaves: the completed buffers in front, a
chain in order behind them, and every byte accounted for. -/
structure PassSpec (Good : B → Prop) (progress : B → List α) (size : B → Nat) (bs : List B)
    (p : Pass ε B κ α) : Prop where
  chain_eq : ∃ rest, p.chain = p.complete ++ rest ∧ Underway Good progress size rest ∧
    (p.allComplete = true → rest = []) ∧ (rest = [] → bs ≠ [] → p.allComplete = true) ∧
    (p.ended = true → rest ≠ [])
  finished : ∀ b ∈ p.complete, Finished Good progress size b
  bytes_eq : p.chain.flatMap progress = bs.flatMap progress ++ p.moved

theorem flatMap_progress_nil {bs : List B} (h : ∀ c ∈ bs, progress c = []) :
    bs.flatMap progress = [] := by
  rw [List.flatMap_eq_nil_iff]
  exact h

/-- A pass that stops at its first buffer without completing it. -/
theorem passSpec_stop {b b' : B} {bs : List B} {moved : List α} {ended : Bool} {rest : κ}
    (h : Underway Good progress size (b :: bs)) (hgood : Good b')
    (hprog : progress b' = progress b ++ moved) (hlt : (progress b').length < size b') :
    PassSpec Good progress size (b :: bs)
      (⟨b' :: bs, [], moved, ended, false, none, rest⟩ : Pass ε B κ α) := by
  refine ⟨⟨b' :: bs, rfl, ⟨⟨hgood, hlt⟩, h.2⟩, by simp, by simp, by simp⟩, by simp, ?_⟩
  have htail := flatMap_progress_nil h.tail.2
  simp only [List.flatMap_cons, htail, hprog, List.append_nil]

/-- A pass over a chain in order that meets no error. -/
theorem pass_spec {move : B → κ → Attempt ε B κ α} {isComplete : B → Except ε Bool}
    (hmove : Moves Good progress size move isComplete) {bs : List B} {k : κ}
    (h : Underway Good progress size bs) (hok : (pass move isComplete bs k).failure = none) :
    PassSpec Good progress size bs (pass move isComplete bs k) := by
  induction bs generalizing k with
  | nil => exact ⟨⟨[], rfl, trivial, by simp [pass], by simp, by simp [pass]⟩, by simp [pass], rfl⟩
  | cons b bs ih =>
      have hb := h.1
      have hgood := hmove.good b k hb
      have hcomplete := hmove.isComplete_eq _ hgood
      have hsize := hmove.size_eq b k
      simp only [pass] at hok ⊢
      cases hfail : (move b k).failure with
      | some e => rw [hfail] at hok; cases hok
      | none =>
          have hprog := hmove.progress_eq b k hb hfail
          have hlen : (progress (move b k).buffer).length =
              (progress b).length + (move b k).moved.length := by
            rw [hprog, List.length_append]
          have hle := hmove.moved_le b k hb
          rw [hfail] at hok
          simp only at hok ⊢
          by_cases hended : (move b k).ended = true
          · have hlt := hmove.ended_lt b k hb hended
            simp only [hended, if_true]
            exact passSpec_stop h hgood hprog (by rw [hlen, hsize]; exact hlt)
          · rw [Bool.not_eq_true] at hended
            simp only [hended, Bool.false_eq_true, if_false] at hok ⊢
            rw [hcomplete] at hok ⊢
            by_cases hfull : (progress (move b k).buffer).length = size (move b k).buffer
            · simp only [hfull, decide_true] at hok ⊢
              obtain ⟨⟨rest, hchain, hrest, hall, hall', hend⟩, hfin, hbytes⟩ := ih h.tail.1 hok
              refine ⟨⟨rest, ?_, hrest, ?_, ?_, hend⟩, ?_, ?_⟩
              · simp only [hchain, List.cons_append]
              · intro htrue
                simp only [Bool.or_eq_true, List.isEmpty_iff] at htrue
                rcases htrue with htrue | hnil
                · exact hall htrue
                · subst hnil
                  simp only [pass] at hchain
                  have hlen := congrArg List.length hchain
                  simp only [List.length_nil, List.nil_append] at hlen
                  exact List.length_eq_zero_iff.mp hlen.symm
              · intro hnil _
                simp only [Bool.or_eq_true, List.isEmpty_iff]
                by_cases hbs : bs = []
                · exact .inr hbs
                · exact .inl (hall' hnil hbs)
              · intro c hc
                rcases List.mem_cons.mp hc with rfl | hc
                · exact ⟨hgood, hfull⟩
                · exact hfin c hc
              · have htail := flatMap_progress_nil h.tail.2
                simp only [List.flatMap_cons, hbytes, htail, hprog, List.append_nil,
                  List.nil_append, List.append_assoc]
            · simp only [hfull, decide_false]
              exact passSpec_stop h hgood hprog (by omega)

/-- A pass over a chain in order does not fail where moving bytes does not. -/
theorem failure_pass_of_quiet {move : B → κ → Attempt ε B κ α} {isComplete : B → Except ε Bool}
    (hmove : Moves Good progress size move isComplete) {Quiet : κ → Prop}
    (hquiet : ∀ b k, Unfinished Good progress size b → Quiet k →
      (move b k).failure = none ∧ Quiet (move b k).rest)
    {bs : List B} {k : κ} (h : Underway Good progress size bs) (hk : Quiet k) :
    (pass move isComplete bs k).failure = none := by
  induction bs generalizing k with
  | nil => rfl
  | cons b bs ih =>
      obtain ⟨hok, hrest⟩ := hquiet b k h.1 hk
      have hcomplete := hmove.isComplete_eq _ (hmove.good b k h.1)
      simp only [pass, hok, hcomplete]
      split
      · rfl
      · split
        · next heq => cases heq
        · rfl
        · exact ih h.tail.1 hrest

/-! ## what was asked for and what was moved -/

/-- The books of a chain: `done` are the buffers that have left it, `label`
is what was asked of each.  What was asked for is `done` and the chain, in
order, and so is what was moved. -/
structure Account (Good : B → Prop) (progress : B → List α) (size : B → Nat) (label : B → γ)
    (done chain : List B) (requests : List γ) (moved : List α) : Prop where
  finished : ∀ b ∈ done, Finished Good progress size b
  underway : Underway Good progress size chain
  requests_eq : requests = (done ++ chain).map label
  moved_eq : moved = (done ++ chain).flatMap progress

namespace Account

variable {label : B → γ} {done chain : List B} {requests : List γ} {moved : List α}

/-- Nothing asked for, nothing moved. -/
theorem nil : Account Good progress size label [] [] [] [] :=
  ⟨by simp, trivial, rfl, rfl⟩

/-- Asking for one more buffer. -/
theorem request (h : Account Good progress size label done chain requests moved) {b : B}
    (hb : Unfinished Good progress size b) (hnew : progress b = []) :
    Account Good progress size label done (chain ++ [b]) (requests ++ [label b]) moved := by
  refine ⟨h.finished, h.underway.concat hb hnew, ?_, ?_⟩
  · rw [h.requests_eq, ← List.append_assoc]
    simp only [List.map_append, List.map_cons, List.map_nil]
  · rw [h.moved_eq, ← List.append_assoc]
    simp [hnew]

/-- A pass over the chain. -/
theorem pass {move : B → κ → Attempt ε B κ α} {isComplete : B → Except ε Bool}
    (hmove : Moves Good progress size move isComplete)
    (hlabel : ∀ b k, label (move b k).buffer = label b)
    (h : Account Good progress size label done chain requests moved) {k : κ}
    {p : Pass ε B κ α} (hp : p = Chain.pass move isComplete chain k) (hok : p.failure = none) :
    Account Good progress size label (done ++ p.complete) (p.chain.drop p.complete.length)
      requests (moved ++ p.moved) := by
  subst hp
  obtain ⟨⟨rest, hchain, hrest, -⟩, hfinished, hbytes⟩ := pass_spec hmove h.underway hok
  have hlabels := map_chain_pass isComplete label hlabel chain k
  rw [hchain] at hlabels hbytes
  rw [hchain, List.drop_left]
  refine ⟨?_, hrest, ?_, ?_⟩
  · intro b hb
    cases List.mem_append.mp hb with
    | inl hb => exact h.finished b hb
    | inr hb => exact hfinished b hb
  · rw [h.requests_eq, List.append_assoc, List.map_append, List.map_append, hlabels]
  · rw [h.moved_eq, List.append_assoc, List.flatMap_append, List.flatMap_append, hbytes,
      List.append_assoc]

/-- What was moved is what left the chain, and what its first buffer holds;
the later buffers hold nothing. -/
theorem moved_eq_head (h : Account Good progress size label done chain requests moved) :
    moved = done.flatMap progress ++ (chain.head?.toList).flatMap progress ∧
      ∀ b ∈ chain.tail, progress b = [] := by
  cases chain with
  | nil => exact ⟨by simpa using h.moved_eq, by simp⟩
  | cons b bs =>
      refine ⟨?_, h.underway.tail.2⟩
      rw [h.moved_eq, List.flatMap_append, List.flatMap_cons, flatMap_progress_nil
        h.underway.tail.2]
      simp

end Account

/-! ## how far a prefix reaches -/

/-- How many of the lists, from the first, lie wholly within the first `n`
elements of their concatenation. -/
def covered : List (List α) → Nat → Nat
  | [], _ => 0
  | xs :: xss, n => if xs.length ≤ n then covered xss (n - xs.length) + 1 else 0

theorem covered_append (xss yss : List (List α)) (n : Nat) :
    covered (xss ++ yss) (xss.flatten.length + n) = xss.length + covered yss n := by
  induction xss with
  | nil => simp
  | cons xs xss ih =>
      have hle : xs.length ≤ (xs :: xss).flatten.length + n := by
        simp only [List.flatten_cons, List.length_append]
        omega
      have hrest : (xs :: xss).flatten.length + n - xs.length = xss.flatten.length + n := by
        simp only [List.flatten_cons, List.length_append]
        omega
      rw [List.cons_append, covered, if_pos hle, hrest, ih, List.length_cons]
      omega

/-- Where the buffers are asked to move a given content, those that left the
chain have moved it. -/
theorem Account.flatMap_done {content : B → List α} {done chain : List B}
    {requests : List (List α)} {moved : List α}
    (h : Account Good progress size content done chain requests moved)
    (hsize : ∀ b, Good b → (content b).length = size b)
    (hpre : ∀ b, progress b <+: content b) :
    done.flatMap progress = (done.map content).flatten := by
  rw [List.flatMap_def, List.map_congr_left]
  intro b hb
  refine (hpre b).eq_of_length ?_
  rw [(h.finished b hb).eq, hsize b (h.finished b hb).good]

/-- Where no buffer is left, all was moved. -/
theorem Account.moved_of_nil {content : B → List α} {done : List B}
    {requests : List (List α)} {moved : List α}
    (h : Account Good progress size content done [] requests moved)
    (hsize : ∀ b, Good b → (content b).length = size b)
    (hpre : ∀ b, progress b <+: content b) : moved = requests.flatten := by
  rw [h.moved_eq, h.requests_eq, List.append_nil, h.flatMap_done hsize hpre]

/-- Where the buffers are asked to move a given content, in order: what was
moved is a prefix of it, and the buffers that left the chain are those that
lie wholly within this prefix. -/
theorem Account.covered_eq {content : B → List α} {done chain : List B}
    {requests : List (List α)} {moved : List α}
    (h : Account Good progress size content done chain requests moved)
    (hsize : ∀ b, Good b → (content b).length = size b)
    (hpre : ∀ b, progress b <+: content b) :
    moved <+: requests.flatten ∧ covered requests moved.length = done.length ∧
      chain.map content = requests.drop (covered requests moved.length) := by
  obtain ⟨hmoved, -⟩ := h.moved_eq_head
  rw [h.flatMap_done hsize hpre] at hmoved
  have hrequests := h.requests_eq
  rw [List.map_append] at hrequests
  have hcount : covered requests moved.length = done.length := by
    rw [hrequests, hmoved, List.length_append, covered_append, List.length_map]
    cases chain with
    | nil => rfl
    | cons b bs =>
        have hlt : (progress b).length < (content b).length := by
          rw [hsize b h.underway.1.good]
          exact h.underway.1.lt
        have hhead : ((b :: bs).head?.toList.flatMap progress).length = (progress b).length := by
          simp
        rw [hhead, List.map_cons, covered, if_neg (by omega), Nat.add_zero]
  refine ⟨?_, hcount, ?_⟩
  · rw [hmoved, hrequests, List.flatten_append]
    refine (List.prefix_append_right_inj _).mpr ?_
    cases chain with
    | nil => simp
    | cons b bs =>
        have hhead : (b :: bs).head?.toList.flatMap progress = progress b := by simp
        rw [hhead, List.map_cons, List.flatten_cons]
        exact (hpre b).trans (List.prefix_append _ _)
  · rw [hcount, hrequests, List.drop_left' (List.length_map _)]

end Cell

end Chain
