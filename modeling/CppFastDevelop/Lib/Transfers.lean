import CppFastDevelop.Lib.Patch

/-!
# CppFastDevelop.Lib.Transfers

A buffer that is moved over a channel in pieces.  A `Transfer` is one request
to the channel: where in the buffer it begins, how many values it asks for,
and what was moved.  Where every request begins at the end of what was moved
before it (`Consecutive`), the pieces are one stretch of the buffer, whether
they are taken out of it (`joined_eq_of_taken`) or put into it
(`storeAll_eq`).  Where the channel's answers are a list, `Answered` says
which call was given which of them.
-/

namespace Transfers

variable {α : Type}

/-- One request.  Without an answer the channel has refused it. -/
structure Transfer (α : Type) where
  offset : Nat
  asked : Nat
  answer : Option (List α)
  deriving DecidableEq, Repr

namespace Transfer

/-- The piece that was moved. -/
def moved (t : Transfer α) : List α := t.answer.getD []

/-- A request of a buffer of `total` values asks for no more than is missing,
nor, where pieces are limited, for more than a piece; and it is given no more
than it asks for. -/
structure Within (total : Nat) (segment : Int) (t : Transfer α) : Prop where
  missing : t.asked ≤ total - t.offset
  segment : 0 < segment → (t.asked : Int) ≤ segment
  moved : t.moved.length ≤ t.asked

/-- The piece is what the buffer holds there. -/
def TakenFrom (buf : List α) (t : Transfer α) : Prop := t.moved <+: buf.drop t.offset

/-- The piece is put where the request begins. -/
def store (t : Transfer α) (buf : List α) : List α := (Patch.place t.offset t.moved).apply buf

@[simp] theorem moved_none (offset asked : Nat) :
    moved (⟨offset, asked, none⟩ : Transfer α) = [] := rfl

@[simp] theorem moved_some (offset asked : Nat) (piece : List α) :
    moved ⟨offset, asked, some piece⟩ = piece := rfl

@[simp] theorem takenFrom_none (buf : List α) (offset asked : Nat) :
    TakenFrom buf ⟨offset, asked, none⟩ := List.nil_prefix

@[simp] theorem length_store (t : Transfer α) (buf : List α) :
    (t.store buf).length = buf.length := Patch.length_apply ..

/-- The front of a buffer up to the end of a piece. -/
theorem take_store {t : Transfer α} {buf : List α} (h : t.offset + t.moved.length ≤ buf.length) :
    (t.store buf).take (t.offset + t.moved.length) = buf.take t.offset ++ t.moved := by
  have hlen : t.offset + t.moved.length = (buf.take t.offset ++ t.moved).length := by
    simp only [List.length_append, List.length_take]
    omega
  rw [store, Patch.apply_place h, hlen, List.take_left]

end Transfer

/-! ## pieces of one stretch -/

/-- Every request begins where the pieces before it end; the first at `a`,
and all of them at `b`. -/
def Consecutive : Nat → List (Transfer α) → Nat → Prop
  | a, [], b => a = b
  | a, t :: ts, b => t.offset = a ∧ Consecutive (a + t.moved.length) ts b

/-- The pieces, one after the other. -/
def joined (ts : List (Transfer α)) : List α := ts.flatMap Transfer.moved

/-- The pieces are put where their requests begin. -/
def storeAll (buf : List α) (ts : List (Transfer α)) : List α :=
  ts.foldl (fun buf t => t.store buf) buf

@[simp] theorem joined_nil : joined ([] : List (Transfer α)) = [] := rfl

@[simp] theorem joined_cons (t : Transfer α) (ts : List (Transfer α)) :
    joined (t :: ts) = t.moved ++ joined ts := rfl

@[simp] theorem joined_append (ts us : List (Transfer α)) :
    joined (ts ++ us) = joined ts ++ joined us := List.flatMap_append

@[simp] theorem storeAll_nil (buf : List α) : storeAll buf [] = buf := rfl

@[simp] theorem storeAll_cons (buf : List α) (t : Transfer α) (ts : List (Transfer α)) :
    storeAll buf (t :: ts) = storeAll (t.store buf) ts := rfl

theorem storeAll_append (buf : List α) (ts us : List (Transfer α)) :
    storeAll buf (ts ++ us) = storeAll (storeAll buf ts) us := List.foldl_append

section Stretch

variable {a b c : Nat} {t : Transfer α} {ts us : List (Transfer α)} {buf : List α}

theorem Consecutive.append (h : Consecutive a ts b) (h' : Consecutive b us c) :
    Consecutive a (ts ++ us) c := by
  induction ts generalizing a with
  | nil => cases h; exact h'
  | cons t ts ih => exact ⟨h.1, ih h.2⟩

/-- The end is counted in values moved. -/
theorem Consecutive.add_length_joined (h : Consecutive a ts b) :
    a + (joined ts).length = b := by
  induction ts generalizing a with
  | nil => exact h
  | cons t ts ih =>
      have hrest := ih h.2
      simp only [joined_cons, List.length_append]
      omega

/-- A request that follows what was moved before. -/
theorem Consecutive.concat (h : Consecutive a ts b) (ht : t.offset = b) :
    Consecutive a (ts ++ [t]) (b + t.moved.length) := h.append ⟨ht, rfl⟩

/-- **Pieces taken out of a buffer** are the stretch between the ends. -/
theorem joined_eq_of_taken (h : Consecutive a ts b) (ht : ∀ t ∈ ts, t.TakenFrom buf) :
    joined ts = (buf.drop a).take (b - a) := by
  induction ts generalizing a with
  | nil => cases h; simp
  | cons t ts ih =>
      obtain ⟨hoffset, hrest⟩ := h
      have hfirst : t.moved = (buf.drop a).take t.moved.length := by
        rw [← hoffset]
        exact List.prefix_iff_eq_take.mp (ht t (by simp))
      have hrest' := ih hrest fun u hu => ht u (by simp [hu])
      have hend := hrest.add_length_joined
      have hlen : b - a = t.moved.length + (b - (a + t.moved.length)) := by omega
      rw [joined_cons, hrest', hlen, List.take_add, ← hfirst, List.drop_drop]

/-- **Pieces put into a buffer** are put there as one. -/
theorem storeAll_eq (h : Consecutive a ts b) :
    storeAll buf ts = (Patch.place a (joined ts)).apply buf := by
  induction ts generalizing a buf with
  | nil =>
      apply List.ext_getElem?
      intro k
      simp [Patch.place]
  | cons t ts ih =>
      obtain ⟨hoffset, hrest⟩ := h
      have hnone : ([] : List α).length ≤ (joined ts).length := Nat.zero_le _
      have hjoin := Patch.place_above_place a t.moved hnone
      rw [List.append_nil] at hjoin
      rw [storeAll_cons, ih hrest, Transfer.store, hoffset, Patch.apply_apply, hjoin, joined_cons]

/-- The front of a buffer that holds all of the pieces. -/
theorem storeAll_front (h : Consecutive 0 ts b) (hb : b ≤ buf.length) :
    storeAll buf ts = joined ts ++ buf.drop b := by
  have hlen := h.add_length_joined
  rw [Nat.zero_add] at hlen
  rw [storeAll_eq h, Patch.apply_place (by omega), hlen, Nat.zero_add]
  rfl

/-- Where only the last request may move nothing there are no more requests
than values, and that one. -/
theorem Consecutive.length_le (h : Consecutive a ts b)
    (hmoves : ts.Pairwise fun t _ => t.moved ≠ []) : ts.length ≤ b - a + 1 := by
  induction ts generalizing a with
  | nil => exact Nat.zero_le _
  | cons t ts ih =>
      obtain ⟨hfirst, hmoves⟩ := List.pairwise_cons.mp hmoves
      have hend := h.add_length_joined
      have hrest := ih h.2 hmoves
      cases ts with
      | nil => simp
      | cons u us =>
          have hpos := List.length_pos_iff.mpr (hfirst u (by simp))
          simp only [joined_cons, List.length_append, List.length_cons] at hend hrest ⊢
          omega

end Stretch

/-! ## answers from a list -/

/-- The calls of a channel whose answers are a list, of which `rest` is left:
each call is given the next answer, and `again` when the list is used up. -/
inductive Answered {ρ τ : Type} (Gives : ρ → τ → Prop) (again : ρ) :
    List ρ → List τ → List ρ → Prop
  | done (answers : List ρ) : Answered Gives again answers [] answers
  | call {answer : ρ} {answers rest : List ρ} {t : τ} {ts : List τ} (h : Gives answer t)
      (hrest : Answered Gives again answers ts rest) :
      Answered Gives again (answer :: answers) (t :: ts) rest
  | usedUp {t : τ} {ts : List τ} {rest : List ρ} (h : Gives again t)
      (hrest : Answered Gives again [] ts rest) : Answered Gives again [] (t :: ts) rest

namespace Answered

variable {ρ τ υ : Type} {Gives : ρ → τ → Prop} {again : ρ} {answers rest rest' : List ρ}
variable {ts us : List τ}

theorem append (h : Answered Gives again answers ts rest)
    (h' : Answered Gives again rest us rest') : Answered Gives again answers (ts ++ us) rest' := by
  induction h with
  | done answers => exact h'
  | call h hrest ih => exact .call h (ih h')
  | usedUp h hrest ih => exact .usedUp h (ih h')

/-- Calls that are looked at in another way. -/
theorem map {Gives' : ρ → υ → Prop} (f : τ → υ) (hf : ∀ answer t, Gives answer t →
    Gives' answer (f t)) (h : Answered Gives again answers ts rest) :
    Answered Gives' again answers (ts.map f) rest := by
  induction h with
  | done answers => exact .done answers
  | call h hrest ih => exact .call (hf _ _ h) ih
  | usedUp h hrest ih => exact .usedUp (hf _ _ h) ih

end Answered

end Transfers
