/-!
# CppFastDevelop.Lib.Framing

Streams that are cut into frames.  A frame begins with a header of fixed
length, and the header says how long the body is that follows, unless it is
refused.  `frames` takes whole frames off the front of a stream.  What it has
taken off stays as it is when more of the stream arrives
(`frames_append`), so the frames do not depend on the pieces a stream arrives
in, and a stream that was put together from frames is cut into them again
(`frames_flatten_append`).

This module depends only on the Lean 4 core library.
-/

namespace Framing

variable {α : Type}

/-- How long a header is, and how long a body it announces. -/
structure Format (α : Type) where
  headLen : Nat
  headLen_pos : 0 < headLen
  bodyLen : List α → Option Nat

namespace Format

variable (F : Format α)

/-- A header and the body it announces. -/
def IsFrame (f : List α) : Prop :=
  ∃ head body, f = head ++ body ∧ head.length = F.headLen ∧ F.bodyLen head = some body.length

/-- The length of the frame at the front of a stream, if it is whole. -/
def frameLen (xs : List α) : Option Nat :=
  match F.bodyLen (xs.take F.headLen) with
  | none => none
  | some n => if F.headLen + n ≤ xs.length then some (F.headLen + n) else none

theorem frameLen_eq_some {xs : List α} {n : Nat} :
    F.frameLen xs = some n ↔ n ≤ xs.length ∧ F.IsFrame (xs.take n) := by
  unfold frameLen
  constructor
  · intro h
    split at h
    · cases h
    · next m hm =>
        split at h
        case isFalse => cases h
        case isTrue hle =>
          cases h
          refine ⟨hle, xs.take F.headLen, (xs.drop F.headLen).take m, List.take_add, ?_, ?_⟩
          · rw [List.length_take]
            omega
          · rw [hm, List.length_take, List.length_drop, Nat.min_eq_left (by omega)]
  · rintro ⟨hle, head, body, htake, hhead, hbody⟩
    have hn : n = F.headLen + body.length := by
      have hlen := congrArg List.length htake
      rw [List.length_take, List.length_append] at hlen
      omega
    have hfront : xs.take F.headLen = head := by
      have htake' : (xs.take n).take F.headLen = head := by
        rw [htake, ← hhead, List.take_left']
        rfl
      rwa [List.take_take, Nat.min_eq_left (by omega)] at htake'
    rw [hfront, hbody]
    simp only [← hn, if_pos hle]

theorem frameLen_pos {xs : List α} {n : Nat} (h : F.frameLen xs = some n) :
    0 < n ∧ n ≤ xs.length := by
  obtain ⟨hle, head, body, htake, hhead, -⟩ := F.frameLen_eq_some.mp h
  have hlen := congrArg List.length htake
  have hpos := F.headLen_pos
  rw [List.length_take, List.length_append] at hlen
  omega

/-- The whole frames at the front of a stream, and what is left of it. -/
def split (xs : List α) : List (List α) × List α :=
  match _ : F.frameLen xs with
  | none => ([], xs)
  | some n => (xs.take n :: (split (xs.drop n)).1, (split (xs.drop n)).2)
termination_by xs.length
decreasing_by
  all_goals
    have hpos := F.frameLen_pos ‹F.frameLen xs = some n›
    rw [List.length_drop]
    omega

def frames (xs : List α) : List (List α) := (F.split xs).1

def rest (xs : List α) : List α := (F.split xs).2

variable {F} {f xs ys : List α} {fs : List (List α)}

/-- A stream that does not begin with a whole frame. -/
theorem frames_of_none (h : F.frameLen xs = none) : F.frames xs = [] ∧ F.rest xs = xs := by
  unfold frames rest split
  split
  · exact ⟨rfl, rfl⟩
  · next heq => rw [h] at heq; cases heq

/-- A whole frame is cut off, whatever follows it. -/
theorem frames_frame_append (hf : F.IsFrame f) (xs : List α) :
    F.frames (f ++ xs) = f :: F.frames xs ∧ F.rest (f ++ xs) = F.rest xs := by
  have hlen : F.frameLen (f ++ xs) = some f.length :=
    F.frameLen_eq_some.mpr ⟨by simp, by simpa using hf⟩
  unfold frames rest
  rw [split]
  split
  · next heq => rw [hlen] at heq; cases heq
  · next n heq =>
      rw [hlen, Option.some.injEq] at heq
      subst heq
      simp

/-- Whole frames are cut off, whatever follows them. -/
theorem frames_flatten_append (hfs : ∀ f ∈ fs, F.IsFrame f) (xs : List α) :
    F.frames (fs.flatten ++ xs) = fs ++ F.frames xs ∧
      F.rest (fs.flatten ++ xs) = F.rest xs := by
  induction fs with
  | nil => exact ⟨rfl, rfl⟩
  | cons f fs ih =>
      obtain ⟨hframes, hrest⟩ := ih fun g hg => hfs g (List.mem_cons_of_mem f hg)
      obtain ⟨hcut, hleft⟩ :=
        frames_frame_append (hfs f List.mem_cons_self) (fs.flatten ++ xs)
      rw [List.flatten_cons, List.append_assoc, hcut, hleft, hframes, hrest]
      exact ⟨rfl, rfl⟩

/-- Nothing is lost: a stream is its frames and what is left of it, which
does not begin with a frame. -/
theorem split_spec (F : Format α) (xs : List α) :
    xs = (F.frames xs).flatten ++ F.rest xs ∧ (∀ f ∈ F.frames xs, F.IsFrame f) ∧
      F.frameLen (F.rest xs) = none := by
  generalize hlen : xs.length = k
  induction k using Nat.strongRecOn generalizing xs with
  | ind k ih =>
      cases hframe : F.frameLen xs with
      | none =>
          obtain ⟨hframes, hrest⟩ := frames_of_none hframe
          rw [hframes, hrest]
          exact ⟨rfl, by simp, hframe⟩
      | some n =>
          obtain ⟨hpos, hle⟩ := F.frameLen_pos hframe
          obtain ⟨-, hf⟩ := F.frameLen_eq_some.mp hframe
          obtain ⟨heq, hall, hnone⟩ :=
            ih (xs.drop n).length (by rw [List.length_drop]; omega) (xs.drop n) rfl
          obtain ⟨hcut, hleft⟩ := frames_frame_append hf (xs.drop n)
          rw [List.take_append_drop] at hcut hleft
          rw [hcut, hleft]
          refine ⟨?_, ?_, hnone⟩
          · rw [List.flatten_cons, List.append_assoc, ← heq, List.take_append_drop]
          · intro g hg
            cases List.mem_cons.mp hg with
            | inl heq => rw [heq]; exact hf
            | inr hg => exact hall g hg

theorem flatten_frames_prefix (F : Format α) (xs : List α) : (F.frames xs).flatten <+: xs :=
  ⟨F.rest xs, (F.split_spec xs).1.symm⟩

/-- **Frames do not depend on the pieces a stream arrives in**: what was cut
off stays, and the next frames are those of what was left over and what has
arrived since. -/
theorem frames_append (F : Format α) (xs ys : List α) :
    F.frames (xs ++ ys) = F.frames xs ++ F.frames (F.rest xs ++ ys) ∧
      F.rest (xs ++ ys) = F.rest (F.rest xs ++ ys) := by
  obtain ⟨heq, hall, -⟩ := F.split_spec xs
  have hframes := frames_flatten_append hall (F.rest xs ++ ys)
  rwa [← List.append_assoc, ← heq] at hframes

theorem frames_prefix (h : xs <+: ys) : F.frames xs <+: F.frames ys := by
  obtain ⟨zs, rfl⟩ := h
  rw [(frames_append F xs zs).1]
  exact List.prefix_append ..

/-- Frames and a remainder that does not begin with one determine what a
stream is cut into. -/
theorem frames_eq (hfs : ∀ f ∈ fs, F.IsFrame f) (hys : F.frameLen ys = none)
    (h : xs = fs.flatten ++ ys) : F.frames xs = fs ∧ F.rest xs = ys := by
  obtain ⟨hframes, hrest⟩ := frames_flatten_append hfs ys
  obtain ⟨hnone, hleft⟩ := frames_of_none hys
  rw [h, hframes, hrest, hnone, hleft, List.append_nil]
  exact ⟨rfl, rfl⟩

/-- A frame that has not arrived whole. -/
theorem frameLen_of_prefix (hf : F.IsFrame f) (h : xs <+: f) (hlt : xs.length < f.length) :
    F.frameLen xs = none := by
  cases hsome : F.frameLen xs with
  | none => rfl
  | some n =>
      obtain ⟨hle, hfront⟩ := F.frameLen_eq_some.mp hsome
      have hall : ∀ g ∈ [f], F.IsFrame g := by simpa using hf
      have hone := (frames_flatten_append hall []).1
      have hcut := (frames_frame_append hfront (xs.drop n)).1
      rw [List.take_append_drop] at hcut
      obtain ⟨more, hmore⟩ := frames_prefix (F := F) h
      rw [List.flatten_singleton, List.append_nil, List.singleton_append] at hone
      rw [hone, hcut, List.cons_append, List.cons.injEq] at hmore
      rw [← hmore.1, List.length_take] at hlt
      omega

end Format

/-! ## blocks of one length -/

/-- Blocks of one length are not mistaken for others. -/
theorem prefix_of_flatten {n : Nat} (hn : 0 < n) {xs ys : List (List α)}
    (hxs : ∀ x ∈ xs, x.length = n) (hys : ∀ y ∈ ys, y.length = n)
    (h : xs.flatten <+: ys.flatten) : xs <+: ys := by
  induction xs generalizing ys with
  | nil => exact List.nil_prefix
  | cons x xs ih =>
      have hx := hxs x List.mem_cons_self
      cases ys with
      | nil =>
          have hnil := List.prefix_nil.mp h
          rw [List.flatten_cons, List.append_eq_nil_iff] at hnil
          rw [hnil.1] at hx
          exact absurd hx (Nat.ne_of_lt hn)
      | cons y ys =>
          obtain ⟨more, hmore⟩ := h
          rw [List.flatten_cons, List.flatten_cons, List.append_assoc] at hmore
          obtain ⟨rfl, hrest⟩ := List.append_inj hmore (hx.trans (hys y List.mem_cons_self).symm)
          exact List.prefix_cons_inj x |>.mpr (ih (fun z hz => hxs z (List.mem_cons_of_mem x hz))
            (fun z hz => hys z (List.mem_cons_of_mem x hz)) ⟨more, hrest⟩)

/-- Less than a block behind whole blocks is nothing. -/
theorem eq_of_flatten {n : Nat} {xs ys : List (List α)} {part : List α}
    (hys : ∀ y ∈ ys, y.length = n) (hpre : xs <+: ys) (h : xs.flatten ++ part = ys.flatten)
    (hpart : part.length < n) : xs = ys := by
  obtain ⟨zs, rfl⟩ := hpre
  rw [List.flatten_append] at h
  cases zs with
  | nil => exact (List.append_nil xs).symm
  | cons z zs =>
      have hz := hys z (by simp)
      rw [List.append_cancel_left h, List.flatten_cons, List.length_append] at hpart
      omega

end Framing
