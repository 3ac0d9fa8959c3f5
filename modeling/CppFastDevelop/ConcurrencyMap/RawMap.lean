import CppFastDevelop.Exception
import CppFastDevelop.Lib.Exec
import CppFastDevelop.Lib.Machine
import Mathlib.Data.Finmap

/-!
# CppFastDevelop.ConcurrencyMap.RawMap

`RawMap` (`cf_concurrency_map.hpp`) against the finite map it stands for.
Every function holds the lock throughout, so calls take place one after the
other.  `Insert` hands its pair to `std::map::insert`, which leaves a key that
is bound as it is, so the map agrees with its reference for as long as no
`Insert` would have to update (`agrees_iff_noUpdate`).
-/

namespace CppFastDevelop

open Exec Machine

/-- The map, an entry for every key that is bound. -/
structure RawMap (K V : Type) where
  map : AList fun _ : K => V

namespace RawMap

variable {K V : Type} [DecidableEq K]

/-! ## the functions -/

def construct : RawMap K V := ⟨∅⟩

/-- `Find`: where the key is bound, what it is bound to. -/
def find (key : K) (m : RawMap K V) : Option V := m.map.lookup key

def hasKey (key : K) (m : RawMap K V) : Bool := (m.find key).isSome

def elementNotFound : BaseException := ⟨.elementNotFoundInfo, "Element not found!", []⟩

def findEx (key : K) : EStateM BaseException (RawMap K V) V := do
  let m ← MonadState.get
  match m.find key with
  | none => throw elementNotFound
  | some v => return v

/-- `Erase`: how many entries it has removed. -/
def erase (key : K) (m : RawMap K V) : Nat × RawMap K V :=
  (if m.hasKey key then 1 else 0, ⟨m.map.erase key⟩)

def pop (key : K) : EStateM BaseException (RawMap K V) V := do
  let m ← MonadState.get
  match m.find key with
  | none => throw elementNotFound
  | some v =>
      MonadStateOf.set (m.erase key).2
      return v

def size (m : RawMap K V) : Nat := m.map.entries.length

/-- `Insert`: whether the pair is new.  A key that is bound stays bound to what
it was. -/
def insert (key : K) (value : V) (m : RawMap K V) : Bool × RawMap K V :=
  if m.hasKey key then (false, m) else (true, ⟨m.map.insert key value⟩)

/-- `OnlyInsert`, with the value that `new VT()` returns. -/
def onlyInsert (key : K) (fresh : V) (m : RawMap K V) : V × RawMap K V :=
  match m.find key with
  | some v => (v, m)
  | none =>
      let m' := (m.insert key fresh).2
      ((m'.find key).getD fresh, m')

/-! ## histories -/

/-- The calls that may change the map. -/
inductive Call (K V : Type)
  | insert (key : K) (value : V)
  | onlyInsert (key : K) (fresh : V)
  | pop (key : K)
  | erase (key : K)

def call (m : RawMap K V) : Call K V → RawMap K V
  | .insert key value => (m.insert key value).2
  | .onlyInsert key fresh => (m.onlyInsert key fresh).2
  | .pop key => finalState ((pop key).run m)
  | .erase key => (m.erase key).2

/-- The finite map that the calls are documented to keep: `Insert` inserts or
updates. -/
def reference (r : Finmap fun _ : K => V) : Call K V → Finmap fun _ : K => V
  | .insert key value => r.insert key value
  | .onlyInsert key fresh => if key ∈ r then r else r.insert key fresh
  | .pop key | .erase key => r.erase key

/-- The map and its reference take a call. -/
def step (s : RawMap K V × Finmap fun _ : K => V) (c : Call K V) :
    Option (RawMap K V × Finmap fun _ : K => V) :=
  some (s.1.call c, reference s.2 c)

/-- What the functions return is what the reference says. -/
structure Agrees (s : RawMap K V × Finmap fun _ : K => V) : Prop where
  hasKey : ∀ key, s.1.hasKey key = decide (key ∈ s.2)
  size : s.1.size = s.2.keys.card
  found : ∀ key v, s.2.lookup key = some v →
    findEx key s.1 = .ok v s.1 ∧ (∃ m, pop key s.1 = .ok v m) ∧
      ∀ fresh, (s.1.onlyInsert key fresh).1 = v
  notFound : ∀ key, key ∉ s.2 →
    findEx key s.1 = .error elementNotFound s.1 ∧ pop key s.1 = .error elementNotFound s.1 ∧
      ∀ fresh, (s.1.onlyInsert key fresh).1 = fresh

/-- `Insert` is given a key that is not bound, or bound to the same value. -/
def NoUpdate (s : RawMap K V × Finmap fun _ : K => V) : Call K V → Prop
  | .insert key value => s.1.find key = none ∨ s.1.find key = some value
  | _ => True

/-! ## agreement -/

/-- The finite map of the entries. -/
def entries (m : RawMap K V) : Finmap fun _ : K => V := m.map.toFinmap

@[simp] theorem lookup_entries (m : RawMap K V) (key : K) :
    m.entries.lookup key = m.find key := Finmap.lookup_toFinmap key m.map

theorem hasKey_iff {m : RawMap K V} {key : K} : m.hasKey key = true ↔ key ∈ m.entries := by
  rw [hasKey, ← lookup_entries, Finmap.lookup_isSome]

@[simp] theorem entries_erase (m : RawMap K V) (key : K) :
    (m.erase key).2.entries = m.entries.erase key := (Finmap.erase_toFinmap key m.map).symm

/-- An insertion at a bound key changes nothing. -/
theorem entries_insert (m : RawMap K V) (key : K) (value : V) :
    (m.insert key value).2.entries =
      if key ∈ m.entries then m.entries else m.entries.insert key value := by
  unfold insert
  by_cases h : m.hasKey key = true
  · rw [if_pos h, if_pos (hasKey_iff.mp h)]
  · rw [if_neg h, if_neg (fun hmem => h (hasKey_iff.mpr hmem))]
    exact (Finmap.insert_toFinmap key value m.map).symm

theorem onlyInsert_of_find {m : RawMap K V} {key : K} {v : V} (h : m.find key = some v)
    (fresh : V) : m.onlyInsert key fresh = (v, m) := by
  simp [onlyInsert, h]

theorem onlyInsert_of_none {m : RawMap K V} {key : K} (h : m.find key = none) (fresh : V) :
    m.onlyInsert key fresh = (fresh, (m.insert key fresh).2) := by
  have hnot : key ∉ m.entries := by
    rw [← Finmap.lookup_eq_none, lookup_entries, h]
  have hfind : (m.insert key fresh).2.find key = some fresh := by
    rw [← lookup_entries, entries_insert, if_neg hnot, Finmap.lookup_insert]
  simp [onlyInsert, h, hfind]

theorem pop_of_find {m : RawMap K V} {key : K} {v : V} (h : m.find key = some v) :
    pop key m = .ok v (m.erase key).2 := by
  simp [pop, bind_apply, map_apply, h]

theorem pop_of_none {m : RawMap K V} {key : K} (h : m.find key = none) :
    pop key m = .error elementNotFound m := by
  simp [pop, bind_apply, h]

/-- A key that is not bound has no entry to be erased. -/
theorem erase_eq_self {r : Finmap fun _ : K => V} {key : K} (h : key ∉ r) : r.erase key = r := by
  apply Finmap.ext_lookup
  intro k
  by_cases hk : k = key
  · rw [hk, Finmap.lookup_erase, Finmap.lookup_eq_none.mpr h]
  · exact Finmap.lookup_erase_ne hk

theorem insert_eq_self {r : Finmap fun _ : K => V} {key : K} {value : V}
    (h : r.lookup key = some value) : r.insert key value = r := by
  apply Finmap.ext_lookup
  intro k
  by_cases hk : k = key
  · rw [hk, Finmap.lookup_insert, h]
  · exact Finmap.lookup_insert_of_ne r hk

/-- One call. -/
theorem entries_call {m : RawMap K V} {r : Finmap fun _ : K => V} {c : Call K V}
    (h : m.entries = r) (hupdate : NoUpdate (m, r) c) : (m.call c).entries = reference r c := by
  subst h
  cases c with
  | insert key value =>
      rw [call, entries_insert, reference]
      split
      · next hmem =>
          rcases hupdate with hnone | hsome
          · rw [← lookup_entries, Finmap.lookup_eq_none] at hnone
            exact absurd hmem hnone
          · exact (insert_eq_self (by rw [lookup_entries, hsome])).symm
      · rfl
  | onlyInsert key fresh =>
      rw [call, reference]
      cases hfind : m.find key with
      | none =>
          rw [onlyInsert_of_none hfind, entries_insert]
      | some v =>
          have hmem : key ∈ m.entries := by
            rw [← Finmap.lookup_isSome, lookup_entries, hfind]
            rfl
          rw [onlyInsert_of_find hfind, if_pos hmem]
  | pop key =>
      rw [call, reference]
      cases hfind : m.find key with
      | none =>
          have hnot : key ∉ m.entries := by
            rw [← Finmap.lookup_eq_none, lookup_entries, hfind]
          rw [EStateM.run, pop_of_none hfind, finalState_error, erase_eq_self hnot]
      | some v =>
          rw [EStateM.run, pop_of_find hfind, finalState_ok, entries_erase]
  | erase key => rw [call, reference, entries_erase]

/-- Maps with the same entries answer every question alike. -/
theorem agrees_of_entries_eq {s : RawMap K V × Finmap fun _ : K => V} (h : s.1.entries = s.2) :
    Agrees s := by
  obtain ⟨m, r⟩ := s
  have h : m.entries = r := h
  have hlookup (key : K) : r.lookup key = m.find key := by rw [← h, lookup_entries]
  refine ⟨fun key => ?_, ?_, fun key v hv => ?_, fun key hkey => ?_⟩
  · rw [← h, Bool.eq_iff_iff, hasKey_iff, decide_eq_true_iff]
  · rw [← h]
    simp [size, entries, Finmap.keys, AList.toFinmap, List.keys]
  · rw [hlookup] at hv
    exact ⟨by simp [findEx, bind_apply, hv], ⟨_, pop_of_find hv⟩,
      fun fresh => by rw [onlyInsert_of_find hv]⟩
  · rw [← Finmap.lookup_eq_none, hlookup] at hkey
    exact ⟨by simp [findEx, bind_apply, hkey], pop_of_none hkey,
      fun fresh => by rw [onlyInsert_of_none hkey]⟩

/-- An `Insert` that would have to update is noticed. -/
theorem noUpdate_of_agrees {m : RawMap K V} {r : Finmap fun _ : K => V} {c : Call K V}
    (hagrees : Agrees (m.call c, reference r c)) : NoUpdate (m, r) c := by
  cases c with
  | insert key value =>
      cases hfind : m.find key with
      | none => exact Or.inl hfind
      | some v =>
          have hmem : key ∈ m.entries := by
            rw [← Finmap.lookup_isSome, lookup_entries, hfind]
            rfl
          have hkept : (m.insert key value).2 = m := by
            rw [insert, if_pos (hasKey_iff.mpr hmem)]
          have hbound : findEx key (m.insert key value).2 = .ok value (m.insert key value).2 :=
            (hagrees.found key value (Finmap.lookup_insert r)).1
          have hshown : findEx key m = .ok v m := by simp [findEx, bind_apply, hfind]
          rw [hkept, hshown] at hbound
          cases hbound
          exact Or.inr hfind
  | _ => trivial

/-- **Exactly when the map is the documented one.**  After every call of a
history its functions return what the reference says, if and only if no
`Insert` of the history was given a key that was bound to another value. -/
theorem agrees_iff_noUpdate (cs : List (Call K V)) :
    (∀ ks, ks <+: cs → ∀ t, run step (construct, ∅) ks = some t → Agrees t) ↔
      Along step NoUpdate (construct, ∅) cs := by
  refine forall_reached_iff_along_of_invariant (I := fun s => s.1.entries = s.2)
    (fun s => agrees_of_entries_eq) ?_ ?_ rfl
  · intro s c s' hstep hupdate hs
    cases hstep
    exact entries_call hs hupdate
  · intro s c s' hstep hs hagrees
    cases hstep
    exact noUpdate_of_agrees hagrees

/-- The second of two `Insert`s of a key is lost. -/
theorem not_agrees : ¬ ∀ (cs : List (Call Nat Nat))
    (t : RawMap Nat Nat × Finmap fun _ : Nat => Nat), run step (construct, ∅) cs = some t →
    Agrees t := by
  intro h
  have hagrees := h [.insert 1 10, .insert 1 20] _ rfl
  have hbound := (hagrees.found 1 20 (Finmap.lookup_insert _)).1
  have hshown : findEx 1 ((construct : RawMap Nat Nat).call (.insert 1 10) |>.call (.insert 1 20)) =
      .ok 10 ((construct : RawMap Nat Nat).call (.insert 1 10) |>.call (.insert 1 20)) := by rfl
  rw [hshown] at hbound
  cases hbound

end RawMap

end CppFastDevelop
