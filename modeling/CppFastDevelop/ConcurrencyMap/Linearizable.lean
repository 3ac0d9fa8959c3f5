import CppFastDevelop.ConcurrencyMap.RawMap
import CppFastDevelop.Lib.ReadersWriter

/-!
# CppFastDevelop.ConcurrencyMap.Linearizable

`RawMap` called by many threads.  `_readLock` and `_writeLock` are the two
sides of one readers-writer lock, and between two accesses to the map the
other threads take their steps: an iterator may be used long after `find` has
returned it.

What the callers see is what they would see if each call were carried out at
one moment (`accesses_linearizable`), and no iterator is used after its entry
has been erased.
-/

namespace CppFastDevelop

open Machine ReadersWriter
open Atomic (Event Spec Linearizes)

namespace RawMap

variable {K V : Type}

/-! ## calls -/

/-- The functions that do not return an iterator. -/
inductive Request (K V : Type)
  | hasKey (key : K)
  | findEx (key : K)
  | pop (key : K)
  | size
  | erase (key : K)
  | insert (key : K) (value : V)
  | onlyInsert (key : K) (fresh : V)
  deriving DecidableEq, Repr

/-- What a function returns or throws; what comes of an iterator without an
entry is `dangling`. -/
inductive Answer (V : Type)
  | bool (b : Bool)
  | value (v : V)
  | count (n : Nat)
  | thrown (e : BaseException)
  | dangling
  deriving DecidableEq, Repr

/-- The side of the lock that the guard takes. -/
def Request.kind : Request K V → Kind
  | .hasKey _ | .findEx _ | .size => .read
  | .pop _ | .erase _ | .insert _ _ | .onlyInsert _ _ => .write

/-- What a call does next to the map.  An iterator is the key of its entry. -/
inductive Access (K V : Type)
  | hasKey (key : K)
  | findEx (key : K)
  | read (key : K) -- returns `it->second`
  | pop (key : K)
  | readPop (key : K)
  | erasePop (key : K) (v : V)
  | size
  | erase (key : K)
  | insert (key : K) (value : V)
  | onlyInsert (key : K) (fresh : V)
  | insertNew (key : K) (fresh : V)
  | findNew (key : K)
  deriving DecidableEq, Repr

def Request.enter : Request K V → Access K V
  | .hasKey key => .hasKey key
  | .findEx key => .findEx key
  | .pop key => .pop key
  | .size => .size
  | .erase key => .erase key
  | .insert key value => .insert key value
  | .onlyInsert key fresh => .onlyInsert key fresh

variable [DecidableEq K]

def access (m : RawMap K V) : Access K V → RawMap K V × (Access K V ⊕ Answer V)
  | .hasKey key => (m, .inr (.bool (m.hasKey key)))
  | .findEx key => (m, if m.hasKey key then .inl (.read key) else .inr (.thrown elementNotFound))
  | .read key => (m, .inr ((m.find key).elim .dangling .value))
  | .pop key => (m, if m.hasKey key then .inl (.readPop key) else .inr (.thrown elementNotFound))
  | .readPop key => (m, (m.find key).elim (.inr .dangling) fun v => .inl (.erasePop key v))
  | .erasePop key v => ((m.erase key).2, .inr (.value v))
  | .size => (m, .inr (.count m.size))
  | .erase key => ((m.erase key).2, .inr (.count (m.erase key).1))
  | .insert key value => ((m.insert key value).2, .inr (.bool (m.insert key value).1))
  | .onlyInsert key fresh =>
    (m, .inl (if m.hasKey key then .read key else .insertNew key fresh))
  | .insertNew key fresh => ((m.insert key fresh).2, .inl (.findNew key))
  | .findNew key => (m, .inl (.read key))

def program (K V : Type) [DecidableEq K] :
    Program (RawMap K V) (Request K V) (Access K V) (Answer V) where
  kind := Request.kind
  enter := Request.enter
  access := fun a m => m.access a

/-! ## calls at one moment -/

def ofResult : EStateM.Result BaseException (RawMap K V) V → Answer V × RawMap K V
  | .ok v m => (.value v, m)
  | .error e m => (.thrown e, m)

/-- The call, with nobody else around. -/
def apply (m : RawMap K V) : Request K V → Answer V × RawMap K V
  | .hasKey key => (.bool (m.hasKey key), m)
  | .findEx key => ofResult (findEx key m)
  | .pop key => ofResult (pop key m)
  | .size => (.count m.size, m)
  | .erase key => (.count (m.erase key).1, (m.erase key).2)
  | .insert key value => (.bool (m.insert key value).1, (m.insert key value).2)
  | .onlyInsert key fresh => (.value (m.onlyInsert key fresh).1, (m.onlyInsert key fresh).2)

def atOnce (K V : Type) [DecidableEq K] : Spec (RawMap K V) (Request K V) (Answer V) :=
  fun m c o m' => m.apply c = (o, m')

/-- What a call has made of the map so far. -/
inductive Mid : Request K V → RawMap K V → Access K V → RawMap K V → Prop
  | start (c : Request K V) (m : RawMap K V) : Mid c m c.enter m
  | found {key : K} {v : V} {m : RawMap K V} (h : m.find key = some v) :
    Mid (.findEx key) m (.read key) m
  | toRead {key : K} {v : V} {m : RawMap K V} (h : m.find key = some v) :
    Mid (.pop key) m (.readPop key) m
  | toErase {key : K} {v : V} {m : RawMap K V} (h : m.find key = some v) :
    Mid (.pop key) m (.erasePop key v) m
  | bound {key : K} {v fresh : V} {m : RawMap K V} (h : m.find key = some v) :
    Mid (.onlyInsert key fresh) m (.read key) m
  | toInsert {key : K} {fresh : V} {m : RawMap K V} (h : m.find key = none) :
    Mid (.onlyInsert key fresh) m (.insertNew key fresh) m
  | toFind {key : K} {fresh : V} {m : RawMap K V} (h : m.find key = none) :
    Mid (.onlyInsert key fresh) m (.findNew key) (m.insert key fresh).2
  | inserted {key : K} {fresh : V} {m : RawMap K V} (h : m.find key = none) :
    Mid (.onlyInsert key fresh) m (.read key) (m.insert key fresh).2

/-- What is inserted at a free key is found there. -/
theorem find_insert_of_none {m : RawMap K V} {key : K} (h : m.find key = none) (fresh : V) :
    (m.insert key fresh).2.find key = some fresh := by
  have hnot : key ∉ m.entries := by rw [← Finmap.lookup_eq_none, lookup_entries, h]
  rw [← lookup_entries, entries_insert, if_neg hnot, Finmap.lookup_insert]

theorem apply_findEx_of_find {m : RawMap K V} {key : K} {v : V} (h : m.find key = some v) :
    m.apply (.findEx key) = (.value v, m) := by
  simp [apply, findEx, Exec.bind_apply, h, ofResult]

theorem apply_findEx_of_none {m : RawMap K V} {key : K} (h : m.find key = none) :
    m.apply (.findEx key) = (.thrown elementNotFound, m) := by
  simp [apply, findEx, Exec.bind_apply, h, ofResult]

theorem apply_pop_of_find {m : RawMap K V} {key : K} {v : V} (h : m.find key = some v) :
    m.apply (.pop key) = (.value v, (m.erase key).2) := by
  rw [apply, pop_of_find h, ofResult]

theorem apply_pop_of_none {m : RawMap K V} {key : K} (h : m.find key = none) :
    m.apply (.pop key) = (.thrown elementNotFound, m) := by
  rw [apply, pop_of_none h, ofResult]

/-- The first access of a call. -/
theorem acts_enter (c : Request K V) (m : RawMap K V) :
    Acts (program K V) (atOnce K V) (· = ·) Mid c m m (m.access c.enter) := by
  cases c with
  | hasKey key => exact ⟨m, rfl, rfl, fun _ => ⟨rfl, rfl⟩⟩
  | findEx key =>
      cases h : m.find key with
      | none =>
          simp only [Request.enter, access, hasKey, h]
          exact ⟨m, apply_findEx_of_none h, rfl, fun _ => ⟨rfl, rfl⟩⟩
      | some v =>
          simp only [Request.enter, access, hasKey, h]
          exact ⟨.found h, fun _ => rfl⟩
  | pop key =>
      cases h : m.find key with
      | none =>
          simp only [Request.enter, access, hasKey, h]
          exact ⟨m, apply_pop_of_none h, rfl, fun _ => ⟨rfl, rfl⟩⟩
      | some v =>
          simp only [Request.enter, access, hasKey, h]
          exact ⟨.toRead h, fun _ => rfl⟩
  | size => exact ⟨m, rfl, rfl, fun _ => ⟨rfl, rfl⟩⟩
  | erase key => exact ⟨_, rfl, rfl, fun h => by cases h⟩
  | insert key value => exact ⟨_, rfl, rfl, fun h => by cases h⟩
  | onlyInsert key fresh =>
      cases h : m.find key with
      | none =>
          simp only [Request.enter, access, hasKey, h]
          exact ⟨.toInsert h, fun _ => rfl⟩
      | some v =>
          simp only [Request.enter, access, hasKey, h]
          exact ⟨.bound h, fun _ => rfl⟩

/-- Every access of a call, from the one before it. -/
theorem implements : Implements (program K V) (atOnce K V) (· = ·) Mid where
  enter := by
    rintro c m _ rfl
    exact .start c m
  access := by
    intro c v l m hmid
    cases hmid with
    | start => exact acts_enter c v
    | found h =>
        simp only [program, access, h, Option.elim]
        exact ⟨v, apply_findEx_of_find h, rfl, fun _ => ⟨rfl, rfl⟩⟩
    | toRead h =>
        simp only [program, access, h, Option.elim]
        exact ⟨.toErase h, fun _ => rfl⟩
    | toErase h => exact ⟨_, apply_pop_of_find h, rfl, fun hkind => by cases hkind⟩
    | bound h =>
        simp only [program, access, h, Option.elim]
        refine ⟨v, ?_, rfl, fun _ => ⟨rfl, rfl⟩⟩
        rw [atOnce, apply, onlyInsert_of_find h]
    | toInsert h => exact ⟨.toFind h, fun hkind => by cases hkind⟩
    | toFind h => exact ⟨.inserted h, fun _ => rfl⟩
    | @inserted key fresh _ h =>
        simp only [program, access, find_insert_of_none h fresh, Option.elim]
        refine ⟨_, ?_, rfl, fun hkind => by cases hkind⟩
        rw [atOnce, apply, onlyInsert_of_none h]

/-- Nothing becomes of an iterator while nobody else is around. -/
theorem apply_ne_dangling {m m' : RawMap K V} {c : Request K V} {o : Answer V}
    (h : m.apply c = (o, m')) : o ≠ .dangling := by
  have hresult (r : EStateM.Result BaseException (RawMap K V) V) : (ofResult r).1 ≠ .dangling := by
    cases r <;> exact fun hr => by cases hr
  obtain rfl : (m.apply c).1 = o := congrArg Prod.fst h
  cases c with
  | findEx key => exact hresult (findEx key m)
  | pop key => exact hresult (pop key m)
  | hasKey | size | erase | insert | onlyInsert => exact fun hr => by cases hr

/-- **The lock makes every call one access.**  Whatever the callers, and
whichever order the accesses to the map take place in, what the callers see
is what they would see of a map that carries out each call at one moment; no
iterator is used without its entry. -/
theorem accesses_linearizable {ι : Type} [DecidableEq ι] [Fintype ι]
    {ls : List (Label ι (Request K V))} {h : List (Event ι (Request K V) (Answer V))}
    {s : State ι (RawMap K V) (Request K V) (Access K V) (Answer V)}
    (hrun : run (recorded (ReadersWriter.step (program K V)) observe) (.fresh construct, []) ls =
      some (s, h)) :
    (∃ m, Linearizes (atOnce K V) construct h m ∧ (¬ s.Writing → s.mem = m)) ∧
      ∀ i, .ret i .dangling ∉ h := by
  obtain ⟨m, hlin, hmem⟩ := linearizable implements rfl hrun
  have hanswers (i : ι) (o : Answer V) (ho : .ret i o ∈ h) : o ≠ .dangling :=
    hlin.answers (Q := (· ≠ .dangling)) (fun _ _ _ _ happly => apply_ne_dangling happly) ho
  exact ⟨⟨m, hlin, hmem⟩, fun i hdangling => hanswers i .dangling hdangling rfl⟩

/-- Two readers hold the lock together while a `Pop` waits for it. -/
def sharing {ι : Type} (i j k : ι) : List (Label ι (Request Nat Nat)) :=
  [.call i (.onlyInsert 1 10), .acquire i, .access i, .access i, .access i, .access i, .release i,
    .ret i, .call i (.findEx 1), .call j (.findEx 1), .call k (.pop 1), .acquire i, .acquire j,
    .access i, .access j, .access j, .access i, .release j, .ret j, .release i, .ret i, .acquire k,
    .access k, .access k, .access k, .release k, .ret k]

theorem accesses_linearizable_sharing : ∃ s h,
    run (recorded (ReadersWriter.step (program Nat Nat)) observe) (.fresh construct, [])
        (sharing (0 : Fin 3) 1 2) = some (s, h) ∧
      (∃ m, Linearizes (atOnce Nat Nat) construct h m ∧ (¬ s.Writing → s.mem = m)) ∧
      ∀ i, .ret i .dangling ∉ h := by
  have hrun : (run (recorded (ReadersWriter.step (program Nat Nat)) observe)
      (.fresh construct, []) (sharing (0 : Fin 3) 1 2)).isSome := by decide
  obtain ⟨⟨s, h⟩, hs⟩ := Option.isSome_iff_exists.mp hrun
  exact ⟨s, h, hs, accesses_linearizable hs⟩

end RawMap

end CppFastDevelop
