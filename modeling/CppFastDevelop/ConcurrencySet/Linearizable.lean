import CppFastDevelop.ConcurrencySet.Poppers
import CppFastDevelop.Lib.Atomic

/-!
# CppFastDevelop.ConcurrencySet.Linearizable

`RawNotifySet` and its callers as one object: seen from outside it is a set
whose insertions and removals can be stopped, and that carries out each call,
and each write of a flag, at one moment (`insertsAndPops_linearizable`).  This holds
whatever `_waitCount` was before the constructor left it as it is.

What the set throws where `Pop` finds it empty and stopped is never seen.
-/

namespace CppFastDevelop

open Exec Machine Monitor Atomic

variable {α : Type} [LinearOrder α]

/-! ## a set that can be stopped -/

/-- The elements, and what has been stopped. -/
structure StoppableSet (α : Type) where
  items : Finset α
  stopToInsert : Bool
  stopToPop : Bool

namespace StoppableSet

open RawNotifySet

def fresh : StoppableSet α := ⟨∅, false, false⟩

/-- A call that takes an element out of the set. -/
def IsPop : RawNotifySet.Request α → Prop
  | .pop => True
  | .tryPop => True
  | _ => False

/-- What a call may answer.  A `Pop` that finds nothing answers only once it
has been stopped. -/
inductive Answers :
    StoppableSet α → RawNotifySet.Request α → RawNotifySet.Answer α → StoppableSet α → Prop
  | inserted {q : StoppableSet α} {x : α} (hstop : q.stopToInsert = false) :
    Answers q (.insert x) (.inserted x (x ∉ q.items)) { q with items := insert x q.items }
  | insertRefused {q : StoppableSet α} {x : α} (hstop : q.stopToInsert = true) :
    Answers q (.insert x) (.threw stoppedToInsert) q
  | erased {q : StoppableSet α} {x : α} :
    Answers q (.erase x) (.erased (if x ∈ q.items then 1 else 0))
      { q with items := q.items.erase x }
  | popped {q : StoppableSet α} {c : RawNotifySet.Request α} {x : α} (hc : IsPop c)
      (hstop : q.stopToPop = false) (hx : x ∈ q.items) (hleast : ∀ y ∈ q.items, x ≤ y) :
    Answers q c (.popped x) { q with items := q.items.erase x }
  | popRefused {q : StoppableSet α} {c : RawNotifySet.Request α} (hc : IsPop c)
      (hstop : q.stopToPop = true) :
    Answers q c (.threw stoppedToPop) q
  | nothing {q : StoppableSet α} (hstop : q.stopToPop = false) (hitems : q.items = ∅) :
    Answers q .tryPop (.threw emptySet) q
  | cleared {q : StoppableSet α} : Answers q .clear .cleared { q with items := ∅ }
  | isEmpty {q : StoppableSet α} : Answers q .isEmpty (.isEmpty (q.items = ∅)) q
  | size {q : StoppableSet α} : Answers q .size (.size q.items.card) q

/-- A flag is written. -/
inductive Writes : StoppableSet α → Stopping → StoppableSet α → Prop
  | insert {q : StoppableSet α} : Writes q .insert { q with stopToInsert := true }
  | insertAndPop {q : StoppableSet α} : Writes q .insertAndPop { q with stopToInsert := true }
  | pop {q : StoppableSet α} : Writes q .pop { q with stopToPop := true }

end StoppableSet

namespace RawNotifySet

/-! ## turns -/

/-- What the set is to its callers: they do not see `_waitCount`. -/
def seenAs (m : RawNotifySet α) : StoppableSet α := ⟨m.set, m.stopToInsert, m.stopToPop⟩

def IsSeenAs (m : RawNotifySet α) (q : StoppableSet α) : Prop := m.seenAs = q

/-- Only a `Pop` waits. -/
def Waits (c : Request α) (_ : Unit) : Prop := c = .pop

/-- A pop acts at one moment, as its answer says. -/
theorem popTurn_acts (m : RawNotifySet α) :
    TurnActs StoppableSet.Answers IsSeenAs Waits m.seenAs .pop (popTurn (pop m)) := by
  cases hstop : m.stopToPop with
  | false =>
      rcases m.set.eq_empty_or_nonempty with hq | hq
      · rw [popTurn_pop_empty hstop hq]
        exact ⟨rfl, rfl⟩
      · rw [popTurn_pop_nonempty hstop hq]
        exact ⟨_, .popped trivial hstop (m.set.min'_mem hq) (fun y hy => m.set.min'_le y hy), rfl⟩
  | true =>
      have hturn : popTurn (pop m) = (m, .done .none (.threw stoppedToPop)) := by
        simp [pop, popTurn, bind_apply, hstop]
      rw [hturn]
      exact ⟨_, .popRefused trivial hstop, rfl⟩

/-- A try to pop acts at one moment, as its answer says. -/
theorem tryPopTurn_acts (m : RawNotifySet α) :
    TurnActs StoppableSet.Answers IsSeenAs Waits m.seenAs .tryPop (tryPopTurn (tryPop m)) := by
  cases hstop : m.stopToPop with
  | false =>
      by_cases hq : m.set.Nonempty
      · rw [tryPopTurn_tryPop_nonempty hstop hq]
        exact ⟨_, .popped trivial hstop (m.set.min'_mem hq) (fun y hy => m.set.min'_le y hy), rfl⟩
      · rw [tryPopTurn_tryPop_empty hstop hq]
        exact ⟨_, .nothing hstop (Finset.not_nonempty_iff_eq_empty.mp hq), rfl⟩
  | true =>
      have hturn : tryPopTurn (tryPop m) = (m, .done .none (.threw stoppedToPop)) := by
        simp [tryPop, tryPopTurn, bind_apply, hstop]
      rw [hturn]
      exact ⟨_, .popRefused trivial hstop, rfl⟩

/-- An insertion acts at one moment, as its answer says. -/
theorem insertTurn_acts (x : α) (m : RawNotifySet α) : TurnActs StoppableSet.Answers IsSeenAs
    Waits m.seenAs (.insert x) (insertTurn x (insert x m)) := by
  rw [insertTurn_insert]
  split
  · next hstop => exact ⟨_, .insertRefused hstop, rfl⟩
  next hstop =>
    split
    · exact ⟨_, .inserted (eq_false_of_ne_true hstop), rfl⟩
    · exact ⟨_, .inserted (eq_false_of_ne_true hstop), rfl⟩

/-- The calls implement the set with two words, each at one moment. -/
theorem program_implements :
    Implements program StoppableSet.Answers (IsSeenAs (α := α)) Waits where
  enter c m q h := by
    subst h
    cases c with
    | insert x => exact insertTurn_acts x m
    | erase x => exact ⟨_, .erased, rfl⟩
    | pop => exact popTurn_acts m
    | tryPop => exact tryPopTurn_acts m
    | clear => exact ⟨_, .cleared, rfl⟩
    | isEmpty => exact ⟨_, .isEmpty, rfl⟩
    | size => exact ⟨_, .size, rfl⟩
  resume c l b e m q hc h := by
    subst h
    cases hc
    exact popTurn_acts m

omit [LinearOrder α] in
/-- Each write of a flag sets one word. -/
theorem writeFlag_writes (u : Stopping) {m : RawNotifySet α} {q : StoppableSet α}
    (h : IsSeenAs m q) : ∃ q', q.Writes u q' ∧ IsSeenAs (writeFlag u m).1 q' := by
  subst h
  cases u with
  | insert => exact ⟨_, .insert, rfl⟩
  | insertAndPop => exact ⟨_, .insertAndPop, rfl⟩
  | pop => exact ⟨_, .pop, rfl⟩

/-! ## runs -/

variable {ι : Type} [DecidableEq ι] [Fintype ι]

/-- **The set is linearizable.**  Whatever its callers and whoever stops it
do: what they see of it is what they would see of a set that carries out each
call and each write of a flag at one moment. -/
theorem insertsAndPops_linearizable (waitCount : Int32)
    (as : List (LockedSignal.Label ι (Request α) Unit Stopping)) {s : Threads ι α}
    {h : List (Event ι (Request α ⊕ Stopping) (Answer α ⊕ Unit))}
    (hrun : run (recorded step (observeLocked program)) (idleThreads waitCount, []) as =
      some (s, h)) :
    Linearizes (withWrites StoppableSet.Answers StoppableSet.Writes) .fresh h s.mem.seenAs := by
  obtain ⟨_, hlin, rfl⟩ := linearizable_of_lockedSignal program_implements
    (fun u _ _ => writeFlag_writes u) rfl hrun
  exact hlin

/-- Two elements, and the lesser is taken first. -/
def twoElements {ι : Type} (i j : ι) :
    List (LockedSignal.Label ι (Request Nat) Unit Stopping) :=
  [.enter i .pop none, .park i, .enter j (.insert 7) (some i), .enter j (.insert 3) none,
    .resume i () none, .enter j .tryPop none]

theorem insertsAndPops_linearizable_twoElements :
    ∃ s h, run (recorded step (observeLocked program)) (idleThreads 0, [])
        (twoElements (0 : Fin 2) 1) = some (s, h) ∧
      h = [.call 0 (.inl .pop), .call 1 (.inl (.insert 7)), .ret 1 (.inl (.inserted 7 true)),
        .call 1 (.inl (.insert 3)), .ret 1 (.inl (.inserted 3 true)), .ret 0 (.inl (.popped 3)),
        .call 1 (.inl .tryPop), .ret 1 (.inl (.popped 7))] ∧
      Linearizes (withWrites StoppableSet.Answers StoppableSet.Writes) .fresh h s.mem.seenAs :=
  ⟨_, _, rfl, rfl, insertsAndPops_linearizable 0 (twoElements 0 1) rfl⟩

end RawNotifySet

end CppFastDevelop
