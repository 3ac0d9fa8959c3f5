import CppFastDevelop.Lib.LockedSignal
import Mathlib.Data.Fintype.Card
import Mathlib.Logic.Relation

/-!
# CppFastDevelop.Lib.SharedSignal

One producer and any number of consumers of a bounded buffer, who all sleep on
one condition variable and signal once for each element they put or take.  A
signal wakes any one sleeper, so it may be spent on one that cannot go on.

Whether this ends with everybody asleep depends on the numbers only.  With no
more consumers than elements fit into the buffer it cannot
(`not_allAsleep_of_card_le`): a consumer that sleeps while there are elements
has been overtaken by as many that are awake.  With more it can
(`allAsleep_reachable`).
-/

namespace SharedSignal

open LockedSignal (count count_update count_eq_zero)

/-- Where a process is. -/
inductive Mode
  | idle
  | asleep
  | woken
  | notifying -- has put or taken an element, and has not signalled yet
  deriving DecidableEq, Repr

namespace Mode

/-- The process may look at the buffer. -/
def Ready (m : Mode) : Prop := m = .idle ∨ m = .woken

def isAsleep : Mode → Bool
  | .asleep => true
  | _ => false

def isWoken : Mode → Bool
  | .woken => true
  | _ => false

def isNotifying : Mode → Bool
  | .notifying => true
  | _ => false

end Mode

/-- The processes, and how many elements there are. -/
structure State (κ : Type) where
  producer : Mode
  consumers : κ → Mode
  items : Nat

variable {κ : Type}

/-- Everybody sleeps. -/
def State.AllAsleep (s : State κ) : Prop :=
  s.producer = .asleep ∧ ∀ j, s.consumers j = .asleep

/-- Nobody has looked at the buffer yet. -/
def State.fresh : State κ := ⟨.idle, fun _ => .idle, 0⟩

variable [DecidableEq κ]

/-- What may happen next, where `room` elements fit.  The last two are
wake-ups nobody asked for. -/
inductive Move (room : Nat) : State κ → State κ → Prop
  | put {s : State κ} (hp : s.producer.Ready) (hroom : s.items < room) :
    Move room s { s with producer := .notifying, items := s.items + 1 }
  | block {s : State κ} (hp : s.producer.Ready) (hroom : room ≤ s.items) :
    Move room s { s with producer := .asleep }
  | take {s : State κ} {j : κ} (hj : (s.consumers j).Ready) (hitems : 0 < s.items) :
    Move room s { s with
      consumers := Function.update s.consumers j .notifying, items := s.items - 1 }
  | wait {s : State κ} {j : κ} (hj : (s.consumers j).Ready) (hitems : s.items = 0) :
    Move room s { s with consumers := Function.update s.consumers j .asleep }
  | signal {s : State κ} {j : κ} (hp : s.producer = .notifying) (hj : s.consumers j = .asleep) :
    Move room s { s with
      producer := .idle, consumers := Function.update s.consumers j .woken }
  | signalNobody {s : State κ} (hp : s.producer = .notifying)
      (hnone : ∀ j, s.consumers j ≠ .asleep) : Move room s { s with producer := .idle }
  | signalProducer {s : State κ} {i : κ} (hi : s.consumers i = .notifying)
      (hp : s.producer = .asleep) :
    Move room s { s with
      producer := .woken, consumers := Function.update s.consumers i .idle }
  | signalConsumer {s : State κ} {i j : κ} (hi : s.consumers i = .notifying)
      (hj : s.consumers j = .asleep) :
    Move room s { s with
      consumers := Function.update (Function.update s.consumers j .woken) i .idle }
  | signalNone {s : State κ} {i : κ} (hi : s.consumers i = .notifying)
      (hp : s.producer ≠ .asleep) (hnone : ∀ j, s.consumers j ≠ .asleep) :
    Move room s { s with consumers := Function.update s.consumers i .idle }
  | wakeProducer {s : State κ} (hp : s.producer = .asleep) :
    Move room s { s with producer := .woken }
  | wakeConsumer {s : State κ} {j : κ} (hj : s.consumers j = .asleep) :
    Move room s { s with consumers := Function.update s.consumers j .woken }

/-! ## no more consumers than elements -/

section Safe

variable [Fintype κ]

/-- How many consumers have been woken. -/
def State.woken (s : State κ) : Nat := count Mode.isWoken s.consumers

/-- How many consumers have taken an element and still have to signal. -/
def State.notifying (s : State κ) : Nat := count Mode.isNotifying s.consumers

/-- As long as a consumer sleeps, a woken one is there for every element; and
as long as the producer sleeps no consumer does, and nobody has signalled. -/
structure Fed (room : Nat) (s : State κ) : Prop where
  elements : (∃ j, s.consumers j = .asleep) →
    s.items ≤ s.woken + s.producer.isNotifying.toNat
  producer : s.producer = .asleep →
    (∀ j, s.consumers j ≠ .asleep) ∧ room ≤ s.items + s.notifying

omit [DecidableEq κ] in
/-- A consumer that is not of the counted kind leaves one uncounted. -/
theorem count_lt_card {p : Mode → Bool} {f : κ → Mode} {j : κ} (h : p (f j) = false) :
    count p f < Fintype.card κ := by
  refine Finset.card_lt_card (Finset.filter_ssubset.mpr ⟨j, Finset.mem_univ j, ?_⟩)
  rw [h]
  decide

omit [DecidableEq κ] in
theorem fed_fresh (room : Nat) : Fed room (.fresh : State κ) where
  elements := by rintro ⟨j, hj⟩; cases hj
  producer := nofun

omit [Fintype κ] in
/-- A consumer that moves and does not go to sleep. -/
theorem asleep_of_update {f : κ → Mode} {i j : κ} {x : Mode}
    (h : Function.update f i x j = .asleep) (hx : x ≠ .asleep) : f j = .asleep := by
  by_cases hji : j = i
  · subst hji
    rw [Function.update_self] at h
    exact absurd h hx
  · rwa [Function.update_of_ne hji] at h

/-- How the counts change when a consumer moves. -/
theorem counts_update (f : κ → Mode) (i : κ) (x : Mode) :
    count Mode.isWoken (Function.update f i x) + (f i).isWoken.toNat =
        count Mode.isWoken f + x.isWoken.toNat ∧
      count Mode.isNotifying (Function.update f i x) + (f i).isNotifying.toNat =
        count Mode.isNotifying f + x.isNotifying.toNat :=
  ⟨count_update _ f i x, count_update _ f i x⟩

section Moves

variable {room : Nat} {s : State κ} (h : Fed room s)

include h

omit [DecidableEq κ] in
theorem Fed.put (hp : s.producer.Ready) :
    Fed room { s with producer := .notifying, items := s.items + 1 } where
  elements hj := by
    have hle := h.elements hj
    have hquiet : s.producer.isNotifying.toNat = 0 := by rcases hp with hp | hp <;> rw [hp] <;> rfl
    show s.items + 1 ≤ s.woken + 1
    omega
  producer := nofun

omit [DecidableEq κ] in
/-- The buffer is full, so the woken would be as many as its elements, and the
sleeper one more consumer. -/
theorem Fed.block (hcard : Fintype.card κ ≤ room) (hp : s.producer.Ready)
    (hroom : room ≤ s.items) : Fed room { s with producer := .asleep } := by
  have hquiet : s.producer.isNotifying.toNat = 0 := by rcases hp with hp | hp <;> rw [hp] <;> rfl
  have hnone (j : κ) : s.consumers j ≠ .asleep := by
    intro hj
    have hle := h.elements ⟨j, hj⟩
    have hlt : s.woken < Fintype.card κ :=
      count_lt_card (p := Mode.isWoken) (j := j) (by rw [hj]; rfl)
    omega
  exact ⟨fun ⟨j, hj⟩ => absurd hj (hnone j), fun _ => ⟨hnone, Nat.le_add_right_of_le hroom⟩⟩

theorem Fed.take {j : κ} (hj : (s.consumers j).Ready) (hitems : 0 < s.items) :
    Fed room { s with
      consumers := Function.update s.consumers j .notifying, items := s.items - 1 } := by
  obtain ⟨hwoken, hnotifying⟩ := counts_update s.consumers j .notifying
  have hone := (s.consumers j).isWoken.toNat_le
  refine ⟨fun ⟨i, hi⟩ => ?_, fun hp => ⟨fun i hi => ?_, ?_⟩⟩
  · have hle := h.elements ⟨i, asleep_of_update hi nofun⟩
    simp only [State.woken, Mode.isWoken, Bool.toNat_false] at *
    omega
  · exact (h.producer hp).1 i (asleep_of_update hi nofun)
  · have hle := (h.producer hp).2
    have hquiet : (s.consumers j).isNotifying.toNat = 0 := by
      rcases hj with hj | hj <;> rw [hj] <;> rfl
    simp only [State.notifying, Mode.isNotifying, Bool.toNat_true] at *
    omega

/-- The buffer is empty, so with the producer asleep as many consumers as it
has room for would still have to signal. -/
theorem Fed.wait (hcard : Fintype.card κ ≤ room) {j : κ} (hj : (s.consumers j).Ready)
    (hitems : s.items = 0) :
    Fed room { s with consumers := Function.update s.consumers j .asleep } := by
  refine ⟨fun _ => ?_, fun hp => ?_⟩
  · show s.items ≤ _
    omega
  · have hle := (h.producer hp).2
    have hlt : s.notifying < Fintype.card κ := count_lt_card (p := Mode.isNotifying) (j := j)
      (by rcases hj with hj | hj <;> rw [hj] <;> rfl)
    omega

theorem Fed.signal {j : κ} (hp : s.producer = .notifying) (hj : s.consumers j = .asleep) :
    Fed room { s with
      producer := .idle, consumers := Function.update s.consumers j .woken } := by
  refine ⟨fun _ => ?_, nofun⟩
  have hle := h.elements ⟨j, hj⟩
  have hwoken := (counts_update s.consumers j .woken).1
  rw [hp] at hle
  rw [hj] at hwoken
  simp only [State.woken, Mode.isWoken, Mode.isNotifying, Bool.toNat_true, Bool.toNat_false] at *
  omega

/-- One consumer wakes another, or it is woken for no reason. -/
theorem Fed.wakeConsumer {j : κ} (hj : s.consumers j = .asleep) :
    Fed room { s with consumers := Function.update s.consumers j .woken } := by
  refine ⟨fun _ => ?_, fun hp => absurd hj ((h.producer hp).1 j)⟩
  have hle := h.elements ⟨j, hj⟩
  have hwoken := (counts_update s.consumers j .woken).1
  rw [hj] at hwoken
  simp only [State.woken, Mode.isWoken, Bool.toNat_true, Bool.toNat_false] at *
  omega

/-- A consumer has signalled. -/
theorem Fed.idle {i : κ} (hi : s.consumers i = .notifying) (hp : s.producer ≠ .asleep) :
    Fed room { s with consumers := Function.update s.consumers i .idle } := by
  refine ⟨fun ⟨j, hj⟩ => ?_, fun hasleep => absurd hasleep hp⟩
  have hle := h.elements ⟨j, asleep_of_update hj nofun⟩
  have hwoken := (counts_update s.consumers i .idle).1
  rw [hi] at hwoken
  simp only [State.woken, Mode.isWoken, Bool.toNat_false] at *
  omega

end Moves

theorem fed_move {room : Nat} (hcard : Fintype.card κ ≤ room) {s t : State κ}
    (hmove : Move room s t) (h : Fed room s) : Fed room t := by
  cases hmove with
  | put hp hroom => exact h.put hp
  | block hp hroom => exact h.block hcard hp hroom
  | take hj hitems => exact h.take hj hitems
  | wait hj hitems => exact h.wait hcard hj hitems
  | signal hp hj => exact h.signal hp hj
  | signalNobody hp hnone => exact ⟨fun ⟨j, hj⟩ => absurd hj (hnone j), nofun⟩
  | @signalProducer i hi hp =>
      refine ⟨fun ⟨j, hj⟩ => ?_, nofun⟩
      exact absurd (asleep_of_update hj nofun) ((h.producer hp).1 j)
  | @signalConsumer i j hi hj =>
      have hij : i ≠ j := by
        rintro rfl
        rw [hi] at hj
        cases hj
      have hp : s.producer ≠ .asleep := fun hp => (h.producer hp).1 j hj
      exact (h.wakeConsumer hj).idle (by simpa [Function.update_of_ne hij] using hi) hp
  | signalNone hi hp hnone => exact h.idle hi hp
  | wakeProducer hp => exact ⟨fun ⟨j, hj⟩ => absurd hj ((h.producer hp).1 j), nofun⟩
  | wakeConsumer hj => exact h.wakeConsumer hj

/-- **With no more consumers than elements fit, somebody is awake.** -/
theorem not_allAsleep_of_card_le [Nonempty κ] {room : Nat} (hcard : Fintype.card κ ≤ room)
    {s : State κ} (h : Relation.ReflTransGen (Move room) .fresh s) : ¬ s.AllAsleep := by
  have hfed : Fed room s := by
    induction h with
    | refl => exact fed_fresh room
    | tail _ hmove ih => exact fed_move hcard hmove ih
  rintro ⟨hp, hall⟩
  obtain ⟨j⟩ := ‹Nonempty κ›
  exact (hfed.producer hp).1 j (hall j)

end Safe

/-! ## more consumers than elements -/

section Stuck

/-- Some consumers are elsewhere. -/
def except (f : κ → Mode) (W : Finset κ) (x : Mode) : κ → Mode :=
  fun j => if j ∈ W then x else f j

theorem update_except (f : κ → Mode) (W : Finset κ) (x : Mode) (i : κ) :
    Function.update (except f W x) i x = except f (insert i W) x := by
  funext j
  by_cases hj : j = i <;> simp [except, hj]

theorem except_of_notMem {f : κ → Mode} {W : Finset κ} {x : Mode} {i : κ} (h : i ∉ W) :
    except f W x i = f i := if_neg h

variable {room : Nat} {p : Mode} {f : κ → Mode} {n : Nat}

/-- Consumers find the buffer empty. -/
theorem reaches_wait {W : Finset κ} (h : ∀ j ∈ W, (f j).Ready) :
    Relation.ReflTransGen (Move room) ⟨p, f, 0⟩ ⟨p, except f W .asleep, 0⟩ := by
  induction W using Finset.induction_on with
  | empty => exact .refl
  | insert j W hj ih =>
      refine (ih fun i hi => h i (Finset.mem_insert_of_mem hi)).tail ?_
      rw [← update_except]
      have hready : (except f W .asleep j).Ready := by
        rw [except_of_notMem hj]
        exact h j (Finset.mem_insert_self j W)
      exact .wait hready rfl

/-- Consumers take an element each. -/
theorem reaches_take {W : Finset κ} (h : ∀ j ∈ W, (f j).Ready) : Relation.ReflTransGen (Move room)
    ⟨p, f, n + W.card⟩ ⟨p, except f W .notifying, n⟩ := by
  induction W using Finset.induction_on generalizing n with
  | empty => exact .refl
  | insert j W hj ih =>
      have hbefore := ih (n := n + 1) fun i hi => h i (Finset.mem_insert_of_mem hi)
      rw [Finset.card_insert_of_notMem hj, ← update_except]
      rw [Nat.add_right_comm, Nat.add_assoc] at hbefore
      have hready : (except f W .notifying j).Ready := by
        rw [except_of_notMem hj]
        exact h j (Finset.mem_insert_self j W)
      exact hbefore.tail (.take hready (Nat.succ_pos n))

/-- The producer puts an element for each of some sleepers. -/
theorem reaches_put {W : Finset κ} (h : ∀ j ∈ W, f j = .asleep) (hroom : W.card ≤ room) :
    Relation.ReflTransGen (Move room) ⟨.idle, f, 0⟩ ⟨.idle, except f W .woken, W.card⟩ := by
  induction W using Finset.induction_on with
  | empty => exact .refl
  | insert j W hj ih =>
      rw [Finset.card_insert_of_notMem hj] at hroom ⊢
      have hless : W.card < room := hroom
      have hbefore := ih (fun i hi => h i (Finset.mem_insert_of_mem hi)) (by omega)
      have hasleep : except f W .woken j = .asleep := by
        rw [except_of_notMem hj]
        exact h j (Finset.mem_insert_self j W)
      rw [← update_except]
      exact (hbefore.tail (.put (.inl rfl) hless)).tail (.signal rfl hasleep)

/-- Each of some consumers signals to the same sleeper, which finds nothing
and goes back to sleep. -/
theorem reaches_waste {W : Finset κ} {l : κ} (hl : f l = .asleep)
    (h : ∀ j ∈ W, f j = .notifying) :
    Relation.ReflTransGen (Move room) ⟨p, f, 0⟩ ⟨p, except f W .idle, 0⟩ := by
  have hnot (V : Finset κ) (hV : V ⊆ W) : l ∉ V := by
    intro hmem
    have hnotifying := h l (hV hmem)
    rw [hl] at hnotifying
    cases hnotifying
  induction W using Finset.induction_on with
  | empty => exact .refl
  | insert j W hj ih =>
      have hbefore := ih (fun i hi => h i (Finset.mem_insert_of_mem hi))
        fun V hV => hnot V (hV.trans (Finset.subset_insert j W))
      have hlW : l ∉ insert j W := hnot _ (Finset.Subset.refl _)
      have hasleep : except f W .idle l = .asleep := by
        rw [except_of_notMem fun hmem => hlW (Finset.mem_insert_of_mem hmem)]
        exact hl
      have hnotifying : except f W .idle j = .notifying := by
        rw [except_of_notMem hj]
        exact h j (Finset.mem_insert_self j W)
      have hwake := hbefore.tail (.signalConsumer hnotifying hasleep)
      have hlj : l ≠ j := fun heq => hlW (heq ▸ Finset.mem_insert_self j W)
      have hready :
          (Function.update (Function.update (except f W .idle) l .woken) j .idle l).Ready := by
        rw [Function.update_of_ne hlj, Function.update_self]
        exact .inr rfl
      have hback : Function.update
          (Function.update (Function.update (except f W .idle) l .woken) j .idle) l .asleep =
            except f (insert j W) .idle := by
        rw [Function.update_comm hlj.symm, Function.update_idem, ← hasleep,
          Function.update_eq_self, update_except]
      have hwait := hwake.tail (.wait hready rfl)
      rwa [hback] at hwait

/-- **With more consumers than elements fit, all may sleep.**  As many
consumers as elements fit take one each, and all their signals are spent on
one more that sleeps. -/
theorem allAsleep_reachable [Fintype κ] (hroom : 0 < room) (hcard : room < Fintype.card κ) :
    ∃ s : State κ, Relation.ReflTransGen (Move room) .fresh s ∧ s.AllAsleep := by
  have huniv : room ≤ (Finset.univ : Finset κ).card := by
    rw [Finset.card_univ]
    omega
  obtain ⟨W, -, rfl⟩ := Finset.exists_subset_card_eq huniv
  obtain ⟨l, hl⟩ : ∃ l, l ∉ W := by
    by_contra hall
    have hle := Finset.card_le_card (fun l _ => not_not.mp (not_exists.mp hall l) :
      (Finset.univ : Finset κ) ⊆ W)
    rw [Finset.card_univ] at hle
    omega
  let asleep : κ → Mode := except (fun _ => .idle) Finset.univ .asleep
  have hasleep (j : κ) : asleep j = .asleep := if_pos (Finset.mem_univ j)
  have hsleep : Relation.ReflTransGen (Move W.card) (.fresh : State κ) ⟨.idle, asleep, 0⟩ :=
    reaches_wait fun _ _ => .inl rfl
  have hput := hsleep.trans (reaches_put (W := W) (fun j _ => hasleep j) (Nat.le_refl _))
  have hblock := hput.tail (.block (.inl rfl) (Nat.le_refl _))
  have htake : Relation.ReflTransGen (Move W.card) ⟨.asleep, except asleep W .woken, W.card⟩
      ⟨.asleep, except (except asleep W .woken) W .notifying, 0⟩ := by
    have hready (j : κ) (hj : j ∈ W) : (except asleep W .woken j).Ready := .inr (if_pos hj)
    have hfull : (0 : Nat) + W.card = W.card := Nat.zero_add _
    exact hfull ▸ reaches_take hready
  have hlast : except (except asleep W .woken) W .notifying l = .asleep := by
    rw [except_of_notMem hl, except_of_notMem hl, hasleep]
  have hwaste := (hblock.trans htake).trans (reaches_waste hlast fun j hj => if_pos hj)
  refine ⟨_, hwaste.trans (reaches_wait (W := W) fun j hj => .inl (if_pos hj)), rfl, fun j => ?_⟩
  by_cases hj : j ∈ W
  · exact if_pos hj
  · simp only [except_of_notMem hj, hasleep]

end Stuck

end SharedSignal
