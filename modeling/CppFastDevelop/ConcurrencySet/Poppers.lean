import CppFastDevelop.ConcurrencySet.Def
import CppFastDevelop.Lib.StopBroadcast

/-!
# CppFastDevelop.ConcurrencySet.Poppers

Threads that insert into and pop from one `RawNotifySet`.  An `Insert` signals
unless `_waitCount` is zero, and the constructor does not set `_waitCount`:
from a negative value it reaches zero while callers of `Pop` sleep.  `Pop`
does not look at `_stopToInsert`, so after `StopInsert` it goes to wait on an
empty set, which stays empty.

Where neither happens, and no `StopInsert` broadcasts between a caller's loop
condition and its sleep, no caller is left asleep: there is a woken caller for
every element, and nobody sleeps once inserting has been stopped
(`inserts_wake_poppers`).
-/

namespace CppFastDevelop

namespace RawNotifySet

open Exec Machine LockedSignal

variable {α : Type} [LinearOrder α]

/-! ## turns -/

section Turns

variable {q : RawNotifySet α} (h : q.stopToPop = false)

include h

theorem popTurn_pop_empty (hq : q.set = ∅) :
    popTurn (pop q) = ({ q with waitCount := q.waitCount + 1 }, .wait ()) := by
  simp [pop, popTurn, bind_apply, map_apply, hq, h]

theorem popTurn_pop_nonempty (hq : q.set.Nonempty) : popTurn (pop q) =
    ({ q with set := q.set.erase (q.set.min' hq) }, .done .none (.popped (q.set.min' hq))) := by
  simp [pop, popTurn, takeFirst, bind_apply, map_apply, hq, hq.ne_empty, h]

theorem tryPopTurn_tryPop_nonempty (hq : q.set.Nonempty) : tryPopTurn (tryPop q) =
    ({ q with set := q.set.erase (q.set.min' hq) }, .done .none (.popped (q.set.min' hq))) := by
  simp [tryPop, tryPopTurn, takeFirst, bind_apply, map_apply, hq, h]

theorem tryPopTurn_tryPop_empty (hq : ¬ q.set.Nonempty) :
    tryPopTurn (tryPop q) = (q, .done .none (.threw emptySet)) := by
  simp [tryPop, tryPopTurn, takeFirst, bind_apply, hq, h]

omit h in
theorem insertTurn_insert (x : α) : insertTurn x (insert x q) =
    if q.stopToInsert = true then (q, .done .none (.threw stoppedToInsert))
    else if q.waitCount ≠ 0 then
      ({ q with set := Insert.insert x q.set, waitCount := q.waitCount - 1 },
        .done .one (.inserted x (x ∉ q.set)))
    else ({ q with set := Insert.insert x q.set }, .done .none (.inserted x (x ∉ q.set))) := by
  cases hstop : q.stopToInsert <;> by_cases hcount : q.waitCount = 0 <;>
    simp [insert, insertTurn, bind_apply, map_apply, hstop, hcount]

end Turns

/-- Somebody has written a flag. -/
def stopped (q : RawNotifySet α) : Bool := q.stopToInsert || q.stopToPop

theorem stopped_popTurn_pop (q : RawNotifySet α) : (popTurn (pop q)).1.stopped = q.stopped := by
  cases hstop : q.stopToPop with
  | false =>
      rcases q.set.eq_empty_or_nonempty with hq | hq
      · rw [popTurn_pop_empty hstop hq]; rfl
      · rw [popTurn_pop_nonempty hstop hq]; rfl
  | true => simp [pop, popTurn, bind_apply, hstop]

theorem stopped_tryPopTurn_tryPop (q : RawNotifySet α) :
    (tryPopTurn (tryPop q)).1.stopped = q.stopped := by
  cases hstop : q.stopToPop with
  | false =>
      by_cases hq : q.set.Nonempty
      · rw [tryPopTurn_tryPop_nonempty hstop hq]; rfl
      · rw [tryPopTurn_tryPop_empty hstop hq]
  | true => simp [tryPop, tryPopTurn, bind_apply, hstop]

theorem stopped_insertTurn_insert (x : α) (q : RawNotifySet α) :
    (insertTurn x (insert x q)).1.stopped = q.stopped := by
  rw [insertTurn_insert]
  split
  · rfl
  · split <;> rfl

/-- No call takes the two words back, and stopping has set them at its end. -/
theorem stopFlag_stopped : StopFlag stopped (program (α := α)) writeFlag where
  enter
    | .insert x, q => stopped_insertTurn_insert x q
    | .pop, q => stopped_popTurn_pop q
    | .tryPop, q => stopped_tryPopTurn_tryPop q
    | .erase _, _ | .clear, _ | .isEmpty, _ | .size, _ => rfl
  resume _ _ _ q := stopped_popTurn_pop q
  write
    | .insert, _, _ | .insertAndPop, _, _ => rfl
    | .pop, _, _ => Bool.or_true _
  last
    | .insert, _, _ => rfl
    | .insertAndPop, _, h => by cases h
    | .pop, _, _ => Bool.or_true _

/-! ## threads -/

/-- The threads and their set. -/
abbrev Threads (ι α : Type) := LockedSignal.State ι (RawNotifySet α) Unit Stopping

variable {ι : Type} [DecidableEq ι] [Fintype ι]

/-- One step of the threads. -/
def step : Threads ι α → LockedSignal.Label ι (Request α) Unit Stopping → Option (Threads ι α) :=
  LockedSignal.step program writeFlag

/-- The threads before their first call, and a set as its constructor leaves
it. -/
def idleThreads (waitCount : Int32) : Threads ι α := ⟨construct waitCount, fun _ => .idle⟩

/-- A caller of `Pop` sleeps, nobody has been woken and no wake-up is pending,
though there is an element, or there will never be one. -/
structure Stranded (s : Threads ι α) : Prop where
  asleep : ∃ i, (s.pc i).isAsleep = true
  noneWoken : ∀ i, (s.pc i).isWoken = false
  nonePending : ¬ s.StopPending
  vain : s.mem.set.Nonempty ∨ s.mem.stopToInsert = true ∧ s.mem.set = ∅

/-- What keeps callers from being left asleep: an `Insert` that finds the
counter zero finds nobody asleep, a `Pop` that looks after inserting has been
stopped finds an element, and a last broadcast finds nobody about to sleep. -/
def Guarded (s : Threads ι α) : LockedSignal.Label ι (Request α) Unit Stopping → Prop
  | .enter _ (.insert _) _ =>
    s.mem.stopToInsert = false → s.mem.waitCount = 0 → ∀ j, (s.pc j).isAsleep = false
  | .enter _ .pop _ | .resume _ _ _ => s.mem.stopToInsert = true → s.mem.set.Nonempty
  | .broadcast i => (∀ j, j ≠ i → (s.pc j).isStopping = false) → s.Free
  | _ => True

instance (s : Threads ι α) : DecidablePred (Guarded s)
  | .enter _ (.insert _) _ => inferInstanceAs (Decidable (s.mem.stopToInsert = false →
      s.mem.waitCount = 0 → ∀ j, (s.pc j).isAsleep = false))
  | .enter _ .pop _ | .resume _ _ _ =>
    inferInstanceAs (Decidable (s.mem.stopToInsert = true → s.mem.set.Nonempty))
  | .broadcast i =>
    inferInstanceAs (Decidable ((∀ j, j ≠ i → (s.pc j).isStopping = false) → s.Free))
  | .enter _ (.erase _) _ | .enter _ .tryPop _ | .enter _ .clear _ | .enter _ .isEmpty _
  | .enter _ .size _ | .park _ | .wake _ _ | .stop _ _ | .write _ => isTrue trivial

omit [LinearOrder α] [DecidableEq ι] [Fintype ι] in
/-- A guarded broadcast finds nobody between the decision to wait and the sleep. -/
theorem Guarded.broadcastsFree {s : Threads ι α}
    {a : LockedSignal.Label ι (Request α) Unit Stopping} (h : Guarded s a) :
    BroadcastsFree s a := by
  cases a with
  | broadcast i => exact h
  | _ => trivial

namespace Threads

omit [DecidableEq ι] in
/-- How many have been woken and have not looked at the set since. -/
def wakers (s : Threads ι α) : Nat := count Pc.isWoken s.pc

omit [DecidableEq ι] in
/-- Nobody stops popping, and as long as somebody waits there is a woken
thread for every element. -/
structure Attended (s : Threads ι α) : Prop where
  running : s.mem.stopToPop = false
  inserts : ∀ i u, s.pc i = .writing u → u = stopInsert
  served : ∀ i, (s.pc i).isWaiting = true → s.mem.set.card ≤ s.wakers

variable {s s' : Threads ι α} {i : ι} {target : Option ι}

omit [LinearOrder α] in
/-- One thread moves. -/
theorem Attended.update (h : s.Attended) {m : RawNotifySet α} {x : Pc Unit Stopping}
    (hrunning : m.stopToPop = false) (hwriting : ∀ u, x = .writing u → u = stopInsert)
    (hcard : m.set.card + (s.pc i).isWoken.toNat ≤ s.mem.set.card + x.isWoken.toNat)
    (hwaiting : x.isWaiting = true → (s.pc i).isWaiting = true) :
    Attended ⟨m, Function.update s.pc i x⟩ := by
  have hwakers : wakers ⟨m, Function.update s.pc i x⟩ + (s.pc i).isWoken.toNat =
      s.wakers + x.isWoken.toNat := count_update _ s.pc i x
  refine ⟨hrunning, fun k u hk => ?_, fun k hk => ?_⟩
  · by_cases hki : k = i
    · simp only [hki, Function.update_self] at hk
      exact hwriting u hk
    · simp only [Function.update_of_ne hki] at hk
      exact h.inserts k u hk
  · have hold : ∃ j, (s.pc j).isWaiting = true := by
      by_cases hki : k = i
      · simp only [hki, Function.update_self] at hk
        exact ⟨i, hwaiting hk⟩
      · simp only [Function.update_of_ne hki] at hk
        exact ⟨k, hk⟩
    obtain ⟨j, hj⟩ := hold
    have hserved := h.served j hj
    show m.set.card ≤ _
    omega

omit [LinearOrder α] in
/-- A thread that was awake ends its turn, and the set has not grown. -/
theorem Attended.finish (h : s.Attended) {m : RawNotifySet α}
    (hrunning : m.stopToPop = false)
    (hcard : m.set.card + (s.pc i).isWoken.toNat ≤ s.mem.set.card) :
    Attended ⟨m, Function.update s.pc i .idle⟩ :=
  h.update hrunning nofun hcard (by simp)

/-- `Pop` takes an element, or waits because there is none. -/
theorem Attended.pop (h : s.Attended)
    (htaken : Taken s i target (popTurn (RawNotifySet.pop s.mem)) s') : s'.Attended := by
  rcases s.mem.set.eq_empty_or_nonempty with hq | hq
  · rw [popTurn_pop_empty h.running hq] at htaken
    generalize hm : { s.mem with waitCount := s.mem.waitCount + 1 } = m at htaken
    cases htaken with
    | @wait _ l _ =>
        have hset : m.set = ∅ := by rw [← hm, ← hq]
        refine ⟨by rw [← hm]; exact h.running, fun k u hk => ?_, fun k _ => ?_⟩
        · exact h.inserts k u (by grind [Function.update_apply])
        · simp only [hset, Finset.card_empty]
          exact Nat.zero_le _
  · rw [popTurn_pop_nonempty h.running hq] at htaken
    generalize hm : { s.mem with set := s.mem.set.erase (s.mem.set.min' hq) } = m at htaken
    have hcard : m.set.card + 1 = s.mem.set.card := by
      rw [← hm]
      exact Finset.card_erase_add_one (Finset.min'_mem _ hq)
    have hwoken := (s.pc i).isWoken.toNat_le
    cases htaken
    exact h.finish (by rw [← hm]; exact h.running) (by omega)

/-- `Insert` signals, or finds nobody asleep. -/
theorem Attended.insert (h : s.Attended) (x : α) (hi : s.pc i = .idle) (hfree : s.Free)
    (hguard : s.mem.stopToInsert = false → s.mem.waitCount = 0 → ∀ j, (s.pc j).isAsleep = false)
    (htaken : Taken s i target (insertTurn x (RawNotifySet.insert x s.mem)) s') :
    s'.Attended := by
  rw [insertTurn_insert] at htaken
  split at htaken
  · cases htaken
    exact h.finish h.running (by rw [hi]; exact Nat.le_refl _)
  · next hrunning =>
      -- with nobody asleep the set may grow as it likes
      have hnobody (m : RawNotifySet α) (hm : m.stopToPop = false)
          (hnone : ∀ j, (s.pc j).isAsleep = false) :
          Attended ⟨m, Function.update s.pc i .idle⟩ := by
        refine ⟨hm, fun k u hk => ?_, fun k hk => ?_⟩
        · exact h.inserts k u (by grind [Function.update_apply])
        · have hk' : (s.pc k).isWaiting = false := by
            rw [Pc.isWaiting_eq_false]
            exact ⟨hnone k, hfree k⟩
          by_cases hki : k = i
          · simp [hki] at hk
          · simp [hki, hk'] at hk
      split at htaken
      · generalize hm : { s.mem with
          set := Insert.insert x s.mem.set, waitCount := s.mem.waitCount - 1 } = m at htaken
        have hm' : m.stopToPop = false := by rw [← hm]; exact h.running
        have hcard : m.set.card ≤ s.mem.set.card + 1 := by
          rw [← hm]
          exact Finset.card_insert_le _ _
        cases htaken with
        | @signal _ _ j l hj =>
            have hwoken : Attended ⟨m, Function.update s.pc j (.woken l true)⟩ :=
              h.update hm' (by simp) (by rw [hj]; exact hcard) (by simp)
            have hij : i ≠ j := fun heq => by rw [heq, hj] at hi; cases hi
            refine hwoken.finish hm' ?_
            simp only [Function.update_of_ne hij, hi]
            exact Nat.le_refl _
        | signalNobody hnone => exact hnobody m hm' hnone
      · next hcount =>
          generalize hm : { s.mem with set := Insert.insert x s.mem.set } = m at htaken
          rw [not_not] at hcount
          cases htaken
          exact hnobody m (by rw [← hm]; exact h.running)
            (hguard (by simpa using hrunning) hcount)

omit [LinearOrder α] in
/-- The other calls do not make the set grow. -/
theorem Attended.shrink (h : s.Attended) (hi : s.pc i = .idle) {m : RawNotifySet α}
    {o : Answer α} (htaken : Taken s i target (m, .done .none o) s')
    (hstop : m.stopToPop = s.mem.stopToPop) (hset : m.set ⊆ s.mem.set) : s'.Attended := by
  cases htaken
  exact h.finish (hstop.trans h.running) (by rw [hi]; exact Finset.card_le_card hset)

/-- A try to pop leaves the sleepers attended to. -/
theorem Attended.tryPop (h : s.Attended) (hi : s.pc i = .idle)
    (htaken : Taken s i target (tryPopTurn (RawNotifySet.tryPop s.mem)) s') : s'.Attended := by
  by_cases hq : s.mem.set.Nonempty
  · rw [tryPopTurn_tryPop_nonempty h.running hq] at htaken
    exact h.shrink hi htaken rfl (Finset.erase_subset _ _)
  · rw [tryPopTurn_tryPop_empty h.running hq] at htaken
    exact h.shrink hi htaken rfl (Finset.Subset.refl _)

omit [LinearOrder α] in
/-- Whoever sleeps is woken by a broadcast. -/
theorem Attended.broadcast (h : s.Attended) (hi : s.pc i = .broadcasting) :
    Attended ⟨s.mem, Function.update (fun j => (s.pc j).rouse) i .idle⟩ := by
  have hwakers : s.wakers ≤
      wakers ⟨s.mem, Function.update (fun j => (s.pc j).rouse) i .idle⟩ := by
    refine count_le_count fun k hk => ?_
    have hki : k ≠ i := fun heq => by rw [heq, hi] at hk; cases hk
    simp only [Function.update_of_ne hki]
    cases hpc : s.pc k <;> simp_all [Pc.rouse, Pc.isWoken]
  refine ⟨h.running, fun k u hk => ?_, fun k hk => ?_⟩
  · have hold : s.pc k = .writing u := by
      by_cases hki : k = i
      · simp [hki] at hk
      · simp only [Function.update_of_ne hki] at hk
        cases hpc : s.pc k <;> simp_all [Pc.rouse]
    exact h.inserts k u hold
  · have hold : (s.pc k).isWaiting = true := by
      by_cases hki : k = i
      · simp [hki] at hk
      · simp only [Function.update_of_ne hki, Pc.isWaiting_rouse] at hk
        simp [Pc.isWaiting, hk]
    exact (h.served k hold).trans hwakers

/-- One step, where the only stop requests are `StopInsert`. -/
theorem attended_step {a : LockedSignal.Label ι (Request α) Unit Stopping}
    (hstep : RawNotifySet.step s a = some s') (hstop : ∀ i u, a = .stop i u → u = stopInsert)
    (hguard : Guarded s a) (h : s.Attended) : s'.Attended := by
  cases step_effect hstep with
  | @enter i c target _ hi hfree htaken =>
      cases c with
      | insert x => exact h.insert x hi hfree hguard htaken
      | pop => exact h.pop htaken
      | tryPop => exact h.tryPop hi htaken
      | erase x => exact h.shrink hi htaken rfl (Finset.erase_subset _ _)
      | clear => exact h.shrink hi htaken rfl (Finset.empty_subset _)
      | isEmpty => exact h.shrink hi htaken rfl (Finset.Subset.refl _)
      | size => exact h.shrink hi htaken rfl (Finset.Subset.refl _)
  | resume _ _ htaken => exact h.pop htaken
  | park hi =>
      exact h.update h.running nofun (by rw [hi]; exact Nat.le_refl _) (fun _ => by rw [hi]; rfl)
  | wake hi => exact h.update h.running nofun (by rw [hi]; exact Nat.le_add_right _ _) (by simp)
  | @stop i u hi =>
      refine h.update h.running (fun u' hu' => ?_) (by rw [hi]; exact Nat.le_refl _) (by simp)
      cases hu'
      exact hstop i u rfl
  | @write i u hi =>
      cases h.inserts i u hi
      exact h.update h.running nofun (by rw [hi]; exact Nat.le_refl _) nofun
  | broadcast hi => exact h.broadcast hi

omit [DecidableEq ι] in
/-- Under the same guard nobody decides to wait once inserting has been
stopped. -/
theorem Attended.waitsBefore {a : LockedSignal.Label ι (Request α) Unit Stopping}
    (h : s.Attended) (hguard : Guarded s a) : WaitsBefore stopped program s a := by
  have hpop (hset : s.mem.stopped = true)
      (hne : s.mem.stopToInsert = true → s.mem.set.Nonempty) (l : Unit) :
      (popTurn (RawNotifySet.pop s.mem)).2 ≠ .wait l := by
    have hinsert : s.mem.stopToInsert = true := by simpa [stopped, h.running] using hset
    rw [popTurn_pop_nonempty h.running (hne hinsert)]
    exact nofun
  cases a with
  | enter i c target =>
      intro hset
      cases c with
      | pop => exact hpop hset hguard
      | insert x =>
          intro l
          simp only [program, insertTurn_insert]
          split
          · exact nofun
          · split <;> exact nofun
      | tryPop =>
          intro l
          by_cases hq : s.mem.set.Nonempty
          · simp only [program, tryPopTurn_tryPop_nonempty h.running hq]
            exact nofun
          · simp only [program, tryPopTurn_tryPop_empty h.running hq]
            exact nofun
      | _ => exact nofun
  | resume i e target => exact fun hset _ _ _ => hpop hset hguard
  | _ => trivial

omit [LinearOrder α] [DecidableEq ι] in
/-- Where sleepers are attended to and awake in time, nobody is stranded. -/
theorem Attended.not_stranded (h : s.Attended) (hawake : s.Awake stopped) : ¬ Stranded s := by
  intro ⟨⟨i, hi⟩, hwoken, hnone, hvain⟩
  have hwaiting : (s.pc i).isWaiting = true := by simp [Pc.isWaiting, hi]
  rcases hvain with hne | ⟨hstop, -⟩
  · have hserved := h.served i hwaiting
    rw [wakers, count_eq_zero.mpr hwoken] at hserved
    exact absurd hne.card_pos (Nat.not_lt.mpr hserved)
  · have hset : s.mem.stopped = true := by simp [stopped, hstop]
    rw [hawake hset (State.not_stopPending.mp hnone) i] at hwaiting
    cases hwaiting

end Threads

/-! ## over a run -/

/-- **No caller of `Pop` is left asleep.**  From any starting value of
`_waitCount`, in every run whose stop requests are `StopInsert` and whose
steps are guarded, a sleeper has a wake-up to come whenever there is an
element or inserting has been stopped. -/
theorem inserts_wake_poppers (waitCount : Int32)
    (as : List (LockedSignal.Label ι (Request α) Unit Stopping)) {s : Threads ι α}
    (hstop : ∀ i u, .stop i u ∈ as → u = stopInsert)
    (hguard : Along step Guarded (idleThreads waitCount) as)
    (hrun : run step (idleThreads waitCount) as = some s) : ¬ Stranded s := by
  have hlabels : ∀ a ∈ as, ∀ i u, a = .stop i u → u = stopInsert :=
    fun a ha i u heq => hstop i u (heq ▸ ha)
  have halong := (along_of_forall_mem step hlabels (idleThreads waitCount)).and hguard
  have h : s.Attended ∧ s.Awake stopped :=
    run_invariant_along (fun t : Threads ι α => t.Attended ∧ t.Awake stopped)
      (fun t a t' hc hstep h => ⟨Threads.attended_step hstep hc.1 hc.2 h.1,
        awake_step stopFlag_stopped hstep (h.1.waitsBefore hc.2) hc.2.broadcastsFree h.2⟩)
      halong hrun ⟨⟨rfl, nofun, nofun⟩, fun _ _ _ => rfl⟩
  exact h.1.not_stranded h.2

/-- A caller of `Pop` goes to sleep, an element is inserted for it, and
inserting is stopped. -/
def insertThenStop {ι : Type} (i j : ι) :
    List (LockedSignal.Label ι (Request Nat) Unit Stopping) :=
  [.enter i .pop none, .park i, .enter j (.insert 7) (some i), .stop j stopInsert, .write j,
    .broadcast j]

theorem inserts_wake_poppers_insertThenStop : ∃ s : Threads (Fin 2) Nat,
    run step (idleThreads 0) (insertThenStop 0 1) = some s ∧ ¬ Stranded s := by
  have hsome : (run step (idleThreads 0 : Threads (Fin 2) Nat) (insertThenStop 0 1)).isSome := by
    decide
  obtain ⟨s, hrun⟩ := Option.isSome_iff_exists.mp hsome
  exact ⟨s, hrun, inserts_wake_poppers 0 (insertThenStop 0 1)
    (by simp [insertThenStop]) (by decide) hrun⟩

/-- From `-1` the counter is zero when one caller sleeps.  And whatever it
starts from, a caller that is woken by `StopInsert` goes back to sleep. -/
theorem stranded_popper :
    (¬ ∀ (waitCount : Int32) (as : List (LockedSignal.Label (Fin 2) (Request Nat) Unit Stopping))
      (s : Threads (Fin 2) Nat), (∀ i u, .stop i u ∈ as → u = stopInsert) →
      run step (idleThreads waitCount) as = some s → ¬ Stranded s) ∧
    ¬ ∀ (as : List (LockedSignal.Label (Fin 2) (Request Nat) Unit Stopping))
      (s : Threads (Fin 2) Nat), (∀ i u, .stop i u ∈ as → u = stopInsert) →
      run step (idleThreads 0) as = some s → ¬ Stranded s := by
  constructor
  · intro h
    refine h (-1) [.enter 0 .pop none, .park 0, .enter 1 (.insert 7) none] _ (by simp) rfl
      ⟨⟨0, by decide⟩, by decide, by decide, .inl (by decide)⟩
  · intro h
    refine h [.enter 0 .pop none, .park 0, .stop 1 stopInsert, .write 1, .broadcast 1,
      .resume 0 () none, .park 0] _ (by simp) rfl
      ⟨⟨0, by decide⟩, by decide, by decide, .inr (by decide)⟩

end RawNotifySet

end CppFastDevelop
