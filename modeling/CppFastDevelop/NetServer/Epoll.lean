import CppFastDevelop.Exception
import CppFastDevelop.Lib.Flags
import Mathlib.Data.List.AList

/-!
# CppFastDevelop.NetServer.Epoll

The demultiplexer (`cf_epoll.hpp`, `cf_epoll.cpp`).  `Epoll` keeps a record
of the events each descriptor is interested in beside the kernel's own
table; `EpollCtl` ignores the kernel's answer, so the two are separate here.
The kernel refuses to add a descriptor twice and to change or remove one it
does not have.
-/

namespace CppFastDevelop

open Flags

/-! ## descriptors and maps from them -/

/-- `cf_fd`. -/
abbrev Fd := Int

/-- A `std::unordered_map` from descriptors. -/
abbrev FdMap (α : Type) := AList fun _ : Fd => α

namespace FdMap

variable {α : Type}

/-- `insert(make_pair(fd, a))`: a descriptor that is bound stays bound to
what it is bound to. -/
def insertNew (m : FdMap α) (fd : Fd) (a : α) : FdMap α :=
  if fd ∈ m then m else AList.insert fd a m

/-- Looking up after an insertion, for every key. -/
theorem lookup_insert_eq (m : FdMap α) (fd k : Fd) (a : α) :
    (AList.insert fd a m).lookup k = if k = fd then some a else m.lookup k := by
  by_cases h : k = fd
  · subst h; rw [if_pos rfl, AList.lookup_insert]
  · rw [if_neg h, AList.lookup_insert_ne h]

/-- Looking up after an erasure, for every key. -/
theorem lookup_erase_eq (m : FdMap α) (fd k : Fd) :
    (AList.erase fd m).lookup k = if k = fd then none else m.lookup k := by
  by_cases h : k = fd
  · subst h; rw [if_pos rfl, AList.lookup_erase]
  · rw [if_neg h, AList.lookup_erase_ne h]

/-- A key is in the map when it is bound to something. -/
theorem mem_iff_exists {m : FdMap α} {fd : Fd} : fd ∈ m ↔ ∃ a, m.lookup fd = some a := by
  rw [← AList.lookup_isSome, Option.isSome_iff_exists]

theorem mem_of_lookup {m : FdMap α} {fd : Fd} {a : α} (h : m.lookup fd = some a) : fd ∈ m :=
  mem_iff_exists.mpr ⟨a, h⟩

/-- The insertion of `std::map` keeps what is bound already. -/
theorem lookup_insertNew (m : FdMap α) (fd k : Fd) (a : α) :
    (m.insertNew fd a).lookup k = if k = fd then (m.lookup fd).or (some a) else m.lookup k := by
  unfold insertNew
  split
  · next hmem =>
      obtain ⟨b, hb⟩ := mem_iff_exists.mp hmem
      split
      · next hk => rw [hk, hb]; rfl
      · rfl
  · next hmem =>
      rw [lookup_insert_eq, AList.lookup_eq_none.mpr hmem]
      rfl

/-! What holds of every binding holds of every binding after a change. -/

/-- A property of all entries survives an insertion that has it. -/
theorem forall_insert {P : Fd → α → Prop} {m : FdMap α} {fd : Fd} {a : α}
    (hm : ∀ k b, m.lookup k = some b → P k b) (hfd : P fd a) :
    ∀ k b, (AList.insert fd a m).lookup k = some b → P k b := by
  intro k b hk
  rw [lookup_insert_eq] at hk
  split at hk
  · next heq => cases hk; rw [heq]; exact hfd
  · exact hm k b hk

/-- A property of all entries survives an erasure. -/
theorem forall_erase {P : Fd → α → Prop} {m : FdMap α} {fd : Fd}
    (hm : ∀ k b, m.lookup k = some b → P k b) :
    ∀ k b, (AList.erase fd m).lookup k = some b → P k b := by
  intro k b hk
  rw [lookup_erase_eq] at hk
  split at hk
  · cases hk
  · exact hm k b hk

/-- A property of all entries survives an insertion of a new key that has it. -/
theorem forall_insertNew {P : Fd → α → Prop} {m : FdMap α} {fd : Fd} {a : α}
    (hm : ∀ k b, m.lookup k = some b → P k b) (hfd : m.lookup fd = none → P fd a) :
    ∀ k b, (m.insertNew fd a).lookup k = some b → P k b := by
  intro k b hk
  rw [lookup_insertNew] at hk
  split at hk
  · next heq =>
      subst heq
      cases hnew : m.lookup k with
      | none => rw [hnew] at hk; cases hk; exact hfd hnew
      | some c => rw [hnew] at hk; cases hk; exact hm k _ hnew
  · exact hm k b hk

/-- Changing what is bound to a descriptor binds no other. -/
theorem mem_insert_of_lookup {m : FdMap α} {fd k : Fd} {a b : α}
    (hfd : m.lookup fd = some a) : k ∈ AList.insert fd b m ↔ k ∈ m := by
  rw [AList.mem_insert]
  constructor
  · rintro (rfl | hk)
    · exact mem_of_lookup hfd
    · exact hk
  · exact .inr

/-! What is bound, without the descriptors. -/

/-- The bound values, in no particular order. -/
def values (m : FdMap α) : List α := m.entries.map fun e => e.2

@[simp] theorem values_empty : (∅ : FdMap α).values = [] := rfl

/-- The values after an insertion: the new one and those of the other keys. -/
theorem values_insert (m : FdMap α) (fd : Fd) (a : α) :
    values (AList.insert fd a m) = a :: values (AList.erase fd m) := by
  rw [values, AList.entries_insert, List.map_cons]
  rfl

/-- What is bound to a descriptor is one of the values; the others are bound
to the others. -/
theorem perm_values {m : FdMap α} {fd : Fd} {a : α} (hfd : m.lookup fd = some a) :
    m.values.Perm (a :: values (AList.erase fd m)) := by
  have hperm : ∀ l : List (Sigma fun _ : Fd => α), List.dlookup fd l = some a →
      l.Perm (⟨fd, a⟩ :: List.kerase fd l) := by
    intro l
    induction l with
    | nil => exact fun hl => by cases hl
    | cons e l ih =>
        intro hl
        by_cases he : fd = e.1
        · subst he
          rw [List.dlookup_cons_eq, Option.some.injEq] at hl
          rw [List.kerase_cons_eq rfl, ← hl]
        · rw [List.dlookup_cons_ne _ _ he] at hl
          rw [List.kerase_cons_ne he]
          exact ((ih hl).cons e).trans (.swap _ _ _)
  exact (hperm m.entries hfd).map fun e => e.2

/-- The values after the insertion of a new key. -/
theorem values_insertNew {m : FdMap α} {fd : Fd} (hfd : m.lookup fd = none) (a : α) :
    (m.insertNew fd a).values = a :: m.values := by
  have hnew : fd ∉ m := AList.lookup_eq_none.mp hfd
  rw [insertNew, if_neg hnew, values, AList.entries_insert_of_notMem hnew]
  rfl

end FdMap

/-! ## events -/

/-- `cf_ev`. -/
abbrev cf_ev := BitVec 32

def EPOLLIN : cf_ev := .twoPow 32 0

def EPOLLOUT : cf_ev := .twoPow 32 2

def EPOLLERR : cf_ev := .twoPow 32 3

def EPOLLHUP : cf_ev := .twoPow 32 4

def EPOLLRDHUP : cf_ev := .twoPow 32 13

/-- `networkdefs::EV_TYPE`. -/
inductive EV_TYPE
  | CFEV_ACCEPT
  | CFEV_READ
  | CFEV_WRITE
  | CFEV_CLOSE
  | CFEV_ERROR
  deriving DecidableEq, Repr

/-- The value of the enumerator. -/
def EV_TYPE.bits : EV_TYPE → cf_ev
  | .CFEV_ACCEPT => 0o01
  | .CFEV_READ => 0o02
  | .CFEV_WRITE => 0o04
  | .CFEV_CLOSE => 0o10
  | .CFEV_ERROR => 0o20

/-! ## the demultiplexer -/

/-- `Epoll`, with the kernel's interest table of its `_epfd`. -/
structure Epoll where
  listenfds : List Fd
  mapEvent : FdMap cf_ev
  interest : FdMap cf_ev

namespace Epoll

/-- The operations of `epoll_ctl`. -/
inductive EpollOp
  | EPOLL_CTL_ADD
  | EPOLL_CTL_MOD
  | EPOLL_CTL_DEL
  deriving DecidableEq, Repr

/-- The events `AddEvent` and `DelEvent` are about. -/
def eventOf (ev : EV_TYPE) : cf_ev :=
  (if ev.bits &&& EV_TYPE.CFEV_READ.bits ≠ 0 then EPOLLIN else 0) |||
    (if ev.bits &&& EV_TYPE.CFEV_WRITE.bits ≠ 0 then EPOLLOUT else 0)

/-- A failing `epoll_ctl` has no effect, and nobody looks at its result. -/
def epollCtl (d : Epoll) (fd : Fd) (op : EpollOp) (event : cf_ev) : Epoll :=
  match op with
  | .EPOLL_CTL_ADD => { d with interest := d.interest.insertNew fd event }
  | .EPOLL_CTL_MOD =>
    if fd ∈ d.interest then { d with interest := AList.insert fd event d.interest } else d
  | .EPOLL_CTL_DEL => { d with interest := AList.erase fd d.interest }

def addConn (d : Epoll) (fd : Fd) (ev : EV_TYPE) : Epoll :=
  let event := EPOLLRDHUP ||| eventOf ev
  let d := d.epollCtl fd .EPOLL_CTL_ADD event
  { d with mapEvent := d.mapEvent.insertNew fd event }

def delConn (d : Epoll) (fd : Fd) : Epoll :=
  let d := d.epollCtl fd .EPOLL_CTL_DEL 0
  { d with mapEvent := AList.erase fd d.mapEvent }

def addEvent (d : Epoll) (fd : Fd) (ev : EV_TYPE) : Epoll :=
  let event := eventOf ev
  match d.mapEvent.lookup fd with
  | none => d
  | some oldev =>
    if oldev &&& event ≠ 0 then d -- already has
    else
      let d := d.epollCtl fd .EPOLL_CTL_MOD (oldev ||| event)
      { d with mapEvent := AList.insert fd (oldev ||| event) d.mapEvent }

def delEvent (d : Epoll) (fd : Fd) (ev : EV_TYPE) : Epoll :=
  let event := eventOf ev
  match d.mapEvent.lookup fd with
  | none => d
  | some oldev =>
    if oldev &&& event ≠ 0 then
      let d := d.epollCtl fd .EPOLL_CTL_MOD (oldev &&& ~~~event)
      { d with mapEvent := AList.insert fd (oldev &&& ~~~event) d.mapEvent }
    else d -- already deled

/-- The constructor. -/
def create (listenfds : List Fd) : Epoll :=
  listenfds.foldl (fun d fd => d.addConn fd .CFEV_READ) ⟨listenfds, ∅, ∅⟩

/-- What one entry of `_retEvents` becomes in `WaitEvent`. -/
def expand (d : Epoll) (ret : Fd × cf_ev) : List (Fd × EV_TYPE) :=
  if ret.1 ∈ d.listenfds then [(ret.1, .CFEV_ACCEPT)]
  else if ret.2 &&& EPOLLERR ≠ 0 ∨ ret.2 &&& EPOLLHUP ≠ 0 then [(ret.1, .CFEV_ERROR)]
  else
    (if ret.2 &&& EPOLLIN ≠ 0 then [(ret.1, .CFEV_READ)] else []) ++
    (if ret.2 &&& EPOLLOUT ≠ 0 then [(ret.1, .CFEV_WRITE)] else []) ++
    (if ret.2 &&& EPOLLRDHUP ≠ 0 then [(ret.1, .CFEV_CLOSE)] else [])

def epollWaitFailed : BaseException :=
  ⟨.syscallExecuteError, "Failed to execute epoll_wait !", []⟩

/-- `WaitEvent` on what `epoll_wait` returned; `none` is its `-1`. -/
def waitEvent (d : Epoll) :
    Option (List (Fd × cf_ev)) → Except BaseException (List (Fd × EV_TYPE))
  | none => .error epollWaitFailed
  | some retEvents => .ok (retEvents.flatMap d.expand)

/-! ## the record after each operation -/

@[simp] theorem eventOf_read : eventOf .CFEV_READ = EPOLLIN := by decide

@[simp] theorem eventOf_write : eventOf .CFEV_WRITE = EPOLLOUT := by decide

/-- An `EV_TYPE` asks for no event or for a single one. -/
theorem eventOf_eq_twoPow (ev : EV_TYPE) :
    eventOf ev = 0 ∨ ∃ i < 32, eventOf ev = .twoPow 32 i := by
  cases ev with
  | CFEV_ACCEPT => exact .inl (by decide)
  | CFEV_READ => exact .inr ⟨0, by decide, eventOf_read⟩
  | CFEV_WRITE => exact .inr ⟨2, by decide, eventOf_write⟩
  | CFEV_CLOSE => exact .inl (by decide)
  | CFEV_ERROR => exact .inl (by decide)

/-- Setting an event that is set changes nothing. -/
theorem or_eventOf {oldev : cf_ev} {ev : EV_TYPE} (h : oldev &&& eventOf ev ≠ 0) :
    oldev ||| eventOf ev = oldev := by
  obtain hev | ⟨i, hi, hev⟩ := eventOf_eq_twoPow ev
  · rw [hev]; exact BitVec.or_zero
  · rw [hev] at h ⊢
    exact or_twoPow_of_getLsbD ((and_twoPow_ne_zero hi).mp h)

/-- Clearing an event that is clear changes nothing. -/
theorem and_not_eventOf {oldev : cf_ev} {ev : EV_TYPE} (h : ¬oldev &&& eventOf ev ≠ 0) :
    oldev &&& ~~~eventOf ev = oldev := by
  obtain hev | ⟨i, hi, hev⟩ := eventOf_eq_twoPow ev
  · rw [hev]; exact BitVec.and_allOnes
  · rw [hev] at h ⊢
    rw [and_twoPow_ne_zero hi, Bool.not_eq_true] at h
    exact and_not_twoPow_of_getLsbD h

/-- Epoll's record after `AddConn`, for every descriptor. -/
theorem lookup_addConn (d : Epoll) (fd k : Fd) (ev : EV_TYPE) :
    (d.addConn fd ev).mapEvent.lookup k =
      if k = fd then (d.mapEvent.lookup fd).or (some (EPOLLRDHUP ||| eventOf ev))
      else d.mapEvent.lookup k :=
  FdMap.lookup_insertNew _ _ _ _

/-- Epoll's record after `DelConn`, for every descriptor. -/
theorem lookup_delConn (d : Epoll) (fd k : Fd) :
    (d.delConn fd).mapEvent.lookup k = if k = fd then none else d.mapEvent.lookup k :=
  FdMap.lookup_erase_eq _ _ _

/-- Adding an event sets its flag, where there is a record. -/
theorem lookup_addEvent (d : Epoll) (fd k : Fd) (ev : EV_TYPE) :
    (d.addEvent fd ev).mapEvent.lookup k =
      if k = fd then (d.mapEvent.lookup fd).map (· ||| eventOf ev) else d.mapEvent.lookup k := by
  cases h : d.mapEvent.lookup fd with
  | none =>
      have hsame : d.addEvent fd ev = d := by simp only [addEvent, h]
      rw [hsame]
      by_cases hk : k = fd
      · rw [if_pos hk, hk, h]; rfl
      · rw [if_neg hk]
  | some oldev =>
      simp only [addEvent, h, Option.map_some]
      by_cases hhas : oldev &&& eventOf ev ≠ 0
      · rw [if_pos hhas, or_eventOf hhas]
        by_cases hk : k = fd
        · rw [if_pos hk, hk, h]
        · rw [if_neg hk]
      · rw [if_neg hhas]
        have hctl : (d.epollCtl fd .EPOLL_CTL_MOD (oldev ||| eventOf ev)).mapEvent =
            d.mapEvent := by
          simp only [epollCtl]; split <;> rfl
        simp only [hctl]
        exact FdMap.lookup_insert_eq _ _ _ _

/-- Deleting an event clears its flag, where there is a record. -/
theorem lookup_delEvent (d : Epoll) (fd k : Fd) (ev : EV_TYPE) :
    (d.delEvent fd ev).mapEvent.lookup k =
      if k = fd then (d.mapEvent.lookup fd).map (· &&& ~~~eventOf ev)
      else d.mapEvent.lookup k := by
  cases h : d.mapEvent.lookup fd with
  | none =>
      have hsame : d.delEvent fd ev = d := by simp only [delEvent, h]
      rw [hsame]
      by_cases hk : k = fd
      · rw [if_pos hk, hk, h]; rfl
      · rw [if_neg hk]
  | some oldev =>
      simp only [delEvent, h, Option.map_some]
      by_cases hhas : oldev &&& eventOf ev ≠ 0
      · rw [if_pos hhas]
        have hctl : (d.epollCtl fd .EPOLL_CTL_MOD (oldev &&& ~~~eventOf ev)).mapEvent =
            d.mapEvent := by
          simp only [epollCtl]; split <;> rfl
        simp only [hctl]
        exact FdMap.lookup_insert_eq _ _ _ _
      · rw [if_neg hhas, and_not_eventOf hhas]
        by_cases hk : k = fd
        · rw [if_pos hk, hk, h]
        · rw [if_neg hk]

/-! ## what the kernel watches after each operation -/

/-- The kernel watches what it watched and the new connection. -/
theorem mem_interest_addConn {d : Epoll} {fd k : Fd} {ev : EV_TYPE} :
    k ∈ (d.addConn fd ev).interest ↔ k = fd ∨ k ∈ d.interest := by
  show k ∈ d.interest.insertNew fd _ ↔ _
  unfold FdMap.insertNew
  split
  · next hmem =>
      constructor
      · exact .inr
      · rintro (rfl | hk)
        · exact hmem
        · exact hk
  · rw [AList.mem_insert]

/-- The kernel watches what it watched without the connection. -/
theorem mem_interest_delConn {d : Epoll} {fd k : Fd} :
    k ∈ (d.delConn fd).interest ↔ k ≠ fd ∧ k ∈ d.interest := AList.mem_erase

/-- `EPOLL_CTL_MOD` changes no more than masks. -/
theorem mem_interest_mod {d : Epoll} {fd k : Fd} {event : cf_ev} :
    k ∈ (d.epollCtl fd .EPOLL_CTL_MOD event).interest ↔ k ∈ d.interest := by
  simp only [epollCtl]
  split
  · next hmem => rw [AList.mem_insert]; grind
  · exact Iff.rfl

/-- A modified mask changes no membership of the kernel's table. -/
theorem mem_interest_addEvent {d : Epoll} {fd k : Fd} {ev : EV_TYPE} :
    k ∈ (d.addEvent fd ev).interest ↔ k ∈ d.interest := by
  unfold addEvent
  cases d.mapEvent.lookup fd with
  | none => exact Iff.rfl
  | some oldev =>
      simp only
      split
      · exact Iff.rfl
      · exact mem_interest_mod

/-- A mask with a bit taken off changes no membership of the kernel's table. -/
theorem mem_interest_delEvent {d : Epoll} {fd k : Fd} {ev : EV_TYPE} :
    k ∈ (d.delEvent fd ev).interest ↔ k ∈ d.interest := by
  unfold delEvent
  cases d.mapEvent.lookup fd with
  | none => exact Iff.rfl
  | some oldev =>
      simp only
      split
      · exact mem_interest_mod
      · exact Iff.rfl

/-! ## the events of one entry -/

/-- The events made of an answer are all of that answer's descriptor. -/
theorem fd_of_mem_expand {d : Epoll} {ret : Fd × cf_ev} {p : Fd × EV_TYPE}
    (h : p ∈ d.expand ret) : p.1 = ret.1 := by
  unfold expand at h
  split at h
  · rw [List.mem_singleton.mp h]
  · split at h
    · rw [List.mem_singleton.mp h]
    · simp only [List.mem_append] at h
      obtain (h | h) | h := h <;> split at h <;> simp at h <;> rw [h]

/-- Only listening sockets have something to accept, and nothing else. -/
theorem not_mem_listenfds_of_mem_expand {d : Epoll} {ret : Fd × cf_ev} {p : Fd × EV_TYPE}
    (h : p ∈ d.expand ret) (hp : p.2 ≠ .CFEV_ACCEPT) : ret.1 ∉ d.listenfds := by
  intro hmem
  unfold expand at h
  rw [if_pos hmem, List.mem_singleton] at h
  exact hp (by rw [h])

/-- Only a listening descriptor has an ACCEPT made of its answer. -/
theorem mem_listenfds_of_mem_expand {d : Epoll} {ret : Fd × cf_ev} {p : Fd × EV_TYPE}
    (h : p ∈ d.expand ret) (hp : p.2 = .CFEV_ACCEPT) : ret.1 ∈ d.listenfds := by
  unfold expand at h
  split at h
  · next hmem => exact hmem
  · split at h
    · rw [List.mem_singleton.mp h] at hp
      cases hp
    · simp only [List.mem_append] at h
      obtain (h | h) | h := h <;> split at h <;> simp at h <;> rw [h] at hp <;> cases hp

/-- `CFEV_CLOSE` and `CFEV_ERROR` are the last event of their entry. -/
theorem pairwise_expand (d : Epoll) (ret : Fd × cf_ev) :
    (d.expand ret).Pairwise fun p _ => p.2 = .CFEV_READ ∨ p.2 = .CFEV_WRITE := by
  unfold expand
  split
  · exact List.pairwise_singleton _ _
  · split
    · exact List.pairwise_singleton _ _
    · split <;> split <;> split <;> simp

/-! ## the record and the kernel's table -/

/-- The record is the kernel's table. -/
def Agrees (d : Epoll) : Prop := ∀ k, d.interest.lookup k = d.mapEvent.lookup k

/-- The call `AddConn` writes the same mask to the record and to the kernel. -/
theorem Agrees.addConn {d : Epoll} (h : d.Agrees) (fd : Fd) (ev : EV_TYPE) :
    (d.addConn fd ev).Agrees := by
  intro k
  rw [lookup_addConn]
  show (d.interest.insertNew fd _).lookup k = _
  rw [FdMap.lookup_insertNew, h fd, h k]

/-- The call `DelConn` takes the descriptor out of the record and out of the kernel. -/
theorem Agrees.delConn {d : Epoll} (h : d.Agrees) (fd : Fd) : (d.delConn fd).Agrees := by
  intro k
  rw [lookup_delConn]
  show (AList.erase fd d.interest).lookup k = _
  rw [FdMap.lookup_erase_eq, h k]

/-- Changing the events of a recorded descriptor in both keeps them equal. -/
theorem Agrees.modify {d : Epoll} (h : d.Agrees) {fd : Fd} {oldev : cf_ev} (event : cf_ev)
    (hfd : d.mapEvent.lookup fd = some oldev) :
    Agrees { d.epollCtl fd .EPOLL_CTL_MOD event with
      mapEvent := AList.insert fd event (d.epollCtl fd .EPOLL_CTL_MOD event).mapEvent } := by
  intro k
  have hmem : fd ∈ d.interest := FdMap.mem_of_lookup ((h fd).trans hfd)
  simp only [epollCtl, if_pos hmem, FdMap.lookup_insert_eq, h k]

/-- The call `AddEvent` writes the same mask to the record and to the kernel. -/
theorem Agrees.addEvent {d : Epoll} (h : d.Agrees) (fd : Fd) (ev : EV_TYPE) :
    (d.addEvent fd ev).Agrees := by
  unfold Epoll.addEvent
  cases hfd : d.mapEvent.lookup fd with
  | none => exact h
  | some oldev =>
      simp only
      split
      · exact h
      · exact h.modify _ hfd

/-- The call `DelEvent` writes the same mask to the record and to the kernel. -/
theorem Agrees.delEvent {d : Epoll} (h : d.Agrees) (fd : Fd) (ev : EV_TYPE) :
    (d.delEvent fd ev).Agrees := by
  unfold Epoll.delEvent
  cases hfd : d.mapEvent.lookup fd with
  | none => exact h
  | some oldev =>
      simp only
      split
      · exact h.modify _ hfd
      · exact h

/-- The listeners are in the record and in the kernel with one mask. -/
theorem Agrees.create (listenfds : List Fd) : (create listenfds).Agrees := by
  have hfold : ∀ (l : List Fd) (d : Epoll), d.Agrees →
      (l.foldl (fun d fd => d.addConn fd .CFEV_READ) d).Agrees := by
    intro l
    induction l with
    | nil => exact fun _ hd => hd
    | cons fd l ih => exact fun d hd => ih _ (hd.addConn fd .CFEV_READ)
  exact hfold listenfds _ fun _ => rfl

/-! ## the listening sockets -/

@[simp] theorem listenfds_epollCtl (d : Epoll) (fd : Fd) (op : EpollOp) (event : cf_ev) :
    (d.epollCtl fd op event).listenfds = d.listenfds := by
  cases op with
  | EPOLL_CTL_ADD => rfl
  | EPOLL_CTL_MOD => unfold epollCtl; dsimp only; split <;> rfl
  | EPOLL_CTL_DEL => rfl

@[simp] theorem listenfds_addEvent (d : Epoll) (fd : Fd) (ev : EV_TYPE) :
    (d.addEvent fd ev).listenfds = d.listenfds := by
  cases h : d.mapEvent.lookup fd with
  | none => simp only [addEvent, h]
  | some oldev =>
      simp only [addEvent, h]
      split
      · rfl
      · exact listenfds_epollCtl _ _ _ _

@[simp] theorem listenfds_delEvent (d : Epoll) (fd : Fd) (ev : EV_TYPE) :
    (d.delEvent fd ev).listenfds = d.listenfds := by
  cases h : d.mapEvent.lookup fd with
  | none => simp only [delEvent, h]
  | some oldev =>
      simp only [delEvent, h]
      split
      · exact listenfds_epollCtl _ _ _ _
      · rfl

@[simp] theorem listenfds_create (listenfds : List Fd) :
    (create listenfds).listenfds = listenfds := by
  have hfold : ∀ (l : List Fd) (d : Epoll),
      (l.foldl (fun d fd => d.addConn fd .CFEV_READ) d).listenfds = d.listenfds := by
    intro l
    induction l with
    | nil => exact fun _ => rfl
    | cons fd l ih => exact fun d => ih _
  exact hfold listenfds _

end Epoll

end CppFastDevelop
