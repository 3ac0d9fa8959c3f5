import CppFastDevelop.NetServer.Epoll
import Mathlib.Data.Finset.Basic
import Mathlib.Logic.Function.Basic

/-!
# CppFastDevelop.NetServer.EpollReference

The demultiplexer over any sequence of calls.  `EpollCtl` does not look at
what the kernel answers, so nothing but the way each call treats repeated
and missing descriptors keeps `_mapEvent` and the kernel's table together.
The reference is what the callers asked for: a set of events for each
descriptor between its `AddConn` and its `DelConn`.
-/

namespace CppFastDevelop

open Flags

namespace Epoll

/-! ## calls and the reference -/

/-- A call of the demultiplexer by its owner. -/
inductive Call
  | addConn (fd : Fd) (ev : EV_TYPE)
  | delConn (fd : Fd)
  | addEvent (fd : Fd) (ev : EV_TYPE)
  | delEvent (fd : Fd) (ev : EV_TYPE)
  deriving DecidableEq, Repr

def call (d : Epoll) : Call → Epoll
  | .addConn fd ev => d.addConn fd ev
  | .delConn fd => d.delConn fd
  | .addEvent fd ev => d.addEvent fd ev
  | .delEvent fd ev => d.delEvent fd ev

/-- The events asked for, of each descriptor that was added. -/
abbrev Wanted := Fd → Option (Finset EV_TYPE)

namespace Wanted

/-- A descriptor that is there is not added again; the events of one that is
not there cannot be changed. -/
def call (w : Wanted) : Call → Wanted
  | .addConn fd ev => Function.update w fd ((w fd).or (some {ev}))
  | .delConn fd => Function.update w fd none
  | .addEvent fd ev => Function.update w fd ((w fd).map (insert ev))
  | .delEvent fd ev => Function.update w fd ((w fd).map fun evs => evs.erase ev)

/-- The constructor adds the listening sockets. -/
def create (listenfds : List Fd) : Wanted :=
  listenfds.foldl (fun w fd => w.call (.addConn fd .CFEV_READ)) fun _ => none

end Wanted

/-! ## masks and sets of events -/

/-- A mask asks for the events of a set, and always for the peer's hangup. -/
structure Asks (mask : cf_ev) (evs : Finset EV_TYPE) : Prop where
  rdhup : mask &&& EPOLLRDHUP ≠ 0
  read : mask &&& EPOLLIN ≠ 0 ↔ .CFEV_READ ∈ evs
  write : mask &&& EPOLLOUT ≠ 0 ↔ .CFEV_WRITE ∈ evs

/-- The bit EPOLLIN stands for READ. -/
theorem eventOf_and_in {ev : EV_TYPE} : eventOf ev &&& EPOLLIN ≠ 0 ↔ .CFEV_READ = ev := by
  cases ev <;> decide

/-- The bit EPOLLOUT stands for WRITE. -/
theorem eventOf_and_out {ev : EV_TYPE} : eventOf ev &&& EPOLLOUT ≠ 0 ↔ .CFEV_WRITE = ev := by
  cases ev <;> decide

/-- No event stands for the bit EPOLLRDHUP. -/
theorem eventOf_and_rdhup {ev : EV_TYPE} : ¬eventOf ev &&& EPOLLRDHUP ≠ 0 := by
  cases ev <;> decide

namespace Asks

variable {mask : cf_ev} {evs : Finset EV_TYPE}

/-- The mask of a new connection asks for its one event. -/
theorem single (ev : EV_TYPE) : Asks (EPOLLRDHUP ||| eventOf ev) {ev} := by
  cases ev <;> constructor <;> decide

/-- A bit set in the mask is an event added to the set. -/
theorem insert (h : Asks mask evs) (ev : EV_TYPE) :
    Asks (mask ||| eventOf ev) (insert ev evs) where
  rdhup := (or_and_twoPow_ne_zero mask _ (by decide)).mpr (.inl h.rdhup)
  read := by
    rw [EPOLLIN, or_and_twoPow_ne_zero mask _ (by decide), ← EPOLLIN, h.read, eventOf_and_in,
      Finset.mem_insert, or_comm]
  write := by
    rw [EPOLLOUT, or_and_twoPow_ne_zero mask _ (by decide), ← EPOLLOUT, h.write,
      eventOf_and_out, Finset.mem_insert, or_comm]

/-- A bit taken off the mask is an event taken out of the set. -/
theorem erase (h : Asks mask evs) (ev : EV_TYPE) :
    Asks (mask &&& ~~~eventOf ev) (evs.erase ev) where
  rdhup :=
    (and_not_and_twoPow_ne_zero mask _ (by decide)).mpr ⟨h.rdhup, eventOf_and_rdhup⟩
  read := by
    rw [EPOLLIN, and_not_and_twoPow_ne_zero mask _ (by decide), ← EPOLLIN, h.read,
      eventOf_and_in, Finset.mem_erase, and_comm]
  write := by
    rw [EPOLLOUT, and_not_and_twoPow_ne_zero mask _ (by decide), ← EPOLLOUT, h.write,
      eventOf_and_out, Finset.mem_erase, and_comm]

end Asks

/-! ## one call -/

/-- Every call of the interface keeps the record and the kernel in agreement. -/
theorem Agrees.call {d : Epoll} (h : d.Agrees) (c : Call) : (d.call c).Agrees := by
  cases c with
  | addConn fd ev => exact h.addConn fd ev
  | delConn fd => exact h.delConn fd
  | addEvent fd ev => exact h.addEvent fd ev
  | delEvent fd ev => exact h.delEvent fd ev

/-- The record and the kernel's table hold the descriptors that were added,
both with masks that ask for what is wanted. -/
structure Follows (d : Epoll) (w : Wanted) : Prop where
  agrees : d.Agrees
  asks : ∀ fd, Option.Rel Asks (d.mapEvent.lookup fd) (w fd)

/-- What a call makes of the descriptor it names. -/
theorem rel_update {d d' : Epoll} {w : Wanted} {fd : Fd} {o : Option cf_ev}
    {o' : Option (Finset EV_TYPE)}
    (h : ∀ k, Option.Rel Asks (d.mapEvent.lookup k) (w k))
    (hlookup : ∀ k, d'.mapEvent.lookup k = if k = fd then o else d.mapEvent.lookup k)
    (ho : Option.Rel Asks o o') (k : Fd) :
    Option.Rel Asks (d'.mapEvent.lookup k) (Function.update w fd o' k) := by
  rw [hlookup, Function.update_apply]
  split
  · exact ho
  · exact h k

/-- A change of the mask that the set goes along with. -/
theorem rel_map {o : Option cf_ev} {o' : Option (Finset EV_TYPE)} {f : cf_ev → cf_ev}
    {g : Finset EV_TYPE → Finset EV_TYPE} (h : Option.Rel Asks o o')
    (hfg : ∀ {mask evs}, Asks mask evs → Asks (f mask) (g evs)) :
    Option.Rel Asks (o.map f) (o'.map g) := by
  cases h with
  | some hasks => exact .some (hfg hasks)
  | none => exact .none

/-- A mask given to a descriptor that has none, on both sides. -/
theorem rel_or {o : Option cf_ev} {o' : Option (Finset EV_TYPE)} (h : Option.Rel Asks o o')
    (ev : EV_TYPE) :
    Option.Rel Asks (o.or (some (EPOLLRDHUP ||| eventOf ev))) (o'.or (some {ev})) := by
  cases h with
  | some hasks => exact .some hasks
  | none => exact .some (Asks.single ev)

/-- Every call of the interface keeps record and reference in step. -/
theorem Follows.call {d : Epoll} {w : Wanted} (h : Follows d w) (c : Call) :
    Follows (d.call c) (w.call c) := by
  refine ⟨h.agrees.call c, ?_⟩
  cases c with
  | addConn fd ev =>
      exact rel_update h.asks (fun k => lookup_addConn d fd k ev) (rel_or (h.asks fd) ev)
  | delConn fd => exact rel_update h.asks (fun k => lookup_delConn d fd k) .none
  | addEvent fd ev =>
      exact rel_update h.asks (fun k => lookup_addEvent d fd k ev)
        (rel_map (h.asks fd) fun hasks => hasks.insert ev)
  | delEvent fd ev =>
      exact rel_update h.asks (fun k => lookup_delEvent d fd k ev)
        (rel_map (h.asks fd) fun hasks => hasks.erase ev)

/-! ## any sequence of calls -/

/-- The object just created and the reference just created are in step. -/
theorem follows_create (listenfds : List Fd) :
    Follows (create listenfds) (Wanted.create listenfds) :=
  List.foldl_rel ⟨fun _ => rfl, fun _ => .none⟩
    fun fd _ _ _ h => h.call (.addConn fd .CFEV_READ)

/-- **The demultiplexer follows its callers.**  After any sequence of calls
the record and the kernel's table are equal, and hold for each descriptor
what was asked for since it was added. -/
theorem follows_foldl_call (listenfds : List Fd) (calls : List Call) :
    Follows (calls.foldl call (create listenfds))
      (calls.foldl Wanted.call (Wanted.create listenfds)) :=
  List.foldl_rel (follows_create listenfds) fun c _ _ _ h => h.call c

/-- A second `AddConn` asks for nothing, nor does a call after `DelConn`. -/
example : (([.addConn 5 .CFEV_READ, .addConn 5 .CFEV_WRITE, .delConn 6, .delEvent 5 .CFEV_READ,
      .addEvent 5 .CFEV_WRITE, .addEvent 6 .CFEV_READ] : List Call).foldl call
      (create [])).interest.lookup 5 = some (EPOLLRDHUP ||| EPOLLOUT) := by decide

end Epoll

end CppFastDevelop
