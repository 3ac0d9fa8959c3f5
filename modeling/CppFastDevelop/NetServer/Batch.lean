import CppFastDevelop.Lib.Grouped
import CppFastDevelop.NetServer.Delivery

/-!
# CppFastDevelop.NetServer.Batch

What `WaitEvent` makes of one `epoll_wait` (`cf_epoll.cpp`), descriptor by
descriptor: `Right` says which events a mask calls for, without saying how
they are found.  A batch has the right events of every descriptor, in the
kernel's order, and nothing for a descriptor comes after its `CFEV_CLOSE` or
`CFEV_ERROR` (`waitEvent_batch`), neither in the batch nor while the loop
works it off (`terminal_last`).
-/

namespace CppFastDevelop

open Grouped

namespace Epoll

/-! ## the events of one descriptor -/

/-- The events of a batch for one descriptor. -/
def eventsOf (events : List (Fd × EV_TYPE)) (fd : Fd) : List EV_TYPE :=
  (events.filter fun p => p.1 = fd).map Prod.snd

/-- The events that the mask of a descriptor calls for. -/
structure Right (d : Epoll) (fd : Fd) (mask : cf_ev) (evs : List EV_TYPE) : Prop where
  listening : fd ∈ d.listenfds → evs = [.CFEV_ACCEPT]
  broken : fd ∉ d.listenfds → mask &&& EPOLLERR ≠ 0 ∨ mask &&& EPOLLHUP ≠ 0 →
    evs = [.CFEV_ERROR]
  order : fd ∉ d.listenfds → ¬(mask &&& EPOLLERR ≠ 0 ∨ mask &&& EPOLLHUP ≠ 0) →
    evs.Sublist [.CFEV_READ, .CFEV_WRITE, .CFEV_CLOSE]
  flags : fd ∉ d.listenfds → ¬(mask &&& EPOLLERR ≠ 0 ∨ mask &&& EPOLLHUP ≠ 0) →
    (.CFEV_READ ∈ evs ↔ mask &&& EPOLLIN ≠ 0) ∧
    (.CFEV_WRITE ∈ evs ↔ mask &&& EPOLLOUT ≠ 0) ∧
    (.CFEV_CLOSE ∈ evs ↔ mask &&& EPOLLRDHUP ≠ 0)

/-- The kernel's flags become one CLOSE or ERROR alone, or the events of the other flags in
order. -/
theorem right_expand (d : Epoll) (ret : Fd × cf_ev) :
    d.Right ret.1 ret.2 ((d.expand ret).map Prod.snd) := by
  obtain ⟨fd, mask⟩ := ret
  constructor
  · intro hlisten
    simp [expand, hlisten]
  · intro hlisten hbroken
    rw [expand, if_neg hlisten, if_pos hbroken]
    rfl
  · intro hlisten hbroken
    rw [expand, if_neg hlisten, if_neg hbroken]
    split <;> split <;> split <;> simp
  · intro hlisten hbroken
    rw [expand, if_neg hlisten, if_neg hbroken]
    split <;> split <;> split <;> simp_all

/-! ## a batch -/

/-- **What one `epoll_wait` becomes.**  The batch is made of the events of
each descriptor, in the order of the kernel; each has the events its mask
calls for, and nothing follows its `CFEV_CLOSE` or `CFEV_ERROR`. -/
theorem waitEvent_batch (d : Epoll) {ret : List (Fd × cf_ev)}
    (hnodup : (ret.map Prod.fst).Nodup) :
    ∃ events, d.waitEvent (some ret) = .ok events ∧
      events = ((ret.map Prod.fst).flatMap fun fd => events.filter fun p => p.1 = fd) ∧
      (∀ r ∈ ret, d.Right r.1 r.2 (eventsOf events r.1)) ∧
      events.Pairwise fun p q => p.2 = .CFEV_CLOSE ∨ p.2 = .CFEV_ERROR → q.1 ≠ p.1 := by
  have hkey : ∀ r ∈ ret, ∀ p ∈ d.expand r, p.1 = r.1 := fun r _ p => fd_of_mem_expand
  refine ⟨ret.flatMap d.expand, rfl, flatMap_eq_flatMap_filter hnodup hkey, fun r hr => ?_, ?_⟩
  · rw [eventsOf, filter_flatMap_of_nodup hnodup hkey hr]
    exact right_expand d r
  · refine List.pairwise_flatMap.mpr ⟨fun r _ => ?_, ?_⟩
    · refine (d.pairwise_expand r).imp fun hlast hterminal => ?_
      rcases hlast with hlast | hlast <;> simp [hlast] at hterminal
    · refine (List.pairwise_map.mp hnodup).imp fun hne p hp q hq _ heq => hne ?_
      rw [← fd_of_mem_expand hp, ← fd_of_mem_expand hq, heq]

/-- A connection whose peer has sent its last bytes, a listening socket, and
a broken connection. -/
theorem waitEvent_batch_three :
    (create [3]).waitEvent (some [(5, EPOLLIN ||| EPOLLRDHUP), (3, EPOLLIN),
        (7, EPOLLIN ||| EPOLLHUP)]) =
      .ok [(5, .CFEV_READ), (5, .CFEV_CLOSE), (3, .CFEV_ACCEPT), (7, .CFEV_ERROR)] ∧
    (create [3]).Right 5 (EPOLLIN ||| EPOLLRDHUP) [.CFEV_READ, .CFEV_CLOSE] := by
  have hnodup : ([(5, EPOLLIN ||| EPOLLRDHUP), (3, EPOLLIN), (7, EPOLLIN ||| EPOLLHUP)].map
      (Prod.fst : Fd × cf_ev → Fd)).Nodup := by decide
  obtain ⟨events, hevents, -, hright, -⟩ := waitEvent_batch (create [3]) hnodup
  have hbatch : events =
      [(5, .CFEV_READ), (5, .CFEV_CLOSE), (3, .CFEV_ACCEPT), (7, .CFEV_ERROR)] := by
    cases hevents
    decide
  subst hbatch
  exact ⟨hevents, hright (5, EPOLLIN ||| EPOLLRDHUP) (by simp)⟩

end Epoll

/-! ## the loop that works it off -/

namespace EventLoop

/-- What the loop has still to work off is in order. -/
theorem inOrder_of_run {listenfdMaxconn : List (Fd × UInt32)} {l : EventLoop}
    {acts : List Action} (hrun : Machine.run step (init listenfdMaxconn) acts = some l) :
    InOrder l.vecEvent := by
  refine Machine.run_invariant (fun l : EventLoop => InOrder l.vecEvent) ?_ hrun .nil
  intro l a l' hstep hl
  cases step_effect hstep with
  | failed => exact hl
  | @collected ret hfree hidle hreturns => exact inOrder_batch _ _ (hreturns ret rfl).1
  | timeout hcall => exact hl
  | dispatched hvec hcall => exact (List.pairwise_cons.mp (hvec ▸ hl)).2
  | user hfrom hcall => exact hl

/-- **Nothing follows the end.**  Whenever the handler of a `CFEV_CLOSE` or
`CFEV_ERROR` is called, no event of its descriptor is left in the batch. -/
theorem terminal_last {listenfdMaxconn : List (Fd × UInt32)} {l l' : EventLoop}
    {acts : List Action} {answers : Answers}
    (hrun : Machine.run step (init listenfdMaxconn) acts = some l)
    (hstep : l.step (.dispatch answers) = some l') :
    ∃ e, l.vecEvent = e :: l'.vecEvent ∧
      (e.ev = .CFEV_CLOSE ∨ e.ev = .CFEV_ERROR → ∀ e' ∈ l'.vecEvent, e'.fd ≠ e.fd) := by
  have horder := inOrder_of_run hrun
  cases step_effect hstep with
  | dispatched hvec hcall =>
      refine ⟨_, hvec, fun hterminal e' he' heq => ?_⟩
      rw [InOrder, hvec, List.pairwise_cons] at horder
      rcases horder.1 e' he' heq.symm with hread | hwrite <;> simp_all

end EventLoop

end CppFastDevelop
