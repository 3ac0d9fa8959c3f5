import CppFastDevelop.NetServer.View

/-!
# CppFastDevelop.NetServer.Attached

What the kernel watches in every run: `EpollCtl` ignores the kernel's
answers, but the record never parts from the kernel's table, and the
listening sockets stay those of the constructor.  So whatever `epoll_wait`
reports is a listening socket or a registered client.
-/

namespace CppFastDevelop

/-! ## the demultiplexer -/

/-- The record is the kernel's table, and the listening sockets are
`listenfds`. -/
structure Epoll.Attached (listenfds : List Fd) (d : Epoll) : Prop where
  agrees : d.Agrees
  listening : d.listenfds = listenfds

namespace Epoll.Attached

variable {listenfds : List Fd} {d : Epoll}

/-- An Epoll object just created holds the listening descriptors it was created with. -/
theorem create (listenfds : List Fd) : Attached listenfds (create listenfds) :=
  ⟨.create listenfds, listenfds_create listenfds⟩

/-- Registering a connection leaves the listening descriptors as they were. -/
theorem addConn (h : Attached listenfds d) (fd : Fd) (ev : EV_TYPE) :
    Attached listenfds (d.addConn fd ev) :=
  ⟨h.agrees.addConn fd ev, h.listening⟩

/-- Taking a connection out leaves the listening descriptors as they were. -/
theorem delConn (h : Attached listenfds d) (fd : Fd) : Attached listenfds (d.delConn fd) :=
  ⟨h.agrees.delConn fd, h.listening⟩

theorem addEvent (h : Attached listenfds d) (fd : Fd) (ev : EV_TYPE) :
    Attached listenfds (d.addEvent fd ev) :=
  ⟨h.agrees.addEvent fd ev, (listenfds_addEvent d fd ev).trans h.listening⟩

theorem delEvent (h : Attached listenfds d) (fd : Fd) (ev : EV_TYPE) :
    Attached listenfds (d.delEvent fd ev) :=
  ⟨h.agrees.delEvent fd ev, (listenfds_delEvent d fd ev).trans h.listening⟩

/-- Pausing a listener or setting it going again keeps it in Epoll's own list. -/
theorem maxConnectionDemux (h : Attached listenfds d) (fd : Fd) (li : ListenInfo) (b : Bool) :
    Attached listenfds (EventHandler.maxConnectionDemux d fd li b) := by
  unfold EventHandler.maxConnectionDemux
  split
  · split
    · exact h.delConn fd
    · exact h
  · split
    · exact h.addConn fd .CFEV_READ
    · exact h

end Epoll.Attached

/-! ## over a run -/

namespace System

open EventHandler

/-- The demultiplexer is attached to the kernel, and every listener is one
of its listening sockets. -/
structure Attached (listenfds : List Fd) (h : EventHandler) : Prop where
  demux : h.demux.Attached listenfds
  listener : ∀ fd ∈ h.listenInfo, fd ∈ listenfds

namespace Attached

variable {listenfds : List Fd} {h h' : EventHandler}

/-- At the beginning every listener is one of the listening sockets of Epoll. -/
theorem init (listenfdMaxconn : List (Fd × UInt32)) :
    Attached (listenfdMaxconn.map (·.1)) (System.init listenfdMaxconn).handler := by
  refine ⟨.create _, ?_⟩
  have hfold : ∀ (l : List (Fd × UInt32)) (m : FdMap ListenInfo) (fd : Fd),
      fd ∈ l.foldl (fun m it => m.insertNew it.1 ⟨it.2, 0⟩) m → fd ∈ l.map (·.1) ∨ fd ∈ m := by
    intro l
    induction l with
    | nil => exact fun _ _ hfd => .inr hfd
    | cons p l ih =>
        intro m fd hfd
        cases ih _ fd hfd with
        | inl hmem => exact .inl (List.mem_cons_of_mem _ hmem)
        | inr hmem =>
            rw [← AList.lookup_isSome, FdMap.lookup_insertNew] at hmem
            split at hmem
            · next heq => exact .inl (heq ▸ List.mem_cons_self)
            · exact .inr (AList.lookup_isSome.mp hmem)
  intro fd hfd
  cases hfold listenfdMaxconn ∅ fd hfd with
  | inl hmem => exact hmem
  | inr hempty => exact absurd hempty (AList.notMem_empty fd)

/-- Only counters of a listener are ever written back, so the set of listeners stays. -/
theorem insert_listener (ha : Attached listenfds h) {listenfd : Fd} {li : ListenInfo}
    (hli : h.listenInfo.lookup listenfd = some li) (li' : ListenInfo) :
    Attached listenfds (h.withListenInfo listenfd li') :=
  ⟨ha.demux, fun fd hfd => ha.listener fd ((FdMap.mem_insert_of_lookup hli).mp hfd)⟩

/-- Registering a batch of accepted connections keeps the set of listeners. -/
theorem acceptStep {listenfd : Fd} {accepted : List Fd} {frames : List Frame}
    (hstep : AcceptStep listenfd accepted h h' frames) (ha : Attached listenfds h) :
    Attached listenfds h' := by
  cases hstep with
  | @finish li hli => exact ⟨ha.demux.maxConnectionDemux listenfd li true, ha.listener⟩
  | accept hfd hrest hnew => exact ⟨ha.demux.addConn _ _, ha.listener⟩

/-- No call of the system changes which descriptors listen. -/
theorem effect {m m' : System} {c : Call} (heff : Effect m c m')
    (ha : Attached listenfds m.handler) : Attached listenfds m'.handler := by
  cases heff with
  | asyncRead => exact ⟨ha.demux.addEvent _ _, ha.listener⟩
  | asyncWrite => exact ⟨ha.demux.addEvent _ _, ha.listener⟩
  | close => exact ⟨ha.demux.delConn _, ha.listener⟩
  | onError => exact ⟨ha.demux.delConn _, ha.listener⟩
  | onRead =>
      refine ⟨?_, ha.listener⟩
      dsimp only
      split
      · exact ha.demux.delEvent _ _
      · exact ha.demux
  | onWrite =>
      refine ⟨?_, ha.listener⟩
      dsimp only
      split
      · exact ha.demux.delEvent _ _
      · exact ha.demux
  | onTimeout => exact ⟨ha.demux, ha.listener⟩
  | onAcceptNothing => exact ha
  | onAccept hnew haccept => exact acceptStep haccept ha
  | retAccepting hli haccept => exact acceptStep haccept (ha.insert_listener hli _)
  | retReading => exact ⟨ha.demux, ha.listener⟩
  | retWriting => exact ⟨ha.demux, ha.listener⟩
  | @retClosing h stack s f ci li hf hci hli =>
      exact ⟨ha.demux.maxConnectionDemux ci.listenfd _ false, (ha.insert_listener hli _).listener⟩
  | retTimingOut => exact ha

/-- **What the kernel watches is a listening socket or a registered
client.** -/
theorem mem_clientInfo {m : System} (ha : Attached listenfds m.handler) (hr : Recorded m)
    {fd : Fd} (hfd : fd ∈ m.handler.demux.interest) (hlisten : fd ∉ m.handler.demux.listenfds) :
    fd ∈ m.handler.clientInfo := by
  obtain ⟨mask, hmask⟩ := FdMap.mem_iff_exists.mp hfd
  rw [ha.demux.agrees fd] at hmask
  cases hr.known fd mask hmask with
  | inl hmem => exact hmem
  | inr hmem =>
      rw [ha.demux.listening] at hlisten
      exact absurd (ha.listener fd hmem) hlisten

end Attached

/-- The tables are in order after every run. -/
theorem tables_of_run {listenfdMaxconn : List (Fd × UInt32)} {m : System} {cs : List Call}
    (hrun : Machine.run step (init listenfdMaxconn) cs = some m) (hok : m.failed = none) :
    WellFormed m ∧ Recorded m ∧ Attached (listenfdMaxconn.map (·.1)) m.handler := by
  refine run_invariant_of_effect (C := fun _ _ => True)
    (fun m => WellFormed m ∧ Recorded m ∧ Attached (listenfdMaxconn.map (·.1)) m.handler) ?_
    (Machine.along_of_forall (fun _ _ => trivial) _ cs) hrun
    ⟨wellFormed_init _, recorded_init _, .init _⟩ hok
  rintro m c m' - heff ⟨hw, hr, ha⟩
  exact ⟨hw.effect heff, hr.effect heff hw, .effect heff ha⟩

end System

end CppFastDevelop
