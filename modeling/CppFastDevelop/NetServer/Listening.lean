import CppFastDevelop.NetServer.Counting
import CppFastDevelop.NetServer.Delivery

/-!
# CppFastDevelop.NetServer.Listening

Which listeners the event loop watches, and how many clients they get.  An
accept event is collected only for a listener that is watched, hence not
full, and until its `OnAccept` the listener can but lose clients.  That one
`OnAccept` takes whatever the backlog holds and looks at the limit only
afterwards, so the limit may be exceeded by what it took (`clients_lt`).
-/

namespace CppFastDevelop

/-! ## a listener on its own -/

namespace ListenerView

open CppFastDevelop.System

/-- Nothing is being accepted and the listener is not full. -/
structure Ready (v : ListenerView) : Prop where
  idle : v.accepting = []
  room : v.info.maxconns.toNat = 0 ∨ v.clients < v.info.maxconns.toNat

/-- The clients, with those `OnAccept` has still to look at, exceed the
limit by less than `k`. -/
def Within (k : Nat) (v : ListenerView) : Prop :=
  v.info.maxconns.toNat = 0 ∨ v.clients + v.accepting.sum < v.info.maxconns.toNat + k

variable {v v' : ListenerView} {listenfd : Fd} {c : System.Call} {k : Nat}

/-- A listener that is watched between handlers is ready. -/
theorem Gated.ready (h : Gated v) (hidle : v.accepting = []) (hwatched : v.watched = true) :
    Ready v := ⟨hidle, h.shut hidle hwatched⟩

/-- It takes its `OnAccept` to fill a listener. -/
theorem Ready.step (hstep : ListenerStep listenfd c v v')
    (hc : ∀ accepted, c ≠ .onAccept listenfd accepted) (h : Ready v) : Ready v' := by
  obtain ⟨hidle, hroom⟩ := h
  cases hstep with
  | same => exact ⟨hidle, hroom⟩
  | @onAccept accepted => exact absurd rfl (hc accepted)
  | retAccepting => cases hidle
  | @retClosing li watched n ks =>
      change li.maxconns.toNat = 0 ∨ n + 1 < li.maxconns.toNat at hroom
      unfold ListenerView.restore
      split <;> exact ⟨hidle, hroom.imp_right Nat.lt_of_succ_lt⟩

/-- A turn of the accept loop passes over to the clients what it takes off the batch. -/
theorem Within.acceptStep {n : Nat} (h : v.info.maxconns.toNat = 0 ∨
    v.clients + (n + v.accepting.sum) < v.info.maxconns.toNat + k)
    (hstep : AcceptStep n v v') : Within k v' := by
  cases hstep with
  | finish =>
      have hw : Within k v := h.imp_right (by omega)
      unfold ListenerView.pause
      split <;> exact hw
  | @accept w hw =>
      refine h.imp_right fun hlt => ?_
      show v.clients + 1 + (w :: v.accepting).sum < v.info.maxconns.toNat + k
      rw [List.sum_cons]
      omega

/-- Only `OnAccept` takes connections. -/
theorem Within.step (hstep : ListenerStep listenfd c v v')
    (hc : ∀ accepted, c ≠ .onAccept listenfd accepted) (h : Within k v) : Within k v' := by
  cases hstep with
  | same => exact h
  | @onAccept accepted => exact absurd rfl (hc accepted)
  | @retAccepting li watched n w ks _ haccept =>
      have hw : li.maxconns.toNat = 0 ∨ n + (w + ks.sum) < li.maxconns.toNat + k := h
      exact Within.acceptStep hw haccept
  | @retClosing li watched n ks =>
      have hn : li.maxconns.toNat = 0 ∨ n + 1 + ks.sum < li.maxconns.toNat + k := h
      unfold ListenerView.restore
      split <;> exact hn.imp_right fun hlt => by dsimp only; omega

/-- `OnAccept` is called for a listener that is ready. -/
theorem Ready.within (h : Ready v) {accepted : List Fd}
    (hstep : ListenerStep listenfd (.onAccept listenfd accepted) v v') :
    Within accepted.length v' := by
  have hroom := h.room
  have hidle := h.idle
  cases hstep with
  | same =>
      refine hroom.imp_right fun hlt => ?_
      rw [hidle, List.sum_nil]
      omega
  | onAccept _ haccept =>
      refine Within.acceptStep (hroom.imp_right fun hlt => ?_) haccept
      rw [hidle, List.sum_nil]
      omega

end ListenerView

/-! ## the loop -/

namespace EventLoop

open EventHandler CppFastDevelop.System

/-- What is accepted has descriptors. -/
def Action.Descriptors : Action → Prop
  | .dispatch answers => ∀ fd ∈ answers.accepted, IsDescriptor fd
  | _ => True

instance : DecidablePred Action.Descriptors
  | .dispatch answers => inferInstanceAs (Decidable (∀ fd ∈ answers.accepted, IsDescriptor fd))
  | .waitEvent _ | .user _ => inferInstanceAs (Decidable True)

/-- The handler of an event gets its descriptors from `accept`. -/
theorem descriptors_handlerOf {answers : Answers} (h : ∀ fd ∈ answers.accepted, IsDescriptor fd)
    (e : PendingEvent) : (handlerOf e answers).Descriptors := by
  obtain ⟨fd, ev, heldBy⟩ := e
  cases ev with
  | CFEV_ACCEPT => exact h
  | CFEV_READ | CFEV_WRITE | CFEV_CLOSE | CFEV_ERROR => trivial

/-- No callback accepts connections itself. -/
theorem fromCallback_ne_onAccept {c : System.Call} (h : FromCallback c) (fd : Fd)
    (accepted : List Fd) : c ≠ .onAccept fd accepted := by
  rintro rfl
  exact h

/-- What a callback asks for brings no new descriptors. -/
theorem descriptors_of_fromCallback {c : System.Call} (h : FromCallback c) : c.Descriptors := by
  cases c with
  | onAccept => exact absurd h id
  | _ => trivial

/-- The handler of an event of another kind, or of another descriptor. -/
theorem handlerOf_ne_onAccept {e : PendingEvent} {answers : Answers} {fd : Fd}
    (h : ¬ (e.ev = .CFEV_ACCEPT ∧ e.fd = fd)) (accepted : List Fd) :
    handlerOf e answers ≠ .onAccept fd accepted := by
  obtain ⟨k, ev, heldBy⟩ := e
  cases ev <;> simp [handlerOf] at h ⊢
  exact fun heq => absurd heq h

/-- How many connections the last `OnAccept` of a listener was given. -/
def lastBacklog (fd : Fd) (k : Nat) (l : EventLoop) (a : Action) (_ : EventLoop) : Nat :=
  match a, l.vecEvent with
  | .dispatch answers, e :: _ =>
    if e.ev = .CFEV_ACCEPT ∧ e.fd = fd then answers.accepted.length else k
  | _, _ => k

/-- Every listener that has an event to come is ready. -/
def Pending (m : System) (events : List PendingEvent) : Prop :=
  ∀ e ∈ events, e.ev = .CFEV_ACCEPT → ∀ li, m.handler.listenInfo.lookup e.fd = some li →
    (m.listenerView e.fd li).Ready

/-- A loop in which nothing was thrown, watched at the listener `fd`. -/
structure Admits (fd : Fd) (l : EventLoop) (k : Nat) : Prop where
  listens : Listens l.system
  pending : Pending l.system l.vecEvent
  inOrder : InOrder l.vecEvent
  within : ∀ li, l.system.handler.listenInfo.lookup fd = some li →
    (l.system.listenerView fd li).Within k

section Admits

variable {fd : Fd} {l : EventLoop} {k : Nat} {c : System.Call} {m : System}

/-- Other listeners' accepts leave a listener ready. -/
theorem Pending.effect {events : List PendingEvent} (heff : System.Effect l.system c m)
    (hw : WellFormed l.system) (hp : Pending l.system events)
    (hc : ∀ e ∈ events, e.ev = .CFEV_ACCEPT → ∀ accepted, c ≠ .onAccept e.fd accepted) :
    Pending m events := by
  intro e he hev li' hli'
  obtain ⟨li, hli, hstep⟩ := listener_step heff hw hli'
  exact (hp e he hev li hli).step hstep (hc e he hev)

/-- A call that is no `OnAccept` of the listener. -/
theorem Admits.call (hl : Admits fd l k) (heff : System.Effect l.system c m)
    (hc : c.Descriptors) {rest : List PendingEvent} (hrest : rest.Sublist l.vecEvent)
    (deliveries : List Delivery)
    (hne : ∀ e ∈ rest, e.ev = .CFEV_ACCEPT → ∀ accepted, c ≠ .onAccept e.fd accepted)
    (hfd : ∀ accepted, c ≠ .onAccept fd accepted) : Admits fd ⟨m, rest, deliveries⟩ k := by
  refine ⟨hl.listens.effect hc heff, ?_, hl.inOrder.sublist hrest, fun li' hli' => ?_⟩
  · have hp : Pending l.system rest := fun e he => hl.pending e (hrest.subset he)
    exact hp.effect heff hl.listens.wellFormed hne
  · obtain ⟨li, hli, hstep⟩ := listener_step heff hl.listens.wellFormed hli'
    exact (hl.within li hli).step hstep hfd

/-- A watched listener that has an event collected is ready. -/
theorem pending_batch (hm : Listens m) (hidle : m.stack = []) {ret : List (Fd × cf_ev)}
    (hwatched : ∀ r ∈ ret, r.1 ∈ m.handler.demux.interest) :
    Pending m (batch m (ret.flatMap m.handler.demux.expand)) := by
  intro e he _ li hli
  obtain ⟨p, hp, rfl⟩ := List.mem_map.mp he
  obtain ⟨r, hr, hp⟩ := List.mem_flatMap.mp hp
  have hfd := Epoll.fd_of_mem_expand hp
  refine (hm.listening p.1 li hli).ready ?_ (decide_eq_true ?_)
  · rw [listenerView, hidle]
    rfl
  · rw [hfd]
    exact hwatched r hr

/-- A step of the loop keeps a listener within its limit and its last batch. -/
theorem admits_step {a : Action} {l' : EventLoop} (ha : a.Descriptors)
    (hstep : l.step a = some l') (hl : l.system.failed = none → Admits fd l k)
    (hok : l'.system.failed = none) : Admits fd l' (lastBacklog fd k l a l') := by
  cases step_effect hstep with
  | failed => cases hok
  | @collected ret hfree hidle hreturns =>
      have had := hl hfree
      obtain ⟨hnodup, hwatched⟩ := hreturns ret rfl
      exact ⟨had.listens, pending_batch had.listens hidle hwatched, inOrder_batch _ _ hnodup,
        had.within⟩
  | timeout hcall =>
      obtain ⟨hfree, heff⟩ := System.step_effect hcall hok
      exact (hl hfree).call heff trivial (.refl _) _ (by simp) (by simp)
  | @dispatched answers e rest m hvec hcall =>
      obtain ⟨hfree, heff⟩ := System.step_effect hcall hok
      have had := hl hfree
      have hmem : e ∈ l.vecEvent := hvec ▸ List.mem_cons_self
      have horder := had.inOrder
      rw [InOrder, hvec, List.pairwise_cons] at horder
      -- no later event of the batch is for the same listener
      have hne : ∀ e' ∈ rest, e'.ev = .CFEV_ACCEPT →
          ∀ accepted, handlerOf e answers ≠ .onAccept e'.fd accepted := by
        intro e' he' _ accepted
        refine handlerOf_ne_onAccept ?_ accepted
        rintro ⟨hev, heq⟩
        have hread := horder.1 e' he' heq
        rw [hev] at hread
        simp at hread
      have hsub : rest.Sublist l.vecEvent := hvec ▸ List.sublist_cons_self e rest
      have hnow : lastBacklog fd k l (.dispatch answers)
          ⟨m, rest, l.deliveries ++ [⟨e, holder l.system e.fd⟩]⟩ =
            if e.ev = .CFEV_ACCEPT ∧ e.fd = fd then answers.accepted.length else k := by
        simp only [lastBacklog, hvec]
      rw [hnow]
      split
      · next hthis =>
          obtain ⟨hev, rfl⟩ := hthis
          have hcall : handlerOf e answers = .onAccept e.fd answers.accepted := by
            rw [handlerOf, hev]
          have hp : Pending l.system rest := fun e' he' => had.pending e' (hsub.subset he')
          refine ⟨had.listens.effect (descriptors_handlerOf ha e) heff,
            hp.effect heff had.listens.wellFormed hne, horder.2, fun li' hli' => ?_⟩
          obtain ⟨li, hli, hstep⟩ := listener_step heff had.listens.wellFormed hli'
          rw [hcall] at hstep
          exact (had.pending e hmem hev li hli).within hstep
      · next hother =>
          exact had.call heff (descriptors_handlerOf ha e) hsub _ hne
            (handlerOf_ne_onAccept hother)
  | user hfrom hcall =>
      obtain ⟨hfree, heff⟩ := System.step_effect hcall hok
      exact (hl hfree).call heff (descriptors_of_fromCallback hfrom) (.refl _) _
        (fun e _ _ => fromCallback_ne_onAccept hfrom e.fd) (fromCallback_ne_onAccept hfrom fd)

/-- At the beginning nobody has been accepted. -/
theorem admits_init (listenfdMaxconn : List (Fd × UInt32)) (fd : Fd) :
    Admits fd (init listenfdMaxconn) 0 := by
  refine ⟨listens_init listenfdMaxconn, by simp [Pending, init], .nil, fun li _ => ?_⟩
  show li.maxconns.toNat = 0 ∨ 0 + 0 < li.maxconns.toNat + 0
  omega

/-- Every run keeps a listener within its limit and its last batch. -/
theorem admits_of_run {listenfdMaxconn : List (Fd × UInt32)} {acts : List Action} (fd : Fd)
    (hfds : ∀ a ∈ acts, a.Descriptors)
    (hrun : Machine.run (Machine.recorded step (lastBacklog fd)) (init listenfdMaxconn, 0) acts =
      some (l, k)) (hok : l.system.failed = none) : Admits fd l k := by
  have halong := Machine.along_of_forall_mem (Machine.recorded step (lastBacklog fd)) hfds
    (init listenfdMaxconn, 0)
  refine Machine.run_invariant_along (fun p => p.1.system.failed = none → Admits fd p.1 p.2) ?_
    halong hrun (fun _ => admits_init listenfdMaxconn fd) hok
  rintro ⟨l, k⟩ a ⟨l', k'⟩ ha hstep hl hok
  obtain ⟨hstep, hk⟩ := Machine.recorded_eq_some.mp hstep
  have hadmits := admits_step ha hstep hl hok
  rwa [← hk] at hadmits

end Admits

/-! ## over a run -/

/-- **A listener is watched exactly while it has room.** -/
theorem listener_watched_iff {listenfdMaxconn : List (Fd × UInt32)} {acts : List Action}
    {l : EventLoop} (hfds : ∀ a ∈ acts, a.Descriptors)
    (hrun : Machine.run step (init listenfdMaxconn) acts = some l)
    (hok : l.system.failed = none) (hidle : l.system.stack = []) {fd : Fd} {li : ListenInfo}
    (hli : l.system.handler.listenInfo.lookup fd = some li) :
    (fd ∈ l.system.handler.demux.interest ↔
        li.maxconns = 0 ∨ li.currentconns < li.maxconns) ∧
      (fd ∈ l.system.handler.demux.mapEvent ↔
        li.maxconns = 0 ∨ li.currentconns < li.maxconns) := by
  obtain ⟨k, hrec⟩ := Machine.exists_run_recorded (lastBacklog fd) hrun 0
  have hl := (admits_of_run fd hfds hrec hok).listens
  have hgated := hl.listening fd li hli
  have haccepting : (l.system.listenerView fd li).accepting = [] := by
    rw [listenerView, hidle]
    rfl
  have hcount : li.currentconns.toNat = clientsOf fd l.system.handler.clientInfo :=
    hgated.currentconns_eq haccepting (hl.descriptors.clientsOf_lt fd)
  have hwatched : fd ∈ l.system.handler.demux.interest ↔
      li.maxconns = 0 ∨ li.currentconns < li.maxconns := by
    rw [← UInt32.toNat_inj, UInt32.lt_iff_toNat_lt, hcount, UInt32.toNat_zero]
    constructor
    · exact fun hmem => hgated.shut haccepting (decide_eq_true hmem)
    · intro hroom
      have hopened : (l.system.listenerView fd li).watched = true ∨ 0 < li.maxconns.toNat ∧
          li.maxconns.toNat + (l.system.listenerView fd li).accepting.length ≤
            clientsOf fd l.system.handler.clientInfo := hgated.opened
      rw [haccepting, List.length_nil] at hopened
      exact of_decide_eq_true (hopened.resolve_right (by omega))
  have hagrees : fd ∈ l.system.handler.demux.interest ↔
      fd ∈ l.system.handler.demux.mapEvent := by
    obtain ⟨cs, hcs⟩ := reached_of_run hrun (by rw [hok]; simp)
    obtain ⟨-, -, hattached⟩ := tables_of_run hcs hok
    rw [← AList.lookup_isSome, ← AList.lookup_isSome, hattached.demux.agrees fd]
  exact ⟨hwatched, hagrees.symm.trans hwatched⟩

/-- A listener for one client takes two connections, is paused, and goes on
when both have been closed. -/
def fillAndDrain : List Action :=
  [.waitEvent (some [(3, EPOLLIN)]), .dispatch ⟨[5, 6], [], []⟩, .user .ret, .user .ret,
    .waitEvent (some [(5, EPOLLRDHUP), (6, EPOLLRDHUP)]), .dispatch ⟨[], [], []⟩, .user .ret,
    .dispatch ⟨[], [], []⟩, .user .ret]

/-- A listener filled up and drained again is watched again. -/
theorem listener_watched_iff_fillAndDrain : ∃ l li,
    Machine.run step (init [(3, 1)]) fillAndDrain = some l ∧
    l.system.handler.listenInfo.lookup 3 = some li ∧
    ((3 ∈ l.system.handler.demux.interest ↔
        li.maxconns = 0 ∨ li.currentconns < li.maxconns) ∧
      (3 ∈ l.system.handler.demux.mapEvent ↔
        li.maxconns = 0 ∨ li.currentconns < li.maxconns)) := by
  have hcheck : (Machine.run step (init [(3, 1)]) fillAndDrain).any (fun l =>
      l.system.failed = none ∧ l.system.stack = [] ∧
        (l.system.handler.listenInfo.lookup 3).isSome) = true := by decide +kernel
  obtain ⟨l, hrun, hend⟩ := (Option.any_eq_true _ _).mp hcheck
  obtain ⟨hok, hidle, hsome⟩ := of_decide_eq_true hend
  obtain ⟨li, hli⟩ := Option.isSome_iff_exists.mp hsome
  exact ⟨l, li, hrun, hli, listener_watched_iff (by decide) hrun hok hidle hli⟩

/-- **The limit is exceeded by less than one backlog.**  A listener with a
limit has fewer clients than the limit and the connections its last
`OnAccept` was given. -/
theorem clients_lt_maxconns_add_lastBacklog {listenfdMaxconn : List (Fd × UInt32)}
    {acts : List Action} {l : EventLoop} {fd : Fd} {k : Nat} (hfds : ∀ a ∈ acts, a.Descriptors)
    (hrun : Machine.run (Machine.recorded step (lastBacklog fd)) (init listenfdMaxconn, 0) acts =
      some (l, k)) (hok : l.system.failed = none) {li : ListenInfo}
    (hli : l.system.handler.listenInfo.lookup fd = some li) (hmax : 0 < li.maxconns) :
    clientsOf fd l.system.handler.clientInfo < li.maxconns.toNat + k := by
  have hpos : 0 < li.maxconns.toNat := UInt32.lt_iff_toNat_lt.mp hmax
  have hwithin : li.maxconns.toNat = 0 ∨ clientsOf fd l.system.handler.clientInfo +
      (accepting fd l.system.stack).sum < li.maxconns.toNat + k :=
    (admits_of_run fd hfds hrun hok).within li hli
  omega

/-- The first batch of `fillAndDrain`. -/
theorem clients_lt_maxconns_add_lastBacklog_fill : ∃ l li,
    Machine.run (Machine.recorded step (lastBacklog 3)) (init [(3, 1)], 0)
      (fillAndDrain.take 4) = some (l, 2) ∧
    l.system.handler.listenInfo.lookup 3 = some li ∧
    clientsOf 3 l.system.handler.clientInfo < li.maxconns.toNat + 2 := by
  have hcheck : (Machine.run (Machine.recorded step (lastBacklog 3)) (init [(3, 1)], 0)
      (fillAndDrain.take 4)).any (fun p => p.1.system.failed = none ∧ p.2 = 2 ∧
        ∃ li ∈ p.1.system.handler.listenInfo.lookup 3, 0 < li.maxconns) = true := by
    decide +kernel
  obtain ⟨⟨l, k⟩, hrun, hend⟩ := (Option.any_eq_true _ _).mp hcheck
  obtain ⟨hok, hk, li, hli, hmax⟩ := of_decide_eq_true hend
  cases hk
  exact ⟨l, li, hrun, hli, clients_lt_maxconns_add_lastBacklog (by decide) hrun hok hli hmax⟩

/-- A listener for one client has two after its first `OnAccept`. -/
theorem clients_exceed_maxconns :
    ¬ ∀ (listenfdMaxconn : List (Fd × UInt32)) (acts : List Action) (l : EventLoop) (fd : Fd)
      (li : ListenInfo), (∀ a ∈ acts, a.Descriptors) →
      Machine.run step (init listenfdMaxconn) acts = some l → l.system.failed = none →
      l.system.stack = [] → l.system.handler.listenInfo.lookup fd = some li →
      0 < li.maxconns → clientsOf fd l.system.handler.clientInfo ≤ li.maxconns.toNat := by
  intro h
  have hcheck : (Machine.run step (init [(3, 1)]) (fillAndDrain.take 4)).any (fun l =>
      l.system.failed = none ∧ l.system.stack = [] ∧
        ∃ li ∈ l.system.handler.listenInfo.lookup 3, 0 < li.maxconns ∧
          li.maxconns.toNat < clientsOf 3 l.system.handler.clientInfo) = true := by
    decide +kernel
  obtain ⟨l, hrun, hend⟩ := (Option.any_eq_true _ _).mp hcheck
  obtain ⟨hok, hidle, li, hli, hmax, hmore⟩ := of_decide_eq_true hend
  have hle := h [(3, 1)] _ l 3 li (by decide) hrun hok hidle hli hmax
  omega

end EventLoop

end CppFastDevelop
