import CppFastDevelop.NetServer.Delivery
import CppFastDevelop.NetServer.Survival

/-!
# CppFastDevelop.NetServer.ServerLoop

The test server under its event loop (`Server::Start`, `EventLoop::WaitEvent`).
The loop works off a batch without looking who is still there, so a connection
that is closed from `OnReadComplete` may be named again by the same batch, and
`GetClientInfo` throws then.  The server closes only whom it refuses: where no
client has sent a header that is refused or announces nothing, nothing is ever
thrown (`never_fails`).
-/

namespace CppFastDevelop

open CppFastDevelop.System

/-! ## the process -/

/-- The server, and what its loop has collected and delivered. -/
structure ServerLoop where
  server : TestServer
  vecEvent : List PendingEvent
  deliveries : List Delivery

namespace ServerLoop

open EventHandler EventLoop IOCompleteHandler TestServer

/-- `waitEvent` and `dispatch` are those of the loop, `next` what the running
callback does next. -/
inductive Action
  | waitEvent (returned : Option (List (Fd × cf_ev)))
  | dispatch (answers : Answers)
  | next

def init (listenfdMaxconn : List (Fd × UInt32)) : ServerLoop := ⟨.init listenfdMaxconn, [], []⟩

/-- A new batch, or the timeout. -/
def collect (l : ServerLoop) (returned : Option (List (Fd × cf_ev))) : Option ServerLoop :=
  match l.server.system.handler.demux.waitEvent returned with
  | .error e =>
    some { l with server := { l.server with system := { l.server.system with failed := some e } } }
  | .ok [] => (l.server.step (.call .onTimeout)).map fun t => { l with server := t }
  | .ok events => some { l with vecEvent := batch l.server.system events }

def step (l : ServerLoop) : Action → Option ServerLoop
  | .waitEvent returned =>
    if l.server.system.failed = none ∧ l.server.todo = [] ∧ l.vecEvent = [] ∧
      Returns l.server.system returned then l.collect returned
    else none
  | .dispatch answers => match l.vecEvent with
    | [] => none
    | e :: rest => (l.server.step (.call (handlerOf e answers))).map fun t =>
        ⟨t, rest, l.deliveries ++ [⟨e, holder l.server.system e.fd⟩]⟩
  | .next => (l.server.step .next).map fun t => { l with server := t }

/-- Its event loop. -/
def loop (l : ServerLoop) : EventLoop := ⟨l.server.system, l.vecEvent, l.deliveries⟩

/-- The kernel reports no error. -/
def Quiet : Action → Prop
  | .waitEvent returned => returned ≠ none
  | .dispatch answers => .failed ∉ answers.received ∧ .failed ∉ answers.taken
  | .next => True

instance : DecidablePred Quiet
  | .waitEvent returned => inferInstanceAs (Decidable (returned ≠ none))
  | .dispatch answers =>
    inferInstanceAs (Decidable (.failed ∉ answers.received ∧ .failed ∉ answers.taken))
  | .next => inferInstanceAs (Decidable True)

/-- What a step does: the server makes one call, or a batch is collected, or
`epoll_wait` fails. -/
inductive Effect : ServerLoop → Action → ServerLoop → Prop
  | failed {l : ServerLoop} (hfree : l.server.system.failed = none) :
    Effect l (.waitEvent none) { l with server := { l.server with
      system := { l.server.system with failed := some Epoll.epollWaitFailed } } }
  | collected {l : ServerLoop} {ret : List (Fd × cf_ev)}
      (hfree : l.server.system.failed = none) (htodo : l.server.todo = [])
      (hreturns : Returns l.server.system (some ret)) :
    Effect l (.waitEvent (some ret)) { l with
      vecEvent := batch l.server.system (ret.flatMap l.server.system.handler.demux.expand) }
  | timeout {l : ServerLoop} {returned : Option (List (Fd × cf_ev))} {t : TestServer}
      (hcall : l.server.step (.call .onTimeout) = some t) :
    Effect l (.waitEvent returned) { l with server := t }
  | dispatched {l : ServerLoop} {answers : Answers} {e : PendingEvent}
      {rest : List PendingEvent} {t : TestServer} (hvec : l.vecEvent = e :: rest)
      (hcall : l.server.step (.call (handlerOf e answers)) = some t) :
    Effect l (.dispatch answers)
      ⟨t, rest, l.deliveries ++ [⟨e, holder l.server.system e.fd⟩]⟩
  | next {l : ServerLoop} {t : TestServer} (hcall : l.server.step .next = some t) :
    Effect l .next { l with server := t }

/-- A step of the process does one of the things listed. -/
theorem step_effect {l l' : ServerLoop} {a : Action} (hstep : l.step a = some l') :
    Effect l a l' := by
  cases a with
  | waitEvent returned =>
      simp only [step] at hstep
      split at hstep
      case isFalse => cases hstep
      case isTrue hen =>
        obtain ⟨hfree, htodo, hvec, hreturns⟩ := hen
        cases returned with
        | none => cases hstep; exact .failed hfree
        | some ret =>
            simp only [collect, Epoll.waitEvent] at hstep
            split at hstep
            · next heq => cases heq
            · obtain ⟨t, hcall, rfl⟩ := Option.map_eq_some_iff.mp hstep
              exact .timeout hcall
            · next events hne heq =>
                cases heq
                cases hstep
                exact .collected hfree htodo hreturns
  | dispatch answers =>
      simp only [step] at hstep
      split at hstep
      · cases hstep
      · next e rest hvec =>
          obtain ⟨t, hcall, rfl⟩ := Option.map_eq_some_iff.mp hstep
          exact .dispatched hvec hcall
  | next =>
      obtain ⟨t, hcall, rfl⟩ := Option.map_eq_some_iff.mp hstep
      exact .next hcall

/-! ## what is received stays received -/

/-- Nothing that was noted is taken back. -/
theorem trace_grows {m m' : System} {c : System.Call} (heff : System.Effect m c m') :
    m.handler.trace <+: m'.handler.trace := by
  cases heff with
  | onRead => exact ⟨_, by simp only [List.append_assoc]; rfl⟩
  | onWrite => exact ⟨_, by simp only [List.append_assoc]; rfl⟩
  | onAcceptNothing => exact List.prefix_rfl
  | onAccept _ haccept =>
      cases haccept with
      | finish => exact List.prefix_rfl
      | accept => exact List.prefix_append _ _
  | retAccepting _ haccept =>
      cases haccept with
      | finish => exact List.prefix_rfl
      | accept => exact List.prefix_append _ _
  | retClosing => exact List.prefix_rfl
  | retTimingOut => exact List.prefix_rfl
  | _ => exact List.prefix_append _ _

/-- Some client has sent a header that the server does not take. -/
def Bad (m : System) : Prop := ∃ s, BadHeader (bytesReceived (m.view s).history)

/-- A bad header stays received. -/
theorem Bad.mono {m m' : System} (h : Bad m) (hpre : m.handler.trace <+: m'.handler.trace) :
    Bad m' := by
  obtain ⟨s, hs⟩ := h
  obtain ⟨es, hes⟩ := hpre
  refine ⟨s, ?_⟩
  rw [history_append hes.symm, bytesReceived_append]
  exact hs.append _

/-! ## the loop of the process -/

section Loop

variable {listenfdMaxconn : List (Fd × UInt32)} {l l' : ServerLoop}

/-- A step of the server that throws nothing is a step of its event handler. -/
theorem system_step {t t' : TestServer} {a : TestServer.Action}
    (hk : TestServer.Kept listenfdMaxconn t) (hstep : t.step a = some t')
    (hok : t'.system.failed = none) : ∃ c, t.system.step c = some t'.system ∧
      (a = .call c ∨ a = .next ∧ ∃ rest, t.todo = c :: rest) := by
  obtain ⟨hfree, c, rest, rfl, -, hen, hnext, -⟩ := hk.call hstep
  refine ⟨c, ?_, hnext.imp And.left fun h => ⟨h.1, rest, h.2⟩⟩
  rw [System.step, if_pos ⟨hfree, hen⟩, (perform_turn hok).system_eq]

/-- The loop has the batch of the process, or the timeout. -/
theorem collect_loop {returned : Option (List (Fd × cf_ev))}
    (hk : TestServer.Kept listenfdMaxconn l.server) (hcollect : l.collect returned = some l')
    (hok : l'.server.system.failed = none) : l.loop.collect returned = some l'.loop := by
  cases returned with
  | none =>
      cases hcollect
      cases hok
  | some ret =>
      -- a batch without an event stands for the timeout
      cases hevents : ret.flatMap l.server.system.handler.demux.expand with
      | nil =>
          simp only [collect, Epoll.waitEvent, hevents] at hcollect
          obtain ⟨t, hcall, rfl⟩ := Option.map_eq_some_iff.mp hcollect
          obtain ⟨c, hc, hca | ⟨hca, -⟩⟩ := system_step hk hcall hok
          · cases hca
            simp only [EventLoop.collect, loop, Epoll.waitEvent, hevents, hc, Option.map_some]
          · cases hca
      | cons e rest =>
          simp only [collect, Epoll.waitEvent, hevents] at hcollect
          cases hcollect
          simp only [EventLoop.collect, loop, Epoll.waitEvent, hevents]

/-- **The process runs its event loop**: a step that throws nothing is a step
of the loop, and closes only what the callback has asked for. -/
theorem loop_step {a : Action} (hk : TestServer.Kept listenfdMaxconn l.server)
    (hstep : l.step a = some l') (hok : l'.server.system.failed = none) :
    ∃ b, l.loop.step b = some l'.loop ∧
      ∀ fd, b = .user (.asyncClose fd) → ∃ rest, l.server.todo = .asyncClose fd :: rest := by
  have hshape := hk.told.shape
  cases a with
  | waitEvent returned =>
      refine ⟨.waitEvent returned, ?_, by simp⟩
      simp only [step] at hstep
      split at hstep
      case isFalse => cases hstep
      case isTrue hen =>
        obtain ⟨hfree, htodo, hvec, hreturns⟩ := hen
        rw [htodo] at hshape
        rw [EventLoop.step, if_pos ⟨hfree, hshape.idle_of_nil, hvec, hreturns⟩]
        exact collect_loop hk hstep hok
  | dispatch answers =>
      refine ⟨.dispatch answers, ?_, by simp⟩
      simp only [step] at hstep
      split at hstep
      · cases hstep
      · next e rest hvec =>
          obtain ⟨t, hcall, rfl⟩ := Option.map_eq_some_iff.mp hstep
          obtain ⟨c, hc, hca | ⟨hca, -⟩⟩ := system_step hk hcall hok
          · cases hca
            simp only [EventLoop.step, loop, hvec, hc, Option.map_some]
          · cases hca
  | next =>
      obtain ⟨t, hcall, rfl⟩ := Option.map_eq_some_iff.mp hstep
      obtain ⟨c, hc, hca | ⟨-, rest, htodo⟩⟩ := system_step hk hcall hok
      · cases hca
      · rw [htodo] at hshape
        have hfrom := hshape.fromCallback
        refine ⟨.user c, ?_, fun fd heq => ?_⟩
        · have hbusy : l.loop.system.stack ≠ [] := hshape.busy
          simp only [EventLoop.step, loop, hc, Option.map_some]
          rw [if_pos ⟨hbusy, hfrom⟩]
        · cases heq
          exact ⟨rest, htodo⟩

/-! ## runs -/

/-- What the process keeps. -/
structure Sound (listenfdMaxconn : List (Fd × UInt32)) (l : ServerLoop) : Prop where
  survives : Survives listenfdMaxconn l.server
  listeners : ∀ fd ∈ listenfdMaxconn.map (·.1), fd ∈ l.server.system.handler.listenInfo
  accepts : ∀ e ∈ l.vecEvent, e.ev = .CFEV_ACCEPT → e.fd ∈ listenfdMaxconn.map (·.1)
  batch : Bad l.server.system ∨ EventLoop.Kept listenfdMaxconn l.loop

/-- Listeners stay. -/
theorem mem_listenInfo {m m' : System} {c : System.Call} (heff : System.Effect m c m') {fd : Fd}
    (hfd : fd ∈ m.handler.listenInfo) : fd ∈ m'.handler.listenInfo := by
  cases heff with
  | onAccept _ haccept =>
      cases haccept with
      | finish => exact hfd
      | accept => exact hfd
  | retAccepting hli haccept =>
      cases haccept with
      | finish => exact (FdMap.mem_insert_of_lookup hli).mpr hfd
      | accept => exact (FdMap.mem_insert_of_lookup hli).mpr hfd
  | retClosing _ _ hli => exact (FdMap.mem_insert_of_lookup hli).mpr hfd
  | _ => exact hfd

/-- `Init` lists every listener. -/
theorem mem_listenInfo_init {listenfdMaxconn : List (Fd × UInt32)} {fd : Fd}
    (hfd : fd ∈ listenfdMaxconn.map (·.1)) :
    fd ∈ (System.init listenfdMaxconn).handler.listenInfo := by
  have hfold : ∀ (l : List (Fd × UInt32)) (m : FdMap ListenInfo),
      fd ∈ l.map (·.1) ∨ fd ∈ m → fd ∈ l.foldl (fun m it => m.insertNew it.1 ⟨it.2, 0⟩) m := by
    intro l
    induction l with
    | nil => simp
    | cons p l ih =>
        intro m hm
        refine ih _ ?_
        simp only [List.map_cons, List.mem_cons] at hm
        rw [← AList.lookup_isSome, FdMap.lookup_insertNew]
        obtain (rfl | hl) | hm := hm
        · exact .inr (by simp)
        · exact .inl hl
        · refine .inr ?_
          rw [← AList.lookup_isSome] at hm
          split
          · next heq => subst heq; simp
          · exact hm
  exact hfold _ _ (.inl hfd)

/-- At the beginning the process is sound. -/
theorem sound_init (listenfdMaxconn : List (Fd × UInt32)) :
    Sound listenfdMaxconn (init listenfdMaxconn) :=
  ⟨survives_init listenfdMaxconn, fun _ hfd => mem_listenInfo_init hfd, by simp [init],
    .inr (EventLoop.kept_init listenfdMaxconn)⟩

/-- A session that is about to be closed was refused. -/
theorem bad_of_asyncClose {t : TestServer} (ht : Survives listenfdMaxconn t) {fd : Fd}
    {rest : List System.Call} (htodo : t.todo = .asyncClose fd :: rest) : Bad t.system := by
  have hshape := ht.told.shape
  rw [htodo] at hshape
  cases hstack : t.system.stack with
  | nil => exact absurd hstack hshape.busy
  | cons f stack =>
      rw [hstack] at hshape
      cases hshape with
      | @callback _ s _ hf hopen hlast hasks =>
          cases hasks with
          | close hs =>
              obtain ⟨ci, hci⟩ := Option.ne_none_iff_exists'.mp hs
              obtain ⟨hreads, -⟩ := ht.reached.accounts ht.free hci
              obtain ⟨a, htalk, -, -, honly⟩ := ht.told.converses s hs
              obtain rfl := honly (by rw [htodo]; exact List.mem_cons_self)
              refine ⟨s, ?_⟩
              rw [received_eq hreads (ht.told.shape.readsOwed_eq _)]
              exact htalk.badHeader _

/-! ## what one step keeps -/

/-- The trace grows, and the listeners stay. -/
theorem server_step {t t' : TestServer} {a : TestServer.Action}
    (hk : TestServer.Kept listenfdMaxconn t) (hstep : t.step a = some t')
    (hok : t'.system.failed = none) : t.system.handler.trace <+: t'.system.handler.trace ∧
      ∀ fd ∈ t.system.handler.listenInfo, fd ∈ t'.system.handler.listenInfo := by
  obtain ⟨c, hc, -⟩ := system_step hk hstep hok
  obtain ⟨-, heff⟩ := System.step_effect hc hok
  exact ⟨trace_grows heff, fun fd hfd => mem_listenInfo heff hfd⟩

/-- A step of the process that throws nothing keeps what its server keeps. -/
theorem kept_step {a : Action} (hk : TestServer.Kept listenfdMaxconn l.server)
    (hstep : l.step a = some l') (hok : l'.server.system.failed = none) :
    TestServer.Kept listenfdMaxconn l'.server ∧
      l.server.system.handler.trace <+: l'.server.system.handler.trace := by
  have hserver {t : TestServer} {b : TestServer.Action} (hcall : l.server.step b = some t)
      (hok : t.system.failed = none) : TestServer.Kept listenfdMaxconn t ∧
        l.server.system.handler.trace <+: t.system.handler.trace :=
    ⟨TestServer.kept_step hcall hk hok, (server_step hk hcall hok).1⟩
  cases step_effect hstep with
  | failed => cases hok
  | collected => exact ⟨hk, List.prefix_rfl⟩
  | timeout hcall => exact hserver hcall hok
  | dispatched _ hcall => exact hserver hcall hok
  | next hcall => exact hserver hcall hok

/-- A server that has failed has been sent something that it does not take. -/
theorem server_survives {t t' : TestServer} {a : TestServer.Action}
    (ht : Survives listenfdMaxconn t) (ha : t.Served a) (hstep : t.step a = some t') :
    Survives listenfdMaxconn t' ∨ t'.system.failed ≠ none ∧ Bad t'.system := by
  rcases survives_step ht ha hstep with ht' | ⟨hfailed, s, hs⟩
  · exact .inl ht'
  · refine .inr ⟨?_, s, hs.badHeader⟩
    rw [hfailed]
    simp

/-- A handler that is entered for nobody. -/
theorem perform_notFound {t : TestServer} {e : PendingEvent} (answers : Answers)
    (hev : e.ev ≠ .CFEV_ACCEPT) (hfd : e.fd ∉ t.system.handler.clientInfo) :
    (t.perform (handlerOf e answers) []).system.failed ≠ none ∧
      (t.perform (handlerOf e answers) []).system.handler.trace = t.system.handler.trace := by
  have hnone : t.system.handler.clientInfo.lookup e.fd = none := AList.lookup_eq_none.mpr hfd
  have hcall : ∃ h, t.system.perform (handlerOf e answers) = ⟨h, [], some (clientNotFound e.fd)⟩ ∧
      h.trace = t.system.handler.trace := by
    obtain ⟨fd, ev, heldBy⟩ := e
    cases ev with
    | CFEV_ACCEPT => exact absurd rfl hev
    | _ =>
        simp only [handlerOf, System.perform, enter, onRead, onWrite, onClose, onError,
          Exec.bind_apply, onDemux_apply, getClientInfo_apply, hnone]
        exact ⟨_, rfl, rfl⟩
  obtain ⟨h, hcall, htrace⟩ := hcall
  have hquiet : entered t.system (handlerOf e answers)
      ⟨h, [], some (clientNotFound e.fd)⟩ = none := by
    rw [entered]
    exact if_neg (Nat.not_lt_zero _)
  unfold TestServer.perform
  simp only [hcall, hquiet]
  exact ⟨by simp, htrace⟩

/-- Nothing passes then. -/
theorem exchangeOf_notFound {t : TestServer} {e : PendingEvent} (answers : Answers)
    (hev : e.ev ≠ .CFEV_ACCEPT) (hfd : e.fd ∉ t.system.handler.clientInfo) :
    t.exchangeOf (.call (handlerOf e answers)) = [] := by
  have hnone : t.system.handler.clientInfo.lookup e.fd = none := AList.lookup_eq_none.mpr hfd
  obtain ⟨fd, ev, heldBy⟩ := e
  cases ev with
  | CFEV_ACCEPT => exact absurd rfl hev
  | _ => simp [handlerOf, TestServer.exchangeOf, System.exchangeOf, hnone]

/-- What the server does in a step that throws nothing is in the record of
the batch. -/
theorem Sound.batch_step {a : Action} (hl : Sound listenfdMaxconn l)
    (hstep : l.step a = some l') (hok : l'.server.system.failed = none)
    (hpre : l.server.system.handler.trace <+: l'.server.system.handler.trace) :
    Bad l'.server.system ∨ EventLoop.Kept listenfdMaxconn l'.loop := by
  rcases hl.batch with hbad | hbatch
  · exact .inl (hbad.mono hpre)
  · obtain ⟨b, hb, hclose⟩ := loop_step hl.survives.toKept hstep hok
    by_cases hbc : ∃ fd, b = .user (.asyncClose fd)
    · obtain ⟨fd, hfd⟩ := hbc
      obtain ⟨rest, htodo⟩ := hclose fd hfd
      exact .inl ((bad_of_asyncClose hl.survives htodo).mono hpre)
    · refine .inr (EventLoop.kept_step ?_ hb hbatch)
      cases b with
      | waitEvent | dispatch => trivial
      | user c =>
          cases c with
          | asyncClose fd => exact absurd ⟨fd, rfl⟩ hbc
          | _ => trivial

/-- A step of the server inside a step of the process. -/
theorem Sound.server_step {a : Action} {b : TestServer.Action} (hl : Sound listenfdMaxconn l)
    (hstep : l.step a = some l') (hb : l.server.step b = some l'.server)
    (hserved : l.server.Served b) (hvec : l'.vecEvent ⊆ l.vecEvent) :
    Sound listenfdMaxconn l' ∨ l'.server.system.failed ≠ none ∧ Bad l'.server.system := by
  refine (server_survives hl.survives hserved hb).imp_left fun ht => ?_
  obtain ⟨hpre, hlisten⟩ := ServerLoop.server_step hl.survives.toKept hb ht.free
  exact ⟨ht, fun fd hfd => hlisten fd (hl.listeners fd hfd),
    fun e he => hl.accepts e (hvec he), hl.batch_step hstep ht.free hpre⟩

/-- An event for a session that is there is served. -/
theorem Sound.served {e : PendingEvent} (hl : Sound listenfdMaxconn l) (answers : Answers)
    (ha : Quiet (.dispatch answers)) (hmem : e ∈ l.vecEvent)
    (hthere : e.ev ≠ .CFEV_ACCEPT → e.fd ∈ l.server.system.handler.clientInfo) :
    l.server.Served (.call (handlerOf e answers)) := by
  refine ⟨found_handlerOf answers hthere, ?_⟩
  obtain ⟨fd, ev, heldBy⟩ := e
  cases ev with
  | CFEV_ACCEPT => exact hl.listeners fd (hl.accepts _ hmem rfl)
  | CFEV_READ => exact ha.1
  | CFEV_WRITE => exact ha.2
  | CFEV_CLOSE => trivial
  | CFEV_ERROR => trivial

/-- A step of the process keeps it sound, or ends it: then a client has sent a
header that is not taken. -/
theorem sound_step {a : Action} (ha : Quiet a) (hstep : l.step a = some l')
    (hl : Sound listenfdMaxconn l) :
    Sound listenfdMaxconn l' ∨ l'.server.system.failed ≠ none ∧ Bad l'.server.system := by
  cases step_effect hstep with
  | failed => exact absurd rfl ha
  | @collected ret hfree htodo hreturns =>
      obtain ⟨cs, -, hcs⟩ := hl.survives.reached
      obtain ⟨-, -, hattached⟩ := tables_of_run hcs hfree
      refine .inl ⟨hl.survives, hl.listeners, fun e he hev => ?_,
        hl.batch_step hstep hfree List.prefix_rfl⟩
      obtain ⟨p, hp, rfl⟩ := List.mem_map.mp he
      obtain ⟨r, -, hp⟩ := List.mem_flatMap.mp hp
      show p.1 ∈ _
      rw [Epoll.fd_of_mem_expand hp, ← hattached.demux.listening]
      exact Epoll.mem_listenfds_of_mem_expand hp hev
  | timeout hcall =>
      exact hl.server_step hstep hcall ⟨trivial, trivial⟩ (List.Subset.refl _)
  | @dispatched answers e rest t hvec hcall =>
      have hmem : e ∈ l.vecEvent := hvec ▸ List.mem_cons_self
      by_cases hthere : e.ev ≠ .CFEV_ACCEPT → e.fd ∈ l.server.system.handler.clientInfo
      · exact hl.server_step hstep hcall (hl.served answers ha hmem hthere)
          (hvec ▸ List.subset_cons_self e rest)
      · obtain ⟨hev, hfd⟩ := Classical.not_imp.mp hthere
        have hbad : Bad l.server.system := by
          refine hl.batch.resolve_right fun hbatch => ?_
          exact hfd (((hbatch.current hl.survives.free).held e hmem).holder hev).1
        obtain ⟨-, c, rest', rfl, hnext⟩ := step_perform hcall
        rcases hnext with ⟨hc, -, rfl, -⟩ | ⟨hc, -⟩
        · cases hc
          obtain ⟨hfailed, htrace⟩ := perform_notFound answers hev hfd
          exact .inr ⟨hfailed, hbad.mono (htrace ▸ List.prefix_rfl)⟩
        · cases hc
  | next hcall => exact hl.server_step hstep hcall trivial (List.Subset.refl _)

end Loop

/-! ## what passes -/

/-- What passes in a step is what passes in the call of its server. -/
def exchangeOf (l : ServerLoop) : Action → List Exchange
  | .waitEvent _ => []
  | .dispatch answers => l.vecEvent.head?.toList.flatMap fun e =>
      l.server.exchangeOf (.call (handlerOf e answers))
  | .next => l.server.exchangeOf .next

/-- **The trace says what passes**, also in the step that ends the process:
what throws then is a callback, or a handler that is entered for nobody. -/
theorem exchanged_step {listenfdMaxconn : List (Fd × UInt32)} {l l' : ServerLoop} {a : Action}
    {log : List Exchange} (ha : Quiet a) (hstep : l.step a = some l')
    (hl : Sound listenfdMaxconn l) (h : Exchanged l.server.system log) :
    Exchanged l'.server.system (log ++ l.exchangeOf a) := by
  have hserver {t : TestServer} {b : TestServer.Action} (hcall : l.server.step b = some t)
      (hserved : l.server.Served b) : Exchanged t.system (log ++ l.server.exchangeOf b) := by
    obtain ⟨c, rest, rfl, -, heff, heq, -⟩ := hl.survives.effect hserved hcall
    rw [heq]
    exact exchanged_perform rest heff h
  cases step_effect hstep with
  | failed => exact absurd rfl ha
  | collected => rwa [exchangeOf, List.append_nil]
  | timeout hcall => exact hserver hcall ⟨trivial, trivial⟩
  | @dispatched answers e rest t hvec hcall =>
      have hnow : l.exchangeOf (.dispatch answers) =
          l.server.exchangeOf (.call (handlerOf e answers)) := by
        rw [exchangeOf, hvec]
        exact List.append_nil _
      rw [hnow]
      by_cases hthere : e.ev ≠ .CFEV_ACCEPT → e.fd ∈ l.server.system.handler.clientInfo
      · exact hserver hcall (hl.served answers ha (hvec ▸ List.mem_cons_self) hthere)
      · obtain ⟨hev, hfd⟩ := Classical.not_imp.mp hthere
        obtain ⟨-, c, rest', rfl, hnext⟩ := step_perform hcall
        rcases hnext with ⟨hc, -, rfl, -⟩ | ⟨hc, -⟩
        · cases hc
          obtain ⟨-, htrace⟩ := perform_notFound answers hev hfd
          have hnone : l.server.exchangeOf (.call (handlerOf e answers)) = [] :=
            exchangeOf_notFound answers hev hfd
          rw [hnone, List.append_nil]
          exact ⟨by rw [htrace]; exact h.trace_eq, h.answered⟩
        · cases hc
  | next hcall => exact hserver hcall trivial

/-! ## every run -/

/-- After an exception the process takes no step. -/
theorem free_of_step {l l' : ServerLoop} {a : Action} (hstep : l.step a = some l') :
    l.server.system.failed = none := by
  cases step_effect hstep with
  | failed hfree => exact hfree
  | collected hfree => exact hfree
  | timeout hcall => exact (step_perform hcall).1
  | dispatched _ hcall => exact (step_perform hcall).1
  | next hcall => exact (step_perform hcall).1

/-- **The server never fails** as long as its clients keep to the format and
the kernel reports no error, and every event goes to the session it was
collected for. -/
theorem never_fails {listenfdMaxconn : List (Fd × UInt32)} {l : ServerLoop} {acts : List Action}
    (hrun : Machine.run step (init listenfdMaxconn) acts = some l) (hquiet : ∀ a ∈ acts, Quiet a)
    (hclients : ∀ s, ¬ BadHeader (bytesReceived (l.server.system.view s).history)) :
    l.server.system.failed = none ∧ ∀ d ∈ l.deliveries, d.event.ev ≠ .CFEV_ACCEPT →
      ∃ s, d.event.heldBy = some s ∧ d.servedTo = some s := by
  have hinv : Sound listenfdMaxconn l ∨
      l.server.system.failed ≠ none ∧ Bad l.server.system := by
    refine Machine.run_invariant_along (fun l => Sound listenfdMaxconn l ∨
      l.server.system.failed ≠ none ∧ Bad l.server.system) ?_
      (Machine.along_of_forall_mem step hquiet _) hrun (.inl (sound_init listenfdMaxconn))
    intro l a l' ha hstep hl
    rcases hl with hl | ⟨hfailed, -⟩
    · exact sound_step ha hstep hl
    · exact absurd (free_of_step hstep) hfailed
  have hgood : ¬ Bad l.server.system := fun ⟨s, hs⟩ => hclients s hs
  rcases hinv with hl | ⟨-, hbad⟩
  · exact ⟨hl.survives.free, (hl.batch.resolve_left hgood).faithful.delivered⟩
  · exact absurd hbad hgood

/-- A client sends a frame in two pieces and shuts down behind the second: it
is read from and closed in one batch. -/
def shutDown : List Action :=
  [.waitEvent (some [(3, EPOLLIN)]), .dispatch ⟨[5], [], []⟩, .next, .next,
    .waitEvent (some [(5, EPOLLIN)]), .dispatch ⟨[], [.data [0, 0, 0, 1]], []⟩, .next, .next,
    .waitEvent (some [(5, EPOLLIN ||| EPOLLRDHUP)]), .dispatch ⟨[], [.data [9]], []⟩, .next,
    .next, .next, .dispatch ⟨[], [], []⟩, .next]

/-- The whole frame is received, and the process goes on. -/
theorem never_fails_shutDown : ∃ l, Machine.run step (init [(3, 0)]) shutDown = some l ∧
    bytesReceived (l.server.system.view ⟨0, 5⟩).history = [0, 0, 0, 1, 9] ∧
      l.deliveries.length = 4 ∧ l.server.system.failed = none := by
  have hsome : ((Machine.run step (init [(3, 0)]) shutDown).filter fun l =>
      bytesReceived (l.server.system.view ⟨0, 5⟩).history = [0, 0, 0, 1, 9] ∧
        l.deliveries.length = 4 ∧
        ∀ e ∈ l.server.system.handler.trace, e.session? = some ⟨0, 5⟩).isSome := by
    decide +kernel
  obtain ⟨l, hl⟩ := Option.isSome_iff_exists.mp hsome
  obtain ⟨hrun, hl⟩ := Option.filter_eq_some_iff.mp hl
  obtain ⟨hreceived, hlen, htrace⟩ := of_decide_eq_true hl
  refine ⟨l, hrun, hreceived, hlen, (never_fails hrun (by decide) fun s hbad => ?_).1⟩
  by_cases hs : s = ⟨0, 5⟩
  · rw [hs, hreceived] at hbad
    obtain ⟨head, tail, heq, hhead, -⟩ := hbad
    have hrest : format.rest [0, 0, 0, 1, 9] = [] := by decide +kernel
    rw [hrest] at heq
    rw [(List.append_eq_nil_iff.mp heq.symm).1] at hhead
    cases hhead
  · have hnone : (l.server.system.view s).history = [] :=
      List.filter_eq_nil_iff.mpr fun e he => by
        rw [htrace e he]
        simpa using fun heq => hs heq.symm
    rw [hnone] at hbad
    exact not_badHeader_nil hbad

end ServerLoop

end CppFastDevelop
