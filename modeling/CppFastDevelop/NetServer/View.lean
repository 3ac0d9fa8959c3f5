import CppFastDevelop.NetServer.Record

/-!
# CppFastDevelop.NetServer.View

A run as one session sees it: its entry in the table, what the
demultiplexer has on record for it, its part of the trace and its frames on
the stack.  `session_step` says what a call does to this view; what is
proved of it holds of every session of the whole system.
-/

namespace CppFastDevelop

/-! ## the view of a session -/

/-- What there is about one session. -/
structure View where
  client : Option ClientInfo
  mask : Option cf_ev
  history : List Event
  frames : List Frame

/-- The entry of a session, while it has one. -/
def EventHandler.client (h : EventHandler) (s : Session) : Option ClientInfo :=
  (h.clientInfo.lookup s.fd).filter (·.session = s)

namespace System

open EventHandler

def view (m : System) (s : Session) : View where
  client := m.handler.client s
  mask := (m.handler.client s).bind fun _ => m.handler.demux.mapEvent.lookup s.fd
  history := m.handler.trace.filter (·.session? = some s)
  frames := m.stack.filter (·.session? = some s)

/-- What a call does to the view of a session `s`. -/
inductive SessionStep (s : Session) : Call → View → View → Prop
  | same (c : Call) (v : View) : SessionStep s c v v
  | accept (c : Call) (listenfd : Fd) (rest : List Fd) :
    SessionStep s c ⟨none, none, [], []⟩
      ⟨some ⟨s, listenfd, [], []⟩, some EPOLLRDHUP, [.onAcceptComplete listenfd s],
        [.accepting listenfd s rest]⟩
  | asyncRead {ci : ClientInfo} {mask : Option cf_ev} {history : List Event}
      {frames : List Frame} {n : UInt32} {pool : BufferPool} {rb : ReadBuffer}
      (hci : ci.session = s)
      (hrb : ReadBuffer.setTotal (pool.getFromPool ReadBuffer.sizeDefault).1.clear n = .ok rb) :
    SessionStep s (.asyncRead s.fd n) ⟨some ci, mask, history, frames⟩
      ⟨some { ci with rbChain := ci.rbChain ++ [rb] }, mask.map (· ||| EPOLLIN),
        history ++ [.asyncRead s n], frames⟩
  | asyncWrite {ci : ClientInfo} {mask : Option cf_ev} {history : List Event}
      {frames : List Frame} {buf : List UInt8} {n : UInt32} {pool : BufferPool}
      {wb : WriteBuffer} (hci : ci.session = s) (hlen : n.toNat ≤ buf.length)
      (hwb : WriteBuffer.setBuffer (pool.getFromPool WriteBuffer.sizeDefault).1.clear buf n =
        .ok wb) :
    SessionStep s (.asyncWrite s.fd buf n) ⟨some ci, mask, history, frames⟩
      ⟨some { ci with wbChain := ci.wbChain ++ [wb] }, mask.map (· ||| EPOLLOUT),
        history ++ [.asyncWrite s (buf.take n.toNat)], frames⟩
  | close {ci : ClientInfo} {mask : Option cf_ev} {history : List Event} {frames : List Frame}
      {c : Call} (hci : ci.session = s)
      (hc : c = .asyncClose s.fd ∨ c = .onClose s.fd ∧ frames = []) :
    SessionStep s c ⟨some ci, mask, history, frames⟩
      ⟨some ci, none, history ++ [.onCloseComplete s], .closing s :: frames⟩
  | onError {ci : ClientInfo} {mask : Option cf_ev} {history : List Event}
      (hci : ci.session = s) :
    SessionStep s (.onError s.fd) ⟨some ci, mask, history, []⟩
      ⟨some ci, none, history ++ [.onErrorComplete s], [.erroring s]⟩
  | onRead {ci : ClientInfo} {mask : Option cf_ev} {history : List Event}
      {kernel : List RecvResult} {p : Chain.Pass BaseException ReadBuffer (List RecvResult) UInt8}
      (hci : ci.session = s) (hp : p = readPass ci.rbChain kernel) (hok : p.failure = none) :
    SessionStep s (.onRead s.fd kernel) ⟨some ci, mask, history, []⟩
      ⟨some { ci with rbChain := p.chain.drop p.complete.length },
        if p.ended ∨ p.allComplete then mask.map (· &&& ~~~EPOLLIN) else mask,
        history ++ [.received s p.moved] ++ (if p.ended then [.endOfStream s] else []) ++
          readEvents s p.complete, readFrames s p.complete⟩
  | onWrite {ci : ClientInfo} {mask : Option cf_ev} {history : List Event}
      {kernel : List SendResult}
      {p : Chain.Pass BaseException WriteBuffer (List SendResult) UInt8}
      (hci : ci.session = s) (hp : p = writePass ci.wbChain kernel) (hok : p.failure = none) :
    SessionStep s (.onWrite s.fd kernel) ⟨some ci, mask, history, []⟩
      ⟨some { ci with wbChain := p.chain.drop p.complete.length },
        if p.allComplete then mask.map (· &&& ~~~EPOLLOUT) else mask,
        history ++ [.sent s p.moved] ++ writeEvents s p.complete, writeFrames s p.complete⟩
  | retAccepting {client : Option ClientInfo} {mask : Option cf_ev} {history : List Event}
      {frames : List Frame} {listenfd : Fd} {rest : List Fd} :
    SessionStep s .ret ⟨client, mask, history, .accepting listenfd s rest :: frames⟩
      ⟨client, mask, history, frames⟩
  | retReading {client : Option ClientInfo} {mask : Option cf_ev} {history : List Event}
      {frames : List Frame} {rb : ReadBuffer} {rest : List ReadBuffer} :
    SessionStep s .ret ⟨client, mask, history, .reading s rb rest :: frames⟩
      ⟨client, mask, history ++ readEvents s rest, readFrames s rest ++ frames⟩
  | retWriting {client : Option ClientInfo} {mask : Option cf_ev} {history : List Event}
      {frames : List Frame} {wb : WriteBuffer} {rest : List WriteBuffer} :
    SessionStep s .ret ⟨client, mask, history, .writing s wb rest :: frames⟩
      ⟨client, mask, history ++ writeEvents s rest, writeFrames s rest ++ frames⟩
  | retClosing {ci : ClientInfo} {mask : Option cf_ev} {history : List Event}
      {frames : List Frame} {f : Frame} (hf : f.closes? = some s) :
    SessionStep s .ret ⟨some ci, mask, history, f :: frames⟩ ⟨none, none, history, frames⟩

/-! ## the view after a change -/

/-- A session sees a client that carries it, and no other of the same descriptor. -/
theorem client_eq_some {h : EventHandler} {s : Session} {ci : ClientInfo} :
    h.client s = some ci ↔ h.clientInfo.lookup s.fd = some ci ∧ ci.session = s := by
  rw [EventHandler.client, Option.filter_eq_some_iff, decide_eq_true_iff]

/-- The client of another session is not seen. -/
theorem filter_of_ne {ci : ClientInfo} {s : Session} (h : ci.session ≠ s) :
    (some ci).filter (·.session = s) = none :=
  Option.filter_some_neg (decide_eq_false h)

/-- What is about one session is not about another. -/
theorem filter_append_of_ne {α : Type} {session? : α → Option Session} {s t : Session}
    {x es : List α} (hne : s ≠ t) (hes : ∀ e ∈ es, session? e = some t) :
    (x ++ es).filter (session? · = some s) = x.filter (session? · = some s) := by
  have hnil : es.filter (session? · = some s) = [] := by
    rw [List.filter_eq_nil_iff]
    intro e he heq
    rw [decide_eq_true_iff, hes e he, Option.some.injEq] at heq
    exact hne heq.symm
  rw [List.filter_append, hnil, List.append_nil]

/-- All of what is noted for a session is seen by it. -/
theorem filter_of_session {α : Type} {session? : α → Option Session} {s : Session}
    {es : List α} (hes : ∀ e ∈ es, session? e = some s) :
    es.filter (session? · = some s) = es := by
  rw [List.filter_eq_self]
  intro e he
  rw [decide_eq_true_iff]
  exact hes e he

/-- What makes the views of a session before and after a change equal. -/
theorem view_congr {m m' : System} {s : Session}
    (hclient : m'.handler.client s = m.handler.client s)
    (hmask : m.handler.client s ≠ none →
      m'.handler.demux.mapEvent.lookup s.fd = m.handler.demux.mapEvent.lookup s.fd)
    (htrace : m'.handler.trace.filter (·.session? = some s) =
      m.handler.trace.filter (·.session? = some s))
    (hstack : m'.stack.filter (·.session? = some s) = m.stack.filter (·.session? = some s)) :
    m'.view s = m.view s := by
  rw [view, view, View.mk.injEq]
  refine ⟨hclient, ?_, htrace, hstack⟩
  rw [hclient]
  cases hs : m.handler.client s with
  | none => rfl
  | some ci => exact hmask (by rw [hs]; simp)

/-- A change that is about one registered client does not change what
another session sees. -/
theorem view_touch_of_ne {h h' : EventHandler} {stack frames : List Frame} {fd : Fd}
    {ci ci' : ClientInfo} {es : List Event} {s : Session} (hs : s ≠ ci.session)
    (hci : h.clientInfo.lookup fd = some ci) (hsession : ci'.session = ci.session)
    (hclient : ∀ k, h'.clientInfo.lookup k = if k = fd then some ci' else h.clientInfo.lookup k)
    (hdemux : ∀ k, k ≠ fd → h'.demux.mapEvent.lookup k = h.demux.mapEvent.lookup k)
    (htrace : h'.trace = h.trace ++ es) (hes : ∀ e ∈ es, e.session? = some ci.session)
    (hframes : ∀ f ∈ frames, f.session? = some ci.session) :
    (⟨h', frames ++ stack, none⟩ : System).view s = (⟨h, stack, none⟩ : System).view s := by
  have hsame : h'.client s = h.client s := by
    rw [EventHandler.client, EventHandler.client, hclient]
    by_cases hk : s.fd = fd
    · have hnot : ci.session ≠ s := fun heq => hs heq.symm
      rw [if_pos hk, hk, hci, filter_of_ne hnot, filter_of_ne (hsession ▸ hnot)]
    · rw [if_neg hk]
  refine view_congr hsame ?_ (by rw [htrace, filter_append_of_ne hs hes]) ?_
  · intro hne
    obtain ⟨b, hb⟩ := Option.ne_none_iff_exists'.mp hne
    obtain ⟨hb, hbs⟩ := client_eq_some.mp hb
    refine hdemux s.fd fun heq => hs ?_
    rw [heq, hci, Option.some.injEq] at hb
    rw [hb, hbs]
  · rw [List.filter_append, ← List.nil_append frames, filter_append_of_ne hs hframes]
    rfl

/-- A change that is about one registered client, from what that client
sees of it. -/
theorem session_touch {h h' : EventHandler} {stack : List Frame} (frames : List Frame) {fd : Fd}
    {ci : ClientInfo} (ci' : ClientInfo) {es : List Event} {c : Call}
    (hw : WellFormed ⟨h, stack, none⟩)
    (hci : h.clientInfo.lookup fd = some ci) (hsession : ci'.session = ci.session)
    (hclient : ∀ k, h'.clientInfo.lookup k = if k = fd then some ci' else h.clientInfo.lookup k)
    (hdemux : ∀ k, k ≠ fd → h'.demux.mapEvent.lookup k = h.demux.mapEvent.lookup k)
    (htrace : h'.trace = h.trace ++ es) (hes : ∀ e ∈ es, e.session? = some ci.session)
    (hframes : ∀ f ∈ frames, f.session? = some ci.session)
    (hstep : ∀ history, SessionStep ci.session c
      ⟨some ci, h.demux.mapEvent.lookup fd, history,
        stack.filter (·.session? = some ci.session)⟩
      ⟨some ci', h'.demux.mapEvent.lookup fd, history ++ es,
        frames ++ stack.filter (·.session? = some ci.session)⟩) (s : Session) :
    SessionStep s c ((⟨h, stack, none⟩ : System).view s)
      ((⟨h', frames ++ stack, none⟩ : System).view s) := by
  by_cases hs : s = ci.session
  · subst hs
    have hfd : ci.session.fd = fd := (hw.client fd ci hci).1
    have hold : h.client ci.session = some ci := client_eq_some.mpr ⟨by rw [hfd, hci], rfl⟩
    have hnew : h'.client ci.session = some ci' :=
      client_eq_some.mpr ⟨by rw [hclient, if_pos hfd], hsession⟩
    have hgoal := hstep (h.trace.filter (·.session? = some ci.session))
    simp only [view, hold, hnew, Option.bind_some, htrace, List.filter_append,
      filter_of_session hes, filter_of_session hframes]
    rwa [hfd]
  · rw [view_touch_of_ne hs hci hsession hclient hdemux htrace hes hframes]
    exact .same c _

/-- A return that leaves the tables as they are, from what the session of
its frame sees of it. -/
theorem session_ret {h h' : EventHandler} {stack : List Frame} (frames : List Frame) {f : Frame}
    {t : Session} {es : List Event} (hf : f.session? = some t)
    (hclient : h'.clientInfo = h.clientInfo) (hdemux : h'.demux = h.demux)
    (htrace : h'.trace = h.trace ++ es) (hes : ∀ e ∈ es, e.session? = some t)
    (hframes : ∀ g ∈ frames, g.session? = some t)
    (hstep : ∀ client mask history rest, SessionStep t .ret ⟨client, mask, history, f :: rest⟩
      ⟨client, mask, history ++ es, frames ++ rest⟩) (s : Session) :
    SessionStep s .ret ((⟨h, f :: stack, none⟩ : System).view s)
      ((⟨h', frames ++ stack, none⟩ : System).view s) := by
  have hsame : h'.client s = h.client s := by
    rw [EventHandler.client, EventHandler.client, hclient]
  by_cases hs : s = t
  · subst hs
    simp only [view, hsame, hdemux, htrace, List.filter_append, filter_of_session hes,
      filter_of_session hframes, List.filter_cons, hf, decide_true, if_true]
    exact hstep _ _ _ _
  · have hft : ∀ g ∈ [f], g.session? = some t := fun g hg => by
      rw [List.mem_singleton.mp hg, hf]
    have hview : (⟨h', frames ++ stack, none⟩ : System).view s =
        (⟨h, f :: stack, none⟩ : System).view s := by
      refine view_congr hsame (fun _ => by rw [hdemux])
        (by rw [htrace, filter_append_of_ne hs hes]) ?_
      rw [List.filter_append, ← List.nil_append frames, filter_append_of_ne hs hframes,
        ← List.singleton_append, List.filter_append, ← List.nil_append [f],
        filter_append_of_ne hs hft]
    rw [hview]
    exact .same _ _

/-- A session that has not been accepted has left no trace. -/
theorem view_new {m : System} (hw : WellFormed m) {s : Session}
    (hs : s.id = m.handler.nextSession) : m.view s = ⟨none, none, [], []⟩ := by
  have hclient : m.handler.client s = none := by
    rw [Option.eq_none_iff_forall_ne_some]
    intro ci hci
    obtain ⟨hlookup, rfl⟩ := client_eq_some.mp hci
    have hid := (hw.client _ ci hlookup).2.1
    omega
  have htrace : m.handler.trace.filter (·.session? = some s) = [] := by
    rw [List.filter_eq_nil_iff]
    intro e he heq
    have hid := hw.event e he s (of_decide_eq_true heq)
    omega
  have hstack : m.stack.filter (·.session? = some s) = [] := by
    rw [List.filter_eq_nil_iff]
    intro f hf heq
    have hid := hw.frame f hf s (of_decide_eq_true heq)
    omega
  simp only [view, hclient, htrace, hstack, Option.bind_none]

/-- A descriptor that is neither a client's nor a listener's is not on
record. -/
theorem Recorded.lookup_new {m : System} (hr : Recorded m) {fd : Fd}
    (hclient : m.handler.clientInfo.lookup fd = none) (hlisten : fd ∉ m.handler.listenInfo) :
    m.handler.demux.mapEvent.lookup fd = none := by
  rw [Option.eq_none_iff_forall_ne_some]
  intro mask hmask
  cases hr.known fd mask hmask with
  | inl hmem => exact AList.lookup_eq_none.mp hclient hmem
  | inr hmem => exact hlisten hmem

/-- `CheckMaxConnection` does not change what a client has on record. -/
theorem lookup_maxConnection {m : System} (hw : WellFormed m) {listenfd : Fd} {li : ListenInfo}
    (hli : m.handler.listenInfo.lookup listenfd = some li) (li' : ListenInfo)
    (newConnCheck : Bool) {s : Session} (hs : m.handler.client s ≠ none) :
    (maxConnectionDemux m.handler.demux listenfd li' newConnCheck).mapEvent.lookup s.fd =
      m.handler.demux.mapEvent.lookup s.fd := by
  obtain ⟨ci, hci⟩ := Option.ne_none_iff_exists'.mp hs
  obtain ⟨hlookup, -⟩ := client_eq_some.mp hci
  refine Epoll.lookup_maxConnectionDemux _ _ _ fun heq => ?_
  apply (hw.client _ ci hlookup).2.2
  rw [heq]
  exact FdMap.mem_of_lookup hli

/-- The view of a session that is accepted. -/
theorem view_withNewConn {h : EventHandler} {listenfd fd : Fd} {rest : List Fd}
    (hw : WellFormed ⟨h, [], none⟩) (hr : Recorded ⟨h, [], none⟩) (hnew : fd ∉ h.listenInfo)
    (hfree : h.clientInfo.lookup fd = none) {s : Session} (hs : s = ⟨h.nextSession, fd⟩) :
    (⟨h.withNewConn listenfd fd, [.accepting listenfd s rest], none⟩ : System).view s =
      ⟨some ⟨s, listenfd, [], []⟩, some EPOLLRDHUP, [.onAcceptComplete listenfd s],
        [.accepting listenfd s rest]⟩ := by
  subst hs
  have hclient : (h.withNewConn listenfd fd).client ⟨h.nextSession, fd⟩ =
      some ⟨⟨h.nextSession, fd⟩, listenfd, [], []⟩ := by
    rw [client_eq_some]
    refine ⟨?_, rfl⟩
    rw [withNewConn, FdMap.lookup_insertNew, if_pos rfl, hfree]
    rfl
  have hold := view_new hw (s := ⟨h.nextSession, fd⟩) rfl
  rw [view, View.mk.injEq] at hold
  have htrace : h.trace.filter (·.session? = some ⟨h.nextSession, fd⟩) = [] := hold.2.2.1
  rw [view, View.mk.injEq]
  refine ⟨hclient, ?_, ?_, ?_⟩
  · rw [hclient, Option.bind_some, withNewConn, Epoll.lookup_addConn, if_pos rfl,
      hr.lookup_new hfree hnew]
    decide
  · rw [withNewConn, List.filter_append, htrace]
    simp [Event.session?]
  · simp [Frame.session?]

/-- Accepting one session does not change what another sees. -/
theorem view_withNewConn_of_ne {h : EventHandler} {listenfd fd : Fd} {rest : List Fd}
    (hfree : h.clientInfo.lookup fd = none) {s : Session} (hs : s ≠ ⟨h.nextSession, fd⟩) :
    (⟨h.withNewConn listenfd fd, [.accepting listenfd ⟨h.nextSession, fd⟩ rest], none⟩ :
      System).view s = (⟨h, [], none⟩ : System).view s := by
  refine view_congr ?_ ?_ ?_ ?_
  · rw [EventHandler.client, EventHandler.client, withNewConn, FdMap.lookup_insertNew]
    split
    · next hk =>
        rw [hk, hfree]
        exact filter_of_ne (fun heq => hs heq.symm)
    · rfl
  · intro hne
    obtain ⟨ci, hci⟩ := Option.ne_none_iff_exists'.mp hne
    obtain ⟨hlookup, -⟩ := client_eq_some.mp hci
    rw [withNewConn, Epoll.lookup_addConn, if_neg]
    intro hk
    rw [hk, hfree] at hlookup
    cases hlookup
  · exact filter_append_of_ne hs (by simp [Event.session?])
  · exact filter_append_of_ne (x := []) hs (by simp [Frame.session?])

/-- The end of `OnAccept` changes no view. -/
theorem view_finish {h : EventHandler} {stack : List Frame} {listenfd : Fd} {li : ListenInfo}
    (hw : WellFormed ⟨h, stack, none⟩) (hli : h.listenInfo.lookup listenfd = some li)
    (s : Session) :
    (⟨{ h with demux := maxConnectionDemux h.demux listenfd li true }, stack, none⟩ :
      System).view s = (⟨h, stack, none⟩ : System).view s :=
  view_congr rfl (fun hs => lookup_maxConnection hw hli li true hs) rfl rfl

/-- `OnAccept` does not change what an earlier session sees. -/
theorem view_acceptStep {h h' : EventHandler} {frames : List Frame} {listenfd : Fd}
    {accepted : List Fd} (hw : WellFormed ⟨h, [], none⟩)
    (hstep : AcceptStep listenfd accepted h h' frames) {s : Session}
    (hs : s.id ≠ h.nextSession) :
    (⟨h', frames, none⟩ : System).view s = (⟨h, [], none⟩ : System).view s := by
  cases hstep with
  | finish hli => exact view_finish hw hli s
  | accept hfd hrest hfree =>
      exact view_withNewConn_of_ne hfree fun heq => hs (congrArg Session.id heq)

/-- A turn of the accept loop, seen by any session. -/
theorem session_acceptStep {h h' : EventHandler} {frames : List Frame} {listenfd : Fd}
    {accepted : List Fd} {c : Call} (hw : WellFormed ⟨h, [], none⟩)
    (hr : Recorded ⟨h, [], none⟩) (hnew : ∀ fd ∈ accepted, fd ∉ h.listenInfo)
    (hstep : AcceptStep listenfd accepted h h' frames) (s : Session) :
    SessionStep s c ((⟨h, [], none⟩ : System).view s)
      ((⟨h', frames, none⟩ : System).view s) := by
  cases hstep with
  | finish hli =>
      rw [view_finish hw hli s]
      exact .same c _
  | @accept fd rest hfd hrest hfree =>
      by_cases hs : s = ⟨h.nextSession, fd⟩
      · rw [view_new hw (congrArg Session.id hs), ← hs,
          view_withNewConn hw hr (hnew fd hfd) hfree hs]
        exact .accept c listenfd rest
      · rw [view_withNewConn_of_ne hfree hs]
        exact .same c _

/-- `OnAccept` goes on: the session that was accepted is counted, and the
next one is accepted. -/
theorem session_retAccepting {h h' : EventHandler} {stack frames : List Frame} {listenfd : Fd}
    {t : Session} {rest : List Fd} {li : ListenInfo}
    (hw : WellFormed ⟨h, .accepting listenfd t rest :: stack, none⟩)
    (hr : Recorded ⟨h, .accepting listenfd t rest :: stack, none⟩)
    (hli : h.listenInfo.lookup listenfd = some li)
    (hstep : AcceptStep listenfd rest
      (h.withListenInfo listenfd { li with currentconns := li.currentconns + 1 }) h' frames)
    (s : Session) :
    SessionStep s .ret ((⟨h, .accepting listenfd t rest :: stack, none⟩ : System).view s)
      ((⟨h', frames ++ stack, none⟩ : System).view s) := by
  cases hr.nested.bottom (fun _ hf => by cases hf)
  have hw' := hw.pop.insert_listener hli { li with currentconns := li.currentconns + 1 }
  have hpop : Recorded ⟨h, [], none⟩ := ⟨trivial, hr.known, by simp⟩
  have hr' := hpop.insert_listener hli { li with currentconns := li.currentconns + 1 }
  have hnew : ∀ fd ∈ rest, fd ∉ (h.withListenInfo listenfd
      { li with currentconns := li.currentconns + 1 }).listenInfo := fun fd hfd hmem =>
    hw.waiting _ List.mem_cons_self fd hfd ((FdMap.mem_insert_of_lookup hli).mp hmem)
  rw [List.append_nil]
  by_cases hs : s = t
  · subst hs
    rw [view_acceptStep hw' hstep (Nat.ne_of_lt (hw.frame _ List.mem_cons_self s rfl))]
    exact session_ret [] rfl (by exact rfl) (by exact rfl)
      (by exact (List.append_nil _).symm) (by simp) (by simp)
      (fun _ _ history _ => by rw [List.append_nil]; exact .retAccepting) s
  · have hnot : t ≠ s := fun heq => hs heq.symm
    have hview : (⟨h.withListenInfo listenfd
        { li with currentconns := li.currentconns + 1 }, [], none⟩ : System).view s =
        (⟨h, [.accepting listenfd t rest], none⟩ : System).view s :=
      view_congr rfl (fun _ => rfl) rfl (by simp [Frame.session?, hnot])
    rw [← hview]
    exact session_acceptStep hw' hr' hnew hstep s

/-- `ClearSessionAndBuffer` removes one session. -/
theorem session_clear {h h' : EventHandler} {stack : List Frame} {f : Frame} {t : Session}
    {ci : ClientInfo} {li li' : ListenInfo} (hw : WellFormed ⟨h, f :: stack, none⟩)
    (hr : Recorded ⟨h, f :: stack, none⟩) (hf : f.closes? = some t)
    (hft : f.session? = some t) (hci : h.clientInfo.lookup t.fd = some ci)
    (hli : h.listenInfo.lookup ci.listenfd = some li)
    (hclient : h'.clientInfo = AList.erase t.fd h.clientInfo)
    (hdemux : h'.demux = maxConnectionDemux h.demux ci.listenfd li' false)
    (htrace : h'.trace = h.trace) (s : Session) :
    SessionStep s .ret ((⟨h, f :: stack, none⟩ : System).view s)
      ((⟨h', stack, none⟩ : System).view s) := by
  have hsession := (hr.closing f List.mem_cons_self t hf).2.2 ci hci
  by_cases hs : s = t
  · subst hs
    have hold : h.client s = some ci := client_eq_some.mpr ⟨hci, hsession⟩
    have hnew : h'.client s = none := by
      rw [EventHandler.client, hclient, FdMap.lookup_erase_eq, if_pos rfl]
      rfl
    simp only [view, hold, hnew, htrace, Option.bind_some, Option.bind_none, List.filter_cons,
      hft, decide_true, if_true]
    exact .retClosing hf
  · have hview : (⟨h', stack, none⟩ : System).view s =
        (⟨h, f :: stack, none⟩ : System).view s := by
      have hsame : h'.client s = h.client s := by
        rw [EventHandler.client, EventHandler.client, hclient, FdMap.lookup_erase_eq]
        split
        · next hk =>
            have hother : ci.session ≠ s := by
              rw [hsession]
              exact fun heq => hs heq.symm
            rw [hk, hci, filter_of_ne hother]
            rfl
        · rfl
      refine view_congr hsame ?_ (by rw [htrace]) ?_
      · intro hne
        rw [hdemux]
        exact lookup_maxConnection hw hli li' false hne
      · have hnot : ¬ f.session? = some s := fun heq => hs (by
          rw [hft, Option.some.injEq] at heq
          exact heq.symm)
        simp only [List.filter_cons, hnot, decide_false, Bool.false_eq_true, if_false]
    rw [hview]
    exact .same _ _

/-- A client set to what it was changes nothing. -/
theorem lookup_same {m : FdMap ClientInfo} {fd : Fd} {ci : ClientInfo}
    (hci : m.lookup fd = some ci) (k : Fd) :
    m.lookup k = if k = fd then some ci else m.lookup k := by
  split
  · next heq => rw [heq, hci]
  · rfl

/-- A mask that loses its bit in one case and not in the other, for every descriptor. -/
theorem lookup_delEvent_ite (d : Epoll) (fd k : Fd) (ev : EV_TYPE) {c : Prop} [Decidable c] :
    (if c then d.delEvent fd ev else d).mapEvent.lookup k =
      if k = fd then
        if c then (d.mapEvent.lookup fd).map (· &&& ~~~Epoll.eventOf ev)
        else d.mapEvent.lookup fd
      else d.mapEvent.lookup k := by
  by_cases hc : c
  · rw [if_pos hc, if_pos hc, Epoll.lookup_delEvent d fd k ev]
  · rw [if_neg hc, if_neg hc]
    split
    · next heq => rw [heq]
    · rfl

/-- What a call that throws nothing does to the view of any session. -/
theorem session_step {m m' : System} {c : Call} (heff : Effect m c m') (hw : WellFormed m)
    (hr : Recorded m) (s : Session) : SessionStep s c (m.view s) (m'.view s) := by
  cases heff with
  | @asyncRead h stack fd n ci rb hci hrb =>
      obtain rfl := (hw.client fd ci hci).1
      refine session_touch [] { ci with rbChain := ci.rbChain ++ [rb] } hw hci rfl
        (fun k => FdMap.lookup_insert_eq _ _ k _)
        (fun k hk => by rw [Epoll.lookup_addEvent _ _ _ .CFEV_READ, if_neg hk])
        rfl (by simp [Event.session?]) (by simp) (fun history => ?_) s
      rw [Epoll.lookup_addEvent _ _ _ .CFEV_READ, if_pos rfl]
      exact .asyncRead rfl hrb
  | @asyncWrite h stack fd buf n ci wb hci hlen hwb =>
      obtain rfl := (hw.client fd ci hci).1
      refine session_touch [] { ci with wbChain := ci.wbChain ++ [wb] } hw hci rfl
        (fun k => FdMap.lookup_insert_eq _ _ k _)
        (fun k hk => by rw [Epoll.lookup_addEvent _ _ _ .CFEV_WRITE, if_neg hk])
        rfl (by simp [Event.session?]) (by simp) (fun history => ?_) s
      rw [Epoll.lookup_addEvent _ _ _ .CFEV_WRITE, if_pos rfl]
      exact .asyncWrite rfl hlen hwb
  | @close h stack c fd ci hc hci =>
      obtain rfl := (hw.client fd ci hci).1
      refine session_touch [.closing ci.session] ci hw hci rfl (by exact lookup_same hci)
        (fun k hk => by rw [Epoll.lookup_delConn, if_neg hk])
        rfl (by simp [Event.session?]) (by simp [Frame.session?]) (fun history => ?_) s
      rw [Epoll.lookup_delConn, if_pos rfl]
      refine .close rfl (hc.imp_right fun hon => ⟨hon.1, ?_⟩)
      rw [hon.2]
      rfl
  | @onError h fd ci hci =>
      obtain rfl := (hw.client fd ci hci).1
      refine session_touch [.erroring ci.session] ci hw hci rfl (by exact lookup_same hci)
        (fun k hk => by rw [Epoll.lookup_delConn, if_neg hk])
        rfl (by simp [Event.session?]) (by simp [Frame.session?]) (fun history => ?_) s
      rw [Epoll.lookup_delConn, if_pos rfl]
      exact .onError rfl
  | @onRead h fd kernel ci p hci hp hok =>
      obtain rfl := (hw.client fd ci hci).1
      rw [← List.append_nil (readFrames ci.session p.complete)]
      refine session_touch _ { ci with rbChain := p.chain.drop p.complete.length } hw hci rfl
        (fun k => FdMap.lookup_insert_eq _ _ k _)
        (fun k hk => by rw [lookup_delEvent_ite _ _ _ .CFEV_READ, if_neg hk])
        (by rw [List.append_assoc h.trace, List.append_assoc h.trace])
        (session_endRead ci.session p.moved p.ended p.complete)
        (fun f hf => (session_readFrames _ _ f hf).1) (fun history => ?_) s
      rw [lookup_delEvent_ite _ _ _ .CFEV_READ, if_pos rfl, ← List.append_assoc,
        ← List.append_assoc, List.filter_nil, List.append_nil]
      exact .onRead rfl hp hok
  | @onWrite h fd kernel ci p hci hp hok =>
      obtain rfl := (hw.client fd ci hci).1
      rw [← List.append_nil (writeFrames ci.session p.complete)]
      refine session_touch _ { ci with wbChain := p.chain.drop p.complete.length } hw hci rfl
        (fun k => FdMap.lookup_insert_eq _ _ k _)
        (fun k hk => by rw [lookup_delEvent_ite _ _ _ .CFEV_WRITE, if_neg hk])
        (by rw [List.append_assoc]) (session_endWrite ci.session p.moved p.complete)
        (fun f hf => (session_writeFrames _ _ f hf).1) (fun history => ?_) s
      rw [lookup_delEvent_ite _ _ _ .CFEV_WRITE, if_pos rfl, ← List.append_assoc,
        List.filter_nil, List.append_nil]
      exact .onWrite rfl hp hok
  | @onTimeout h =>
      have hview : (⟨{ h with trace := h.trace ++ [.onTimeoutComplete] }, [.timingOut], none⟩ :
          System).view s = (⟨h, [], none⟩ : System).view s :=
        view_congr rfl (fun _ => rfl) (by simp [Event.session?]) (by simp [Frame.session?])
      rw [hview]
      exact .same _ _
  | onAcceptNothing => exact .same _ _
  | onAccept hnew haccept => exact session_acceptStep hw hr hnew haccept s
  | retAccepting hli haccept => exact session_retAccepting hw hr hli haccept s
  | @retReading h stack t rb rest =>
      exact session_ret (readFrames t rest) rfl (by exact rfl) (by exact rfl) (by exact rfl)
        (session_readEvents t rest)
        (fun f hf => (session_readFrames t rest f hf).1) (fun _ _ _ _ => .retReading) s
  | @retWriting h stack t wb rest =>
      exact session_ret (writeFrames t rest) rfl (by exact rfl) (by exact rfl) (by exact rfl)
        (session_writeEvents t rest)
        (fun f hf => (session_writeFrames t rest f hf).1) (fun _ _ _ _ => .retWriting) s
  | retClosing hf hci hli =>
      obtain rfl | rfl := hf
      · exact session_clear hw hr rfl rfl hci hli (by exact rfl) (by exact rfl) (by exact rfl) s
      · exact session_clear hw hr rfl rfl hci hli (by exact rfl) (by exact rfl) (by exact rfl) s
  | @retTimingOut h stack =>
      have hview : (⟨h, stack, none⟩ : System).view s =
          (⟨h, .timingOut :: stack, none⟩ : System).view s :=
        view_congr rfl (fun _ => rfl) rfl (by simp [Frame.session?])
      rw [hview]
      exact .same _ _

/-- At the beginning a session sees nothing. -/
theorem view_init (listenfdMaxconn : List (Fd × UInt32)) (s : Session) :
    (init listenfdMaxconn).view s = ⟨none, none, [], []⟩ := by
  simp [view, init, EventHandler.init, EventHandler.client]

/-- What holds of a session before it is accepted and is kept by what a call
does to its view holds of every session after every run. -/
theorem run_session {C : System → Call → Prop} (J : Session → View → Prop)
    (hinit : ∀ s, J s ⟨none, none, [], []⟩)
    (hstep : ∀ m c s v, C m c → SessionStep s c (m.view s) v → J s (m.view s) → J s v)
    {listenfdMaxconn : List (Fd × UInt32)} {m : System} {cs : List Call}
    (halong : Machine.Along step C (init listenfdMaxconn) cs)
    (hrun : Machine.run step (init listenfdMaxconn) cs = some m) (hok : m.failed = none) :
    WellFormed m ∧ Recorded m ∧ ∀ s, J s (m.view s) := by
  refine run_invariant_of_effect (fun m => WellFormed m ∧ Recorded m ∧ ∀ s, J s (m.view s)) ?_
    halong hrun ⟨wellFormed_init _, recorded_init _, fun s => ?_⟩ hok
  · intro m c m' hc heff hinv
    obtain ⟨hw, hr, hj⟩ := hinv
    exact ⟨hw.effect heff, hr.effect heff hw,
      fun s => hstep m c s _ hc (session_step heff hw hr s) (hj s)⟩
  · rw [view_init]
    exact hinit s

/-- The view of a registered client. -/
theorem view_client {m : System} (hw : WellFormed m) {fd : Fd} {ci : ClientInfo}
    (hci : m.handler.clientInfo.lookup fd = some ci) :
    (m.view ci.session).client = some ci ∧
      (m.view ci.session).mask = m.handler.demux.mapEvent.lookup fd := by
  have hfd := (hw.client fd ci hci).1
  have hclient : m.handler.client ci.session = some ci :=
    client_eq_some.mpr ⟨by rw [hfd, hci], rfl⟩
  refine ⟨hclient, ?_⟩
  rw [view, hclient, Option.bind_some, hfd]

end System

end CppFastDevelop
