import Mathlib.Data.List.Induction
import CppFastDevelop.NetServer.Attached
import CppFastDevelop.NetServer.Settling

/-!
# CppFastDevelop.NetServer.Outgoing

Connections that no listener accepted.  `AddNewConn(fd, ip, port, callback)`
registers one under the listener `-1`, lets the user have it in
`OnAcceptComplete`, and only then looks for that listener, which there is
not: it always throws, and takes nothing back (`Outgoing.orderly_iff`).
-/

namespace CppFastDevelop

/-! ## `AddNewConn` -/

namespace EventHandler

open Exec

def fcntlFailed : BaseException := ⟨.syscallExecuteError, "Failed to execute cf_fcntl !", []⟩

/-- `SetBlocking`, which throws if one of its calls of `fcntl` fails. -/
def setBlocking (fcntlOk : Bool) : HandlerM Unit :=
  if fcntlOk then pure () else throw fcntlFailed

/-- `AddNewConn(session, callback, listenfd)`, up to its callback if it makes
one (then `true`) and to its end if not. -/
def addNewConnOf (session : Session) (callback : Bool) (listenfd : Fd) (fcntlOk : Bool) :
    HandlerM Bool := do
  modify fun h => { h with
    clientInfo := h.clientInfo.insertNew session.fd ⟨session, listenfd, [], []⟩
    nextSession := h.nextSession + 1 }
  setBlocking fcntlOk
  onDemux (·.addConn session.fd .CFEV_CLOSE)
  if callback then
    note (.onAcceptComplete listenfd session)
    pure true
  else
    countConn listenfd
    pure false

/-- `AddNewConn(fd, ip, port, callback)`.  The address is for the session
only. -/
def addNewConnFd (fd : Fd) (callback fcntlOk : Bool) : HandlerM Bool := do
  let h ← get
  addNewConnOf ⟨h.nextSession, fd⟩ callback (-1) fcntlOk

/-- It is the `AddNewConn` that `OnAccept` calls. -/
theorem addNewConnOf_true (session : Session) (listenfd : Fd) :
    addNewConnOf session true listenfd true = (do addNewConn session listenfd; pure true) := rfl

/-- With a callback, and a descriptor made non-blocking, the connection is registered. -/
theorem addNewConnFd_true (fd : Fd) (h : EventHandler) :
    addNewConnFd fd true true h = .ok true (h.withNewConn (-1) fd) := rfl

/-- Without a callback it throws, and the connection is registered. -/
theorem addNewConnFd_error {fd : Fd} {h : EventHandler} {callback fcntlOk : Bool}
    (hli : h.listenInfo.lookup (-1) = none) (hquiet : callback = false ∨ fcntlOk = false) :
    ∃ e h', addNewConnFd fd callback fcntlOk h = .error e h' ∧
      h'.clientInfo = h.clientInfo.insertNew fd ⟨⟨h.nextSession, fd⟩, -1, [], []⟩ := by
  cases fcntlOk with
  | false => exact ⟨_, _, rfl, rfl⟩
  | true =>
      cases callback with
      | true => simp at hquiet
      | false =>
          simp only [addNewConnFd, addNewConnOf, setBlocking, bind_apply, get_apply,
            modify_apply, pure_apply, onDemux_apply, Bool.false_eq_true, if_false, if_true]
          rw [countConn_error (by exact hli)]
          exact ⟨_, _, rfl, rfl⟩

end EventHandler

/-! ## while it runs -/

/-- What user code does: call the handler (`ret` is the return of a callback),
open a connection of its own, throw. -/
inductive UserCall
  | call (c : System.Call)
  | addNewConn (fd : Fd) (callback fcntlOk : Bool)
  | throws (e : BaseException)
  deriving DecidableEq, Repr

/-- The handler within calls of `AddNewConn`.  `system` is about the callbacks
made inside the innermost `OnAcceptComplete(-1, session)`; `pending` has for
each of these, innermost first, what was running when its `AddNewConn` was
called. -/
structure Outgoing where
  system : System
  pending : List (List Frame)

instance : DecidablePred System.Call.OfUser
  | .asyncRead _ _ | .asyncWrite _ _ _ | .asyncClose _ | .ret => inferInstanceAs (Decidable True)
  | .onAccept _ _ | .onRead _ _ | .onWrite _ _ | .onClose _ | .onError _ | .onTimeout =>
    inferInstanceAs (Decidable False)

namespace Outgoing

open EventHandler

/-- The callback of the innermost `AddNewConn` returns. -/
def returns (o : Outgoing) : Option Outgoing :=
  match o.pending with
  | [] => none
  | stack :: pending =>
    match countConn (-1) o.system.handler with
    | .ok _ h => some ⟨⟨h, stack, none⟩, pending⟩
    | .error e h => some ⟨⟨h, [], some e⟩, pending⟩

/-- User code is given the descriptors of connected sockets, which are
neither registered nor those of open listening sockets. -/
def step (o : Outgoing) : UserCall → Option Outgoing
  | .call c =>
    if o.system.failed = none ∧ o.system.stack = [] ∧ c = .ret then o.returns
    else if c.OfUser then (o.system.step c).map fun m => ⟨m, o.pending⟩
    else none
  | .addNewConn fd callback fcntlOk =>
    if o.system.failed = none ∧ fd ∉ o.system.handler.clientInfo ∧
        fd ∉ o.system.handler.listenInfo then
      match addNewConnFd fd callback fcntlOk o.system.handler with
      | .ok true h => some ⟨⟨h, [], none⟩, o.system.stack :: o.pending⟩
      | .ok false h => some ⟨⟨h, o.system.stack, none⟩, o.pending⟩
      | .error e h => some ⟨⟨h, [], some e⟩, o.pending⟩
    else none
  | .throws e =>
    if o.system.failed = none then some ⟨⟨o.system.handler, [], some e⟩, o.pending⟩ else none

/-- The `AddNewConn` called first has returned or thrown. -/
def Over (o : Outgoing) : Prop := o.system.failed ≠ none ∨ o.pending = []

instance : DecidablePred Over := fun _ => inferInstanceAs (Decidable (_ ∨ _))

end Outgoing

/-! ## what `AddNewConn` is for -/

/-- `OnClose` or `OnError` of a connection runs to its end when its callback
returns: the connection is forgotten and its buffers are in the pools. -/
def System.TornDownBy (m : System) (c : System.Call) (fd : Fd) (ci : ClientInfo) : Prop :=
  ∃ m', Machine.run System.step m [c, .ret] = some m' ∧ m'.failed = none ∧
    fd ∉ m'.handler.clientInfo ∧
    m'.handler.rbpool = ci.rbChain.foldl .putIntoPool m.handler.rbpool ∧
    m'.handler.wbpool = ci.wbChain.foldl .putIntoPool m.handler.wbpool

/-- The session is registered, and whenever the event loop gets to close it,
it is torn down. -/
structure System.Serves (m : System) (s : Session) : Prop where
  registered : ∃ ci, m.handler.clientInfo.lookup s.fd = some ci ∧ ci.session = s
  watched : s.fd ∈ m.handler.demux.mapEvent ∧ s.fd ∈ m.handler.demux.interest
  torn_down : ∀ cs m' ci, Machine.run step m cs = some m' → m'.failed = none →
    m'.stack = [] → m'.handler.clientInfo.lookup s.fd = some ci → ci.session = s →
      m'.TornDownBy (.onClose s.fd) s.fd ci ∧ m'.TornDownBy (.onError s.fd) s.fd ci

/-- A descriptor is registered as it was before. -/
structure SameAt (h h' : EventHandler) (k : Fd) : Prop where
  client : h'.clientInfo.lookup k = h.clientInfo.lookup k
  record : h'.demux.mapEvent.lookup k = h.demux.mapEvent.lookup k
  interest : h'.demux.interest.lookup k = h.demux.interest.lookup k

/-- The call is about no other connection. -/
def UserCall.About (fd : Fd) : UserCall → Prop
  | .call (.asyncRead k _) | .call (.asyncWrite k _ _) | .call (.asyncClose k)
  | .addNewConn k _ _ => k = fd
  | _ => True

/-- What `AddNewConn` registers is as it was before, and so is everything if
its callback has to do with this connection only. -/
structure AsWere (fd : Fd) (us : List UserCall) (h h' : EventHandler) : Prop where
  own : SameAt h h' fd
  counter : h'.listenInfo.lookup (-1) = h.listenInfo.lookup (-1)
  others : (∀ u ∈ us, u.About fd) → h'.listenInfo = h.listenInfo ∧ ∀ k, SameAt h h' k

/-- What `AddNewConn(fd, ip, port, callback)` has done when it is over: it
returned a session that is served, or threw and took everything back. -/
def Outgoing.Orderly (h : EventHandler) (fd : Fd) (us : List UserCall) (o : Outgoing) : Prop :=
  match o.system.failed with
  | none => o.system.Serves ⟨h.nextSession, fd⟩
  | some _ => AsWere fd us h o.system.handler

/-- The connections whose `OnCloseComplete` is running inside the innermost
`OnAcceptComplete`, innermost first. -/
def closings : List UserCall → List Fd :=
  List.foldl (fun fds u => match u with
    | .call (.asyncClose fd) => fd :: fds
    | .call .ret => fds.tail
    | .addNewConn _ true _ => []
    | _ => fds) []

/-- The last thing that happens is that `OnCloseComplete` returns for the
connection. -/
def ClosedLast (fd : Fd) (us : List UserCall) : Prop :=
  ∃ vs, us = vs ++ [.call .ret] ∧ (closings vs).head? = some fd

/-- One call more, seen from the closings that are running. -/
theorem closings_append (us : List UserCall) (u : UserCall) :
    closings (us ++ [u]) = match u with
      | .call (.asyncClose fd) => fd :: closings us
      | .call .ret => (closings us).tail
      | .addNewConn _ true _ => []
      | _ => closings us := by
  rw [closings, List.foldl_append]
  rfl

/-- A connection being closed was closed by a call. -/
theorem mem_closings {us : List UserCall} {fd : Fd} (h : fd ∈ closings us) :
    .call (.asyncClose fd) ∈ us := by
  induction us using List.reverseRecOn with
  | nil => cases h
  | append_singleton us u ih =>
      rw [closings_append] at h
      rw [List.mem_append, List.mem_singleton]
      split at h
      · next k =>
          cases List.mem_cons.mp h with
          | inl heq => exact .inr (by rw [heq])
          | inr hmem => exact .inl (ih hmem)
      · exact .inl (ih (List.mem_of_mem_tail h))
      · cases h
      · exact .inl (ih h)

/-- The last call decides whether a close came last. -/
theorem closedLast_append {fd : Fd} {us : List UserCall} {u : UserCall} :
    ClosedLast fd (us ++ [u]) ↔ u = .call .ret ∧ (closings us).head? = some fd := by
  constructor
  · rintro ⟨vs, heq, hhead⟩
    obtain ⟨rfl, hu⟩ := List.append_inj' heq rfl
    exact ⟨List.singleton_inj.mp hu, hhead⟩
  · rintro ⟨rfl, hhead⟩
    exact ⟨us, rfl, hhead⟩

/-! ## calls that throw -/

namespace System

open EventHandler

/-- What is not registered is not on record. -/
theorem Recorded.lookup_eq_none {m : System} (hr : Recorded m) {fd : Fd}
    (hclient : fd ∉ m.handler.clientInfo) (hlisten : fd ∉ m.handler.listenInfo) :
    m.handler.demux.mapEvent.lookup fd = none := by
  cases hmask : m.handler.demux.mapEvent.lookup fd with
  | none => rfl
  | some mask => exact absurd (hr.known fd mask hmask) (not_or.mpr ⟨hclient, hlisten⟩)

/-- The return of an `OnCloseComplete` or `OnErrorComplete`. -/
theorem step_ret_closing {m m' : System} {s : Session} {f : Frame} {stack : List Frame}
    (hf : f = .closing s ∨ f = .erroring s) (hstack : m.stack = f :: stack)
    (hstep : m.step .ret = some m') :
    m' = match clearSessionAndBuffer s m.handler with
      | .ok _ h => ⟨h, stack, none⟩
      | .error e h => ⟨h, [], some e⟩ := by
  unfold step at hstep
  split at hstep
  case isFalse => cases hstep
  case isTrue =>
    cases hstep
    rcases hf with rfl | rfl <;>
      simp only [perform, hstack, enter, resume, Exec.bind_apply] <;>
      cases clearSessionAndBuffer s m.handler <;> rfl

/-- `OnClose` or `OnError`, up to its callback. -/
theorem step_teardown {m : System} (hok : m.failed = none) (hidle : m.stack = []) {fd : Fd}
    {ci : ClientInfo} (hci : m.handler.clientInfo.lookup fd = some ci) {c : Call}
    (hc : c = .onClose fd ∨ c = .onError fd) :
    ∃ f e, (f = .closing ci.session ∨ f = .erroring ci.session) ∧
      m.step c = some ⟨{ m.handler with
        demux := m.handler.demux.delConn fd
        trace := m.handler.trace ++ [e] }, [f], none⟩ := by
  rcases hc with rfl | rfl
  · refine ⟨_, .onCloseComplete ci.session, .inl rfl, ?_⟩
    simp only [step, hok, Enabled, hidle, and_self, if_true, perform, enter, onClose,
      Exec.bind_apply, onDemux_apply, getClientInfo_apply, hci, note_apply, Exec.pure_apply,
      Option.toList_some, List.append_nil]
  · refine ⟨_, .onErrorComplete ci.session, .inr rfl, ?_⟩
    simp only [step, hok, Enabled, hidle, and_self, if_true, perform, enter, onError,
      Exec.bind_apply, onDemux_apply, getClientInfo_apply, hci, note_apply, Exec.pure_apply,
      Option.toList_some, List.append_nil]

/-- A connection is torn down exactly if its listener is there. -/
theorem tornDownBy_iff {m : System} (hw : WellFormed m) (hok : m.failed = none)
    (hidle : m.stack = []) {fd : Fd} {ci : ClientInfo}
    (hci : m.handler.clientInfo.lookup fd = some ci) {c : Call}
    (hc : c = .onClose fd ∨ c = .onError fd) :
    m.TornDownBy c fd ci ↔ ci.listenfd ∈ m.handler.listenInfo := by
  obtain ⟨f, e, hf, hstep⟩ := step_teardown hok hidle hci hc
  have hfd := (hw.client fd ci hci).1
  have hlookup : m.handler.clientInfo.lookup ci.session.fd = some ci := by rw [hfd, hci]
  generalize ht : ({ m.handler with
    demux := m.handler.demux.delConn fd
    trace := m.handler.trace ++ [e] } : EventHandler) = t at hstep
  have hclient : t.clientInfo.lookup ci.session.fd = some ci := by rw [← ht]; exact hlookup
  constructor
  · rintro ⟨m', hrun, hok', -⟩
    obtain ⟨_, hstep', hret⟩ := Machine.run_cons_eq_some.mp hrun
    rw [hstep, Option.some.injEq] at hstep'
    subst hstep'
    obtain ⟨_, hret, hnil⟩ := Machine.run_cons_eq_some.mp hret
    cases hnil
    have hm' := step_ret_closing hf rfl hret
    apply Decidable.byContradiction
    intro hnone
    rw [clearSessionAndBuffer_of_noListener hclient
      (by rw [← ht]; exact AList.lookup_eq_none.mpr hnone)] at hm'
    rw [hm'] at hok'
    cases hok'
  · intro hlisten
    have hret : step ⟨t, [f], none⟩ .ret = some (perform ⟨t, [f], none⟩ .ret) :=
      if_pos ⟨rfl, by simp [Enabled]⟩
    refine ⟨_, Machine.run_cons_eq_some.mpr ⟨_, hstep, Machine.run_cons_eq_some.mpr
      ⟨_, hret, rfl⟩⟩, ?_⟩
    rw [step_ret_closing hf rfl hret]
    cases hclear : clearSessionAndBuffer ci.session t with
    | ok u h =>
        obtain ⟨ci', li, hci', -, rfl⟩ := clearSessionAndBuffer_ok hclear
        rw [hclient, Option.some.injEq] at hci'
        subst hci' ht
        rw [← hfd]
        exact ⟨rfl, AList.lookup_eq_none.mp (AList.lookup_erase _ _), rfl, rfl⟩
    | error e h =>
        rcases clearSessionAndBuffer_error hclear with ⟨hnone, -⟩ | ⟨ci', hci', hnone, -⟩
        · rw [hclient] at hnone
          cases hnone
        · rw [hclient, Option.some.injEq] at hci'
          subst hci' ht
          exact absurd hlisten (AList.lookup_eq_none.mp hnone)

end System

/-! ## while the callback runs -/

namespace Outgoing

open EventHandler CppFastDevelop.System

/-- `OnAcceptComplete(-1, session)` has made the calls `us`, and nothing was
thrown: the connection is registered, under a listener that there is not. -/
structure Dialing (listenfds : List Fd) (fd : Fd) (h : EventHandler) (us : List UserCall)
    (o : Outgoing) : Prop where
  ok : o.system.failed = none
  wellFormed : WellFormed o.system
  recorded : System.Recorded o.system
  attached : System.Attached listenfds o.system.handler
  pending : o.pending ≠ []
  client : ∃ ci, o.system.handler.clientInfo.lookup fd = some ci ∧ ci.listenfd = -1
  stack : ∃ ss : List Session, o.system.stack = ss.map .closing ∧ ss.map (·.fd) = closings us
  others : (∀ u ∈ us, u.About fd) → o.system.handler.listenInfo = h.listenInfo ∧
    ∀ k, k ≠ fd → o.system.handler.clientInfo.lookup k = h.clientInfo.lookup k ∧
      o.system.handler.demux.mapEvent.lookup k = h.demux.mapEvent.lookup k

section Dialing

variable {listenfds : List Fd} {fd : Fd} {h : EventHandler} {us : List UserCall}
  {o o' : Outgoing}

/-- Where `-1` was not given as a listener there is none of that name. -/
theorem noListener (hnone : (-1 : Fd) ∉ listenfds) (ha : System.Attached listenfds h) :
    h.listenInfo.lookup (-1) = none :=
  AList.lookup_eq_none.mpr fun hmem => hnone (ha.listener _ hmem)

/-- A new connection, where nothing else is running. -/
theorem withNewConn_tables {m : System} (hw : WellFormed m)
    (hr : System.Recorded m) (ha : System.Attached listenfds m.handler) {k : Fd}
    (hclient : k ∉ m.handler.clientInfo) (hlisten : k ∉ m.handler.listenInfo) :
    WellFormed ⟨m.handler.withNewConn (-1) k, [], none⟩ ∧
      System.Recorded ⟨m.handler.withNewConn (-1) k, [], none⟩ ∧
      System.Attached listenfds (m.handler.withNewConn (-1) k) := by
  have hstep : AcceptStep (-1) [k] m.handler (m.handler.withNewConn (-1) k)
      [.accepting (-1) ⟨m.handler.nextSession, k⟩ []] :=
    .accept (List.mem_singleton_self k) (by simp) (AList.lookup_eq_none.mpr hclient) (by simp)
  have hw' : WellFormed ⟨m.handler, [], none⟩ := ⟨hw.client, by simp, hw.event, by simp⟩
  have hr' : System.Recorded ⟨m.handler, [], none⟩ := ⟨trivial, hr.known, by simp⟩
  refine ⟨(hw'.acceptStep ?_ hstep).pop, ⟨trivial, (hr'.acceptStep hstep).known, by simp⟩,
    .acceptStep hstep ha⟩
  intro fd hfd
  rw [List.mem_singleton.mp hfd]
  exact hlisten

/-- A new connection changes nothing at the others. -/
theorem lookup_withNewConn (h : EventHandler) (listenfd k : Fd) {fd : Fd} (hfd : fd ≠ k) :
    (h.withNewConn listenfd k).clientInfo.lookup fd = h.clientInfo.lookup fd ∧
      (h.withNewConn listenfd k).demux.mapEvent.lookup fd = h.demux.mapEvent.lookup fd := by
  simp only [withNewConn, FdMap.lookup_insertNew, Epoll.lookup_addConn, if_neg hfd, and_self]

/-- Changing the chains of a client leaves it with its listener. -/
theorem listenfd_insert {m : FdMap ClientInfo} {k : Fd} {old new : ClientInfo}
    (hold : m.lookup k = some old) (hnew : new.listenfd = old.listenfd)
    (hfd : ∃ ci, m.lookup fd = some ci ∧ ci.listenfd = -1) :
    ∃ ci, (AList.insert k new m).lookup fd = some ci ∧ ci.listenfd = -1 := by
  obtain ⟨ci, hci, hlisten⟩ := hfd
  rw [FdMap.lookup_insert_eq]
  split
  · next heq =>
      rw [heq, hold, Option.some.injEq] at hci
      exact ⟨new, rfl, by rw [hnew, hci, hlisten]⟩
  · exact ⟨ci, hci, hlisten⟩

/-- A request about one client leaves the others as they are. -/
theorem lookup_request (h : EventHandler) (ci : ClientInfo) (ev : EV_TYPE) {k j : Fd}
    (hj : j ≠ k) : (AList.insert k ci h.clientInfo).lookup j = h.clientInfo.lookup j ∧
      (h.demux.addEvent k ev).mapEvent.lookup j = h.demux.mapEvent.lookup j := by
  simp only [FdMap.lookup_insert_eq, Epoll.lookup_addEvent, if_neg hj, and_self]

namespace Dialing

/-- While all calls are about this connection, the others are as they were. -/
theorem others_append (hd : Dialing listenfds fd h us o) {u : UserCall} {t : EventHandler}
    (hlisten : t.listenInfo = o.system.handler.listenInfo)
    (hother : u.About fd → ∀ k, k ≠ fd →
      t.clientInfo.lookup k = o.system.handler.clientInfo.lookup k ∧
        t.demux.mapEvent.lookup k = o.system.handler.demux.mapEvent.lookup k)
    (hall : ∀ v ∈ us ++ [u], v.About fd) :
    t.listenInfo = h.listenInfo ∧ ∀ k, k ≠ fd →
      t.clientInfo.lookup k = h.clientInfo.lookup k ∧
        t.demux.mapEvent.lookup k = h.demux.mapEvent.lookup k := by
  obtain ⟨hlisten', hsame⟩ := hd.others fun v hv => hall v (List.mem_append_left _ hv)
  refine ⟨hlisten.trans hlisten', fun k hk => ?_⟩
  obtain ⟨hcl, hrec⟩ := hother (hall u (List.mem_append_right _ (List.mem_singleton_self u))) k hk
  exact ⟨hcl.trans (hsame k hk).1, hrec.trans (hsame k hk).2⟩

/-- Only `AsyncClose` is entered here. -/
theorem closing_of_mem (hd : Dialing listenfds fd h us o) {f : Frame} (hf : f ∈ o.system.stack) :
    ∃ s, f = .closing s := by
  obtain ⟨ss, hss, -⟩ := hd.stack
  rw [hss] at hf
  obtain ⟨s, -, rfl⟩ := List.mem_map.mp hf
  exact ⟨s, rfl⟩

/-- What finds its listener is not this connection. -/
theorem ne_of_listener (hnone : (-1 : Fd) ∉ listenfds) (hd : Dialing listenfds fd h us o)
    {k : Fd} {ci : ClientInfo} {li : ListenInfo}
    (hci : o.system.handler.clientInfo.lookup k = some ci)
    (hli : o.system.handler.listenInfo.lookup ci.listenfd = some li) : k ≠ fd := by
  rintro rfl
  obtain ⟨_, hci', hlisten⟩ := hd.client
  rw [hci, Option.some.injEq] at hci'
  rw [hci', hlisten, noListener hnone hd.attached] at hli
  cases hli

/-- A call of the handler that throws nothing. -/
theorem call (hnone : (-1 : Fd) ∉ listenfds) (hd : Dialing listenfds fd h us o)
    {c : System.Call} {m : System} (hc : c.OfUser) (heff : Effect o.system c m)
    (hok : m.failed = none) :
    Dialing listenfds fd h (us ++ [.call c]) ⟨m, o.pending⟩ := by
  suffices hrest : (∃ ci, m.handler.clientInfo.lookup fd = some ci ∧ ci.listenfd = -1) ∧
      (∃ ss : List Session, m.stack = ss.map .closing ∧
        ss.map (·.fd) = closings (us ++ [.call c])) ∧
      ((∀ u ∈ us ++ [.call c], u.About fd) → m.handler.listenInfo = h.listenInfo ∧
        ∀ k, k ≠ fd → m.handler.clientInfo.lookup k = h.clientInfo.lookup k ∧
          m.handler.demux.mapEvent.lookup k = h.demux.mapEvent.lookup k) from
    ⟨hok, hd.wellFormed.effect heff, hd.recorded.effect heff hd.wellFormed,
      .effect heff hd.attached, hd.pending, hrest.1, hrest.2.1, hrest.2.2⟩
  obtain ⟨system, pending⟩ := o
  obtain ⟨ss, hss, hfds⟩ := hd.stack
  cases heff with
  | asyncRead hci hrb =>
      refine ⟨listenfd_insert hci rfl hd.client, ⟨ss, hss, by rw [closings_append]; exact hfds⟩,
        hd.others_append rfl fun hk k hne => lookup_request _ _ _ ?_⟩
      exact hk ▸ hne
  | asyncWrite hci hlen hwb =>
      refine ⟨listenfd_insert hci rfl hd.client, ⟨ss, hss, by rw [closings_append]; exact hfds⟩,
        hd.others_append rfl fun hk k hne => lookup_request _ _ _ ?_⟩
      exact hk ▸ hne
  | @close t stack c k ci hc' hci =>
      rcases hc' with rfl | ⟨rfl, -⟩
      case inr => cases hc
      refine ⟨hd.client, ⟨ci.session :: ss, by rw [List.map_cons, ← hss], ?_⟩,
        hd.others_append rfl fun hk j hne => ⟨rfl, ?_⟩⟩
      · rw [closings_append, List.map_cons, hfds, (hd.wellFormed.client k ci hci).1]
      · rw [Epoll.lookup_delConn, if_neg (hk ▸ hne)]
  | @retClosing t stack s f ci li hf hci hli =>
      have hne := hd.ne_of_listener hnone hci hli
      obtain ⟨_, rfl⟩ := hd.closing_of_mem List.mem_cons_self
      rcases hf with hf | hf <;> cases hf
      cases ss with
      | nil => cases hss
      | cons s' ss =>
          rw [List.map_cons, List.cons.injEq, Frame.closing.injEq] at hss
          obtain ⟨rfl, hss⟩ := hss
          refine ⟨?_, ⟨ss, hss, ?_⟩, fun hall => ?_⟩
          · rw [FdMap.lookup_erase_eq, if_neg hne.symm]
            exact hd.client
          · rw [closings_append, ← hfds, List.map_cons, List.tail_cons]
          · -- it was closed by a call about another connection
            have hmem : s.fd ∈ closings us := by
              rw [← hfds, List.map_cons]
              exact List.mem_cons_self
            exact absurd (hall _ (List.mem_append_left _ (mem_closings hmem))) hne
  | retAccepting | retReading | retWriting | retTimingOut =>
      obtain ⟨s, hs⟩ := hd.closing_of_mem List.mem_cons_self
      cases hs
  | onError | onRead | onWrite | onTimeout | onAcceptNothing | onAccept => cases hc

end Dialing

/-- What a step can do where there is no listener `-1`. -/
inductive Moves (o : Outgoing) : UserCall → Outgoing → Prop
  | call {c : System.Call} {m : System} (hc : c.OfUser) (hret : c = .ret → o.system.stack ≠ [])
      (hm : o.system.step c = some m) : Moves o (.call c) ⟨m, o.pending⟩
  | returns {pending : List (List Frame)} (hidle : o.system.stack = []) :
    Moves o (.call .ret) ⟨⟨o.system.handler, [], some (listenerNotFound (-1))⟩, pending⟩
  | connect {k : Fd} (hclient : k ∉ o.system.handler.clientInfo)
      (hlisten : k ∉ o.system.handler.listenInfo) :
    Moves o (.addNewConn k true true)
      ⟨⟨o.system.handler.withNewConn (-1) k, [], none⟩, o.system.stack :: o.pending⟩
  | connectQuietly {k : Fd} {callback fcntlOk : Bool} {e : BaseException} {h : EventHandler}
      (hquiet : callback = false ∨ fcntlOk = false) (hclient : k ∉ o.system.handler.clientInfo)
      (hh : h.clientInfo = o.system.handler.clientInfo.insertNew k
        ⟨⟨o.system.handler.nextSession, k⟩, -1, [], []⟩) :
    Moves o (.addNewConn k callback fcntlOk) ⟨⟨h, [], some e⟩, o.pending⟩
  | throws {e : BaseException} :
    Moves o (.throws e) ⟨⟨o.system.handler, [], some e⟩, o.pending⟩

/-- Nothing is called after an exception. -/
theorem step_ok {u : UserCall} (hstep : o.step u = some o') : o.system.failed = none := by
  by_contra hfail
  cases u with
  | call c => simp [Outgoing.step, System.step, hfail] at hstep
  | addNewConn k callback fcntlOk => simp [Outgoing.step, hfail] at hstep
  | throws e => simp [Outgoing.step, hfail] at hstep

/-- A step without a listener `-1` does one of the things listed. -/
theorem step_moves (hli : o.system.handler.listenInfo.lookup (-1) = none) {u : UserCall}
    (hstep : o.step u = some o') : Moves o u o' := by
  have hok := step_ok hstep
  unfold Outgoing.step at hstep
  cases u with
  | call c =>
      simp only at hstep
      split at hstep
      case isTrue hret =>
        obtain ⟨-, hidle, rfl⟩ := hret
        unfold Outgoing.returns at hstep
        rw [countConn_error hli] at hstep
        split at hstep
        · cases hstep
        · cases hstep
          exact .returns hidle
      case isFalse hret =>
        split at hstep
        case isFalse => cases hstep
        case isTrue hc =>
          obtain ⟨m, hm, rfl⟩ := Option.map_eq_some_iff.mp hstep
          exact .call hc (fun heq hidle => hret ⟨hok, hidle, heq⟩) hm
  | addNewConn k callback fcntlOk =>
      simp only at hstep
      split at hstep
      case isFalse => cases hstep
      case isTrue hen =>
        obtain ⟨-, hclient, hlisten⟩ := hen
        by_cases hquiet : callback = false ∨ fcntlOk = false
        · obtain ⟨e, h, hrun, hh⟩ := addNewConnFd_error hli hquiet
          rw [hrun] at hstep
          cases hstep
          exact .connectQuietly hquiet hclient hh
        · simp only [not_or, Bool.not_eq_false] at hquiet
          obtain ⟨rfl, rfl⟩ := hquiet
          rw [addNewConnFd_true] at hstep
          cases hstep
          exact .connect hclient hlisten
  | throws e =>
      simp only [if_pos hok] at hstep
      cases hstep
      exact .throws

/-- A step that throws nothing. -/
theorem Dialing.step (hnone : (-1 : Fd) ∉ listenfds) (hd : Dialing listenfds fd h us o)
    {u : UserCall} (hstep : o.step u = some o') (hok : o'.system.failed = none) :
    Dialing listenfds fd h (us ++ [u]) o' := by
  cases step_moves (noListener hnone hd.attached) hstep with
  | call hc hret hm => exact hd.call hnone hc (step_effect hm hok).2 hok
  | @connect k hclient hlisten =>
      obtain ⟨hw, hr, ha⟩ := withNewConn_tables hd.wellFormed hd.recorded hd.attached
        hclient hlisten
      obtain ⟨ci, hci, hfd⟩ := hd.client
      have hne : fd ≠ k := by
        rintro rfl
        rw [AList.lookup_eq_none.mpr hclient] at hci
        cases hci
      refine ⟨rfl, hw, hr, ha, by simp, ⟨ci, ?_, hfd⟩, ⟨[], rfl, ?_⟩, fun hall => ?_⟩
      · rw [(lookup_withNewConn _ _ _ hne).1]
        exact hci
      · rw [closings_append]
        rfl
      · exact absurd (hall _ (List.mem_append_right _ (List.mem_singleton_self _))).symm hne
  | returns | connectQuietly | throws => cases hok

/-- A step that throws leaves the connection registered, unless it is the end
of its `OnCloseComplete`. -/
theorem Dialing.step_failed (hnone : (-1 : Fd) ∉ listenfds) (hd : Dialing listenfds fd h us o)
    {u : UserCall} (hstep : o.step u = some o') (hfail : o'.system.failed ≠ none) :
    (∃ ci, o'.system.handler.clientInfo.lookup fd = some ci) ∨
      u = .call .ret ∧ (closings us).head? = some fd := by
  obtain ⟨ci, hci, -⟩ := hd.client
  cases step_moves (noListener hnone hd.attached) hstep with
  | returns | throws => exact .inl ⟨ci, hci⟩
  | connect => exact absurd rfl hfail
  | @connectQuietly k _ _ _ t hquiet hclient ht =>
      have hne : fd ≠ k := by
        rintro rfl
        rw [AList.lookup_eq_none.mpr hclient] at hci
        cases hci
      refine .inl ⟨ci, ?_⟩
      rw [ht, FdMap.lookup_insertNew, if_neg hne]
      exact hci
  | @call c m hc hret hm =>
      by_cases heq : c = .ret
      case neg => exact .inl ⟨ci, by rw [clientInfo_of_failed hc heq hm hfail]; exact hci⟩
      subst heq
      obtain ⟨ss, hss, hfds⟩ := hd.stack
      cases ss with
      | nil => exact absurd hss (hret rfl)
      | cons s ss =>
          by_cases hs : s.fd = fd
          · refine .inr ⟨rfl, ?_⟩
            rw [← hfds, List.map_cons, List.head?_cons, hs]
          · have hm := step_ret_closing (.inl rfl) hss hm
            cases hclear : clearSessionAndBuffer s o.system.handler with
            | ok u t => rw [hm, hclear] at hfail; exact absurd rfl hfail
            | error e t =>
                rw [hclear] at hm
                refine .inl ⟨ci, ?_⟩
                rw [hm]
                obtain ⟨-, rfl⟩ | ⟨-, -, -, rfl⟩ := clearSessionAndBuffer_error hclear
                · exact hci
                · rw [FdMap.lookup_erase_eq, if_neg (Ne.symm hs)]
                  exact hci

/-- The end of its `OnCloseComplete` forgets the connection, and throws. -/
theorem Dialing.step_closed (hnone : (-1 : Fd) ∉ listenfds) (hd : Dialing listenfds fd h us o)
    (hbefore : System.Attached listenfds h) (hclient : h.clientInfo.lookup fd = none)
    (hrecord : h.demux.mapEvent.lookup fd = none) (hhead : (closings us).head? = some fd)
    (hstep : o.step (.call .ret) = some o') :
    AsWere fd (us ++ [.call .ret]) h o'.system.handler := by
  obtain ⟨ss, hss, hfds⟩ := hd.stack
  obtain ⟨ci, hci, hlisten⟩ := hd.client
  have hnolisten := noListener hnone hd.attached
  cases ss with
  | nil => rw [← hfds] at hhead; cases hhead
  | cons s ss =>
      rw [← hfds, List.map_cons, List.head?_cons, Option.some.injEq] at hhead
      subst hhead
      cases step_moves hnolisten hstep with
      | returns hidle => rw [hidle] at hss; cases hss
      | @call c m hc hret hm =>
          have hclear := clearSessionAndBuffer_of_noListener hci (by rw [hlisten]; exact hnolisten)
          obtain ⟨-, hunrecorded, -⟩ := hd.recorded.closing (.closing s)
            (by rw [hss]; exact List.mem_cons_self) s rfl
          have hm := step_ret_closing (.inl rfl) hss hm
          rw [hclear] at hm
          subst hm
          have hsame {k : Fd}
              (hcl : (AList.erase s.fd o.system.handler.clientInfo).lookup k =
                h.clientInfo.lookup k)
              (hrec : o.system.handler.demux.mapEvent.lookup k = h.demux.mapEvent.lookup k) :
              SameAt h { o.system.handler with
                clientInfo := AList.erase s.fd o.system.handler.clientInfo } k :=
            ⟨hcl, hrec, by rw [hd.attached.demux.agrees k, hrec, hbefore.demux.agrees k]⟩
          have hown := hsame (k := s.fd) (by rw [AList.lookup_erase, hclient])
            (by rw [hunrecorded, hrecord])
          refine ⟨hown, by rw [noListener hnone hbefore]; exact hnolisten, fun hall => ?_⟩
          obtain ⟨hlisteners, hothers⟩ :=
            hd.others fun u hu => hall u (List.mem_append_left _ hu)
          refine ⟨hlisteners, fun k => ?_⟩
          by_cases hk : k = s.fd
          · rw [hk]
            exact hown
          · refine hsame ?_ (hothers k hk).2
            rw [FdMap.lookup_erase_eq, if_neg hk, (hothers k hk).1]

/-- A run of the callback throws nothing, or with its last call only. -/
theorem Dialing.run (hnone : (-1 : Fd) ∉ listenfds) (hd : Dialing listenfds fd h [] o)
    (hrun : Machine.run Outgoing.step o us = some o') :
    Dialing listenfds fd h us o' ∨ ∃ vs u t, us = vs ++ [u] ∧ Dialing listenfds fd h vs t ∧
      t.step u = some o' ∧ o'.system.failed ≠ none := by
  induction us using List.reverseRecOn generalizing o' with
  | nil =>
      cases hrun
      exact .inl hd
  | append_singleton vs u ih =>
      obtain ⟨t, hvs, hstep⟩ := Machine.run_concat_eq_some.mp hrun
      rcases ih hvs with hdt | ⟨-, -, -, -, -, -, hfail⟩
      · by_cases hok : o'.system.failed = none
        · exact .inl (hdt.step hnone hstep hok)
        · exact .inr ⟨vs, u, t, rfl, hdt, hstep, hok⟩
      · exact absurd (step_ok hstep) hfail

/-- The callback starts. -/
theorem Dialing.start {m : System} (hw : WellFormed m) (hr : System.Recorded m)
    (ha : System.Attached listenfds m.handler) (hclient : fd ∉ m.handler.clientInfo)
    (hlisten : fd ∉ m.handler.listenInfo) {pending : List (List Frame)} :
    Dialing listenfds fd m.handler []
      ⟨⟨m.handler.withNewConn (-1) fd, [], none⟩, m.stack :: pending⟩ := by
  obtain ⟨hw', hr', ha'⟩ := withNewConn_tables hw hr ha hclient hlisten
  refine ⟨rfl, hw', hr', ha', by simp, ⟨⟨⟨m.handler.nextSession, fd⟩, -1, [], []⟩, ?_, rfl⟩,
    ⟨[], rfl, rfl⟩, fun _ => ⟨rfl, fun k hk => lookup_withNewConn _ _ _ hk⟩⟩
  rw [withNewConn, FdMap.lookup_insertNew, if_pos rfl, AList.lookup_eq_none.mpr hclient]
  rfl

end Dialing

/-- **`AddNewConn` of an outgoing connection is orderly only where its
callback has closed the connection.**  In every reached state, for every
descriptor that is not registered, and whatever the callback does:
`AddNewConn(fd, ip, port, callback)` returns a session that is served, or
throws and leaves the tables as they were, exactly if it makes its callback
and this ends with the return of the connection's `OnCloseComplete`.  The
listening sockets are open, so `-1` is none of them. -/
theorem orderly_iff {listenfdMaxconn : List (Fd × UInt32)} {m : System}
    {cs : List System.Call}
    (hrun : Machine.run System.step (System.init listenfdMaxconn) cs = some m)
    (hok : m.failed = none) (hopen : ∀ p ∈ listenfdMaxconn, 0 ≤ p.1) {fd : Fd}
    {callback fcntlOk : Bool} {us : List UserCall} {o : Outgoing}
    (hcall : Machine.run step ⟨m, []⟩ (.addNewConn fd callback fcntlOk :: us) = some o)
    (hover : o.Over) :
    o.Orderly m.handler fd us ↔ callback = true ∧ ClosedLast fd us := by
  obtain ⟨hw, hr, ha⟩ := tables_of_run hrun hok
  have hnone : (-1 : Fd) ∉ listenfdMaxconn.map (·.1) := by
    intro hmem
    obtain ⟨p, hp, heq⟩ := List.mem_map.mp hmem
    exact absurd (hopen p hp) (by rw [show p.1 = -1 from heq]; decide)
  obtain ⟨o₁, hfirst, hrest⟩ := Machine.run_cons_eq_some.mp hcall
  cases step_moves (o := ⟨m, []⟩) (noListener hnone ha) hfirst with
  | @connectQuietly _ _ _ e h hquiet hclient hh =>
      cases us with
      | cons u us =>
          obtain ⟨_, hnext, -⟩ := Machine.run_cons_eq_some.mp hrest
          cases step_ok hnext
      | nil =>
          cases hrest
          refine iff_of_false (fun horderly => ?_) fun hclosed => ?_
          case refine_2 =>
            obtain ⟨vs, hnil, -⟩ := hclosed.2
            simp at hnil
          have hsame := (show AsWere fd [] m.handler h from horderly).own.client
          rw [hh, FdMap.lookup_insertNew, if_pos rfl, AList.lookup_eq_none.mpr hclient] at hsame
          cases hsame
  | connect hclient hlisten =>
      have hnew := AList.lookup_eq_none.mpr hclient
      have hrecord := hr.lookup_eq_none hclient hlisten
      have hstart : Dialing (listenfdMaxconn.map (·.1)) fd m.handler []
          ⟨⟨m.handler.withNewConn (-1) fd, [], none⟩, [m.stack]⟩ :=
        .start hw hr ha hclient hlisten
      rcases hstart.run hnone hrest with hd | ⟨vs, u, t, rfl, hd, hstep, hfail⟩
      · cases hover with
        | inl hfail => exact absurd hd.ok hfail
        | inr hpending => exact absurd hpending hd.pending
      · obtain ⟨e, he⟩ := Option.ne_none_iff_exists'.mp hfail
        rw [Orderly, he, closedLast_append]
        simp only [true_and]
        constructor
        · intro hwere
          rcases hd.step_failed hnone hstep hfail with ⟨ci, hci⟩ | hclosed
          · rw [hwere.own.client, hnew] at hci
            cases hci
          · exact hclosed
        · rintro ⟨rfl, hhead⟩
          exact hd.step_closed hnone ha hnew hrecord hhead hstep

/-- `OnAcceptComplete` asks for a read, and then closes the connection. -/
theorem orderly_iff_closed : ∃ o,
    Machine.run step ⟨System.init [(3, 0)], []⟩ [.addNewConn 5 true true, .call (.asyncRead 5 4),
      .call (.asyncClose 5), .call .ret] = some o ∧
    o.Orderly (System.init [(3, 0)]).handler 5
      [.call (.asyncRead 5 4), .call (.asyncClose 5), .call .ret] := by
  have hcheck : (Machine.run step ⟨System.init [(3, 0)], []⟩ [.addNewConn 5 true true,
      .call (.asyncRead 5 4), .call (.asyncClose 5), .call .ret]).any
        fun o => o.Over := by decide +kernel
  obtain ⟨o, hrun, hover⟩ := (Option.any_eq_true _ _).mp hcheck
  have hinit : Machine.run System.step (System.init [(3, 0)]) [] =
      some (System.init [(3, 0)]) := rfl
  refine ⟨o, hrun, (orderly_iff hinit rfl (by simp) hrun (of_decide_eq_true hover)).mpr
    ⟨rfl, ?_⟩⟩
  exact ⟨[.call (.asyncRead 5 4), .call (.asyncClose 5)], rfl, rfl⟩

/-- A client of a server: `OnAcceptComplete` asks for a header and returns.
`AddNewConn` throws with the connection registered. -/
theorem not_orderly_header : ∃ o,
    Machine.run step ⟨System.init [(3, 0)], []⟩
      [.addNewConn 5 true true, .call (.asyncRead 5 4), .call .ret] = some o ∧ o.Over ∧
    ¬ o.Orderly (System.init [(3, 0)]).handler 5 [.call (.asyncRead 5 4), .call .ret] := by
  have hcheck : (Machine.run step ⟨System.init [(3, 0)], []⟩
      [.addNewConn 5 true true, .call (.asyncRead 5 4), .call .ret]).any
        fun o => o.Over ∧ o.system.failed = some (listenerNotFound (-1)) ∧
          (o.system.handler.clientInfo.lookup 5).isSome := by decide +kernel
  obtain ⟨o, hrun, hcheck⟩ := (Option.any_eq_true _ _).mp hcheck
  obtain ⟨hover, hfail, hsome⟩ := of_decide_eq_true hcheck
  refine ⟨o, hrun, hover, fun horderly => ?_⟩
  rw [Orderly, hfail] at horderly
  rw [horderly.own.client] at hsome
  cases hsome

end Outgoing

end CppFastDevelop
