import CppFastDevelop.NetServer.Attached
import CppFastDevelop.NetServer.EventLoop
import CppFastDevelop.NetServer.NotFound

/-!
# CppFastDevelop.NetServer.Delivery

Whom the events of a batch are delivered to.  The loop calls a handler for
each of them without looking whether the connection it was collected for is
still there, so an `AsyncClose` from a callback may leave an event of the
batch to nobody, or to whoever is accepted under the same descriptor.
-/

namespace CppFastDevelop

/-! ## one session -/

namespace System

/-- The session is registered and not being closed. -/
def Live (v : View) : Prop := v.client ≠ none ∧ ∀ f ∈ v.frames, f.closes? = none

/-- How many handlers are closing. -/
def closings (frames : List Frame) : Nat := frames.countP (·.closes?.isSome)

/-- The session is being closed at most once, and registered then. -/
def ClosedOnce (v : View) : Prop := closings v.frames ≤ if v.client.isSome then 1 else 0

/-- No closing is on the way when no frame of the stack closes anything. -/
theorem closings_eq_zero {frames : List Frame} :
    closings frames = 0 ↔ ∀ f ∈ frames, f.closes? = none := by
  simp [closings, List.countP_eq_zero]

@[simp] theorem closings_append (fs gs : List Frame) :
    closings (fs ++ gs) = closings fs + closings gs := List.countP_append

/-- A frame that closes a session is one closing more. -/
theorem closings_cons_of_some {f : Frame} {s : Session} (hf : f.closes? = some s)
    (fs : List Frame) : closings (f :: fs) = closings fs + 1 :=
  List.countP_cons_of_pos (by rw [hf]; rfl)

/-- A frame that closes nothing changes no count. -/
theorem closings_cons_of_none {f : Frame} (hf : f.closes? = none) (fs : List Frame) :
    closings (f :: fs) = closings fs :=
  List.countP_cons_of_neg (by rw [hf]; simp)

/-- A client stays in the record until a close or an error of its own descriptor. -/
theorem live_step {s : Session} {c : Call} {v v' : View} (hstep : SessionStep s c v v')
    (hc : c ≠ .asyncClose s.fd ∧ c ≠ .onClose s.fd ∧ c ≠ .onError s.fd) (hv : Live v) :
    Live v' := by
  obtain ⟨hclient, hframes⟩ := hv
  cases hstep with
  | same => exact ⟨hclient, hframes⟩
  | accept => exact absurd rfl hclient
  | asyncRead => exact ⟨by simp, hframes⟩
  | asyncWrite => exact ⟨by simp, hframes⟩
  | close hs hcall =>
      obtain rfl | ⟨rfl, -⟩ := hcall
      · exact absurd rfl hc.1
      · exact absurd rfl hc.2.1
  | onError => exact absurd rfl hc.2.2
  | @onRead ci mask history kernel p => exact ⟨by simp, closes_readFrames s p.complete⟩
  | @onWrite ci mask history kernel p => exact ⟨by simp, closes_writeFrames s p.complete⟩
  | retAccepting => exact ⟨hclient, fun f hf => hframes f (List.mem_cons_of_mem _ hf)⟩
  | @retReading client mask history frames rb rest =>
      refine ⟨hclient, fun f hf => ?_⟩
      cases List.mem_append.mp hf with
      | inl hf => exact closes_readFrames s rest f hf
      | inr hf => exact hframes f (List.mem_cons_of_mem _ hf)
  | @retWriting client mask history frames wb rest =>
      refine ⟨hclient, fun f hf => ?_⟩
      cases List.mem_append.mp hf with
      | inl hf => exact closes_writeFrames s rest f hf
      | inr hf => exact hframes f (List.mem_cons_of_mem _ hf)
  | retClosing hf =>
      rw [hframes _ List.mem_cons_self] at hf
      cases hf

/-- A session has one closing on the way at most, over every step that closes it once. -/
theorem closedOnce_step {s : Session} {c : Call} {v v' : View} (hstep : SessionStep s c v v')
    (hc : c = .asyncClose s.fd → v.client ≠ none → ∀ f ∈ v.frames, f.closes? = none)
    (hv : ClosedOnce v) : ClosedOnce v' := by
  unfold ClosedOnce at hv ⊢
  cases hstep with
  | same => exact hv
  | accept => exact Nat.zero_le _
  | asyncRead => exact hv
  | asyncWrite => exact hv
  | @close ci mask history frames c hs hcall =>
      have hidle : closings frames = 0 := by
        obtain rfl | ⟨-, rfl⟩ := hcall
        · exact closings_eq_zero.mpr (hc rfl (by simp))
        · rfl
      dsimp only
      rw [closings_cons_of_some rfl, hidle]
      exact Nat.le_refl 1
  | onError => exact Nat.le_refl 1
  | @onRead ci mask history kernel p =>
      dsimp only
      rw [closings_eq_zero.mpr (closes_readFrames s p.complete)]
      exact Nat.zero_le _
  | @onWrite ci mask history kernel p =>
      dsimp only
      rw [closings_eq_zero.mpr (closes_writeFrames s p.complete)]
      exact Nat.zero_le _
  | retAccepting =>
      dsimp only at hv
      rwa [closings_cons_of_none rfl] at hv
  | @retReading client mask history frames rb rest =>
      dsimp only at hv ⊢
      rw [closings_cons_of_none rfl] at hv
      rw [closings_append, closings_eq_zero.mpr (closes_readFrames s rest), Nat.zero_add]
      exact hv
  | @retWriting client mask history frames wb rest =>
      dsimp only at hv ⊢
      rw [closings_cons_of_none rfl] at hv
      rw [closings_append, closings_eq_zero.mpr (closes_writeFrames s rest), Nat.zero_add]
      exact hv
  | retClosing hf =>
      dsimp only at hv
      rw [closings_cons_of_some hf] at hv
      exact Nat.le_of_succ_le_succ hv

/-- The session a frame closes is the session the frame belongs to. -/
theorem session_of_closes {f : Frame} {s : Session} (hf : f.closes? = some s) :
    f.session? = some s := by
  cases f with
  | closing t => exact hf
  | erroring t => exact hf
  | accepting | reading | writing | timingOut => cases hf

/-- Who is being closed is registered. -/
theorem registered_of_closing {m : System} {s : Session} {f : Frame}
    (hm : ClosedOnce (m.view s)) (hf : f ∈ m.stack) (hs : f.closes? = some s) :
    s.fd ∈ m.handler.clientInfo := by
  have hmem : f ∈ (m.view s).frames :=
    List.mem_filter.mpr ⟨hf, decide_eq_true (session_of_closes hs)⟩
  have hclosing : closings (m.view s).frames ≠ 0 := fun hzero => by
    rw [closings_eq_zero.mp hzero f hmem] at hs
    cases hs
  unfold ClosedOnce at hm
  split at hm
  · next hsome =>
      obtain ⟨ci, hci⟩ := Option.isSome_iff_exists.mp hsome
      exact FdMap.mem_of_lookup (client_eq_some.mp hci).1
  · omega

end System

/-! ## one batch -/

namespace EventLoop

open EventHandler CppFastDevelop.System

/-- Nothing follows a `CFEV_CLOSE` or `CFEV_ERROR` of the same descriptor. -/
def InOrder (events : List PendingEvent) : Prop :=
  events.Pairwise fun e e' => e.fd = e'.fd → e.ev = .CFEV_READ ∨ e.ev = .CFEV_WRITE

/-- The session an event was collected for is live. -/
def Held (m : System) (e : PendingEvent) : Prop :=
  e.ev ≠ .CFEV_ACCEPT → ∃ s, e.heldBy = some s ∧ s.fd = e.fd ∧ Live (m.view s)

/-- In the batch made of one answer nothing follows the CLOSE or ERROR of a descriptor. -/
theorem inOrder_batch (m : System) (d : Epoll) {ret : List (Fd × cf_ev)}
    (hnodup : (ret.map Prod.fst).Nodup) : InOrder (batch m (ret.flatMap d.expand)) := by
  rw [InOrder, batch, List.pairwise_map, List.pairwise_flatMap]
  constructor
  · intro r _
    refine List.Pairwise.imp ?_ (d.pairwise_expand r)
    intro p p' hlast _
    exact hlast
  · refine (List.pairwise_map.mp hnodup).imp ?_
    intro r r' hne p hp p' hp' heq
    rw [Epoll.fd_of_mem_expand hp, Epoll.fd_of_mem_expand hp'] at heq
    exact absurd heq hne

/-- When a batch is collected the session of each of its events is live. -/
theorem held_batch {listenfds : List Fd} {m : System} (hw : WellFormed m)
    (hr : System.Recorded m) (ha : Attached listenfds m.handler) (hidle : m.stack = [])
    {ret : List (Fd × cf_ev)}
    (hret : ∀ r ∈ ret, r.1 ∈ m.handler.demux.interest) :
    ∀ e ∈ batch m (ret.flatMap m.handler.demux.expand), Held m e := by
  intro e he hev
  obtain ⟨p, hp, rfl⟩ := List.mem_map.mp he
  obtain ⟨r, hr', hp⟩ := List.mem_flatMap.mp hp
  have hfd := Epoll.fd_of_mem_expand hp
  have hmem : r.1 ∈ m.handler.clientInfo :=
    ha.mem_clientInfo hr (hret r hr') (Epoll.not_mem_listenfds_of_mem_expand hp hev)
  obtain ⟨ci, hci⟩ := FdMap.mem_iff_exists.mp hmem
  refine ⟨ci.session, ?_, ?_, ?_, ?_⟩
  · rw [holder, hfd, hci]
    rfl
  · rw [hfd]
    exact (hw.client _ ci hci).1
  · rw [(view_client hw hci).1]
    simp
  · simp [view, hidle]

/-- Who an event was collected for holds its descriptor. -/
theorem Held.holder {m : System} {e : PendingEvent} (h : Held m e)
    (hev : e.ev ≠ .CFEV_ACCEPT) :
    e.fd ∈ m.handler.clientInfo ∧ ∃ s, e.heldBy = some s ∧ holder m e.fd = some s := by
  obtain ⟨s, hs, hfd, hclient, -⟩ := h hev
  obtain ⟨ci, hci⟩ := Option.ne_none_iff_exists'.mp hclient
  obtain ⟨hlookup, hsession⟩ := client_eq_some.mp hci
  rw [hfd] at hlookup
  constructor
  · exact FdMap.mem_of_lookup hlookup
  · refine ⟨s, hs, ?_⟩
    rw [EventLoop.holder, hlookup, Option.map_some, hsession]

/-! ## the handler of an event -/

/-- The loop itself never asks for a close. -/
theorem handlerOf_ne_asyncClose (e : PendingEvent) (answers : Answers) (fd : Fd) :
    handlerOf e answers ≠ .asyncClose fd := by
  obtain ⟨fd', ev, heldBy⟩ := e
  cases ev <;> simp [handlerOf]

/-- The handler of a `CFEV_READ` or `CFEV_WRITE` closes nobody, and no
handler closes another descriptor than its own. -/
theorem handlerOf_ne_close {e : PendingEvent} {fd : Fd} (answers : Answers)
    (h : e.fd = fd → e.ev = .CFEV_READ ∨ e.ev = .CFEV_WRITE) :
    handlerOf e answers ≠ .onClose fd ∧ handlerOf e answers ≠ .onError fd := by
  obtain ⟨fd', ev, heldBy⟩ := e
  cases ev with
  | CFEV_ACCEPT => simp [handlerOf]
  | CFEV_READ => simp [handlerOf]
  | CFEV_WRITE => simp [handlerOf]
  | CFEV_CLOSE =>
      refine ⟨fun heq => ?_, by simp [handlerOf]⟩
      simp only [handlerOf, System.Call.onClose.injEq] at heq
      simpa using h heq
  | CFEV_ERROR =>
      refine ⟨by simp [handlerOf], fun heq => ?_⟩
      simp only [handlerOf, System.Call.onError.injEq] at heq
      simpa using h heq

/-- The handler of an event finds its client where the record holds the descriptor. -/
theorem found_handlerOf {m : System} {e : PendingEvent} (answers : Answers)
    (h : e.ev ≠ .CFEV_ACCEPT → e.fd ∈ m.handler.clientInfo) :
    m.Found (handlerOf e answers) := by
  obtain ⟨fd, ev, heldBy⟩ := e
  cases ev with
  | CFEV_ACCEPT => trivial
  | CFEV_READ => exact h (by simp)
  | CFEV_WRITE => exact h (by simp)
  | CFEV_CLOSE => exact h (by simp)
  | CFEV_ERROR => exact h (by simp)

/-! ## over a run -/

/-- Every event is delivered to the session it was collected for, and
`GetClientInfo` has not failed. -/
structure Faithful (l : EventLoop) : Prop where
  delivered : ∀ d ∈ l.deliveries, d.event.ev ≠ .CFEV_ACCEPT →
    ∃ s, d.event.heldBy = some s ∧ d.servedTo = some s
  found : ∀ fd, l.system.failed ≠ some (clientNotFound fd)

/-- `AsyncClose` is not called for a descriptor that a later event of the
batch names, nor for a session that is being closed. -/
def ClosesUnnamed (l : EventLoop) : Action → Prop
  | .user (.asyncClose fd) => (∀ e ∈ l.vecEvent, e.fd ≠ fd) ∧
      ∀ ci ∈ l.system.handler.clientInfo.lookup fd,
        ∀ f ∈ l.system.stack, f.closes? ≠ some ci.session
  | _ => True

instance (l : EventLoop) : DecidablePred l.ClosesUnnamed
  | .user (.asyncClose fd) => inferInstanceAs (Decidable ((∀ e ∈ l.vecEvent, e.fd ≠ fd) ∧
      ∀ ci ∈ l.system.handler.clientInfo.lookup fd,
        ∀ f ∈ l.system.stack, f.closes? ≠ some ci.session))
  | .waitEvent _ | .dispatch _ => inferInstanceAs (Decidable True)
  | .user (.onAccept _ _) | .user (.onRead _ _) | .user (.onWrite _ _) | .user (.onClose _)
  | .user (.onError _) | .user .onTimeout | .user (.asyncRead _ _) | .user (.asyncWrite _ _ _)
  | .user .ret => inferInstanceAs (Decidable True)

/-- A loop in which nothing was thrown. -/
structure Current (listenfdMaxconn : List (Fd × UInt32)) (l : EventLoop) : Prop where
  reached : Reached listenfdMaxconn l.system
  closedOnce : ∀ s, ClosedOnce (l.system.view s)
  held : ∀ e ∈ l.vecEvent, Held l.system e
  inOrder : InOrder l.vecEvent

section Current

variable {listenfdMaxconn : List (Fd × UInt32)} {l : EventLoop} {m : System} {c : System.Call}

/-- A call, after which the events of `rest` are still to come. -/
theorem Current.call (hl : Current listenfdMaxconn l) (hcall : l.system.step c = some m)
    (hok : m.failed = none) {rest : List PendingEvent} (hrest : rest.Sublist l.vecEvent)
    (deliveries : List Delivery)
    (hclose : ∀ fd, c = .asyncClose fd → ∀ ci ∈ l.system.handler.clientInfo.lookup fd,
      ∀ f ∈ l.system.stack, f.closes? ≠ some ci.session)
    (hkeep : ∀ e ∈ rest, c ≠ .asyncClose e.fd ∧ c ≠ .onClose e.fd ∧ c ≠ .onError e.fd) :
    Current listenfdMaxconn ⟨m, rest, deliveries⟩ := by
  obtain ⟨hfree, heff⟩ := System.step_effect hcall hok
  obtain ⟨cs, hcs⟩ := hl.reached
  obtain ⟨hw, hr, -⟩ := tables_of_run hcs hfree
  refine ⟨hl.reached.call hcall, fun s => ?_, fun e he hev => ?_, hl.inOrder.sublist hrest⟩
  · refine closedOnce_step (session_step heff hw hr s) ?_ (hl.closedOnce s)
    intro hc hclient f hf
    obtain ⟨ci, hci⟩ := Option.ne_none_iff_exists'.mp hclient
    obtain ⟨hlookup, hsession⟩ := client_eq_some.mp hci
    obtain ⟨hmem, hfs⟩ := List.mem_filter.mp hf
    have hfs := of_decide_eq_true hfs
    cases hcl : f.closes? with
    | none => rfl
    | some t =>
        rw [session_of_closes hcl, Option.some.injEq] at hfs
        refine absurd ?_ (hclose s.fd hc ci hlookup f hmem)
        rw [hcl, hsession, hfs]
  · obtain ⟨s, hs, hfd, hlive⟩ := hl.held e (hrest.subset he) hev
    refine ⟨s, hs, hfd, live_step (session_step heff hw hr s) ?_ hlive⟩
    rw [hfd]
    exact hkeep e he

/-- What a callback does finds its clients. -/
theorem Current.found (hl : Current listenfdMaxconn l) (hfrom : FromCallback c) :
    l.system.Found c := by
  cases c with
  | onRead | onWrite | onClose | onError => exact absurd hfrom id
  | onAccept | onTimeout | asyncRead | asyncWrite | asyncClose => trivial
  | ret =>
      intro f hf s hs
      exact registered_of_closing (hl.closedOnce s) (List.mem_of_head? hf) hs

end Current

/-- The state of a run. -/
structure Kept (listenfdMaxconn : List (Fd × UInt32)) (l : EventLoop) : Prop where
  current : l.system.failed = none → Current listenfdMaxconn l
  faithful : Faithful l

/-- At the beginning nothing is pending and nothing has failed. -/
theorem kept_init (listenfdMaxconn : List (Fd × UInt32)) :
    Kept listenfdMaxconn (init listenfdMaxconn) := by
  refine ⟨fun _ => ⟨⟨[], rfl⟩, fun s => ?_, by simp [init], .nil⟩, by simp [init], ?_⟩
  · show ClosedOnce ((System.init listenfdMaxconn).view s)
    rw [view_init]
    exact Nat.zero_le _
  · exact fun fd hfailed => by cases hfailed

/-- After an exception the loop takes no step. -/
theorem failed_of_step {m m' : System} {c : System.Call} (hstep : m.step c = some m') :
    m.failed = none := by
  unfold System.step at hstep
  split at hstep
  · next hen => exact hen.1
  · cases hstep

/-- A step that closes nothing which is still pending keeps the loop in order. -/
theorem kept_step {listenfdMaxconn : List (Fd × UInt32)} {l l' : EventLoop} {a : Action}
    (hc : l.ClosesUnnamed a) (hstep : l.step a = some l') (hl : Kept listenfdMaxconn l) :
    Kept listenfdMaxconn l' := by
  cases step_effect hstep with
  | failed =>
      refine ⟨fun hok => (by cases hok), hl.faithful.delivered, fun fd heq => ?_⟩
      cases Option.some.inj heq
  | @collected ret hfree hidle hreturns =>
      have hcur := hl.current hfree
      obtain ⟨cs, hcs⟩ := hcur.reached
      obtain ⟨hw, hr, ha⟩ := tables_of_run hcs hfree
      obtain ⟨hnodup, hwatched⟩ := hreturns ret rfl
      exact ⟨fun _ => ⟨hcur.reached, hcur.closedOnce, held_batch hw hr ha hidle hwatched,
        inOrder_batch _ _ hnodup⟩, hl.faithful.delivered, hl.faithful.found⟩
  | timeout hcall =>
      have hcur := hl.current (failed_of_step hcall)
      refine ⟨fun hok => ?_, hl.faithful.delivered, step_found hcall trivial⟩
      exact hcur.call hcall hok (.refl _) _ (by simp) (by simp)
  | @dispatched answers e rest m hvec hcall =>
      have hcur := hl.current (failed_of_step hcall)
      have hmem : e ∈ l.vecEvent := hvec ▸ List.mem_cons_self
      have horder := hcur.inOrder
      rw [InOrder, hvec, List.pairwise_cons] at horder
      have hheld := hcur.held e hmem
      refine ⟨fun hok => ?_, ?_, ?_⟩
      · refine hcur.call hcall hok (hvec ▸ List.sublist_cons_self e rest) _ (fun fd hfd => ?_)
          (fun e' he' => ?_)
        · exact absurd hfd (handlerOf_ne_asyncClose e answers fd)
        · exact ⟨handlerOf_ne_asyncClose e answers e'.fd,
            handlerOf_ne_close answers (horder.1 e' he')⟩
      · intro d hd hev
        cases List.mem_append.mp hd with
        | inl hd => exact hl.faithful.delivered d hd hev
        | inr hd =>
            cases List.mem_singleton.mp hd
            exact (hheld.holder hev).2
      · exact step_found hcall (found_handlerOf answers fun hev => (hheld.holder hev).1)
  | @user c m hfrom hcall =>
      have hcur := hl.current (failed_of_step hcall)
      refine ⟨fun hok => ?_, hl.faithful.delivered, step_found hcall (hcur.found hfrom)⟩
      refine hcur.call hcall hok (.refl _) _ ?_ ?_
      · rintro fd rfl
        exact hc.2
      · intro e he
        refine ⟨?_, ?_, ?_⟩
        · rintro rfl
          exact hc.1 e he rfl
        · rintro rfl
          exact hfrom
        · rintro rfl
          exact hfrom

/-- **Every event of a batch reaches the connection it was collected for**,
and `GetClientInfo` never fails, in every run in which `AsyncClose` is only
called for descriptors that no later event of the batch names and for
sessions that are not being closed. -/
theorem faithful_of_closesUnnamed {listenfdMaxconn : List (Fd × UInt32)} {l : EventLoop}
    {acts : List Action} (hclose : Machine.Along step ClosesUnnamed (init listenfdMaxconn) acts)
    (hrun : Machine.run step (init listenfdMaxconn) acts = some l) : Faithful l :=
  (Machine.run_invariant_along (Kept listenfdMaxconn)
    (fun _ _ _ hc hstep hl => kept_step hc hstep hl) hclose hrun (kept_init _)).faithful

/-- Two clients are accepted; while a read of the first is reported, the
second is closed, which the batch does not name. -/
def closeUnnamed : List Action :=
  [.waitEvent (some [(3, EPOLLIN)]), .dispatch ⟨[5, 6], [], []⟩, .user (.asyncRead 5 1),
    .user .ret, .user .ret, .waitEvent (some [(5, EPOLLIN ||| EPOLLRDHUP)]),
    .dispatch ⟨[], [.data [1]], []⟩, .user (.asyncClose 6), .user .ret, .user .ret,
    .dispatch ⟨[], [], []⟩, .user .ret]

/-- A close of a descriptor that the batch does not name leaves the loop faithful. -/
theorem faithful_closeUnnamed :
    ∃ l, Machine.run step (init [(3, 0)]) closeUnnamed = some l ∧ Faithful l := by
  have hrun : (Machine.run step (init [(3, 0)]) closeUnnamed).isSome := by decide +kernel
  obtain ⟨l, hl⟩ := Option.isSome_iff_exists.mp hrun
  exact ⟨l, hl, faithful_of_closesUnnamed (by decide +kernel) hl⟩

/-- A client has sent a byte and shut down; while the byte is reported, it
is closed. -/
def closeNamed : List Action :=
  [.waitEvent (some [(3, EPOLLIN)]), .dispatch ⟨[5], [], []⟩, .user (.asyncRead 5 1),
    .user .ret, .waitEvent (some [(5, EPOLLIN ||| EPOLLRDHUP)]),
    .dispatch ⟨[], [.data [1]], []⟩, .user (.asyncClose 5), .user .ret, .user .ret,
    .dispatch ⟨[], [], []⟩]

/-- `GetClientInfo` fails for the `CFEV_CLOSE` of a client that was closed
earlier in the batch. -/
theorem close_of_closed_client :
    ¬ ∀ (listenfdMaxconn : List (Fd × UInt32)) (l : EventLoop) (acts : List Action),
      Machine.run step (init listenfdMaxconn) acts = some l → Faithful l := by
  intro h
  have hrun : ((Machine.run step (init [(3, 0)]) closeNamed).filter
      fun l => l.system.failed = some (clientNotFound 5)).isSome := by decide +kernel
  obtain ⟨l, hl⟩ := Option.isSome_iff_exists.mp hrun
  obtain ⟨hl, hfailed⟩ := Option.filter_eq_some_iff.mp hl
  exact (h [(3, 0)] l closeNamed hl).found 5 (of_decide_eq_true hfailed)

/-- A client is closed while a read of another is reported, and its
descriptor is accepted again; then its own read event is served to the
newcomer. -/
example : (Machine.run step (init [(3, 0)])
    [.waitEvent (some [(3, EPOLLIN)]), .dispatch ⟨[5, 6], [], []⟩, .user (.asyncRead 5 1),
      .user .ret, .user (.asyncRead 6 1), .user .ret,
      .waitEvent (some [(6, EPOLLIN), (3, EPOLLIN), (5, EPOLLIN)]),
      .dispatch ⟨[], [.data [1]], []⟩, .user (.asyncClose 5), .user .ret, .user .ret,
      .dispatch ⟨[5], [], []⟩, .user .ret, .dispatch ⟨[], [], []⟩]).map
    (fun l => l.deliveries.getLast?) =
    some (some ⟨⟨5, .CFEV_READ, some ⟨0, 5⟩⟩, some ⟨2, 5⟩⟩) := by decide +kernel

end EventLoop

end CppFastDevelop
