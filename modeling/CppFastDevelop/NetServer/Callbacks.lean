import CppFastDevelop.NetServer.View

/-!
# CppFastDevelop.NetServer.Callbacks

The order in which the callbacks of one session come.  A handler that has
completed several buffers reports them one by one, and `OnClose` keeps its
session registered until `OnCloseComplete` has returned; neither looks
whether the user closes the session meanwhile.
-/

namespace CppFastDevelop

/-! ## the callbacks of a session -/

inductive Callback
  | onAcceptComplete
  | onReadComplete
  | onWriteComplete
  | onCloseComplete
  | onErrorComplete
  deriving DecidableEq, Repr

def Event.callback? : Event → Option Callback
  | .onAcceptComplete _ _ => some .onAcceptComplete
  | .onReadComplete _ _ => some .onReadComplete
  | .onWriteComplete _ => some .onWriteComplete
  | .onCloseComplete _ => some .onCloseComplete
  | .onErrorComplete _ => some .onErrorComplete
  | _ => none

/-- The callbacks of a history, in order. -/
def callbacks (history : List Event) : List Callback := history.filterMap Event.callback?

@[simp] theorem callbacks_append (xs ys : List Event) :
    callbacks (xs ++ ys) = callbacks xs ++ callbacks ys := List.filterMap_append

/-- A session that is accepted and in use. -/
def OpenTrace (cs : List Callback) : Prop :=
  ∃ io, cs = .onAcceptComplete :: io ∧ ∀ c ∈ io, c = .onReadComplete ∨ c = .onWriteComplete

/-- `OnAcceptComplete`, then any number of `OnReadComplete` and
`OnWriteComplete`, then at most one of `OnCloseComplete` and
`OnErrorComplete`. -/
def SessionTrace (cs : List Callback) : Prop :=
  ∃ io last, cs = .onAcceptComplete :: io ++ last ∧
    (∀ c ∈ io, c = .onReadComplete ∨ c = .onWriteComplete) ∧
    (last = [] ∨ last = [.onCloseComplete] ∨ last = [.onErrorComplete])

/-- The accept alone is an open trace. -/
theorem OpenTrace.accept : OpenTrace [.onAcceptComplete] := ⟨[], rfl, by simp⟩

/-- An open trace stays open while reads and writes complete. -/
theorem OpenTrace.append {cs io : List Callback} (h : OpenTrace cs)
    (hio : ∀ c ∈ io, c = .onReadComplete ∨ c = .onWriteComplete) : OpenTrace (cs ++ io) := by
  obtain ⟨io', rfl, hio'⟩ := h
  refine ⟨io' ++ io, rfl, fun c hc => ?_⟩
  cases List.mem_append.mp hc with
  | inl hc => exact hio' c hc
  | inr hc => exact hio c hc

/-- An open trace followed by at most one closing callback is a whole session. -/
theorem OpenTrace.sessionTrace {cs last : List Callback} (h : OpenTrace cs)
    (hlast : last = [] ∨ last = [.onCloseComplete] ∨ last = [.onErrorComplete]) :
    SessionTrace (cs ++ last) := by
  obtain ⟨io, rfl, hio⟩ := h
  exact ⟨io, last, rfl, hio, hlast⟩

/-- The frame has more buffers to report, or closes its session. -/
def Frame.Busy : Frame → Prop
  | .reading _ _ rest | .writing _ _ rest => rest ≠ []
  | .closing _ | .erroring _ => True
  | .accepting _ _ _ | .timingOut => False

namespace System

open EventHandler Exec

/-! ## one call -/

/-- What is known of a session's callbacks: they are in order so far, the
session is in use while it is registered and not being closed, and so it is
while completed buffers have yet to be reported. -/
structure TraceKept (v : View) : Prop where
  order : callbacks v.history = [] ∨ SessionTrace (callbacks v.history)
  registered : v.client ≠ none → (∀ f ∈ v.frames, f.closes? = none) →
    OpenTrace (callbacks v.history)
  owing : ∀ f ∈ v.frames, f.closes? = none → f.Busy → OpenTrace (callbacks v.history)

/-- While the session is open nothing else is asked of its trace. -/
theorem TraceKept.of_open {v : View} (h : OpenTrace (callbacks v.history)) : TraceKept v := by
  refine ⟨.inr ?_, fun _ _ => h, fun _ _ _ _ => h⟩
  have hsession := h.sessionTrace (.inl rfl)
  rwa [List.append_nil] at hsession

/-- Completed reads run nothing but read callbacks. -/
theorem callbacks_readEvents (s : Session) (bs : List ReadBuffer) :
    ∀ c ∈ callbacks (readEvents s bs), c = .onReadComplete ∨ c = .onWriteComplete := by
  cases bs <;> simp [readEvents, callbacks, Event.callback?]

/-- Completed writes run nothing but write callbacks. -/
theorem callbacks_writeEvents (s : Session) (bs : List WriteBuffer) :
    ∀ c ∈ callbacks (writeEvents s bs), c = .onReadComplete ∨ c = .onWriteComplete := by
  cases bs <;> simp [writeEvents, callbacks, Event.callback?]

/-- The last frame of a session is removed or returns without a callback. -/
theorem TraceKept.pop {client : Option ClientInfo} {mask : Option cf_ev}
    {history : List Event} {frames : List Frame} {f : Frame}
    (hv : TraceKept ⟨client, mask, history, f :: frames⟩) (hf : f.closes? = none) :
    TraceKept ⟨client, mask, history, frames⟩ := by
  refine ⟨hv.order, fun hclient hframes => hv.registered hclient fun g hg => ?_,
    fun g hg => hv.owing g (List.mem_cons_of_mem f hg)⟩
  cases List.mem_cons.mp hg with
  | inl heq => rw [heq, hf]
  | inr hg => exact hframes g hg

/-- Events that are no callbacks, and a client that stays as it was. -/
theorem TraceKept.append {client client' : Option ClientInfo} {mask mask' : Option cf_ev}
    {history es : List Event} {frames : List Frame}
    (hv : TraceKept ⟨client, mask, history, frames⟩) (hes : callbacks es = [])
    (hclient : client ≠ none) : TraceKept ⟨client', mask', history ++ es, frames⟩ := by
  have hsame : callbacks (history ++ es) = callbacks history := by
    rw [callbacks_append, hes, List.append_nil]
  refine ⟨?_, fun _ hframes => ?_, fun f hf hcl hbusy => ?_⟩
  · rw [hsame]
    exact hv.order
  · rw [hsame]
    exact hv.registered hclient hframes
  · rw [hsame]
    exact hv.owing f hf hcl hbusy

/-- The trace of a session keeps its shape over a step that closes no busy connection. -/
theorem traceKept_step {s : Session} {c : Call} {v v' : View}
    (hc : c = .asyncClose s.fd → v.client ≠ none → ∀ f ∈ v.frames, ¬ f.Busy)
    (hstep : SessionStep s c v v') (hv : TraceKept v) : TraceKept v' := by
  cases hstep with
  | same => exact hv
  | accept => exact .of_open .accept
  | asyncRead => exact hv.append rfl (by simp)
  | asyncWrite => exact hv.append rfl (by simp)
  | @close ci mask history frames c hs hcall =>
      have hidle : ∀ f ∈ frames, ¬ f.Busy := by
        obtain rfl | ⟨-, rfl⟩ := hcall
        · exact hc rfl (by simp)
        · simp
      have hopen : OpenTrace (callbacks history) := by
        refine hv.registered (by simp) fun f hf => ?_
        cases f with
        | closing t => exact absurd trivial (hidle _ hf)
        | erroring t => exact absurd trivial (hidle _ hf)
        | accepting | reading | writing | timingOut => rfl
      refine ⟨.inr ?_, fun _ hframes => ?_, fun f hf hcl hbusy => ?_⟩
      · exact callbacks_append history _ ▸ hopen.sessionTrace (.inr (.inl rfl))
      · exact absurd (hframes _ List.mem_cons_self) (by simp [Frame.closes?])
      · cases List.mem_cons.mp hf with
        | inl heq => rw [heq] at hcl; cases hcl
        | inr hf => exact absurd hbusy (hidle f hf)
  | @onError ci mask history hs =>
      have hopen := hv.registered (by simp) (by simp)
      refine ⟨.inr ?_, fun _ hframes => ?_, fun f hf hcl hbusy => ?_⟩
      · exact callbacks_append history _ ▸ hopen.sessionTrace (.inr (.inr rfl))
      · exact absurd (hframes _ List.mem_cons_self) (by simp [Frame.closes?])
      · rw [List.mem_singleton.mp hf] at hcl
        cases hcl
  | @onRead ci mask history kernel p hs hp hok =>
      have hopen := hv.registered (by simp) (by simp)
      refine .of_open ?_
      have hquiet : callbacks (history ++ [.received s p.moved] ++
          (if p.ended then [.endOfStream s] else [])) = callbacks history := by
        split <;> simp [callbacks, Event.callback?]
      rw [callbacks_append, hquiet]
      exact hopen.append (callbacks_readEvents s p.complete)
  | @onWrite ci mask history kernel p hs hp hok =>
      have hopen := hv.registered (by simp) (by simp)
      refine .of_open ?_
      have hquiet : callbacks (history ++ [.sent s p.moved]) = callbacks history := by
        simp [callbacks, Event.callback?]
      rw [callbacks_append, hquiet]
      exact hopen.append (callbacks_writeEvents s p.complete)
  | retAccepting => exact hv.pop rfl
  | @retReading client mask history frames rb rest =>
      cases rest with
      | nil =>
          have hpop := hv.pop rfl
          simpa [readEvents, readFrames] using hpop
      | cons r rest =>
          refine .of_open ?_
          have hopen := hv.owing _ List.mem_cons_self rfl (by simp [Frame.Busy])
          exact callbacks_append history _ ▸ hopen.append (callbacks_readEvents s (r :: rest))
  | @retWriting client mask history frames wb rest =>
      cases rest with
      | nil =>
          have hpop := hv.pop rfl
          simpa [writeEvents, writeFrames] using hpop
      | cons w rest =>
          refine .of_open ?_
          have hopen := hv.owing _ List.mem_cons_self rfl (by simp [Frame.Busy])
          exact callbacks_append history _ ▸ hopen.append (callbacks_writeEvents s (w :: rest))
  | retClosing hf =>
      exact ⟨hv.order, fun hclient => absurd rfl hclient,
        fun g hg => hv.owing g (List.mem_cons_of_mem _ hg)⟩

end System

/-! ## calls that throw -/

/-- The events of a trace that are callbacks. -/
def callbackEvents (trace : List Event) : List Event := trace.filter (·.callback?.isSome)

/-- The callbacks of any part of a trace are among them. -/
theorem callbacks_filter (p : Event → Bool) (trace : List Event) :
    callbacks (trace.filter p) = callbacks ((callbackEvents trace).filter p) := by
  induction trace with
  | nil => rfl
  | cons e trace ih =>
      have hcons (xs : List Event) : callbacks (e :: xs) = callbacks [e] ++ callbacks xs :=
        callbacks_append [e] xs
      cases he : e.callback? with
      | none =>
          have hskip : callbackEvents (e :: trace) = callbackEvents trace := by
            simp [callbackEvents, he]
          have hnone : callbacks [e] = [] := by simp [callbacks, he]
          rw [hskip, List.filter_cons, ← ih]
          split
          · rw [hcons, hnone, List.nil_append]
          · rfl
      | some c =>
          have hkeep : callbackEvents (e :: trace) = e :: callbackEvents trace := by
            simp [callbackEvents, he]
          rw [hkeep, List.filter_cons, List.filter_cons]
          split
          · rw [hcons, ih, ← hcons]
          · exact ih

namespace EventHandler

open Exec

/-- No callback is made. -/
abbrev Silent {α : Type} (op : HandlerM α) : Prop :=
  Exec.Keeps (fun h => callbackEvents h.trace) op

/-- No callback is made on the way to an exception. -/
abbrev Quiet {α : Type} (op : HandlerM α) : Prop :=
  KeepsOnThrow (fun h => callbackEvents h.trace) op

/-- Looking a client up runs no callback. -/
theorem silent_getClientInfo (fd : Fd) (b : Bool) : Silent (getClientInfo fd b) := by
  intro h
  cases b with
  | false => rw [getClientInfo_apply]; cases h.clientInfo.lookup fd <;> rfl
  | true => rw [getClientInfo_erase_apply]; cases h.clientInfo.lookup fd <;> rfl

theorem silent_getListenInfo (listenfd : Fd) : Silent (getListenInfo listenfd) := by
  intro h
  rw [getListenInfo_apply]
  cases h.listenInfo.lookup listenfd <;> rfl

theorem silent_setClientInfo (fd : Fd) (ci : ClientInfo) : Silent (setClientInfo fd ci) :=
  keeps_modify fun _ => rfl

theorem silent_setListenInfo (listenfd : Fd) (li : ListenInfo) :
    Silent (setListenInfo listenfd li) :=
  keeps_modify fun _ => rfl

theorem silent_onDemux (f : Epoll → Epoll) : Silent (onDemux f) := keeps_modify fun _ => rfl

theorem silent_note {e : Event} (he : e.callback? = none) : Silent (note e) := by
  intro h
  simp [callbackEvents, he]

/-- The gate on the number of connections runs no callback. -/
theorem silent_checkMaxConnection (listenfd : Fd) (b : Bool) :
    Silent (checkMaxConnection listenfd b) := by
  intro h
  rw [checkMaxConnection_apply]
  cases h.listenInfo.lookup listenfd <;> rfl

theorem silent_getReadBuffer (n : UInt32) : Silent (getReadBuffer n) := by
  intro h
  simp only [getReadBuffer, bind_apply, get_apply, set_apply]
  cases ReadBuffer.setTotal (h.rbpool.getFromPool ReadBuffer.sizeDefault).1.clear n <;> rfl

theorem silent_getWriteBuffer (buf : List UInt8) (n : UInt32) :
    Silent (getWriteBuffer buf n) := by
  intro h
  simp only [getWriteBuffer, bind_apply, get_apply, set_apply]
  cases WriteBuffer.setBuffer (h.wbpool.getFromPool WriteBuffer.sizeDefault).1.clear buf n <;> rfl

/-- Asking for a read runs no callback. -/
theorem silent_asyncRead (fd : Fd) (n : UInt32) : Silent (asyncRead fd n) :=
  (silent_getClientInfo fd false).bind fun _ => (silent_getReadBuffer n).bind fun _ =>
    (silent_setClientInfo fd _).bind fun _ => (silent_note rfl).bind fun _ => silent_onDemux _

/-- Asking for a write runs no callback. -/
theorem silent_asyncWrite (fd : Fd) (buf : List UInt8) (n : UInt32) :
    Silent (asyncWrite fd buf n) :=
  (silent_getClientInfo fd false).bind fun _ => (silent_getWriteBuffer buf n).bind fun _ =>
    (silent_setClientInfo fd _).bind fun _ => (silent_note rfl).bind fun _ => silent_onDemux _

/-- Giving the buffers of a session back runs no callback. -/
theorem silent_clearSessionAndBuffer (s : Session) : Silent (clearSessionAndBuffer s) :=
  (silent_getClientInfo s.fd true).bind fun _ => (silent_getListenInfo _).bind fun _ =>
    (silent_setListenInfo _ _).bind fun _ => (silent_checkMaxConnection _ _).bind fun _ =>
      keeps_modify fun _ => rfl

/-- Counting a connection runs no callback. -/
theorem silent_countConn (listenfd : Fd) : Silent (countConn listenfd) :=
  (silent_getListenInfo listenfd).bind fun _ => silent_setListenInfo _ _

/-- A read pass that throws has run no callback. -/
theorem quiet_endRead (fd : Fd) (ci : ClientInfo)
    (p : Chain.Pass BaseException ReadBuffer (List RecvResult) UInt8) :
    Quiet (endRead fd ci p) := by
  intro h e h' herror
  obtain ⟨-, rfl⟩ := endRead_error herror
  cases p.ended <;> simp [callbackEvents, Event.callback?]

/-- A write pass that throws has run no callback. -/
theorem quiet_endWrite (fd : Fd) (ci : ClientInfo)
    (p : Chain.Pass BaseException WriteBuffer (List SendResult) UInt8) :
    Quiet (endWrite fd ci p) := by
  intro h e h' herror
  obtain ⟨-, rfl⟩ := endWrite_error herror
  simp [callbackEvents, Event.callback?]

/-- A callback is the last thing a handler does. -/
theorem quiet_noteLast (e : Event) (f : Option Frame) :
    Quiet (do note e; pure f : HandlerM (Option Frame)) := by
  intro h e' h' herror
  cases herror

/-- A loop over accepted connections that throws has run no callback. -/
theorem quiet_acceptLoop (listenfd : Fd) (accepted : List Fd) :
    Quiet (acceptLoop listenfd accepted) := by
  induction accepted with
  | nil => exact ((silent_checkMaxConnection listenfd true).bind fun _ => keeps_pure none).onThrow
  | cons fd rest ih =>
      intro h e h' herror
      simp only [acceptLoop, bind_apply, get_apply] at herror
      split at herror
      · exact ih h e h' herror
      · cases herror

/-- A close that throws has run no callback. -/
theorem quiet_close (fd : Fd) : Quiet (onClose fd) :=
  .bind (silent_onDemux _) fun _ => .bind (silent_getClientInfo fd false) fun _ =>
    quiet_noteLast _ _

/-- An error handler that throws has run no callback. -/
theorem quiet_onError (fd : Fd) : Quiet (onError fd) :=
  .bind (silent_onDemux _) fun _ => .bind (silent_getClientInfo fd false) fun _ =>
    quiet_noteLast _ _

/-- What a handler does after its callback returned runs no callback, if it throws. -/
theorem quiet_resume (f : Frame) : Quiet (resume f) := by
  cases f with
  | accepting listenfd s rest =>
      exact .bind (silent_countConn listenfd) fun _ => quiet_acceptLoop listenfd rest
  | reading s rb rest =>
      exact .bind (keeps_modify fun _ => rfl) fun _ h e h' herror =>
        absurd herror (completeReads_ne_error s rest h e h')
  | writing s wb rest =>
      exact .bind (keeps_modify fun _ => rfl) fun _ h e h' herror =>
        absurd herror (completeWrites_ne_error s rest h e h')
  | closing s => exact ((silent_clearSessionAndBuffer s).bind fun _ => keeps_pure none).onThrow
  | erroring s => exact ((silent_clearSessionAndBuffer s).bind fun _ => keeps_pure none).onThrow
  | timingOut => exact (keeps_pure none).onThrow

end EventHandler

namespace System

open EventHandler Exec

/-- A call that throws has made no callback. -/
theorem callbacks_of_failed {m m' : System} {c : Call} (hstep : m.step c = some m')
    (hfailed : m'.failed ≠ none) :
    callbackEvents m'.handler.trace = callbackEvents m.handler.trace := by
  have henter {op : HandlerM (Option Frame)} {h : EventHandler} {stack : List Frame}
      (hquiet : Quiet op) (hbad : (enter op h stack).failed ≠ none) :
      callbackEvents (enter op h stack).handler.trace = callbackEvents h.trace := by
    unfold enter at hbad ⊢
    cases hop : op h with
    | ok f h' => rw [hop] at hbad; exact absurd rfl hbad
    | error e h' => exact hquiet h e h' hop
  unfold step at hstep
  split at hstep
  case isFalse => cases hstep
  case isTrue =>
    rw [Option.some.injEq] at hstep
    subst hstep
    cases c with
    | onAccept listenfd accepted =>
        refine henter ?_ hfailed
        unfold onAccept
        split
        · exact (keeps_pure none).onThrow
        · exact quiet_acceptLoop listenfd accepted
    | onRead fd kernel =>
        exact henter (.bind (silent_getClientInfo fd false) fun _ => quiet_endRead _ _ _) hfailed
    | onWrite fd kernel =>
        exact henter (.bind (silent_getClientInfo fd false) fun _ => quiet_endWrite _ _ _) hfailed
    | onClose fd => exact henter (quiet_close fd) hfailed
    | onError fd => exact henter (quiet_onError fd) hfailed
    | onTimeout => exact henter (quiet_noteLast _ _) hfailed
    | asyncRead fd n =>
        exact henter ((silent_asyncRead fd n).bind fun _ => keeps_pure none).onThrow hfailed
    | asyncWrite fd buf n =>
        exact henter ((silent_asyncWrite fd buf n).bind fun _ => keeps_pure none).onThrow hfailed
    | asyncClose fd => exact henter (quiet_close fd) hfailed
    | ret =>
        obtain ⟨h, stack, failed⟩ := m
        cases stack with
        | nil => rfl
        | cons f rest => exact henter (quiet_resume f) hfailed

/-! ## runs -/

/-- `AsyncClose` is not called on a session that a running `OnRead` or
`OnWrite` has completed buffers of, still to be reported, nor on one that a
running `OnClose` or `OnError` is closing. -/
def ClosesIdle (m : System) : Call → Prop
  | .asyncClose fd => ∀ ci ∈ m.handler.clientInfo.lookup fd,
      ∀ f ∈ m.stack, f.session? = some ci.session → ¬ f.Busy
  | _ => True

instance : DecidablePred Frame.Busy
  | .reading _ _ rest | .writing _ _ rest => inferInstanceAs (Decidable (rest ≠ []))
  | .closing _ | .erroring _ => inferInstanceAs (Decidable True)
  | .accepting _ _ _ | .timingOut => inferInstanceAs (Decidable False)

instance (m : System) : DecidablePred m.ClosesIdle
  | .asyncClose fd => inferInstanceAs (Decidable (∀ ci ∈ m.handler.clientInfo.lookup fd,
      ∀ f ∈ m.stack, f.session? = some ci.session → ¬ f.Busy))
  | .onAccept _ _ | .onRead _ _ | .onWrite _ _ | .onClose _ | .onError _ | .onTimeout
  | .asyncRead _ _ | .asyncWrite _ _ _ | .ret => inferInstanceAs (Decidable True)

/-- The state of a run: its tables and the callbacks of every session. -/
structure Ordered (m : System) : Prop where
  kept : m.failed = none → WellFormed m ∧ Recorded m ∧ ∀ s, TraceKept (m.view s)
  order : ∀ s, callbacks (m.view s).history = [] ∨ SessionTrace (callbacks (m.view s).history)

/-- Before the first call no session has run a callback. -/
theorem ordered_init (listenfdMaxconn : List (Fd × UInt32)) :
    Ordered (init listenfdMaxconn) := by
  have hview (s : Session) : TraceKept ((init listenfdMaxconn).view s) := by
    rw [view_init]
    exact ⟨.inl rfl, fun hclient => absurd rfl hclient, by simp⟩
  exact ⟨fun _ => ⟨wellFormed_init _, recorded_init _, hview⟩, fun s => (hview s).order⟩

/-- Every session's trace keeps its shape over a step of the loop. -/
theorem ordered_step {m m' : System} {c : Call} (hc : m.ClosesIdle c)
    (hstep : m.step c = some m') (hm : Ordered m) : Ordered m' := by
  by_cases hok : m'.failed = none
  · obtain ⟨hfree, heff⟩ := step_effect hstep hok
    obtain ⟨hw, hr, hkept⟩ := hm.kept hfree
    have hnext (s : Session) : TraceKept (m'.view s) := by
      refine traceKept_step ?_ (session_step heff hw hr s) (hkept s)
      rintro rfl hclient f hf
      obtain ⟨ci, hci⟩ := Option.ne_none_iff_exists'.mp hclient
      obtain ⟨hlookup, rfl⟩ := client_eq_some.mp hci
      obtain ⟨hmem, hsession⟩ := List.mem_filter.mp hf
      exact hc ci hlookup f hmem (of_decide_eq_true hsession)
    exact ⟨fun _ => ⟨hw.effect heff, hr.effect heff hw, hnext⟩, fun s => (hnext s).order⟩
  · refine ⟨fun hnone => absurd hnone hok, fun s => ?_⟩
    have hsame : callbacks (m'.view s).history = callbacks (m.view s).history := by
      show callbacks (m'.handler.trace.filter _) = callbacks (m.handler.trace.filter _)
      rw [callbacks_filter _ m'.handler.trace, callbacks_of_failed hstep hok, ← callbacks_filter]
    rw [hsame]
    exact hm.order s

/-- **The callbacks of a session come in order** in every run in which
`AsyncClose` is only called on sessions that have no buffers to report and
are not being closed. -/
theorem sessionTrace_of_closesIdle {listenfdMaxconn : List (Fd × UInt32)} {m : System}
    {cs : List Call} (hidle : Machine.Along step ClosesIdle (init listenfdMaxconn) cs)
    (hrun : Machine.run step (init listenfdMaxconn) cs = some m) (s : Session)
    (hs : callbacks (m.view s).history ≠ []) : SessionTrace (callbacks (m.view s).history) := by
  have hordered : Ordered m := Machine.run_invariant_along Ordered
    (fun m c m' hc hstep hm => ordered_step hc hstep hm) hidle hrun (ordered_init _)
  exact (hordered.order s).resolve_left hs

/-- Two reads are served; while the second is reported, the session is
closed. -/
def closeAfterLast : List Call :=
  [.onAccept 3 [5], .asyncRead 5 1, .asyncRead 5 1, .ret, .onRead 5 [.data [1], .data [2]],
    .ret, .asyncClose 5, .ret, .ret]

/-- A connection closed from its last callback: accept, read, close. -/
theorem sessionTrace_closeAfterLast :
    ∃ m, Machine.run step (init [(3, 0)]) closeAfterLast = some m ∧
      callbacks (m.view ⟨0, 5⟩).history ≠ [] ∧
      SessionTrace (callbacks (m.view ⟨0, 5⟩).history) := by
  have hrun : ((Machine.run step (init [(3, 0)]) closeAfterLast).filter
      fun m => callbacks (m.view ⟨0, 5⟩).history ≠ []).isSome := by decide +kernel
  obtain ⟨m, hm⟩ := Option.isSome_iff_exists.mp hrun
  obtain ⟨hm, hmade⟩ := Option.filter_eq_some_iff.mp hm
  have hmade := of_decide_eq_true hmade
  exact ⟨m, hm, hmade, sessionTrace_of_closesIdle (by decide +kernel) hm ⟨0, 5⟩ hmade⟩

/-- Two reads are served; while the first is reported, the session is
closed. -/
def closeBeforeLast : List Call :=
  [.onAccept 3 [5], .asyncRead 5 1, .asyncRead 5 1, .ret, .onRead 5 [.data [1], .data [2]],
    .asyncClose 5, .ret, .ret]

/-- Nothing follows an `OnCloseComplete`. -/
theorem not_sessionTrace_of_mem {cs : List Callback} (c : Callback)
    (hclose : .onCloseComplete ∈ cs) : ¬ SessionTrace (cs ++ [c]) := by
  rintro ⟨io, last, heq, hio, hlast⟩
  have hnot : .onCloseComplete ∉ Callback.onAcceptComplete :: io := by
    intro hmem
    cases List.mem_cons.mp hmem with
    | inl h => cases h
    | inr h => cases hio _ h with
      | inl h => cases h
      | inr h => cases h
  obtain rfl | hlast : last = [] ∨ ∃ d, last = [d] := by
    obtain h | h | h := hlast
    · exact .inl h
    · exact .inr ⟨_, h⟩
    · exact .inr ⟨_, h⟩
  · rw [List.append_nil] at heq
    exact hnot (heq ▸ List.mem_append_left [c] hclose)
  · obtain ⟨d, rfl⟩ := hlast
    obtain ⟨hcs, -⟩ := List.append_inj' heq rfl
    exact hnot (hcs ▸ hclose)

/-- A session's second `OnReadComplete` may come after its
`OnCloseComplete`. -/
theorem read_after_close :
    ¬ ∀ (listenfdMaxconn : List (Fd × UInt32)) (m : System) (cs : List Call) (s : Session),
      Machine.run step (init listenfdMaxconn) cs = some m →
      callbacks (m.view s).history ≠ [] → SessionTrace (callbacks (m.view s).history) := by
  intro h
  have hrun : ((Machine.run step (init [(3, 0)]) closeBeforeLast).filter
      fun m => callbacks (m.view ⟨0, 5⟩).history = [.onAcceptComplete, .onReadComplete,
        .onCloseComplete] ++ [.onReadComplete]).isSome := by decide +kernel
  obtain ⟨m, hm⟩ := Option.isSome_iff_exists.mp hrun
  obtain ⟨hm, htrace⟩ := Option.filter_eq_some_iff.mp hm
  have htrace := of_decide_eq_true htrace
  have hsession := h [(3, 0)] m closeBeforeLast ⟨0, 5⟩ hm (by rw [htrace]; simp)
  rw [htrace] at hsession
  exact not_sessionTrace_of_mem _ (by simp) hsession

end System

end CppFastDevelop
