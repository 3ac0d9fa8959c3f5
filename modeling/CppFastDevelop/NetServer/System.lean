import CppFastDevelop.Lib.Machine
import CppFastDevelop.NetServer.HandlerSpec

/-!
# CppFastDevelop.NetServer.System

Runs of the event handler.  A run is a sequence of calls: those of the
event loop, which come only when no handler is running; those of the user,
which may come at any moment, from within a callback or not; and the return
of the callback that is running.  An exception that leaves a handler ends
the run, as nothing in the library catches it.

`Effect` says what each call does when nothing is thrown; every invariant
is derived from it.
-/

namespace CppFastDevelop

/-! ## calls -/

/-- The handler, the handlers that wait for a callback to return, innermost
first, and the exception that ended the run. -/
structure System where
  handler : EventHandler
  stack : List Frame
  failed : Option BaseException

namespace System

open EventHandler Exec

inductive Call
  | onAccept (listenfd : Fd) (accepted : List Fd)
  | onRead (fd : Fd) (kernel : List RecvResult)
  | onWrite (fd : Fd) (kernel : List SendResult)
  | onClose (fd : Fd)
  | onError (fd : Fd)
  | onTimeout
  | asyncRead (fd : Fd) (sizeToRead : UInt32)
  | asyncWrite (fd : Fd) (buf : List UInt8) (bufSize : UInt32)
  | asyncClose (fd : Fd)
  | ret
  deriving DecidableEq, Repr

/-- What is asked for is at least one byte. -/
def Call.Sized : Call → Prop
  | .asyncRead _ n | .asyncWrite _ _ n => 1 ≤ n.toNat
  | _ => True

instance : DecidablePred Call.Sized
  | .asyncRead _ n | .asyncWrite _ _ n => inferInstanceAs (Decidable (1 ≤ n.toNat))
  | .onAccept _ _ | .onRead _ _ | .onWrite _ _ | .onClose _ | .onError _ | .onTimeout
  | .asyncClose _ | .ret => inferInstanceAs (Decidable True)

/-- The server after `Init`. -/
def init (listenfdMaxconn : List (Fd × UInt32)) : System :=
  ⟨.init listenfdMaxconn (.create (listenfdMaxconn.map (·.1))), [], none⟩

/-- When a call may come: the loop's calls between handlers, the user's for
registered connections (and with as many bytes as they name), a return when
a callback is running.  `accept` never gives the descriptor of an open
listening socket. -/
def Enabled (m : System) : Call → Prop
  | .onAccept _ accepted => m.stack = [] ∧ ∀ fd ∈ accepted, fd ∉ m.handler.listenInfo
  | .onRead _ _ | .onWrite _ _ | .onClose _ | .onError _ | .onTimeout => m.stack = []
  | .asyncRead fd _ | .asyncClose fd => fd ∈ m.handler.clientInfo
  | .asyncWrite fd buf bufSize => fd ∈ m.handler.clientInfo ∧ bufSize.toNat ≤ buf.length
  | .ret => m.stack ≠ []

instance (m : System) : DecidablePred m.Enabled
  | .onAccept _ accepted =>
    inferInstanceAs (Decidable (m.stack = [] ∧ ∀ fd ∈ accepted, fd ∉ m.handler.listenInfo))
  | .onRead _ _ | .onWrite _ _ | .onClose _ | .onError _ | .onTimeout =>
    inferInstanceAs (Decidable (m.stack = []))
  | .asyncRead fd _ | .asyncClose fd => inferInstanceAs (Decidable (fd ∈ m.handler.clientInfo))
  | .asyncWrite fd buf bufSize =>
    inferInstanceAs (Decidable (fd ∈ m.handler.clientInfo ∧ bufSize.toNat ≤ buf.length))
  | .ret => inferInstanceAs (Decidable (m.stack ≠ []))

/-- Run a handler to its next callback or to its end. -/
def enter (op : HandlerM (Option Frame)) (h : EventHandler) (stack : List Frame) : System :=
  match op h with
  | .ok f h' => ⟨h', f.toList ++ stack, none⟩
  | .error e h' => ⟨h', [], some e⟩

def perform (m : System) : Call → System
  | .onAccept listenfd accepted => enter (onAccept listenfd accepted) m.handler m.stack
  | .onRead fd kernel => enter (onRead fd kernel) m.handler m.stack
  | .onWrite fd kernel => enter (onWrite fd kernel) m.handler m.stack
  | .onClose fd => enter (onClose fd) m.handler m.stack
  | .onError fd => enter (onError fd) m.handler m.stack
  | .onTimeout => enter onTimeout m.handler m.stack
  | .asyncRead fd n => enter (do asyncRead fd n; pure none) m.handler m.stack
  | .asyncWrite fd buf n => enter (do asyncWrite fd buf n; pure none) m.handler m.stack
  | .asyncClose fd => enter (asyncClose fd) m.handler m.stack
  | .ret => match m.stack with
    | [] => m
    | f :: rest => enter (resume f) m.handler rest

def step (m : System) (c : Call) : Option System :=
  if m.failed = none ∧ m.Enabled c then some (m.perform c) else none

/-! ## what a call does -/

/-- What a call that throws nothing does. -/
inductive Effect : System → Call → System → Prop
  | asyncRead {h : EventHandler} {stack : List Frame} {fd : Fd} {n : UInt32} {ci : ClientInfo}
      {rb : ReadBuffer} (hci : h.clientInfo.lookup fd = some ci)
      (hrb : ReadBuffer.setTotal (h.rbpool.getFromPool ReadBuffer.sizeDefault).1.clear n =
        .ok rb) :
    Effect ⟨h, stack, none⟩ (.asyncRead fd n)
      ⟨{ h with
          demux := h.demux.addEvent fd .CFEV_READ
          clientInfo := AList.insert fd { ci with rbChain := ci.rbChain ++ [rb] } h.clientInfo
          rbpool := (h.rbpool.getFromPool ReadBuffer.sizeDefault).2
          trace := h.trace ++ [.asyncRead ci.session n] }, stack, none⟩
  | asyncWrite {h : EventHandler} {stack : List Frame} {fd : Fd} {buf : List UInt8} {n : UInt32}
      {ci : ClientInfo} {wb : WriteBuffer} (hci : h.clientInfo.lookup fd = some ci)
      (hlen : n.toNat ≤ buf.length)
      (hwb : WriteBuffer.setBuffer (h.wbpool.getFromPool WriteBuffer.sizeDefault).1.clear buf n =
        .ok wb) :
    Effect ⟨h, stack, none⟩ (.asyncWrite fd buf n)
      ⟨{ h with
          demux := h.demux.addEvent fd .CFEV_WRITE
          clientInfo := AList.insert fd { ci with wbChain := ci.wbChain ++ [wb] } h.clientInfo
          wbpool := (h.wbpool.getFromPool WriteBuffer.sizeDefault).2
          trace := h.trace ++ [.asyncWrite ci.session (buf.take n.toNat)] }, stack, none⟩
  | close {h : EventHandler} {stack : List Frame} {c : Call} {fd : Fd} {ci : ClientInfo}
      (hc : c = .asyncClose fd ∨ c = .onClose fd ∧ stack = [])
      (hci : h.clientInfo.lookup fd = some ci) :
    Effect ⟨h, stack, none⟩ c
      ⟨{ h with
          demux := h.demux.delConn fd
          trace := h.trace ++ [.onCloseComplete ci.session] }, .closing ci.session :: stack, none⟩
  | onError {h : EventHandler} {fd : Fd} {ci : ClientInfo}
      (hci : h.clientInfo.lookup fd = some ci) :
    Effect ⟨h, [], none⟩ (.onError fd)
      ⟨{ h with
          demux := h.demux.delConn fd
          trace := h.trace ++ [.onErrorComplete ci.session] }, [.erroring ci.session], none⟩
  | onRead {h : EventHandler} {fd : Fd} {kernel : List RecvResult} {ci : ClientInfo}
      {p : Chain.Pass BaseException ReadBuffer (List RecvResult) UInt8}
      (hci : h.clientInfo.lookup fd = some ci) (hp : p = readPass ci.rbChain kernel)
      (hok : p.failure = none) :
    Effect ⟨h, [], none⟩ (.onRead fd kernel)
      ⟨{ h with
          demux := if p.ended ∨ p.allComplete then h.demux.delEvent fd .CFEV_READ else h.demux
          clientInfo := AList.insert fd
            { ci with rbChain := p.chain.drop p.complete.length } h.clientInfo
          trace := h.trace ++ [.received ci.session p.moved] ++
            (if p.ended then [.endOfStream ci.session] else []) ++
            readEvents ci.session p.complete }, readFrames ci.session p.complete, none⟩
  | onWrite {h : EventHandler} {fd : Fd} {kernel : List SendResult} {ci : ClientInfo}
      {p : Chain.Pass BaseException WriteBuffer (List SendResult) UInt8}
      (hci : h.clientInfo.lookup fd = some ci) (hp : p = writePass ci.wbChain kernel)
      (hok : p.failure = none) :
    Effect ⟨h, [], none⟩ (.onWrite fd kernel)
      ⟨{ h with
          demux := if p.allComplete then h.demux.delEvent fd .CFEV_WRITE else h.demux
          clientInfo := AList.insert fd
            { ci with wbChain := p.chain.drop p.complete.length } h.clientInfo
          trace := h.trace ++ [.sent ci.session p.moved] ++
            writeEvents ci.session p.complete }, writeFrames ci.session p.complete, none⟩
  | onTimeout {h : EventHandler} :
    Effect ⟨h, [], none⟩ .onTimeout
      ⟨{ h with trace := h.trace ++ [.onTimeoutComplete] }, [.timingOut], none⟩
  | onAcceptNothing {h : EventHandler} {listenfd : Fd} :
    Effect ⟨h, [], none⟩ (.onAccept listenfd []) ⟨h, [], none⟩
  | onAccept {h h' : EventHandler} {listenfd : Fd} {accepted : List Fd} {frames : List Frame}
      (hnew : ∀ fd ∈ accepted, fd ∉ h.listenInfo)
      (haccept : AcceptStep listenfd accepted h h' frames) :
    Effect ⟨h, [], none⟩ (.onAccept listenfd accepted) ⟨h', frames, none⟩
  | retAccepting {h h' : EventHandler} {stack : List Frame} {listenfd : Fd} {session : Session}
      {rest : List Fd} {frames : List Frame} {li : ListenInfo}
      (hli : h.listenInfo.lookup listenfd = some li)
      (haccept : AcceptStep listenfd rest
        (h.withListenInfo listenfd { li with currentconns := li.currentconns + 1 }) h' frames) :
    Effect ⟨h, .accepting listenfd session rest :: stack, none⟩ .ret ⟨h', frames ++ stack, none⟩
  | retReading {h : EventHandler} {stack : List Frame} {session : Session} {rb : ReadBuffer}
      {rest : List ReadBuffer} :
    Effect ⟨h, .reading session rb rest :: stack, none⟩ .ret
      ⟨{ h with
          rbpool := h.rbpool.putIntoPool rb
          trace := h.trace ++ readEvents session rest }, readFrames session rest ++ stack, none⟩
  | retWriting {h : EventHandler} {stack : List Frame} {session : Session} {wb : WriteBuffer}
      {rest : List WriteBuffer} :
    Effect ⟨h, .writing session wb rest :: stack, none⟩ .ret
      ⟨{ h with
          wbpool := h.wbpool.putIntoPool wb
          trace := h.trace ++ writeEvents session rest }, writeFrames session rest ++ stack, none⟩
  | retClosing {h : EventHandler} {stack : List Frame} {session : Session} {f : Frame}
      {ci : ClientInfo} {li : ListenInfo} (hf : f = .closing session ∨ f = .erroring session)
      (hci : h.clientInfo.lookup session.fd = some ci)
      (hli : h.listenInfo.lookup ci.listenfd = some li) :
    Effect ⟨h, f :: stack, none⟩ .ret
      ⟨{ h with
          demux := maxConnectionDemux h.demux ci.listenfd
            { li with currentconns := li.currentconns - 1 } false
          clientInfo := AList.erase session.fd h.clientInfo
          listenInfo := AList.insert ci.listenfd
            { li with currentconns := li.currentconns - 1 } h.listenInfo
          rbpool := ci.rbChain.foldl .putIntoPool h.rbpool
          wbpool := ci.wbChain.foldl .putIntoPool h.wbpool }, stack, none⟩
  | retTimingOut {h : EventHandler} {stack : List Frame} :
    Effect ⟨h, .timingOut :: stack, none⟩ .ret ⟨h, stack, none⟩

/-- A handler that was entered and threw nothing. -/
theorem enter_ok {op : HandlerM (Option Frame)} {h : EventHandler} {stack : List Frame}
    (hok : (enter op h stack).failed = none) :
    ∃ f h', op h = .ok f h' ∧ enter op h stack = ⟨h', f.toList ++ stack, none⟩ := by
  unfold enter at hok ⊢
  cases hop : op h with
  | ok f h' => exact ⟨f, h', rfl, rfl⟩
  | error e h' => rw [hop] at hok; cases hok

/-- A handler that was entered and threw. -/
theorem enter_error {op : HandlerM (Option Frame)} {h : EventHandler} {stack : List Frame}
    (hfail : (enter op h stack).failed ≠ none) :
    ∃ e h', op h = .error e h' ∧ enter op h stack = ⟨h', [], some e⟩ := by
  unfold enter at hfail ⊢
  cases hop : op h with
  | ok f h' => rw [hop] at hfail; exact absurd rfl hfail
  | error e h' => exact ⟨e, h', rfl, rfl⟩

/-- A return goes on with what its handler has left to do. -/
theorem resume_effect {h h' : EventHandler} {stack : List Frame} {f : Frame}
    {next : Option Frame} (hok : resume f h = .ok next h') :
    Effect ⟨h, f :: stack, none⟩ .ret ⟨h', next.toList ++ stack, none⟩ := by
  cases f with
  | accepting listenfd session rest =>
      obtain ⟨⟨⟩, t, hcount, hloop⟩ := bind_eq_ok.mp hok
      obtain ⟨li, hli, rfl⟩ := countConn_ok hcount
      exact .retAccepting hli (acceptLoop_ok hloop)
  | reading session rb rest =>
      obtain ⟨hf, rfl⟩ := completeReads_ok hok
      rw [hf]
      exact .retReading
  | writing session wb rest =>
      obtain ⟨hf, rfl⟩ := completeWrites_ok hok
      rw [hf]
      exact .retWriting
  | closing session =>
      obtain ⟨⟨⟩, t, hclear, hpure⟩ := bind_eq_ok.mp hok
      obtain ⟨ci, li, hci, hli, rfl⟩ := clearSessionAndBuffer_ok hclear
      cases hpure
      exact .retClosing (.inl rfl) hci hli
  | erroring session =>
      obtain ⟨⟨⟩, t, hclear, hpure⟩ := bind_eq_ok.mp hok
      obtain ⟨ci, li, hci, hli, rfl⟩ := clearSessionAndBuffer_ok hclear
      cases hpure
      exact .retClosing (.inr rfl) hci hli
  | timingOut =>
      cases hok
      exact .retTimingOut

/-- Every step that throws nothing has one of the effects. -/
theorem step_effect {m m' : System} {c : Call} (hstep : m.step c = some m')
    (hok : m'.failed = none) : m.failed = none ∧ Effect m c m' := by
  obtain ⟨h, stack, failed⟩ := m
  unfold step at hstep
  split at hstep
  case isFalse => cases hstep
  case isTrue hen =>
    obtain ⟨rfl, hen⟩ := hen
    refine ⟨rfl, ?_⟩
    rw [Option.some.injEq] at hstep
    subst hstep
    cases c with
    | onAccept listenfd accepted =>
        obtain ⟨rfl, hnew⟩ := hen
        obtain ⟨f, h', hop, heq⟩ := enter_ok hok
        rw [perform, heq, List.append_nil]
        unfold onAccept at hop
        split at hop
        · next hnil => cases hop; rw [hnil]; exact .onAcceptNothing
        · exact .onAccept hnew (acceptLoop_ok hop)
    | onRead fd kernel =>
        cases hen
        obtain ⟨f, h', hop, heq⟩ := enter_ok hok
        obtain ⟨ci, hci, hend⟩ := onRead_ok hop
        obtain ⟨hfail, hf, rfl⟩ := endRead_ok hend
        rw [perform, heq, hf, List.append_nil]
        exact .onRead hci rfl hfail
    | onWrite fd kernel =>
        cases hen
        obtain ⟨f, h', hop, heq⟩ := enter_ok hok
        obtain ⟨ci, hci, hend⟩ := onWrite_ok hop
        obtain ⟨hfail, hf, rfl⟩ := endWrite_ok hend
        rw [perform, heq, hf, List.append_nil]
        exact .onWrite hci rfl hfail
    | onClose fd =>
        cases hen
        obtain ⟨f, h', hop, heq⟩ := enter_ok hok
        obtain ⟨ci, hci, rfl, rfl⟩ := onClose_ok hop
        rw [perform, heq]
        exact .close (.inr ⟨rfl, rfl⟩) hci
    | onError fd =>
        cases hen
        obtain ⟨f, h', hop, heq⟩ := enter_ok hok
        obtain ⟨ci, hci, rfl, rfl⟩ := onError_ok hop
        rw [perform, heq]
        exact .onError hci
    | onTimeout =>
        cases hen
        exact .onTimeout
    | asyncRead fd n =>
        obtain ⟨f, h', hop, heq⟩ := enter_ok hok
        obtain ⟨⟨⟩, t, hread, hpure⟩ := bind_eq_ok.mp hop
        cases hpure
        obtain ⟨ci, rb, hci, hrb, rfl⟩ := asyncRead_ok hread
        rw [perform, heq]
        exact .asyncRead hci hrb
    | asyncWrite fd buf n =>
        obtain ⟨f, h', hop, heq⟩ := enter_ok hok
        obtain ⟨⟨⟩, t, hwrite, hpure⟩ := bind_eq_ok.mp hop
        cases hpure
        obtain ⟨ci, wb, hci, hwb, rfl⟩ := asyncWrite_ok hwrite
        rw [perform, heq]
        exact .asyncWrite hci hen.2 hwb
    | asyncClose fd =>
        obtain ⟨f, h', hop, heq⟩ := enter_ok hok
        obtain ⟨ci, hci, rfl, rfl⟩ := onClose_ok hop
        rw [perform, heq]
        exact .close (.inl rfl) hci
    | ret =>
        cases stack with
        | nil => exact absurd rfl hen
        | cons f rest =>
            obtain ⟨next, h', hop, heq⟩ := enter_ok hok
            show Effect _ _ (enter (resume f) h rest)
            rw [heq]
            exact resume_effect hop

/-- What the effects preserve where a condition holds, a run that throws
nothing and meets the condition preserves. -/
theorem run_invariant_of_effect {C : System → Call → Prop} (I : System → Prop)
    (heffect : ∀ m c m', C m c → Effect m c m' → I m → I m') {m m' : System} {cs : List Call}
    (halong : Machine.Along step C m cs) (hrun : Machine.run step m cs = some m') (hm : I m)
    (hok : m'.failed = none) : I m' := by
  have hinv : m'.failed = none → I m' := by
    refine Machine.run_invariant_along (fun m => m.failed = none → I m) ?_ halong hrun
      (fun _ => hm)
    intro s c s' hc hstep hs hok'
    obtain ⟨hfree, heff⟩ := step_effect hstep hok'
    exact heffect s c s' hc heff (hs hfree)
  exact hinv hok

/-! ## a run -/

/-- A client asks for two reads and a write from its `OnAcceptComplete`; the
first read is served in full, the second in part, the write in part. -/
def talk : List Call :=
  [.onAccept 3 [5], .asyncRead 5 2, .asyncRead 5 3, .asyncWrite 5 [1, 2, 3] 3, .ret,
    .onRead 5 [.data [10, 11], .data [12]], .ret, .onWrite 5 [.accepted 2]]

theorem talk_sized : ∀ c ∈ talk, c.Sized := by decide

/-- The talk goes through, and its client stays registered. -/
theorem run_talk : ∃ m ci, Machine.run step (init [(3, 0)]) talk = some m ∧ m.failed = none ∧
    m.handler.clientInfo.lookup 5 = some ci := by
  have hsome : ((Machine.run step (init [(3, 0)]) talk).filter (·.failed = none)).isSome ∧
      ((Machine.run step (init [(3, 0)]) talk).bind
        (·.handler.clientInfo.lookup 5)).isSome := by decide +kernel
  obtain ⟨hrun, hclient⟩ := hsome
  obtain ⟨m, hm⟩ := Option.isSome_iff_exists.mp hrun
  obtain ⟨ci, hci⟩ := Option.isSome_iff_exists.mp hclient
  obtain ⟨hm, hok⟩ := Option.filter_eq_some_iff.mp hm
  rw [hm] at hci
  exact ⟨m, ci, hm, of_decide_eq_true hok, hci⟩

end System

end CppFastDevelop
