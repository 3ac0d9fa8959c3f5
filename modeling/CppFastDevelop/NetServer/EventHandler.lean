import CppFastDevelop.Lib.Exec
import CppFastDevelop.NetServer.Buffer
import CppFastDevelop.NetServer.Epoll

/-!
# CppFastDevelop.NetServer.EventHandler

`cl::EventHandler` (`cl_event_handler.hpp`, `cl_event_handler.cpp`): the
table of connected clients, each with a chain of buffers to read and one to
write, and the handlers the event loop calls.

A handler calls back into user code, which may call `AsyncRead`,
`AsyncWrite` and `AsyncClose` before it returns.  Every handler is therefore
cut at its callbacks: it runs to the next callback, and `Frame` is what it
still has to do when that callback returns.
-/

namespace CppFastDevelop

/-! ## data -/

/-- An accepted `cf::T_SESSION`.  Sessions are numbered in the order they
are registered, so two that had the same descriptor are told apart. -/
structure Session where
  id : Nat
  fd : Fd
  deriving DecidableEq, Repr

/-- `EventHandler::ClientInfo`. -/
structure ClientInfo where
  session : Session
  listenfd : Fd
  rbChain : List ReadBuffer
  wbChain : List WriteBuffer
  deriving DecidableEq, Repr

/-- `EventHandler::ListenInfo`. -/
structure ListenInfo where
  maxconns : UInt32
  currentconns : UInt32
  deriving DecidableEq, Repr

/-- What a run shows: what the user asks for, what the kernel gives or
takes, and the callbacks. -/
inductive Event
  | asyncRead (session : Session) (sizeToRead : UInt32)
  | asyncWrite (session : Session) (buf : List UInt8)
  | received (session : Session) (bytes : List UInt8)
  | endOfStream (session : Session)
  | sent (session : Session) (bytes : List UInt8)
  | onAcceptComplete (listenfd : Fd) (session : Session)
  | onReadComplete (session : Session) (readBuffer : ReadBuffer)
  | onWriteComplete (session : Session)
  | onCloseComplete (session : Session)
  | onErrorComplete (session : Session)
  | onTimeoutComplete
  deriving DecidableEq, Repr

/-- `cl::EventHandler`: `clientInfo` is `_clientfd_clientinfo` and
`listenInfo` is `_listenfd_listeninfo`.  `nextSession` and `trace` only
watch. -/
structure EventHandler where
  demux : Epoll
  clientInfo : FdMap ClientInfo
  listenInfo : FdMap ListenInfo
  rbpool : BufferPool
  wbpool : BufferPool
  nextSession : Nat
  trace : List Event

/-- A member function of `EventHandler`. -/
abbrev HandlerM := EStateM BaseException EventHandler

/-- What a handler has to do when the callback it made returns. -/
inductive Frame
  | accepting (listenfd : Fd) (session : Session) (rest : List Fd)
  | reading (session : Session) (rb : ReadBuffer) (rest : List ReadBuffer)
  | writing (session : Session) (wb : WriteBuffer) (rest : List WriteBuffer)
  | closing (session : Session)
  | erroring (session : Session)
  | timingOut
  deriving DecidableEq, Repr

namespace EventHandler

/-! ## the tables -/

/-- `Init`, from the constructor of the event loop. -/
def init (listenfdMaxconn : List (Fd × UInt32)) (demux : Epoll) : EventHandler where
  demux := demux
  clientInfo := ∅
  listenInfo := listenfdMaxconn.foldl (fun m it => m.insertNew it.1 ⟨it.2, 0⟩) ∅
  rbpool := .create ReadBuffer.sizeDefault BufferPool.poolsizeDefault
  wbpool := .create WriteBuffer.sizeDefault BufferPool.poolsizeDefault
  nextSession := 0
  trace := []

def clientNotFound (fd : Fd) : BaseException :=
  ⟨.valueError, "GetClientInfo ,client\x7b%d\x7d not found in _clientfd_clientinfo !", [fd]⟩

def listenerNotFound (listenfd : Fd) : BaseException :=
  ⟨.valueError, "GetListenInfo ,listenfd\x7b%d\x7d not found in _listenfd_listeninfo !",
    [listenfd]⟩

def getClientInfo (fd : Fd) (eraseWhenFound : Bool) : HandlerM ClientInfo := do
  let h ← get
  match h.clientInfo.lookup fd with
  | none => throw (clientNotFound fd)
  | some ci =>
    if eraseWhenFound then set { h with clientInfo := AList.erase fd h.clientInfo }
    pure ci

def getListenInfo (listenfd : Fd) : HandlerM ListenInfo := do
  let h ← get
  match h.listenInfo.lookup listenfd with
  | none => throw (listenerNotFound listenfd)
  | some li => pure li

/-- A write through the pointer that `GetClientInfo` returned. -/
def setClientInfo (fd : Fd) (ci : ClientInfo) : HandlerM Unit :=
  modify fun h => { h with clientInfo := AList.insert fd ci h.clientInfo }

/-- A write through the pointer that `GetListenInfo` returned. -/
def setListenInfo (listenfd : Fd) (li : ListenInfo) : HandlerM Unit :=
  modify fun h => { h with listenInfo := AList.insert listenfd li h.listenInfo }

/-- A call on `_demux`. -/
def onDemux (f : Epoll → Epoll) : HandlerM Unit := modify fun h => { h with demux := f h.demux }

/-- Put an event on the trace. -/
def note (e : Event) : HandlerM Unit := modify fun h => { h with trace := h.trace ++ [e] }

/-- The outcome of a member function of a buffer. -/
def ofExcept {α : Type} : Except BaseException α → HandlerM α
  | .ok a => pure a
  | .error e => throw e

def getReadBuffer (sizeToRead : UInt32) : HandlerM ReadBuffer := do
  let h ← get
  let (rb, rbpool) := h.rbpool.getFromPool ReadBuffer.sizeDefault
  set { h with rbpool := rbpool }
  ofExcept (ReadBuffer.setTotal rb.clear sizeToRead)

def getWriteBuffer (buf : List UInt8) (bufSize : UInt32) : HandlerM WriteBuffer := do
  let h ← get
  let (wb, wbpool) := h.wbpool.getFromPool WriteBuffer.sizeDefault
  set { h with wbpool := wbpool }
  ofExcept (WriteBuffer.setBuffer wb.clear buf bufSize)

def checkMaxConnection (listenfd : Fd) (newConnCheck : Bool) : HandlerM Unit := do
  let li ← getListenInfo listenfd
  if newConnCheck ∧ 0 < li.maxconns ∧ li.maxconns ≤ li.currentconns then
    onDemux (·.delConn listenfd)
  if newConnCheck = false ∧ 0 < li.maxconns ∧ li.currentconns < li.maxconns then
    onDemux (·.addConn listenfd .CFEV_READ)

/-! ## requests -/

def asyncRead (fd : Fd) (sizeToRead : UInt32) : HandlerM Unit := do
  let ci ← getClientInfo fd false
  let rb ← getReadBuffer sizeToRead
  setClientInfo fd { ci with rbChain := ci.rbChain ++ [rb] }
  note (.asyncRead ci.session sizeToRead)
  onDemux (·.addEvent fd .CFEV_READ)

def asyncWrite (fd : Fd) (buf : List UInt8) (bufSize : UInt32) : HandlerM Unit := do
  let ci ← getClientInfo fd false
  let wb ← getWriteBuffer buf bufSize
  setClientInfo fd { ci with wbChain := ci.wbChain ++ [wb] }
  note (.asyncWrite ci.session (buf.take bufSize.toNat))
  onDemux (·.addEvent fd .CFEV_WRITE)

/-! ## handlers -/

/-- The loop of `OnRead` over `rbComplete`. -/
def completeReads (session : Session) : List ReadBuffer → HandlerM (Option Frame)
  | [] => pure none
  | rb :: rest => do
    note (.onReadComplete session rb)
    pure (some (.reading session rb rest))

/-- The loop of `OnWrite` over `wbComplete`. -/
def completeWrites (session : Session) : List WriteBuffer → HandlerM (Option Frame)
  | [] => pure none
  | wb :: rest => do
    note (.onWriteComplete session)
    pure (some (.writing session wb rest))

/-- `OnRead` after its loop over the chain.  The buffers are changed in
place, so they stay as the loop left them when it throws. -/
def endRead (fd : Fd) (ci : ClientInfo)
    (p : Chain.Pass BaseException ReadBuffer (List RecvResult) UInt8) :
    HandlerM (Option Frame) := do
  setClientInfo fd { ci with rbChain := p.chain }
  note (.received ci.session p.moved)
  if p.ended then
    note (.endOfStream ci.session)
  if p.ended ∨ p.allComplete then
    onDemux (·.delEvent fd .CFEV_READ)
  match p.failure with
  | some e => throw e
  | none =>
    setClientInfo fd { ci with rbChain := p.chain.drop p.complete.length }
    completeReads ci.session p.complete

/-- An empty chain is passed over: its `--iterEnd` is `end()` again. -/
def onRead (fd : Fd) (kernel : List RecvResult) : HandlerM (Option Frame) := do
  let ci ← getClientInfo fd false
  endRead fd ci (Chain.pass ReadBuffer.read ReadBuffer.isComplete ci.rbChain kernel)

/-- `OnWrite` after its loop over the chain. -/
def endWrite (fd : Fd) (ci : ClientInfo)
    (p : Chain.Pass BaseException WriteBuffer (List SendResult) UInt8) :
    HandlerM (Option Frame) := do
  setClientInfo fd { ci with wbChain := p.chain }
  note (.sent ci.session p.moved)
  if p.allComplete then
    onDemux (·.delEvent fd .CFEV_WRITE)
  match p.failure with
  | some e => throw e
  | none =>
    setClientInfo fd { ci with wbChain := p.chain.drop p.complete.length }
    completeWrites ci.session p.complete

def onWrite (fd : Fd) (kernel : List SendResult) : HandlerM (Option Frame) := do
  let ci ← getClientInfo fd false
  endWrite fd ci (Chain.pass WriteBuffer.write WriteBuffer.isComplete ci.wbChain kernel)

def onClose (fd : Fd) : HandlerM (Option Frame) := do
  onDemux (·.delConn fd)
  let ci ← getClientInfo fd false
  note (.onCloseComplete ci.session)
  pure (some (.closing ci.session))

def asyncClose (fd : Fd) : HandlerM (Option Frame) := onClose fd

def onError (fd : Fd) : HandlerM (Option Frame) := do
  onDemux (·.delConn fd)
  let ci ← getClientInfo fd false
  note (.onErrorComplete ci.session)
  pure (some (.erroring ci.session))

def onTimeout : HandlerM (Option Frame) := do
  note .onTimeoutComplete
  pure (some .timingOut)

def clearSessionAndBuffer (session : Session) : HandlerM Unit := do
  let ci ← getClientInfo session.fd true
  let li ← getListenInfo ci.listenfd
  setListenInfo ci.listenfd { li with currentconns := li.currentconns - 1 }
  checkMaxConnection ci.listenfd false
  modify fun h => { h with
    rbpool := ci.rbChain.foldl .putIntoPool h.rbpool
    wbpool := ci.wbChain.foldl .putIntoPool h.wbpool }

/-- `AddNewConn` up to its callback. -/
def addNewConn (session : Session) (listenfd : Fd) : HandlerM Unit := do
  modify fun h => { h with
    clientInfo := h.clientInfo.insertNew session.fd ⟨session, listenfd, [], []⟩
    nextSession := h.nextSession + 1 }
  onDemux (·.addConn session.fd .CFEV_CLOSE)
  note (.onAcceptComplete listenfd session)

/-- `AddNewConn` after its callback. -/
def countConn (listenfd : Fd) : HandlerM Unit := do
  let li ← getListenInfo listenfd
  setListenInfo listenfd { li with currentconns := li.currentconns + 1 }

/-- The loop of `OnAccept` over `clients`, and what follows it. -/
def acceptLoop (listenfd : Fd) : List Fd → HandlerM (Option Frame)
  | [] => do
    checkMaxConnection listenfd true
    pure none
  | fd :: rest => do
    let h ← get
    if fd ∈ h.clientInfo then acceptLoop listenfd rest
    else
      let session := ⟨h.nextSession, fd⟩
      addNewConn session listenfd
      pure (some (.accepting listenfd session rest))

/-- `accepted` is what `AcceptAsync` collected. -/
def onAccept (listenfd : Fd) (accepted : List Fd) : HandlerM (Option Frame) :=
  if accepted = [] then pure none else acceptLoop listenfd accepted

/-- What a handler does when its callback returns. -/
def resume : Frame → HandlerM (Option Frame)
  | .accepting listenfd _ rest => do
    countConn listenfd
    acceptLoop listenfd rest
  | .reading session rb rest => do
    modify fun h => { h with rbpool := h.rbpool.putIntoPool rb }
    completeReads session rest
  | .writing session wb rest => do
    modify fun h => { h with wbpool := h.wbpool.putIntoPool wb }
    completeWrites session rest
  | .closing session => do
    clearSessionAndBuffer session
    pure none
  | .erroring session => do
    clearSessionAndBuffer session
    pure none
  | .timingOut => pure none

end EventHandler

end CppFastDevelop
