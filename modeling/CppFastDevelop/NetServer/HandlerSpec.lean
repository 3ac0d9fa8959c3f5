import CppFastDevelop.NetServer.EventHandler

/-!
# CppFastDevelop.NetServer.HandlerSpec

What each member function of `EventHandler` does when it returns, as the
state it leaves and the frames it puts on the stack.  The proofs about runs
use these and do not look into the functions.
-/

namespace CppFastDevelop

namespace EventHandler

open Exec

/-! ## the tables -/

/-- Without erasing, `GetClientInfo` only reads, or throws where nobody has the descriptor. -/
theorem getClientInfo_apply (fd : Fd) (h : EventHandler) :
    getClientInfo fd false h = match h.clientInfo.lookup fd with
      | none => .error (clientNotFound fd) h
      | some ci => .ok ci h := by
  simp only [getClientInfo, bind_apply, get_apply]
  cases h.clientInfo.lookup fd <;> rfl

/-- With `eraseNode`, `GetClientInfo` also takes the client out of the table. -/
theorem getClientInfo_erase_apply (fd : Fd) (h : EventHandler) :
    getClientInfo fd true h = match h.clientInfo.lookup fd with
      | none => .error (clientNotFound fd) h
      | some ci => .ok ci { h with clientInfo := AList.erase fd h.clientInfo } := by
  simp only [getClientInfo, bind_apply, get_apply]
  cases h.clientInfo.lookup fd <;> rfl

/-- The counters of a listener, or `ValueError` where there is no such listener. -/
theorem getListenInfo_apply (listenfd : Fd) (h : EventHandler) :
    getListenInfo listenfd h = match h.listenInfo.lookup listenfd with
      | none => .error (listenerNotFound listenfd) h
      | some li => .ok li h := by
  simp only [getListenInfo, bind_apply, get_apply]
  cases h.listenInfo.lookup listenfd <;> rfl

@[simp] theorem setClientInfo_apply (fd : Fd) (ci : ClientInfo) (h : EventHandler) :
    setClientInfo fd ci h = .ok () { h with clientInfo := AList.insert fd ci h.clientInfo } := rfl

@[simp] theorem setListenInfo_apply (listenfd : Fd) (li : ListenInfo) (h : EventHandler) :
    setListenInfo listenfd li h =
      .ok () { h with listenInfo := AList.insert listenfd li h.listenInfo } := rfl

@[simp] theorem onDemux_apply (f : Epoll → Epoll) (h : EventHandler) :
    onDemux f h = .ok () { h with demux := f h.demux } := rfl

@[simp] theorem note_apply (e : Event) (h : EventHandler) :
    note e h = .ok () { h with trace := h.trace ++ [e] } := rfl

/-- The demultiplexer after `CheckMaxConnection`. -/
def maxConnectionDemux (demux : Epoll) (listenfd : Fd) (li : ListenInfo) (newConnCheck : Bool) :
    Epoll :=
  if newConnCheck then
    if 0 < li.maxconns ∧ li.maxconns ≤ li.currentconns then demux.delConn listenfd else demux
  else
    if 0 < li.maxconns ∧ li.currentconns < li.maxconns then demux.addConn listenfd .CFEV_READ
    else demux

/-- The gate of a listener is `maxConnectionDemux`, read off its counters. -/
theorem checkMaxConnection_apply (listenfd : Fd) (newConnCheck : Bool) (h : EventHandler) :
    checkMaxConnection listenfd newConnCheck h = match h.listenInfo.lookup listenfd with
      | none => .error (listenerNotFound listenfd) h
      | some li =>
        .ok () { h with demux := maxConnectionDemux h.demux listenfd li newConnCheck } := by
  simp only [checkMaxConnection, bind_apply, getListenInfo_apply]
  cases h.listenInfo.lookup listenfd with
  | none => rfl
  | some li =>
      cases newConnCheck with
      | true =>
          by_cases hfull : 0 < li.maxconns ∧ li.maxconns ≤ li.currentconns
          · simp [maxConnectionDemux, hfull]
          · simp [maxConnectionDemux, hfull]
      | false =>
          by_cases hfree : 0 < li.maxconns ∧ li.currentconns < li.maxconns
          · simp [maxConnectionDemux, hfree]
          · simp [maxConnectionDemux, hfree]

/-! ## requests -/

/-- A read request that returns puts a buffer behind the chain and READ into the mask. -/
theorem asyncRead_ok {fd : Fd} {n : UInt32} {h h' : EventHandler}
    (hok : asyncRead fd n h = .ok () h') :
    ∃ ci rb, h.clientInfo.lookup fd = some ci ∧
      ReadBuffer.setTotal (h.rbpool.getFromPool ReadBuffer.sizeDefault).1.clear n = .ok rb ∧
      h' = { h with
        demux := h.demux.addEvent fd .CFEV_READ
        clientInfo := AList.insert fd { ci with rbChain := ci.rbChain ++ [rb] } h.clientInfo
        rbpool := (h.rbpool.getFromPool ReadBuffer.sizeDefault).2
        trace := h.trace ++ [.asyncRead ci.session n] } := by
  simp only [asyncRead, bind_apply, getClientInfo_apply] at hok
  cases hci : h.clientInfo.lookup fd with
  | none => simp [hci] at hok
  | some ci =>
      simp only [hci, getReadBuffer, bind_apply, get_apply, set_apply] at hok
      cases hrb : ReadBuffer.setTotal (h.rbpool.getFromPool ReadBuffer.sizeDefault).1.clear n with
      | error e => simp [hrb, ofExcept] at hok
      | ok rb =>
          simp only [hrb, ofExcept, pure_apply, setClientInfo_apply, note_apply,
            onDemux_apply] at hok
          cases hok
          exact ⟨ci, rb, rfl, rfl, rfl⟩

/-- A write request that returns puts a filled buffer behind the chain and WRITE into the mask. -/
theorem asyncWrite_ok {fd : Fd} {buf : List UInt8} {n : UInt32} {h h' : EventHandler}
    (hok : asyncWrite fd buf n h = .ok () h') :
    ∃ ci wb, h.clientInfo.lookup fd = some ci ∧
      WriteBuffer.setBuffer (h.wbpool.getFromPool WriteBuffer.sizeDefault).1.clear buf n =
        .ok wb ∧
      h' = { h with
        demux := h.demux.addEvent fd .CFEV_WRITE
        clientInfo := AList.insert fd { ci with wbChain := ci.wbChain ++ [wb] } h.clientInfo
        wbpool := (h.wbpool.getFromPool WriteBuffer.sizeDefault).2
        trace := h.trace ++ [.asyncWrite ci.session (buf.take n.toNat)] } := by
  simp only [asyncWrite, bind_apply, getClientInfo_apply] at hok
  cases hci : h.clientInfo.lookup fd with
  | none => simp [hci] at hok
  | some ci =>
      simp only [hci, getWriteBuffer, bind_apply, get_apply, set_apply] at hok
      cases hwb : WriteBuffer.setBuffer
          (h.wbpool.getFromPool WriteBuffer.sizeDefault).1.clear buf n with
      | error e => simp [hwb, ofExcept] at hok
      | ok wb =>
          simp only [hwb, ofExcept, pure_apply, setClientInfo_apply, note_apply,
            onDemux_apply] at hok
          cases hok
          exact ⟨ci, wb, rfl, rfl, rfl⟩

/-! ## handlers -/

/-- The callback made for the first of the completed buffers. -/
def readEvents (session : Session) : List ReadBuffer → List Event
  | [] => []
  | rb :: _ => [.onReadComplete session rb]

def readFrames (session : Session) : List ReadBuffer → List Frame
  | [] => []
  | rb :: rest => [.reading session rb rest]

def writeEvents (session : Session) : List WriteBuffer → List Event
  | [] => []
  | _ :: _ => [.onWriteComplete session]

def writeFrames (session : Session) : List WriteBuffer → List Frame
  | [] => []
  | wb :: rest => [.writing session wb rest]

/-- The read callbacks that are due are noted and entered, and nothing else is touched. -/
theorem completeReads_ok {session : Session} {complete : List ReadBuffer} {h h' : EventHandler}
    {f : Option Frame} (hok : completeReads session complete h = .ok f h') :
    f.toList = readFrames session complete ∧
      h' = { h with trace := h.trace ++ readEvents session complete } := by
  cases complete with
  | nil =>
      simp only [completeReads, pure_apply] at hok
      cases hok
      exact ⟨rfl, by simp [readEvents]⟩
  | cons rb rest =>
      simp only [completeReads, bind_apply, note_apply, pure_apply] at hok
      cases hok
      exact ⟨rfl, rfl⟩

/-- The write callbacks that are due are noted and entered, and nothing else is touched. -/
theorem completeWrites_ok {session : Session} {complete : List WriteBuffer}
    {h h' : EventHandler} {f : Option Frame}
    (hok : completeWrites session complete h = .ok f h') :
    f.toList = writeFrames session complete ∧
      h' = { h with trace := h.trace ++ writeEvents session complete } := by
  cases complete with
  | nil =>
      simp only [completeWrites, pure_apply] at hok
      cases hok
      exact ⟨rfl, by simp [writeEvents]⟩
  | cons wb rest =>
      simp only [completeWrites, bind_apply, note_apply, pure_apply] at hok
      cases hok
      exact ⟨rfl, rfl⟩

/-- Making the read callbacks throws nothing of its own. -/
theorem completeReads_ne_error (session : Session) (complete : List ReadBuffer)
    (h : EventHandler) (e : BaseException) (h' : EventHandler) :
    completeReads session complete h ≠ .error e h' := by
  cases complete <;> exact fun herror => by cases herror

/-- Making the write callbacks throws nothing of its own. -/
theorem completeWrites_ne_error (session : Session) (complete : List WriteBuffer)
    (h : EventHandler) (e : BaseException) (h' : EventHandler) :
    completeWrites session complete h ≠ .error e h' := by
  cases complete <;> exact fun herror => by cases herror

/-- The pass `OnRead` makes over a chain. -/
abbrev readPass (rbChain : List ReadBuffer) (kernel : List RecvResult) :=
  Chain.pass ReadBuffer.read ReadBuffer.isComplete rbChain kernel

/-- The pass `OnWrite` makes over a chain. -/
abbrev writePass (wbChain : List WriteBuffer) (kernel : List SendResult) :=
  Chain.pass WriteBuffer.write WriteBuffer.isComplete wbChain kernel

/-- What `OnRead` leaves when its pass over the chain did not throw. -/
theorem endRead_ok {fd : Fd} {ci : ClientInfo}
    {p : Chain.Pass BaseException ReadBuffer (List RecvResult) UInt8} {h h' : EventHandler}
    {f : Option Frame} (hok : endRead fd ci p h = .ok f h') :
    p.failure = none ∧ f.toList = readFrames ci.session p.complete ∧
      h' = { h with
        demux := if p.ended ∨ p.allComplete then h.demux.delEvent fd .CFEV_READ else h.demux
        clientInfo := AList.insert fd
          { ci with rbChain := p.chain.drop p.complete.length } h.clientInfo
        trace := h.trace ++ [.received ci.session p.moved] ++
          (if p.ended then [.endOfStream ci.session] else []) ++
          readEvents ci.session p.complete } := by
  simp only [endRead] at hok
  cases hfail : p.failure with
  | some e =>
      by_cases hend : p.ended = true <;> by_cases hall : p.allComplete = true <;>
        simp [hfail, hend, hall, bind_apply] at hok
  | none =>
      refine ⟨rfl, ?_⟩
      by_cases hend : p.ended = true
      · simp only [hfail, hend, true_or, if_true, note_apply, onDemux_apply, bind_apply,
          setClientInfo_apply, AList.insert_insert] at hok ⊢
        exact completeReads_ok hok
      · by_cases hall : p.allComplete = true
        · simp only [hfail, hend, hall, or_true, if_true, if_false, note_apply,
            onDemux_apply, bind_apply, setClientInfo_apply, AList.insert_insert,
            Bool.false_eq_true, List.append_nil] at hok ⊢
          exact completeReads_ok hok
        · simp only [hfail, hend, hall, or_self, if_false, note_apply, bind_apply,
            setClientInfo_apply, AList.insert_insert, Bool.false_eq_true,
            List.append_nil] at hok ⊢
          exact completeReads_ok hok

/-- `OnRead` throws what its loop threw, and no callback is made. -/
theorem endRead_error {fd : Fd} {ci : ClientInfo}
    {p : Chain.Pass BaseException ReadBuffer (List RecvResult) UInt8} {h h' : EventHandler}
    {e : BaseException} (herror : endRead fd ci p h = .error e h') :
    p.failure = some e ∧ h' = { h with
      demux := if p.ended ∨ p.allComplete then h.demux.delEvent fd .CFEV_READ else h.demux
      clientInfo := AList.insert fd { ci with rbChain := p.chain } h.clientInfo
      trace := h.trace ++ [.received ci.session p.moved] ++
        (if p.ended then [.endOfStream ci.session] else []) } := by
  simp only [endRead] at herror
  cases hfail : p.failure with
  | none =>
      by_cases hend : p.ended = true <;> by_cases hall : p.allComplete = true <;>
        simp only [hfail, hend, hall, bind_apply, setClientInfo_apply, note_apply,
          onDemux_apply, if_true, if_false, Bool.false_eq_true, or_self, or_true,
          true_or] at herror <;>
        exact absurd herror (completeReads_ne_error _ _ _ _ _)
  | some e' =>
      by_cases hend : p.ended = true <;> by_cases hall : p.allComplete = true <;>
        simp only [hfail, hend, hall, bind_apply, setClientInfo_apply, note_apply,
          onDemux_apply, throw_apply, if_true, if_false, Bool.false_eq_true, or_self,
          or_true, true_or] at herror <;>
        cases herror <;> simp [hend, hall]

/-- An `OnRead` that returns found its client. -/
theorem onRead_ok {fd : Fd} {kernel : List RecvResult} {h h' : EventHandler} {f : Option Frame}
    (hok : onRead fd kernel h = .ok f h') :
    ∃ ci, h.clientInfo.lookup fd = some ci ∧
      endRead fd ci (readPass ci.rbChain kernel) h = .ok f h' := by
  simp only [onRead, bind_apply, getClientInfo_apply] at hok
  cases hci : h.clientInfo.lookup fd with
  | none => simp [hci] at hok
  | some ci => exact ⟨ci, rfl, by simpa only [hci] using hok⟩

/-- What `OnWrite` leaves when its pass over the chain did not throw. -/
theorem endWrite_ok {fd : Fd} {ci : ClientInfo}
    {p : Chain.Pass BaseException WriteBuffer (List SendResult) UInt8} {h h' : EventHandler}
    {f : Option Frame} (hok : endWrite fd ci p h = .ok f h') :
    p.failure = none ∧ f.toList = writeFrames ci.session p.complete ∧
      h' = { h with
        demux := if p.allComplete then h.demux.delEvent fd .CFEV_WRITE else h.demux
        clientInfo := AList.insert fd
          { ci with wbChain := p.chain.drop p.complete.length } h.clientInfo
        trace := h.trace ++ [.sent ci.session p.moved] ++
          writeEvents ci.session p.complete } := by
  simp only [endWrite] at hok
  cases hfail : p.failure with
  | some e => by_cases hall : p.allComplete = true <;> simp [hfail, hall, bind_apply] at hok
  | none =>
      refine ⟨rfl, ?_⟩
      by_cases hall : p.allComplete = true
      · simp only [hfail, hall, if_true, note_apply, onDemux_apply, bind_apply,
          setClientInfo_apply, AList.insert_insert] at hok ⊢
        exact completeWrites_ok hok
      · simp only [hfail, hall, if_false, note_apply, bind_apply,
          setClientInfo_apply, AList.insert_insert, Bool.false_eq_true] at hok ⊢
        exact completeWrites_ok hok

/-- `OnWrite` throws what its loop threw, and no callback is made. -/
theorem endWrite_error {fd : Fd} {ci : ClientInfo}
    {p : Chain.Pass BaseException WriteBuffer (List SendResult) UInt8} {h h' : EventHandler}
    {e : BaseException} (herror : endWrite fd ci p h = .error e h') :
    p.failure = some e ∧ h' = { h with
      demux := if p.allComplete then h.demux.delEvent fd .CFEV_WRITE else h.demux
      clientInfo := AList.insert fd { ci with wbChain := p.chain } h.clientInfo
      trace := h.trace ++ [.sent ci.session p.moved] } := by
  simp only [endWrite] at herror
  cases hfail : p.failure with
  | none =>
      by_cases hall : p.allComplete = true <;>
        simp only [hfail, hall, bind_apply, setClientInfo_apply, note_apply, onDemux_apply,
          if_true, if_false, Bool.false_eq_true] at herror <;>
        exact absurd herror (completeWrites_ne_error _ _ _ _ _)
  | some e' =>
      by_cases hall : p.allComplete = true <;>
        simp only [hfail, hall, bind_apply, setClientInfo_apply, note_apply, onDemux_apply,
          throw_apply, if_true, if_false, Bool.false_eq_true] at herror <;>
        cases herror <;> simp [hall]

/-- An `OnWrite` that returns found its client. -/
theorem onWrite_ok {fd : Fd} {kernel : List SendResult} {h h' : EventHandler}
    {f : Option Frame} (hok : onWrite fd kernel h = .ok f h') :
    ∃ ci, h.clientInfo.lookup fd = some ci ∧
      endWrite fd ci (writePass ci.wbChain kernel) h = .ok f h' := by
  simp only [onWrite, bind_apply, getClientInfo_apply] at hok
  cases hci : h.clientInfo.lookup fd with
  | none => simp [hci] at hok
  | some ci => exact ⟨ci, rfl, by simpa only [hci] using hok⟩

/-- The descriptor leaves the demultiplexer, and the client stays until its callback is back. -/
theorem onClose_ok {fd : Fd} {h h' : EventHandler} {f : Option Frame}
    (hok : onClose fd h = .ok f h') :
    ∃ ci, h.clientInfo.lookup fd = some ci ∧ f = some (.closing ci.session) ∧
      h' = { h with
        demux := h.demux.delConn fd
        trace := h.trace ++ [.onCloseComplete ci.session] } := by
  simp only [onClose, bind_apply, onDemux_apply, getClientInfo_apply] at hok
  cases hci : h.clientInfo.lookup fd with
  | none => simp [hci] at hok
  | some ci =>
      simp only [hci, note_apply, pure_apply] at hok
      cases hok
      exact ⟨ci, rfl, rfl, rfl⟩

/-- An error takes the same way as a close, with the other callback. -/
theorem onError_ok {fd : Fd} {h h' : EventHandler} {f : Option Frame}
    (hok : onError fd h = .ok f h') :
    ∃ ci, h.clientInfo.lookup fd = some ci ∧ f = some (.erroring ci.session) ∧
      h' = { h with
        demux := h.demux.delConn fd
        trace := h.trace ++ [.onErrorComplete ci.session] } := by
  simp only [onError, bind_apply, onDemux_apply, getClientInfo_apply] at hok
  cases hci : h.clientInfo.lookup fd with
  | none => simp [hci] at hok
  | some ci =>
      simp only [hci, note_apply, pure_apply] at hok
      cases hok
      exact ⟨ci, rfl, rfl, rfl⟩

/-- The client goes, its buffers go back to the pools, and its listener counts one less. -/
theorem clearSessionAndBuffer_ok {session : Session} {h h' : EventHandler}
    (hok : clearSessionAndBuffer session h = .ok () h') :
    ∃ ci li, h.clientInfo.lookup session.fd = some ci ∧
      h.listenInfo.lookup ci.listenfd = some li ∧
      h' = { h with
        demux := maxConnectionDemux h.demux ci.listenfd
          { li with currentconns := li.currentconns - 1 } false
        clientInfo := AList.erase session.fd h.clientInfo
        listenInfo := AList.insert ci.listenfd { li with currentconns := li.currentconns - 1 }
          h.listenInfo
        rbpool := ci.rbChain.foldl .putIntoPool h.rbpool
        wbpool := ci.wbChain.foldl .putIntoPool h.wbpool } := by
  simp only [clearSessionAndBuffer, bind_apply, getClientInfo_erase_apply] at hok
  cases hci : h.clientInfo.lookup session.fd with
  | none => simp [hci] at hok
  | some ci =>
      simp only [hci, getListenInfo_apply] at hok
      cases hli : h.listenInfo.lookup ci.listenfd with
      | none => simp [hli] at hok
      | some li =>
          simp only [hli, setListenInfo_apply, checkMaxConnection_apply, AList.lookup_insert,
            modify_apply] at hok
          cases hok
          exact ⟨ci, li, rfl, hli, rfl⟩

/-- `ClearSessionAndBuffer` forgets the connection before it looks for the
listener. -/
theorem clearSessionAndBuffer_error {session : Session} {h h' : EventHandler} {e : BaseException}
    (herror : clearSessionAndBuffer session h = .error e h') :
    (h.clientInfo.lookup session.fd = none ∧ h' = h) ∨
      ∃ ci, h.clientInfo.lookup session.fd = some ci ∧ h.listenInfo.lookup ci.listenfd = none ∧
        h' = { h with clientInfo := AList.erase session.fd h.clientInfo } := by
  simp only [clearSessionAndBuffer, bind_apply, getClientInfo_erase_apply] at herror
  cases hci : h.clientInfo.lookup session.fd with
  | none =>
      simp only [hci] at herror
      cases herror
      exact .inl ⟨rfl, rfl⟩
  | some ci =>
      simp only [hci, getListenInfo_apply] at herror
      cases hli : h.listenInfo.lookup ci.listenfd with
      | none =>
          simp only [hli] at herror
          cases herror
          exact .inr ⟨ci, rfl, hli, rfl⟩
      | some li =>
          simp only [hli, setListenInfo_apply, checkMaxConnection_apply, AList.lookup_insert,
            modify_apply] at herror
          cases herror

/-- It throws for a connection whose listener is not there. -/
theorem clearSessionAndBuffer_of_noListener {session : Session} {h : EventHandler}
    {ci : ClientInfo} (hci : h.clientInfo.lookup session.fd = some ci)
    (hli : h.listenInfo.lookup ci.listenfd = none) :
    clearSessionAndBuffer session h = .error (listenerNotFound ci.listenfd)
      { h with clientInfo := AList.erase session.fd h.clientInfo } := by
  simp only [clearSessionAndBuffer, bind_apply, getClientInfo_erase_apply, hci,
    getListenInfo_apply, hli]

/-- A listener's counter set. -/
def withListenInfo (h : EventHandler) (listenfd : Fd) (li : ListenInfo) : EventHandler :=
  { h with listenInfo := AList.insert listenfd li h.listenInfo }

/-- A new connection, up to its callback. -/
def withNewConn (h : EventHandler) (listenfd fd : Fd) : EventHandler :=
  { h with
    demux := h.demux.addConn fd .CFEV_CLOSE
    clientInfo := h.clientInfo.insertNew fd ⟨⟨h.nextSession, fd⟩, listenfd, [], []⟩
    nextSession := h.nextSession + 1
    trace := h.trace ++ [.onAcceptComplete listenfd ⟨h.nextSession, fd⟩] }

/-- What `OnAccept` does to its next callback, or to its end. -/
inductive AcceptStep (listenfd : Fd) (accepted : List Fd) (h : EventHandler) :
    EventHandler → List Frame → Prop
  | finish {li : ListenInfo} (hli : h.listenInfo.lookup listenfd = some li) :
    AcceptStep listenfd accepted h
      { h with demux := maxConnectionDemux h.demux listenfd li true } []
  | accept {fd : Fd} {rest : List Fd} (hfd : fd ∈ accepted) (hrest : ∀ k ∈ rest, k ∈ accepted)
      (hnew : h.clientInfo.lookup fd = none) (hshort : rest.length < accepted.length) :
    AcceptStep listenfd accepted h (h.withNewConn listenfd fd)
      [.accepting listenfd ⟨h.nextSession, fd⟩ rest]

/-- A turn of the loop is one for every longer batch too. -/
theorem AcceptStep.mono {listenfd : Fd} {accepted accepted' : List Fd} {h h' : EventHandler}
    {frames : List Frame} (hstep : AcceptStep listenfd accepted h h' frames)
    (hsub : ∀ k ∈ accepted, k ∈ accepted') (hlen : accepted.length ≤ accepted'.length) :
    AcceptStep listenfd accepted' h h' frames := by
  cases hstep with
  | finish hli => exact .finish hli
  | accept hfd hrest hnew hshort =>
      exact .accept (hsub _ hfd) (fun k hk => hsub k (hrest k hk)) hnew (by omega)

/-- The accept loop runs up to its next callback, or to its end. -/
theorem acceptLoop_ok {listenfd : Fd} {accepted : List Fd} {h h' : EventHandler}
    {f : Option Frame} (hok : acceptLoop listenfd accepted h = .ok f h') :
    AcceptStep listenfd accepted h h' f.toList := by
  induction accepted with
  | nil =>
      simp only [acceptLoop, bind_apply, checkMaxConnection_apply] at hok
      cases hli : h.listenInfo.lookup listenfd with
      | none => simp [hli] at hok
      | some li =>
          simp only [hli, pure_apply] at hok
          cases hok
          exact .finish hli
  | cons fd rest ih =>
      simp only [acceptLoop, bind_apply, get_apply] at hok
      by_cases hmem : fd ∈ h.clientInfo
      · rw [if_pos hmem] at hok
        exact (ih hok).mono (fun k hk => List.mem_cons_of_mem _ hk) (Nat.le_succ _)
      · rw [if_neg hmem] at hok
        simp only [addNewConn, bind_apply, modify_apply, onDemux_apply, note_apply,
          pure_apply] at hok
        cases hok
        exact .accept (by simp) (fun k hk => List.mem_cons_of_mem _ hk)
          (AList.lookup_eq_none.mpr hmem) (Nat.lt_succ_self _)

/-- The connection is counted where its callback has returned. -/
theorem countConn_ok {listenfd : Fd} {h h' : EventHandler}
    (hok : countConn listenfd h = .ok () h') :
    ∃ li, h.listenInfo.lookup listenfd = some li ∧
      h' = h.withListenInfo listenfd { li with currentconns := li.currentconns + 1 } := by
  simp only [countConn, bind_apply, getListenInfo_apply] at hok
  cases hli : h.listenInfo.lookup listenfd with
  | none => simp [hli] at hok
  | some li =>
      simp only [hli, setListenInfo_apply] at hok
      cases hok
      exact ⟨li, rfl, rfl⟩

/-- There is nothing to count at a listener that is not there. -/
theorem countConn_error {listenfd : Fd} {h : EventHandler}
    (hli : h.listenInfo.lookup listenfd = none) :
    countConn listenfd h = .error (listenerNotFound listenfd) h := by
  simp only [countConn, bind_apply, getListenInfo_apply, hli]

end EventHandler

end CppFastDevelop
