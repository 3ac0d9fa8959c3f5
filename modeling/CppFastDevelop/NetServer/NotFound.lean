import CppFastDevelop.NetServer.Record

/-!
# CppFastDevelop.NetServer.NotFound

When `GetClientInfo` may throw: only for a handler that is entered for a
descriptor without a client, or for a client that is gone when its
`OnCloseComplete` or `OnErrorComplete` returns.
-/

namespace CppFastDevelop

namespace EventHandler

open Exec

/-- Not what `GetClientInfo` throws. -/
def NotAboutClient (e : BaseException) : Prop := ∀ fd, e ≠ clientNotFound fd

/-- The format string tells one exception from another. -/
theorem notAboutClient_of_format {e : BaseException}
    (h : e.format ≠ (clientNotFound 0).format) : NotAboutClient e :=
  fun fd heq => h (by rw [heq]; rfl)

/-! ## buffers -/

/-- Reading how much is left does not look a client up. -/
theorem notAboutClient_getLeft {b : Buffer} {e : BaseException} (h : b.getLeft = .error e) :
    NotAboutClient e := by
  unfold Buffer.getLeft at h
  split at h
  · cases h
  · cases h
    exact notAboutClient_of_format (by simp [clientNotFound])

/-- All that the loop over `send` throws is the error of `send`. -/
theorem failure_sendLoop {totalLen alreadyDone : Nat} {segsize : Int} {kernel : List SendResult}
    {e : BaseException} (h : (sendLoop totalLen segsize kernel alreadyDone).failure = some e) :
    e = writeFailed := by
  induction kernel generalizing alreadyDone with
  | nil => cases h
  | cons r rs ih =>
      unfold sendLoop at h
      split at h
      · cases r with
        | again => cases h
        | failed => cases h; rfl
        | accepted len => exact ih h
      · cases h

/-- All that the loop over `recv` throws is the error of `recv`. -/
theorem failure_recvLoop {totalLen : Nat} {segsize : Int} {kernel : List RecvResult}
    {received : List UInt8} {e : BaseException}
    (h : (recvLoop totalLen segsize kernel received).failure = some e) : e = writeFailed := by
  induction kernel generalizing received with
  | nil => cases h
  | cons r rs ih =>
      unfold recvLoop at h
      split at h
      · cases r with
        | again => cases h
        | failed => cases h; rfl
        | data bytes =>
            simp only at h
            split at h
            · cases h
            · exact ih h
      · cases h

theorem notAboutClient_writeFailed : NotAboutClient writeFailed :=
  notAboutClient_of_format (by decide)

/-- A read buffer does not look a client up. -/
theorem notAboutClient_read (rb : ReadBuffer) (kernel : List RecvResult) (e : BaseException)
    (h : (ReadBuffer.read rb kernel).failure = some e) : NotAboutClient e := by
  unfold ReadBuffer.read at h
  cases hleft : rb.getLeft with
  | error e' =>
      rw [hleft] at h
      cases h
      exact notAboutClient_getLeft hleft
  | ok left =>
      simp only [hleft] at h
      cases hfail : (recvSegmentAsync left.toNat (-1) kernel).failure with
      | none => simp [hfail] at h
      | some e' =>
          simp only [hfail, Option.some.injEq] at h
          subst h
          unfold recvSegmentAsync at hfail
          split at hfail
          · cases hfail
          · rw [failure_recvLoop hfail]
            exact notAboutClient_writeFailed

/-- A write buffer does not look a client up. -/
theorem notAboutClient_write (wb : WriteBuffer) (kernel : List SendResult) (e : BaseException)
    (h : (WriteBuffer.write wb kernel).failure = some e) : NotAboutClient e := by
  unfold WriteBuffer.write at h
  cases hleft : wb.getLeft with
  | error e' =>
      rw [hleft] at h
      cases h
      exact notAboutClient_getLeft hleft
  | ok left =>
      simp only [hleft] at h
      cases hfail : (sendSegmentAsync left.toNat (-1) kernel).failure with
      | none => simp [hfail] at h
      | some e' =>
          simp only [hfail, Option.some.injEq] at h
          subst h
          unfold sendSegmentAsync at hfail
          split at hfail
          · cases hfail
          · rw [failure_sendLoop hfail]
            exact notAboutClient_writeFailed

theorem notAboutClient_isComplete_read (rb : ReadBuffer) (e : BaseException)
    (h : ReadBuffer.isComplete rb = .error e) : NotAboutClient e := by
  unfold ReadBuffer.isComplete at h
  split at h
  · cases h
    exact notAboutClient_of_format (by decide)
  · cases h

theorem notAboutClient_isComplete_write (wb : WriteBuffer) (e : BaseException)
    (h : WriteBuffer.isComplete wb = .error e) : NotAboutClient e := by
  unfold WriteBuffer.isComplete at h
  split at h
  · cases h
    exact notAboutClient_of_format (by decide)
  · cases h

/-- No pass over the read chain looks a client up. -/
theorem notAboutClient_readPass {rbChain : List ReadBuffer} {kernel : List RecvResult}
    {e : BaseException} (h : (readPass rbChain kernel).failure = some e) : NotAboutClient e :=
  Chain.failure_pass NotAboutClient notAboutClient_read notAboutClient_isComplete_read
    rbChain kernel h

/-- No pass over the write chain looks a client up. -/
theorem notAboutClient_writePass {wbChain : List WriteBuffer} {kernel : List SendResult}
    {e : BaseException} (h : (writePass wbChain kernel).failure = some e) : NotAboutClient e :=
  Chain.failure_pass NotAboutClient notAboutClient_write notAboutClient_isComplete_write
    wbChain kernel h

/-! ## member functions -/

/-- The function does not throw what `GetClientInfo` throws. -/
abbrev Finds {α : Type} (op : HandlerM α) : Prop := Throws NotAboutClient op

/-- A listener that is missed is not a client that is missed. -/
theorem finds_getListenInfo (listenfd : Fd) : Finds (getListenInfo listenfd) := by
  intro h e h' herror
  rw [getListenInfo_apply] at herror
  cases hli : h.listenInfo.lookup listenfd with
  | none =>
      rw [hli] at herror
      cases herror
      exact notAboutClient_of_format (by simp [listenerNotFound, clientNotFound])
  | some li => rw [hli] at herror; cases herror

theorem finds_checkMaxConnection (listenfd : Fd) (b : Bool) :
    Finds (checkMaxConnection listenfd b) := by
  intro h e h' herror
  rw [checkMaxConnection_apply] at herror
  cases hli : h.listenInfo.lookup listenfd with
  | none =>
      rw [hli] at herror
      cases herror
      exact notAboutClient_of_format (by simp [listenerNotFound, clientNotFound])
  | some li => rw [hli] at herror; cases herror

theorem finds_getReadBuffer (n : UInt32) : Finds (getReadBuffer n) := by
  intro h e h' herror
  simp only [getReadBuffer, bind_apply, get_apply, set_apply] at herror
  cases hset : ReadBuffer.setTotal (h.rbpool.getFromPool ReadBuffer.sizeDefault).1.clear n with
  | ok rb => rw [hset] at herror; cases herror
  | error e' =>
      unfold ReadBuffer.setTotal at hset
      split at hset
      · next hne => exact absurd rfl hne
      · cases hset

theorem finds_getWriteBuffer (buf : List UInt8) (n : UInt32) : Finds (getWriteBuffer buf n) := by
  intro h e h' herror
  simp only [getWriteBuffer, bind_apply, get_apply, set_apply] at herror
  cases hset : WriteBuffer.setBuffer
      (h.wbpool.getFromPool WriteBuffer.sizeDefault).1.clear buf n with
  | ok wb => rw [hset] at herror; cases herror
  | error e' =>
      unfold WriteBuffer.setBuffer at hset
      split at hset
      · next hne => exact absurd rfl hne
      · cases hset

theorem finds_countConn (listenfd : Fd) : Finds (countConn listenfd) :=
  (finds_getListenInfo listenfd).bind fun _ => throws_modify _

/-- The accept loop registers clients and looks for listeners only. -/
theorem finds_acceptLoop (listenfd : Fd) (accepted : List Fd) :
    Finds (acceptLoop listenfd accepted) := by
  induction accepted with
  | nil => exact (finds_checkMaxConnection listenfd true).bind fun _ => throws_pure none
  | cons fd rest ih =>
      intro h e h' herror
      simp only [acceptLoop, bind_apply, get_apply] at herror
      split at herror
      · exact ih h e h' herror
      · cases herror

theorem finds_completeReads (s : Session) (bs : List ReadBuffer) : Finds (completeReads s bs) :=
  fun h e h' herror => absurd herror (completeReads_ne_error s bs h e h')

theorem finds_completeWrites (s : Session) (bs : List WriteBuffer) :
    Finds (completeWrites s bs) :=
  fun h e h' herror => absurd herror (completeWrites_ne_error s bs h e h')

/-- After its client was found, `OnRead` looks for nobody. -/
theorem finds_endRead (fd : Fd) (ci : ClientInfo) (kernel : List RecvResult) :
    Finds (endRead fd ci (readPass ci.rbChain kernel)) :=
  fun _ _ _ herror => notAboutClient_readPass (endRead_error herror).1

/-- After its client was found, `OnWrite` looks for nobody. -/
theorem finds_endWrite (fd : Fd) (ci : ClientInfo) (kernel : List SendResult) :
    Finds (endWrite fd ci (writePass ci.wbChain kernel)) :=
  fun _ _ _ herror => notAboutClient_writePass (endWrite_error herror).1

/-- The function does not throw what `GetClientInfo` throws when it is
called in this state. -/
abbrev FindsIn {α : Type} (h : EventHandler) (op : HandlerM α) : Prop :=
  ThrowsFrom NotAboutClient h op

/-- Looking up a client that is there. -/
theorem findsIn_getClientInfo {fd : Fd} (b : Bool) {h : EventHandler}
    (hmem : fd ∈ h.clientInfo) : FindsIn h (getClientInfo fd b) := by
  intro e h' herror
  obtain ⟨ci, hci⟩ := FdMap.mem_iff_exists.mp hmem
  cases b with
  | false => rw [getClientInfo_apply, hci] at herror; cases herror
  | true => rw [getClientInfo_erase_apply, hci] at herror; cases herror

/-- A callback throws nothing. -/
theorem finds_noteLast (e : Event) (f : Option Frame) :
    Finds (do note e; pure f : HandlerM (Option Frame)) := by
  intro h e' h' herror
  cases herror

/-- A read request finds a client that is registered. -/
theorem findsIn_asyncRead {fd : Fd} {h : EventHandler} (hmem : fd ∈ h.clientInfo)
    (n : UInt32) : FindsIn h (asyncRead fd n) :=
  (findsIn_getClientInfo false hmem).bind fun _ => (finds_getReadBuffer n).bind fun _ =>
    (throws_modify _).bind fun _ => (throws_modify _).bind fun _ => throws_modify _

/-- A write request finds a client that is registered. -/
theorem findsIn_asyncWrite {fd : Fd} {h : EventHandler} (hmem : fd ∈ h.clientInfo)
    (buf : List UInt8) (n : UInt32) : FindsIn h (asyncWrite fd buf n) :=
  (findsIn_getClientInfo false hmem).bind fun _ => (finds_getWriteBuffer buf n).bind fun _ =>
    (throws_modify _).bind fun _ => (throws_modify _).bind fun _ => throws_modify _

/-- Clearing a session finds a client that is registered. -/
theorem findsIn_clearSessionAndBuffer {s : Session} {h : EventHandler}
    (hmem : s.fd ∈ h.clientInfo) : FindsIn h (clearSessionAndBuffer s) :=
  (findsIn_getClientInfo true hmem).bind fun _ => (finds_getListenInfo _).bind fun _ =>
    (throws_modify _).bind fun _ => (finds_checkMaxConnection _ _).bind fun _ =>
      throws_modify _

/-- `OnClose` and `OnError` unregister from the demultiplexer first. -/
theorem findsIn_onClose {fd : Fd} {h : EventHandler} (hmem : fd ∈ h.clientInfo) :
    FindsIn h (onClose fd) :=
  throwsFrom_bind_of_ok (onDemux_apply _ h)
    ((findsIn_getClientInfo (h := { h with demux := h.demux.delConn fd }) false hmem).bind
      fun _ => finds_noteLast _ _)

/-- The other of the two, with the same look-up. -/
theorem findsIn_onError {fd : Fd} {h : EventHandler} (hmem : fd ∈ h.clientInfo) :
    FindsIn h (onError fd) :=
  throwsFrom_bind_of_ok (onDemux_apply _ h)
    ((findsIn_getClientInfo (h := { h with demux := h.demux.delConn fd }) false hmem).bind
      fun _ => finds_noteLast _ _)

/-- After a callback a client is looked up only where it is to be cleared. -/
theorem findsIn_resume {f : Frame} {h : EventHandler}
    (hmem : ∀ s ∈ f.closes?, s.fd ∈ h.clientInfo) : FindsIn h (resume f) := by
  cases f with
  | accepting listenfd s rest =>
      exact (finds_countConn listenfd).bind (fun _ => finds_acceptLoop listenfd rest) h
  | reading s rb rest =>
      exact (throws_modify _).bind (fun _ => finds_completeReads s rest) h
  | writing s wb rest =>
      exact (throws_modify _).bind (fun _ => finds_completeWrites s rest) h
  | closing s =>
      exact (findsIn_clearSessionAndBuffer (hmem s rfl)).bind fun _ => throws_pure none
  | erroring s =>
      exact (findsIn_clearSessionAndBuffer (hmem s rfl)).bind fun _ => throws_pure none
  | timingOut => exact throws_pure none h

end EventHandler

namespace System

open EventHandler Exec

/-- The clients that a call looks up at once are registered, and so is the
one that the running `OnCloseComplete` or `OnErrorComplete` is about. -/
def Found (m : System) : Call → Prop
  | .onRead fd _ | .onWrite fd _ | .onClose fd | .onError fd => fd ∈ m.handler.clientInfo
  | .ret => ∀ f ∈ m.stack.head?, ∀ s ∈ f.closes?, s.fd ∈ m.handler.clientInfo
  | _ => True

/-- **A call whose clients are registered finds them.** -/
theorem step_found {m m' : System} {c : Call} (hstep : m.step c = some m') (hfound : m.Found c)
    (fd : Fd) : m'.failed ≠ some (clientNotFound fd) := by
  have henter {op : HandlerM (Option Frame)} {h : EventHandler} {stack : List Frame}
      (hop : FindsIn h op) : (enter op h stack).failed ≠ some (clientNotFound fd) := by
    unfold enter
    cases hrun : op h with
    | ok f h' => exact fun hnone => by cases hnone
    | error e h' => exact fun heq => hop e h' hrun fd (Option.some.inj heq)
  unfold step at hstep
  split at hstep
  case isFalse => cases hstep
  case isTrue hen =>
    obtain ⟨hfree, hen⟩ := hen
    rw [Option.some.injEq] at hstep
    subst hstep
    cases c with
    | onAccept listenfd accepted =>
        refine henter ?_
        unfold onAccept
        split
        · exact throws_pure none _
        · exact finds_acceptLoop listenfd accepted _
    | onRead k kernel =>
        exact henter ((findsIn_getClientInfo false hfound).bind fun ci =>
          finds_endRead k ci kernel)
    | onWrite k kernel =>
        exact henter ((findsIn_getClientInfo false hfound).bind fun ci =>
          finds_endWrite k ci kernel)
    | onClose k => exact henter (findsIn_onClose hfound)
    | onError k => exact henter (findsIn_onError hfound)
    | onTimeout => exact henter (finds_noteLast _ _ _)
    | asyncRead k n =>
        exact henter ((findsIn_asyncRead hen n).bind fun _ => throws_pure none)
    | asyncWrite k buf n =>
        exact henter ((findsIn_asyncWrite hen.1 buf n).bind fun _ => throws_pure none)
    | asyncClose k => exact henter (findsIn_onClose hen)
    | ret =>
        obtain ⟨h, stack, failed⟩ := m
        cases stack with
        | nil => exact absurd rfl hen
        | cons f rest => exact henter (findsIn_resume (hfound f rfl))

end System

end CppFastDevelop
