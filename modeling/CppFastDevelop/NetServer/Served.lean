import CppFastDevelop.NetServer.NotFound
import CppFastDevelop.NetServer.Reading
import CppFastDevelop.NetServer.Writing

/-!
# CppFastDevelop.NetServer.Served

When the event handler throws nothing.  Where the loop names only what is
there and the kernel reports no error, no call throws (`ok_of_served`), and so
no run in which at least a byte is asked for each time
(`ok_of_run_served`).
-/

namespace CppFastDevelop

/-! ## moving bytes without errors -/

/-- A `recv` that never fails makes no failure, and leaves none to come. -/
theorem quiet_recvLoop {totalLen : Nat} {segsize : Int} {kernel : List RecvResult}
    {received : List UInt8} (hk : .failed ∉ kernel) :
    (recvLoop totalLen segsize kernel received).failure = none ∧
      .failed ∉ (recvLoop totalLen segsize kernel received).rest := by
  induction kernel generalizing received with
  | nil => exact ⟨rfl, by simp [recvLoop]⟩
  | cons r rs ih =>
      have hrs : .failed ∉ rs := fun hmem => hk (List.mem_cons_of_mem r hmem)
      unfold recvLoop
      split
      · cases r with
        | again => exact ⟨rfl, hrs⟩
        | failed => exact absurd List.mem_cons_self hk
        | data bytes =>
            dsimp only
            split
            · exact ⟨rfl, hrs⟩
            · exact ih hrs
      · exact ⟨rfl, hk⟩

/-- A `send` that never fails makes no failure, and leaves none to come. -/
theorem quiet_sendLoop {totalLen alreadyDone : Nat} {segsize : Int} {kernel : List SendResult}
    (hk : .failed ∉ kernel) :
    (sendLoop totalLen segsize kernel alreadyDone).failure = none ∧
      .failed ∉ (sendLoop totalLen segsize kernel alreadyDone).rest := by
  induction kernel generalizing alreadyDone with
  | nil => exact ⟨rfl, by simp [sendLoop]⟩
  | cons r rs ih =>
      have hrs : .failed ∉ rs := fun hmem => hk (List.mem_cons_of_mem r hmem)
      unfold sendLoop
      split
      · cases r with
        | again => exact ⟨rfl, hrs⟩
        | failed => exact absurd List.mem_cons_self hk
        | accepted n => exact ih hrs
      · exact ⟨rfl, hk⟩

/-- Reading an unfinished buffer throws nothing unless `recv` fails. -/
theorem ReadBuffer.quiet_read (rb : ReadBuffer) (kernel : List RecvResult)
    (h : Buffer.Unfinished rb) (hk : .failed ∉ kernel) :
    (read rb kernel).failure = none ∧ .failed ∉ (read rb kernel).rest := by
  have hquiet : (recvSegmentAsync (rb.total - rb.already).toNat (-1) kernel).failure = none ∧
      .failed ∉ (recvSegmentAsync (rb.total - rb.already).toNat (-1) kernel).rest := by
    unfold recvSegmentAsync
    split
    · exact ⟨rfl, hk⟩
    · exact quiet_recvLoop hk
  unfold read
  simp only [(Buffer.getLeft_of_unfinished h).1, hquiet.1]
  exact ⟨trivial, hquiet.2⟩

/-- Sending an unfinished buffer throws nothing unless `send` fails. -/
theorem WriteBuffer.quiet_write (wb : WriteBuffer) (kernel : List SendResult)
    (h : Buffer.Unfinished wb) (hk : .failed ∉ kernel) :
    (write wb kernel).failure = none ∧ .failed ∉ (write wb kernel).rest := by
  have hquiet : (sendSegmentAsync (wb.total - wb.already).toNat (-1) kernel).failure = none ∧
      .failed ∉ (sendSegmentAsync (wb.total - wb.already).toNat (-1) kernel).rest := by
    unfold sendSegmentAsync
    split
    · exact ⟨rfl, hk⟩
    · exact quiet_sendLoop hk
  unfold write
  simp only [(Buffer.getLeft_of_unfinished h).1, hquiet.1]
  exact ⟨trivial, hquiet.2⟩

/-! ## calls that throw nothing -/

namespace EventHandler

open Exec

variable {h : EventHandler} {fd listenfd : Fd} {ci : ClientInfo}

/-- The function returns when it is run in this state. -/
abbrev Returns {α : Type} (h : EventHandler) (op : HandlerM α) : Prop :=
  ThrowsFrom (fun _ => False) h op

/-- A read request of at least one byte returns where the client is registered. -/
theorem returns_asyncRead (hmem : fd ∈ h.clientInfo) {n : UInt32} (hn : 1 ≤ n.toNat) :
    Returns h (asyncRead fd n) := by
  obtain ⟨ci, hci⟩ := FdMap.mem_iff_exists.mp hmem
  obtain ⟨rb, hrb, -⟩ := ReadBuffer.setTotal_clear
    (h.rbpool.getFromPool ReadBuffer.sizeDefault).1 hn
  intro e h' herror
  simp only [asyncRead, bind_apply, getClientInfo_apply, hci, getReadBuffer, get_apply,
    set_apply, hrb, ofExcept, pure_apply, setClientInfo_apply, note_apply,
    onDemux_apply] at herror
  cases herror

/-- A write request of bytes that are there returns where the client is registered. -/
theorem returns_asyncWrite (hmem : fd ∈ h.clientInfo) {buf : List UInt8} {n : UInt32}
    (hn : 1 ≤ n.toNat) (hlen : n.toNat ≤ buf.length) : Returns h (asyncWrite fd buf n) := by
  obtain ⟨ci, hci⟩ := FdMap.mem_iff_exists.mp hmem
  obtain ⟨wb, hwb, -⟩ := WriteBuffer.setBuffer_clear
    (h.wbpool.getFromPool WriteBuffer.sizeDefault).1 hn hlen
  intro e h' herror
  simp only [asyncWrite, bind_apply, getClientInfo_apply, hci, getWriteBuffer, get_apply,
    set_apply, hwb, ofExcept, pure_apply, setClientInfo_apply, note_apply,
    onDemux_apply] at herror
  cases herror

/-- A close returns where the client is registered. -/
theorem returns_onClose (hmem : fd ∈ h.clientInfo) : Returns h (onClose fd) := by
  obtain ⟨ci, hci⟩ := FdMap.mem_iff_exists.mp hmem
  intro e h' herror
  simp only [onClose, bind_apply, onDemux_apply, getClientInfo_apply, hci, note_apply,
    pure_apply] at herror
  cases herror

/-- An error returns where the client is registered. -/
theorem returns_onError (hmem : fd ∈ h.clientInfo) : Returns h (onError fd) := by
  obtain ⟨ci, hci⟩ := FdMap.mem_iff_exists.mp hmem
  intro e h' herror
  simp only [onError, bind_apply, onDemux_apply, getClientInfo_apply, hci, note_apply,
    pure_apply] at herror
  cases herror

/-- A read event returns where its pass over the chain does. -/
theorem returns_onRead (hci : h.clientInfo.lookup fd = some ci) {kernel : List RecvResult}
    (hok : (readPass ci.rbChain kernel).failure = none) : Returns h (onRead fd kernel) := by
  intro e h' herror
  simp only [onRead, bind_apply, getClientInfo_apply, hci] at herror
  rw [(endRead_error herror).1] at hok
  cases hok

/-- A write event returns where its pass over the chain does. -/
theorem returns_onWrite (hci : h.clientInfo.lookup fd = some ci) {kernel : List SendResult}
    (hok : (writePass ci.wbChain kernel).failure = none) : Returns h (onWrite fd kernel) := by
  intro e h' herror
  simp only [onWrite, bind_apply, getClientInfo_apply, hci] at herror
  rw [(endWrite_error herror).1] at hok
  cases hok

/-- Accepting returns where the listener is there. -/
theorem returns_acceptLoop (hmem : listenfd ∈ h.listenInfo) (accepted : List Fd) :
    Returns h (acceptLoop listenfd accepted) := by
  obtain ⟨li, hli⟩ := FdMap.mem_iff_exists.mp hmem
  induction accepted with
  | nil =>
      intro e h' herror
      simp only [acceptLoop, bind_apply, checkMaxConnection_apply, hli, pure_apply] at herror
      cases herror
  | cons fd rest ih =>
      intro e h' herror
      simp only [acceptLoop, bind_apply, get_apply] at herror
      split at herror
      · exact ih e h' herror
      · cases herror

/-- Clearing a session returns where its listener is there. -/
theorem returns_clearSessionAndBuffer {s : Session} (hci : h.clientInfo.lookup s.fd = some ci)
    (hmem : ci.listenfd ∈ h.listenInfo) : Returns h (clearSessionAndBuffer s) := by
  obtain ⟨li, hli⟩ := FdMap.mem_iff_exists.mp hmem
  intro e h' herror
  rcases clearSessionAndBuffer_error herror with ⟨hnone, -⟩ | ⟨ci', hci', hnone, -⟩
  · rw [hnone] at hci
    cases hci
  · rw [hci, Option.some.injEq] at hci'
    rw [← hci', hli] at hnone
    cases hnone

end EventHandler

namespace System

open EventHandler Exec

/-- The listeners that the handlers will look for are there. -/
structure Listed (m : System) : Prop where
  client : ∀ fd ci, m.handler.clientInfo.lookup fd = some ci → ci.listenfd ∈ m.handler.listenInfo
  frame : ∀ f ∈ m.stack, ∀ listenfd s rest, f = .accepting listenfd s rest →
    listenfd ∈ m.handler.listenInfo

namespace Listed

variable {h h' : EventHandler} {stack : List Frame}

/-- At the beginning nobody looks for a listener. -/
theorem init (listenfdMaxconn : List (Fd × UInt32)) : Listed (init listenfdMaxconn) :=
  ⟨fun fd ci hci => by simp [System.init, EventHandler.init] at hci, by simp [System.init]⟩

/-- Frames of callbacks other than `OnAcceptComplete`. -/
theorem append_frames {m : System} (hl : Listed m) (frames : List Frame)
    (hframes : ∀ f ∈ frames, ∀ listenfd s rest, f ≠ .accepting listenfd s rest) :
    ∀ f ∈ frames ++ m.stack, ∀ listenfd s rest, f = .accepting listenfd s rest →
      listenfd ∈ m.handler.listenInfo := by
  intro f hf listenfd s rest heq
  cases List.mem_append.mp hf with
  | inl hf => exact absurd heq (hframes f hf listenfd s rest)
  | inr hf => exact hl.frame f hf listenfd s rest heq

/-- After a return fewer listeners are looked for. -/
theorem pop {f : Frame} (hl : Listed ⟨h, f :: stack, none⟩) : Listed ⟨h, stack, none⟩ :=
  ⟨hl.client, fun g hg => hl.frame g (List.mem_cons_of_mem f hg)⟩

/-- Counting at a listener takes none away. -/
theorem insert_listener (hl : Listed ⟨h, stack, none⟩) {listenfd : Fd} {li : ListenInfo}
    (hli : h.listenInfo.lookup listenfd = some li) (li' : ListenInfo) :
    Listed ⟨h.withListenInfo listenfd li', stack, none⟩ :=
  ⟨fun fd ci hci => (FdMap.mem_insert_of_lookup hli).mpr (hl.client fd ci hci),
    fun f hf k s rest heq => (FdMap.mem_insert_of_lookup hli).mpr (hl.frame f hf k s rest heq)⟩

/-- The clients of a batch come from a listener that is there. -/
theorem acceptStep (hl : Listed ⟨h, stack, none⟩) {listenfd : Fd} {accepted : List Fd}
    {frames : List Frame} (hmem : listenfd ∈ h.listenInfo)
    (hstep : AcceptStep listenfd accepted h h' frames) :
    Listed ⟨h', frames ++ stack, none⟩ := by
  cases hstep with
  | finish => exact ⟨hl.client, hl.frame⟩
  | accept =>
      refine ⟨FdMap.forall_insertNew hl.client fun _ => hmem, fun f hf k s rest heq => ?_⟩
      cases List.mem_append.mp hf with
      | inl hf =>
          rw [List.mem_singleton.mp hf] at heq
          cases heq
          exact hmem
      | inr hf => exact hl.frame f hf k s rest heq

/-- Only `OnAccept` names a listener. -/
theorem effect {m m' : System} {c : Call} (heff : Effect m c m')
    (hc : ∀ listenfd accepted, c = .onAccept listenfd accepted →
      listenfd ∈ m.handler.listenInfo) (hl : Listed m) : Listed m' := by
  cases heff with
  | asyncRead hci =>
      have hci := hl.client _ _ hci
      exact ⟨FdMap.forall_insert hl.client hci, hl.frame⟩
  | asyncWrite hci =>
      have hci := hl.client _ _ hci
      exact ⟨FdMap.forall_insert hl.client hci, hl.frame⟩
  | close => exact ⟨hl.client, hl.append_frames [_] (by simp)⟩
  | onError => exact ⟨hl.client, hl.append_frames [_] (by simp)⟩
  | @onRead h fd kernel ci p hci =>
      have hframes := hl.append_frames (readFrames ci.session p.complete)
        (by cases p.complete <;> simp [readFrames])
      rw [List.append_nil] at hframes
      exact ⟨FdMap.forall_insert hl.client (hl.client fd ci hci), hframes⟩
  | @onWrite h fd kernel ci p hci =>
      have hframes := hl.append_frames (writeFrames ci.session p.complete)
        (by cases p.complete <;> simp [writeFrames])
      rw [List.append_nil] at hframes
      exact ⟨FdMap.forall_insert hl.client (hl.client fd ci hci), hframes⟩
  | onTimeout => exact ⟨hl.client, by simp⟩
  | onAcceptNothing => exact hl
  | @onAccept h h' listenfd accepted frames hnew haccept =>
      rw [← List.append_nil frames]
      exact hl.acceptStep (hc listenfd accepted rfl) haccept
  | retAccepting hli haccept =>
      refine (hl.pop.insert_listener hli _).acceptStep ?_ haccept
      exact (FdMap.mem_insert_of_lookup hli).mpr (FdMap.mem_of_lookup hli)
  | @retReading h stack s rb rest =>
      exact ⟨hl.client, hl.pop.append_frames _ (by cases rest <;> simp [readFrames])⟩
  | @retWriting h stack s wb rest =>
      exact ⟨hl.client, hl.pop.append_frames _ (by cases rest <;> simp [writeFrames])⟩
  | @retClosing h stack s f ci li hf hci hli =>
      have hl' := hl.pop.insert_listener hli { li with currentconns := li.currentconns - 1 }
      exact ⟨FdMap.forall_erase hl'.client, hl'.frame⟩
  | retTimingOut => exact hl.pop

end Listed

/-- The loop names what is there, and the kernel reports no error. -/
def Served (m : System) (c : Call) : Prop :=
  m.Found c ∧ match c with
    | .onAccept listenfd _ => listenfd ∈ m.handler.listenInfo
    | .onRead _ kernel => .failed ∉ kernel
    | .onWrite _ kernel => .failed ∉ kernel
    | _ => True

instance (m : System) : DecidablePred m.Found
  | .onRead fd _ | .onWrite fd _ | .onClose fd | .onError fd =>
    inferInstanceAs (Decidable (fd ∈ m.handler.clientInfo))
  | .ret => inferInstanceAs
    (Decidable (∀ f ∈ m.stack.head?, ∀ s ∈ f.closes?, s.fd ∈ m.handler.clientInfo))
  | .onAccept _ _ | .onTimeout | .asyncRead _ _ | .asyncWrite _ _ _ | .asyncClose _ =>
    inferInstanceAs (Decidable True)

instance (m : System) : DecidablePred m.Served
  | .onAccept listenfd _ => inferInstanceAs (Decidable (True ∧ listenfd ∈ m.handler.listenInfo))
  | .onRead fd kernel =>
    inferInstanceAs (Decidable (fd ∈ m.handler.clientInfo ∧ .failed ∉ kernel))
  | .onWrite fd kernel =>
    inferInstanceAs (Decidable (fd ∈ m.handler.clientInfo ∧ .failed ∉ kernel))
  | .onClose fd => inferInstanceAs (Decidable (m.Found (.onClose fd) ∧ True))
  | .onError fd => inferInstanceAs (Decidable (m.Found (.onError fd) ∧ True))
  | .onTimeout => inferInstanceAs (Decidable (m.Found .onTimeout ∧ True))
  | .asyncRead fd n => inferInstanceAs (Decidable (m.Found (.asyncRead fd n) ∧ True))
  | .asyncWrite fd buf n => inferInstanceAs (Decidable (m.Found (.asyncWrite fd buf n) ∧ True))
  | .asyncClose fd => inferInstanceAs (Decidable (m.Found (.asyncClose fd) ∧ True))
  | .ret => inferInstanceAs (Decidable (m.Found .ret ∧ True))

/-- A call without a result returns where its function does. -/
theorem returns_unit {α β : Type} {h : EventHandler} {x : HandlerM α} {b : β}
    (hx : Returns h x) : Returns h (do let _ ← x; pure b) :=
  hx.bind fun _ => throws_pure b

/-- What follows a callback returns where its client and its listener are there. -/
theorem returns_resume {h : EventHandler} {f : Frame} {rest : List Frame}
    {failed : Option BaseException} (hl : Listed ⟨h, f :: rest, failed⟩)
    (hfound : ∀ s ∈ f.closes?, s.fd ∈ h.clientInfo) : Returns h (resume f) := by
  have hclear {s : Session} (hs : s ∈ f.closes?) : Returns h (clearSessionAndBuffer s) := by
    obtain ⟨ci, hci⟩ := FdMap.mem_iff_exists.mp (hfound s hs)
    exact returns_clearSessionAndBuffer hci (hl.client s.fd ci hci)
  cases f with
  | accepting listenfd s more =>
      have hmem := hl.frame _ List.mem_cons_self listenfd s more rfl
      obtain ⟨li, hli⟩ := FdMap.mem_iff_exists.mp hmem
      have hcount : countConn listenfd h = .ok () (h.withListenInfo listenfd
          { li with currentconns := li.currentconns + 1 }) := by
        simp only [countConn, bind_apply, getListenInfo_apply, hli, setListenInfo_apply]
        rfl
      exact throwsFrom_bind_of_ok hcount
        (returns_acceptLoop ((FdMap.mem_insert_of_lookup hli).mpr hmem) more)
  | reading s rb more =>
      exact throwsFrom_bind_of_ok (modify_apply _ _) fun e h' herror =>
        completeReads_ne_error _ _ _ _ _ herror
  | writing s wb more =>
      exact throwsFrom_bind_of_ok (modify_apply _ _) fun e h' herror =>
        completeWrites_ne_error _ _ _ _ _ herror
  | closing s => exact returns_unit (hclear rfl)
  | erroring s => exact returns_unit (hclear rfl)
  | timingOut => exact throws_pure none h

/-- The chains of the registered clients are in order. -/
def InOrder (m : System) : Prop :=
  ∀ fd ci, m.handler.clientInfo.lookup fd = some ci →
    Buffer.Underway ci.rbChain ∧ Buffer.Underway ci.wbChain

/-- **A call that names what is there throws nothing**, unless the kernel
reports an error. -/
theorem ok_of_served {m : System} {c : Call} (hl : Listed m) (hchains : InOrder m)
    (hserved : m.Served c) (hen : m.Enabled c) (hsized : c.Sized) (hfree : m.failed = none) :
    (m.perform c).failed = none := by
  have henter {op : HandlerM (Option Frame)} {h : EventHandler} {stack : List Frame}
      (hop : Returns h op) : (enter op h stack).failed = none := by
    unfold enter
    cases hrun : op h with
    | ok f h' => rfl
    | error e h' => exact (hop e h' hrun).elim
  obtain ⟨hfound, hserved⟩ := hserved
  cases c with
  | onAccept listenfd accepted =>
      refine henter ?_
      unfold onAccept
      split
      · exact throws_pure none _
      · exact returns_acceptLoop hserved accepted
  | onRead fd kernel =>
      obtain ⟨ci, hci⟩ := FdMap.mem_iff_exists.mp hfound
      exact henter (returns_onRead hci (Chain.failure_pass_of_quiet ReadBuffer.moves
        ReadBuffer.quiet_read (hchains fd ci hci).1 hserved))
  | onWrite fd kernel =>
      obtain ⟨ci, hci⟩ := FdMap.mem_iff_exists.mp hfound
      exact henter (returns_onWrite hci (Chain.failure_pass_of_quiet WriteBuffer.moves
        WriteBuffer.quiet_write (hchains fd ci hci).2 hserved))
  | onClose fd => exact henter (returns_onClose hfound)
  | onError fd => exact henter (returns_onError hfound)
  | onTimeout => rfl
  | asyncRead fd n => exact henter (returns_unit (returns_asyncRead hen hsized))
  | asyncWrite fd buf n => exact henter (returns_unit (returns_asyncWrite hen.1 hsized hen.2))
  | asyncClose fd => exact henter (returns_onClose hen)
  | ret =>
      obtain ⟨h, stack, failed⟩ := m
      cases stack with
      | nil => exact absurd rfl hen
      | cons f rest =>
          exact henter (returns_resume hl fun s hs => hfound f rfl s hs)

/-- The chains of a run are in order. -/
theorem inOrder_of_run {listenfdMaxconn : List (Fd × UInt32)} {m : System} {cs : List Call}
    (hsized : ∀ c ∈ cs, c.Sized)
    (hrun : Machine.run step (init listenfdMaxconn) cs = some m) (hok : m.failed = none) :
    InOrder m := by
  intro fd ci hci
  have hreads := readAccount_of_run (fun n hn => hsized _ hn) hrun hok hci
  obtain ⟨done, -, hwrites⟩ := writeAccount_of_run (fun buf n hn => hsized _ hn) hrun hok hci
  exact ⟨hreads.underway, hwrites.underway⟩

/-- **A run that is served throws nothing.** -/
theorem ok_of_run_served {listenfdMaxconn : List (Fd × UInt32)} {m : System} {cs : List Call}
    (hsized : ∀ c ∈ cs, c.Sized) (hserved : Machine.Along step Served (init listenfdMaxconn) cs)
    (hrun : Machine.run step (init listenfdMaxconn) cs = some m) : m.failed = none := by
  have hinv : m.failed = none ∧ Listed m ∧
      ∃ ds, (∀ d ∈ ds, d.Sized) ∧ Machine.run step (init listenfdMaxconn) ds = some m := by
    refine Machine.run_invariant_along (fun m => m.failed = none ∧ Listed m ∧
      ∃ ds, (∀ d ∈ ds, d.Sized) ∧ Machine.run step (init listenfdMaxconn) ds = some m) ?_
      ((Machine.along_of_forall_mem step hsized _).and hserved) hrun
      ⟨rfl, .init listenfdMaxconn, [], by simp, rfl⟩
    rintro m c m' ⟨hsize, hserved⟩ hstep ⟨hfree, hlisted, ds, hds, hrun⟩
    have hen : m.Enabled c ∧ m' = m.perform c := by
      unfold step at hstep
      split at hstep
      · next h => exact ⟨h.2, (Option.some.inj hstep).symm⟩
      · cases hstep
    have hok : m'.failed = none := by
      rw [hen.2]
      exact ok_of_served hlisted (inOrder_of_run hds hrun hfree) hserved hen.1 hsize hfree
    obtain ⟨-, heff⟩ := step_effect hstep hok
    refine ⟨hok, .effect heff (fun listenfd accepted hc => ?_) hlisted, ds ++ [c], ?_, ?_⟩
    · subst hc
      exact hserved.2
    · intro d hd
      rcases List.mem_append.mp hd with hd | hd
      · exact hds d hd
      · rw [List.mem_singleton.mp hd]
        exact hsize
    · exact Machine.run_concat_eq_some.mpr ⟨m, hrun, hstep⟩
  exact hinv.1

end System

end CppFastDevelop
