import CppFastDevelop.NetServer.System

/-!
# CppFastDevelop.NetServer.Sessions

What is true of the tables in every run: a client is registered under the
descriptor of its session, no listener is registered as a client, and a
session that is accepted is new: nothing in the tables, on the stack or on
the trace is about it.
-/

namespace CppFastDevelop

/-- The session a frame is about. -/
def Frame.session? : Frame → Option Session
  | .accepting _ s _ | .reading s _ _ | .writing s _ _ | .closing s | .erroring s => some s
  | .timingOut => none

/-- The session an event is about. -/
def Event.session? : Event → Option Session
  | .asyncRead s _ | .asyncWrite s _ | .received s _ | .endOfStream s | .sent s _
  | .onAcceptComplete _ s | .onReadComplete s _ | .onWriteComplete s | .onCloseComplete s
  | .onErrorComplete s => some s
  | .onTimeoutComplete => none

/-- The descriptors that `OnAccept` has still to look at. -/
def Frame.waiting : Frame → List Fd
  | .accepting _ _ rest => rest
  | _ => []

namespace EventHandler

/-- The completed reads are noted for the session that is read. -/
theorem session_readEvents (s : Session) (bs : List ReadBuffer) :
    ∀ e ∈ readEvents s bs, e.session? = some s := by
  cases bs <;> simp [readEvents, Event.session?]

/-- The completed writes are noted for the session that is written. -/
theorem session_writeEvents (s : Session) (bs : List WriteBuffer) :
    ∀ e ∈ writeEvents s bs, e.session? = some s := by
  cases bs <;> simp [writeEvents, Event.session?]

/-- What `OnRead` puts on the trace is about its session. -/
theorem session_endRead (s : Session) (moved : List UInt8) (ended : Bool) (bs : List ReadBuffer) :
    ∀ e ∈ [.received s moved] ++ (if ended then [.endOfStream s] else []) ++ readEvents s bs,
      e.session? = some s := by
  intro e he
  simp only [List.mem_append, List.mem_singleton] at he
  obtain (rfl | he) | he := he
  · rfl
  · split at he
    · rw [List.mem_singleton.mp he]; rfl
    · cases he
  · exact session_readEvents s bs e he

/-- What `OnWrite` puts on the trace is about its session. -/
theorem session_endWrite (s : Session) (moved : List UInt8) (bs : List WriteBuffer) :
    ∀ e ∈ [.sent s moved] ++ writeEvents s bs, e.session? = some s := by
  intro e he
  simp only [List.mem_append, List.mem_singleton] at he
  obtain rfl | he := he
  · rfl
  · exact session_writeEvents s bs e he

/-- The read callbacks belong to the session that is read, and accept nobody. -/
theorem session_readFrames (s : Session) (bs : List ReadBuffer) :
    ∀ f ∈ readFrames s bs, f.session? = some s ∧ f.waiting = [] := by
  cases bs <;> simp [readFrames, Frame.session?, Frame.waiting]

/-- The write callbacks belong to the session that is written, and accept nobody. -/
theorem session_writeFrames (s : Session) (bs : List WriteBuffer) :
    ∀ f ∈ writeFrames s bs, f.session? = some s ∧ f.waiting = [] := by
  cases bs <;> simp [writeFrames, Frame.session?, Frame.waiting]

end EventHandler

namespace System

open EventHandler

/-- What is known is about sessions accepted so far. -/
def Known (n : Nat) (s? : Option Session) : Prop := ∀ s, s? = some s → s.id < n

/-- A session numbered below the next one is known. -/
theorem Known.of_eq {n : Nat} {s : Session} {s? : Option Session} (hs : s.id < n)
    (heq : s? = some s) : Known n s? := by
  intro t ht
  rw [heq, Option.some.injEq] at ht
  rw [← ht]
  exact hs

/-- A known session stays known. -/
theorem Known.succ {n : Nat} {s? : Option Session} (h : Known n s?) : Known (n + 1) s? :=
  fun s hs => Nat.lt_succ_of_lt (h s hs)

/-- The tables are in order. -/
structure WellFormed (m : System) : Prop where
  client : ∀ fd ci, m.handler.clientInfo.lookup fd = some ci →
    ci.session.fd = fd ∧ ci.session.id < m.handler.nextSession ∧ fd ∉ m.handler.listenInfo
  frame : ∀ f ∈ m.stack, Known m.handler.nextSession f.session?
  event : ∀ e ∈ m.handler.trace, Known m.handler.nextSession e.session?
  waiting : ∀ f ∈ m.stack, ∀ fd ∈ f.waiting, fd ∉ m.handler.listenInfo

/-- At the beginning the tables are empty but for the listeners. -/
theorem wellFormed_init (listenfdMaxconn : List (Fd × UInt32)) :
    WellFormed (init listenfdMaxconn) := by
  refine ⟨?_, by simp [init], by simp [init, EventHandler.init], by simp [init]⟩
  intro fd ci hci
  simp [init, EventHandler.init] at hci

namespace WellFormed

variable {h h' : EventHandler} {stack : List Frame}

/-- Events about a registered session keep the trace in order. -/
theorem append_event {m : System} (hw : WellFormed m) {fd : Fd} {ci : ClientInfo}
    (hci : m.handler.clientInfo.lookup fd = some ci) {es : List Event}
    (hes : ∀ e ∈ es, e.session? = some ci.session) :
    ∀ e ∈ m.handler.trace ++ es, Known m.handler.nextSession e.session? := by
  intro e he
  cases List.mem_append.mp he with
  | inl he => exact hw.event e he
  | inr he => exact .of_eq (hw.client fd ci hci).2.1 (hes e he)

/-- A change of a client's chains. -/
theorem insert_client {m : System} (hw : WellFormed m) {fd : Fd} {ci ci' : ClientInfo}
    (hci : m.handler.clientInfo.lookup fd = some ci) (hsession : ci'.session = ci.session) :
    ∀ k b, (AList.insert fd ci' m.handler.clientInfo).lookup k = some b →
      b.session.fd = k ∧ b.session.id < m.handler.nextSession ∧ k ∉ m.handler.listenInfo :=
  FdMap.forall_insert hw.client (by rw [hsession]; exact hw.client fd ci hci)

/-- A change of a listener's counter. -/
theorem insert_listener (hw : WellFormed ⟨h, stack, none⟩) {listenfd : Fd} {li : ListenInfo}
    (hli : h.listenInfo.lookup listenfd = some li) (li' : ListenInfo) :
    WellFormed ⟨h.withListenInfo listenfd li', stack, none⟩ := by
  refine ⟨?_, hw.frame, hw.event, ?_⟩
  · intro fd ci hci
    obtain ⟨hfd, hid, hnew⟩ := hw.client fd ci hci
    exact ⟨hfd, hid, fun hmem => hnew ((FdMap.mem_insert_of_lookup hli).mp hmem)⟩
  · intro f hf fd hfd hmem
    exact hw.waiting f hf fd hfd ((FdMap.mem_insert_of_lookup hli).mp hmem)

/-- An accepted connection takes the next number, so the tables stay in order. -/
theorem acceptStep (hw : WellFormed ⟨h, stack, none⟩) {listenfd : Fd} {accepted : List Fd}
    {frames : List Frame} (hnew : ∀ fd ∈ accepted, fd ∉ h.listenInfo)
    (hstep : AcceptStep listenfd accepted h h' frames) :
    WellFormed ⟨h', frames ++ stack, none⟩ := by
  cases hstep with
  | finish hli => exact ⟨hw.client, hw.frame, hw.event, hw.waiting⟩
  | @accept fd rest hfd hrest hfree =>
      have hs : Session.id ⟨h.nextSession, fd⟩ < h.nextSession + 1 := Nat.lt_succ_self _
      refine ⟨FdMap.forall_insertNew ?_ (fun _ => ⟨rfl, hs, hnew fd hfd⟩), ?_, ?_, ?_⟩
      · intro k ci hci
        obtain ⟨hk, hid, hlisten⟩ := hw.client k ci hci
        exact ⟨hk, Nat.lt_succ_of_lt hid, hlisten⟩
      · intro f hf
        cases List.mem_append.mp hf with
        | inl hf => rw [List.mem_singleton.mp hf]; exact .of_eq hs rfl
        | inr hf => exact (hw.frame f hf).succ
      · intro e he
        cases List.mem_append.mp he with
        | inl he => exact (hw.event e he).succ
        | inr he => rw [List.mem_singleton.mp he]; exact .of_eq hs rfl
      · intro f hf
        cases List.mem_append.mp hf with
        | inl hf =>
            rw [List.mem_singleton.mp hf]
            exact fun k hk => hnew k (hrest k hk)
        | inr hf => exact hw.waiting f hf

/-- Frames about a known session keep the stack in order. -/
theorem append_frames (hw : WellFormed ⟨h, stack, none⟩) {s : Session}
    (hs : s.id < h.nextSession) (frames : List Frame)
    (hframes : ∀ f ∈ frames, f.session? = some s ∧ f.waiting = []) :
    (∀ f ∈ frames ++ stack, Known h.nextSession f.session?) ∧
      ∀ f ∈ frames ++ stack, ∀ fd ∈ f.waiting, fd ∉ h.listenInfo := by
  constructor
  · intro f hf
    cases List.mem_append.mp hf with
    | inl hf => exact .of_eq hs (hframes f hf).1
    | inr hf => exact hw.frame f hf
  · intro f hf
    cases List.mem_append.mp hf with
    | inl hf => rw [(hframes f hf).2]; simp
    | inr hf => exact hw.waiting f hf

/-- A return leaves the tables in order. -/
theorem pop {f : Frame} (hw : WellFormed ⟨h, f :: stack, none⟩) : WellFormed ⟨h, stack, none⟩ :=
  ⟨hw.client, fun g hg => hw.frame g (List.mem_cons_of_mem f hg), hw.event,
    fun g hg => hw.waiting g (List.mem_cons_of_mem f hg)⟩

/-- Every call leaves the tables in order. -/
theorem effect {m m' : System} {c : Call} (heff : Effect m c m') (hw : WellFormed m) :
    WellFormed m' := by
  cases heff with
  | asyncRead hci hrb =>
      exact ⟨hw.insert_client hci rfl, hw.frame, hw.append_event hci (by simp [Event.session?]),
        hw.waiting⟩
  | asyncWrite hci hlen hwb =>
      exact ⟨hw.insert_client hci rfl, hw.frame, hw.append_event hci (by simp [Event.session?]),
        hw.waiting⟩
  | @close h stack c fd ci hc hci =>
      obtain ⟨hframe, hwaiting⟩ := hw.append_frames (hw.client fd ci hci).2.1
        [.closing ci.session] (by simp [Frame.session?, Frame.waiting])
      exact ⟨hw.client, hframe, hw.append_event hci (by simp [Event.session?]), hwaiting⟩
  | @onError h fd ci hci =>
      obtain ⟨hframe, hwaiting⟩ := hw.append_frames (hw.client fd ci hci).2.1
        [.erroring ci.session] (by simp [Frame.session?, Frame.waiting])
      exact ⟨hw.client, hframe, hw.append_event hci (by simp [Event.session?]), hwaiting⟩
  | @onRead h fd kernel ci p hci hp hok =>
      obtain ⟨hframe, hwaiting⟩ := hw.append_frames (hw.client fd ci hci).2.1
        _ (session_readFrames _ p.complete)
      rw [List.append_nil] at hframe hwaiting
      refine ⟨hw.insert_client hci rfl, hframe, ?_, hwaiting⟩
      rw [List.append_assoc h.trace, List.append_assoc h.trace]
      exact hw.append_event hci (session_endRead ci.session p.moved p.ended p.complete)
  | @onWrite h fd kernel ci p hci hp hok =>
      obtain ⟨hframe, hwaiting⟩ := hw.append_frames (hw.client fd ci hci).2.1
        _ (session_writeFrames _ p.complete)
      rw [List.append_nil] at hframe hwaiting
      refine ⟨hw.insert_client hci rfl, hframe, ?_, hwaiting⟩
      rw [List.append_assoc]
      exact hw.append_event hci (session_endWrite ci.session p.moved p.complete)
  | onTimeout =>
      refine ⟨hw.client, by simp [Known, Frame.session?], ?_, by simp [Frame.waiting]⟩
      intro e he
      cases List.mem_append.mp he with
      | inl he => exact hw.event e he
      | inr he => rw [List.mem_singleton.mp he]; intro s hs; cases hs
  | onAcceptNothing => exact hw
  | onAccept hnew haccept =>
      have hw' := hw.acceptStep hnew haccept
      rwa [List.append_nil] at hw'
  | retAccepting hli haccept =>
      refine (hw.pop.insert_listener hli _).acceptStep ?_ haccept
      intro fd hfd hmem
      exact hw.waiting _ List.mem_cons_self fd hfd ((FdMap.mem_insert_of_lookup hli).mp hmem)
  | @retReading h stack s rb rest =>
      have hs : s.id < h.nextSession := hw.frame _ List.mem_cons_self s rfl
      obtain ⟨hframe, hwaiting⟩ := hw.pop.append_frames hs _ (session_readFrames s rest)
      refine ⟨hw.client, hframe, ?_, hwaiting⟩
      intro e he
      cases List.mem_append.mp he with
      | inl he => exact hw.event e he
      | inr he => exact .of_eq hs (session_readEvents _ _ e he)
  | @retWriting h stack s wb rest =>
      have hs : s.id < h.nextSession := hw.frame _ List.mem_cons_self s rfl
      obtain ⟨hframe, hwaiting⟩ := hw.pop.append_frames hs _ (session_writeFrames s rest)
      refine ⟨hw.client, hframe, ?_, hwaiting⟩
      intro e he
      cases List.mem_append.mp he with
      | inl he => exact hw.event e he
      | inr he => exact .of_eq hs (session_writeEvents _ _ e he)
  | @retClosing h stack s f ci li hf hci hli =>
      have hw' := hw.pop.insert_listener hli { li with currentconns := li.currentconns - 1 }
      exact ⟨FdMap.forall_erase hw'.client, hw'.frame, hw'.event, hw'.waiting⟩
  | retTimingOut => exact hw.pop

end WellFormed

end System

end CppFastDevelop
