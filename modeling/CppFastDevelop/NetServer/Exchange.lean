import CppFastDevelop.Network.Transfers
import CppFastDevelop.NetServer.Reading
import CppFastDevelop.NetServer.Writing

/-!
# CppFastDevelop.NetServer.Exchange

What passes between the event handler and those around it, noted where it
passes and not by the handler: what the user asks for in its calls of
`AsyncRead` and `AsyncWrite`, and every call of `recv` and `send` with what
the kernel answered.  Which bytes were taken from the kernel, or by it, is
read off these answers alone.

The trace says the same (`Exchanged`): a loop over `recv` or `send` that
dropped, repeated or invented a byte would set the two apart.
-/

namespace CppFastDevelop

open Transfers

/-! ## the calls for one buffer -/

/-- The calls of `recv` of one `Read`. -/
def ReadBuffer.recvCalls (rb : ReadBuffer) (kernel : List RecvResult) : List (Transfer UInt8) :=
  match rb.getLeft with
  | .error _ => []
  | .ok left =>
    (recvSegmentAsyncCalls (rb.buf.drop rb.already.toNat) left.toNat (-1) kernel).calls

/-- The calls of `send` of one `Write`, each with the memory it begins to
count its offset in. -/
def WriteBuffer.sendCalls (wb : WriteBuffer) (kernel : List SendResult) :
    List (List UInt8 × Transfer UInt8) :=
  match wb.getLeft with
  | .error _ => []
  | .ok left =>
    let buf := wb.buf.drop wb.already.toNat
    (sendSegmentAsyncCalls buf left.toNat (-1) kernel).2.map (buf, ·)

/-- The calls are given the answers of the kernel, one each, from the first. -/
abbrev RecvsAnswered (kernel : List RecvResult) (calls : List (Transfer UInt8))
    (rest : List RecvResult) : Prop :=
  Answered RecvResult.Gives .again kernel calls rest

abbrev SendsAnswered (kernel : List SendResult) (calls : List (List UInt8 × Transfer UInt8))
    (rest : List SendResult) : Prop :=
  Answered (fun r call => r.Takes call.1 call.2) .again kernel calls rest

/-- What one `Read` moves is what its calls of `recv` were given. -/
theorem ReadBuffer.read_eq_calls (rb : ReadBuffer) (kernel : List RecvResult) :
    (read rb kernel).moved = joined (recvCalls rb kernel) ∧
      ((read rb kernel).failure = none → ((read rb kernel).ended = true ↔
        ∃ t ∈ recvCalls rb kernel, t.answer = some [])) ∧
      RecvsAnswered kernel (recvCalls rb kernel) (read rb kernel).rest := by
  unfold read recvCalls
  cases hleft : rb.getLeft with
  | error e => exact ⟨rfl, nofun, .done kernel⟩
  | ok left =>
      obtain ⟨hrecv, hclosed, hanswered⟩ :=
        recvSegmentAsync_calls (rb.buf.drop rb.already.toNat) left.toNat (-1) kernel
      simp only [hrecv]
      split
      · exact ⟨rfl, nofun, hanswered⟩
      · exact ⟨rfl, fun _ => hclosed, hanswered⟩

/-- What one `Write` moves is what its calls of `send` took. -/
theorem WriteBuffer.write_eq_calls (wb : WriteBuffer) (kernel : List SendResult) :
    (write wb kernel).moved = joined ((sendCalls wb kernel).map Prod.snd) ∧
      SendsAnswered kernel (sendCalls wb kernel) (write wb kernel).rest := by
  unfold write sendCalls
  cases hleft : wb.getLeft with
  | error e => exact ⟨rfl, .done kernel⟩
  | ok left =>
      obtain ⟨hsend, hjoined, hanswered⟩ :=
        sendSegmentAsync_calls (wb.buf.drop wb.already.toNat) left.toNat (-1) kernel
      have hmoved : (sendSegmentAsyncCalls (wb.buf.drop wb.already.toNat) left.toNat (-1)
          kernel).2.map (Prod.snd ∘ (wb.buf.drop wb.already.toNat, ·)) =
          (sendSegmentAsyncCalls (wb.buf.drop wb.already.toNat) left.toNat (-1) kernel).2 :=
        List.map_id _
      simp only [List.map_map, hmoved, hjoined, ← hsend]
      split
      · exact ⟨rfl, hanswered.map _ fun _ _ h => h⟩
      · exact ⟨rfl, hanswered.map _ fun _ _ h => h⟩

/-! ## what passes -/

/-- A request of the user, or the calls of one `OnRead` or `OnWrite` with the
kernel's answers. -/
inductive Exchange
  | asyncRead (session : Session) (sizeToRead : UInt32)
  | asyncWrite (session : Session) (buf : List UInt8)
  | recv (session : Session) (kernel : List RecvResult) (calls : List (Transfer UInt8))
  | send (session : Session) (kernel : List SendResult)
      (calls : List (List UInt8 × Transfer UInt8))

namespace Exchange

/-- Every call was given the kernel's next answer. -/
def Answered : Exchange → Prop
  | .recv _ kernel calls => ∃ rest, RecvsAnswered kernel calls rest
  | .send _ kernel calls => ∃ rest, SendsAnswered kernel calls rest
  | .asyncRead _ _ | .asyncWrite _ _ => True

def session : Exchange → Session
  | .asyncRead s _ | .asyncWrite s _ | .recv s _ _ | .send s _ _ => s

/-- What passes in a session. -/
def of (s : Session) (log : List Exchange) : List Exchange := log.filter (·.session = s)

/-- The sizes asked for in a session. -/
def readsAsked (s : Session) (log : List Exchange) : List UInt32 :=
  (of s log).flatMap fun
    | .asyncRead _ n => [n]
    | _ => []

/-- The contents handed over in a session. -/
def writesAsked (s : Session) (log : List Exchange) : List (List UInt8) :=
  (of s log).flatMap fun
    | .asyncWrite _ buf => [buf]
    | _ => []

/-- The calls of `recv` in a session. -/
def recvCalls (s : Session) (log : List Exchange) : List (Transfer UInt8) :=
  (of s log).flatMap fun
    | .recv _ _ calls => calls
    | _ => []

/-- The calls of `send` in a session. -/
def sendCalls (s : Session) (log : List Exchange) : List (Transfer UInt8) :=
  (of s log).flatMap fun
    | .send _ _ calls => calls.map Prod.snd
    | _ => []

/-- The bytes that `recv` gave in a session. -/
def received (s : Session) (log : List Exchange) : List UInt8 := joined (recvCalls s log)

/-- The bytes that `send` took in a session. -/
def sent (s : Session) (log : List Exchange) : List UInt8 := joined (sendCalls s log)

@[simp] theorem sent_append (s : Session) (log log' : List Exchange) :
    sent s (log ++ log') = sent s log ++ sent s log' := by
  rw [sent, sendCalls, of, List.filter_append, List.flatMap_append, joined_append]
  rfl

/-- Where all that passes is in one session, another receives nothing. -/
theorem received_of_forall {s t : Session} {log : List Exchange}
    (h : ∀ x ∈ log, x.session = s) (hne : t ≠ s) : received t log = [] := by
  have hnone : of t log = [] := by
    rw [of, List.filter_eq_nil_iff]
    intro x hx
    rw [h x hx, decide_eq_true_iff]
    exact fun heq => hne heq.symm
  rw [received, recvCalls, hnone]
  rfl

/-- What the trace should say of it. -/
def events : Exchange → List Event
  | .asyncRead s n => [.asyncRead s n]
  | .asyncWrite s buf => [.asyncWrite s buf]
  | .recv s _ calls =>
    .received s (joined calls) ::
      if ∃ t ∈ calls, t.answer = some [] then [.endOfStream s] else []
  | .send s _ calls => [.sent s (joined (calls.map Prod.snd))]

/-- What an exchange notes is of its own session. -/
theorem session_events (x : Exchange) : ∀ e ∈ x.events, e.session? = some x.session := by
  cases x with
  | asyncRead | asyncWrite | send => simp [events, session, Event.session?]
  | recv s kernel calls =>
      simp only [events, session, List.forall_mem_cons, Event.session?, true_and]
      split
      · exact List.forall_mem_singleton.mpr rfl
      · simp

/-- Of another session it says nothing. -/
theorem filter_events (x : Exchange) (s : Session) :
    x.events.filter (·.session? = some s) = if x.session = s then x.events else [] := by
  by_cases hs : x.session = s
  · rw [if_pos hs, List.filter_eq_self]
    intro e he
    rw [x.session_events e he, hs, decide_eq_true_iff]
  · rw [if_neg hs, List.filter_eq_nil_iff]
    intro e he hes
    rw [x.session_events e he, decide_eq_true_iff, Option.some.injEq] at hes
    exact hs hes

end Exchange

/-- The events about what passes. -/
def Event.passes : Event → Bool
  | .asyncRead _ _ | .asyncWrite _ _ | .received _ _ | .endOfStream _ | .sent _ _ => true
  | .onAcceptComplete _ _ | .onReadComplete _ _ | .onWriteComplete _ | .onCloseComplete _
  | .onErrorComplete _ | .onTimeoutComplete => false

namespace System

open EventHandler

/-- What passes in a call. -/
def exchangeOf (m : System) : Call → List Exchange
  | .asyncRead fd n => (m.handler.clientInfo.lookup fd).toList.map fun ci =>
      .asyncRead ci.session n
  | .asyncWrite fd buf n => (m.handler.clientInfo.lookup fd).toList.map fun ci =>
      .asyncWrite ci.session (buf.take n.toNat)
  | .onRead fd kernel => (m.handler.clientInfo.lookup fd).toList.map fun ci =>
      .recv ci.session kernel (Chain.passCalls ReadBuffer.read ReadBuffer.isComplete
        ReadBuffer.recvCalls ci.rbChain kernel)
  | .onWrite fd kernel => (m.handler.clientInfo.lookup fd).toList.map fun ci =>
      .send ci.session kernel (Chain.passCalls WriteBuffer.write WriteBuffer.isComplete
        WriteBuffer.sendCalls ci.wbChain kernel)
  | _ => []

def noteExchange (log : List Exchange) (m : System) (c : Call) (_ : System) : List Exchange :=
  log ++ m.exchangeOf c

/-! ## the trace says the same -/

/-- A pass over the chain moves what its calls of `recv` were given, and ends
the stream if one of them did. -/
theorem readPass_eq_calls (rbChain : List ReadBuffer) (kernel : List RecvResult) :
    let calls := Chain.passCalls ReadBuffer.read ReadBuffer.isComplete ReadBuffer.recvCalls
      rbChain kernel
    (readPass rbChain kernel).moved = joined calls ∧
      ((readPass rbChain kernel).failure = none → ((readPass rbChain kernel).ended = true ↔
        ∃ t ∈ calls, t.answer = some [])) ∧
      RecvsAnswered kernel calls (readPass rbChain kernel).rest :=
  ⟨Chain.moved_pass joined_nil joined_append (fun b k => (b.read_eq_calls k).1) _ _,
    Chain.ended_pass_iff (fun b k => (b.read_eq_calls k).2.1),
    Chain.rest_pass Answered.done (fun _ _ _ _ _ => Answered.append)
      (fun b k => (b.read_eq_calls k).2.2) _ _⟩

/-- A pass over the write chain has sent what its calls of `send` took. -/
theorem writePass_eq_calls (wbChain : List WriteBuffer) (kernel : List SendResult) :
    let calls := Chain.passCalls WriteBuffer.write WriteBuffer.isComplete WriteBuffer.sendCalls
      wbChain kernel
    (writePass wbChain kernel).moved = joined (calls.map Prod.snd) ∧
      SendsAnswered kernel calls (writePass wbChain kernel).rest :=
  ⟨Chain.moved_pass (f := fun calls => joined (calls.map Prod.snd)) rfl
      (fun xs ys => by rw [List.map_append, joined_append])
      (fun b k => (b.write_eq_calls k).1) _ _,
    Chain.rest_pass Answered.done (fun _ _ _ _ _ => Answered.append)
      (fun b k => (b.write_eq_calls k).2) _ _⟩

/-- What passes was answered, whatever comes of the call. -/
theorem answered_exchangeOf (m : System) (c : Call) : ∀ x ∈ m.exchangeOf c, x.Answered := by
  intro x hx
  cases c with
  | asyncRead fd n =>
      obtain ⟨ci, -, rfl⟩ := List.mem_map.mp hx
      trivial
  | asyncWrite fd buf n =>
      obtain ⟨ci, -, rfl⟩ := List.mem_map.mp hx
      trivial
  | onRead fd kernel =>
      obtain ⟨ci, -, rfl⟩ := List.mem_map.mp hx
      exact ⟨_, (readPass_eq_calls ci.rbChain kernel).2.2⟩
  | onWrite fd kernel =>
      obtain ⟨ci, -, rfl⟩ := List.mem_map.mp hx
      exact ⟨_, (writePass_eq_calls ci.wbChain kernel).2⟩
  | _ => cases hx

/-- Callbacks are not about what passes. -/
theorem filter_passes_readEvents (s : Session) (bs : List ReadBuffer) :
    (readEvents s bs).filter Event.passes = [] := by
  cases bs <;> rfl

/-- Completed writes pass nothing. -/
theorem filter_passes_writeEvents (s : Session) (bs : List WriteBuffer) :
    (writeEvents s bs).filter Event.passes = [] := by
  cases bs <;> rfl

/-- Accepting connections passes nothing. -/
theorem filter_passes_acceptStep {h h' : EventHandler} {frames : List Frame} {listenfd : Fd}
    {accepted : List Fd} (hstep : AcceptStep listenfd accepted h h' frames) :
    h'.trace.filter Event.passes = h.trace.filter Event.passes := by
  cases hstep with
  | finish => rfl
  | accept => simp [withNewConn, Event.passes]

/-- A call that throws nothing writes into the trace what passes in it. -/
theorem trace_effect {m m' : System} {c : Call} (heff : Effect m c m') :
    m'.handler.trace.filter Event.passes =
      m.handler.trace.filter Event.passes ++ (m.exchangeOf c).flatMap Exchange.events := by
  cases heff with
  | asyncRead hci => simp [exchangeOf, hci, Exchange.events, Event.passes]
  | asyncWrite hci => simp [exchangeOf, hci, Exchange.events, Event.passes]
  | close hc hci =>
      rcases hc with rfl | ⟨rfl, -⟩ <;> simp [exchangeOf, Event.passes]
  | onError hci => simp [exchangeOf, Event.passes]
  | @onRead h fd kernel ci p hci hp hok =>
      obtain ⟨hmoved, hended, -⟩ := readPass_eq_calls ci.rbChain kernel
      subst hp
      have hended := hended hok
      simp only [exchangeOf, hci, Option.toList_some, List.map_cons, List.map_nil,
        List.flatMap_cons, List.flatMap_nil, List.append_nil, Exchange.events, ← hmoved, ← hended,
        List.filter_append, filter_passes_readEvents, List.append_assoc]
      split <;> rfl
  | @onWrite h fd kernel ci p hci hp hok =>
      obtain ⟨hmoved, -⟩ := writePass_eq_calls ci.wbChain kernel
      subst hp
      simp only [exchangeOf, hci, Option.toList_some, List.map_cons, List.map_nil,
        List.flatMap_cons, List.flatMap_nil, List.append_nil, Exchange.events, ← hmoved,
        List.filter_append, filter_passes_writeEvents]
      rfl
  | onTimeout => simp [exchangeOf, Event.passes]
  | onAcceptNothing => simp [exchangeOf]
  | onAccept _ haccept => simp [exchangeOf, filter_passes_acceptStep haccept]
  | retAccepting _ haccept =>
      simp [exchangeOf, filter_passes_acceptStep haccept, withListenInfo]
  | retReading => simp [exchangeOf, filter_passes_readEvents]
  | retWriting => simp [exchangeOf, filter_passes_writeEvents]
  | retClosing => simp [exchangeOf]
  | retTimingOut => simp [exchangeOf]

/-- The trace, and what was noted beside it, say the same. -/
structure Exchanged (m : System) (log : List Exchange) : Prop where
  trace_eq : m.handler.trace.filter Event.passes = log.flatMap Exchange.events
  answered : ∀ x ∈ log, x.Answered

namespace Exchanged

variable {m m' : System} {log : List Exchange} {s : Session}

/-- At the beginning nothing has passed. -/
theorem init (listenfdMaxconn : List (Fd × UInt32)) : Exchanged (init listenfdMaxconn) [] :=
  ⟨rfl, by simp⟩

/-- Every call adds to the trace what it adds to the log. -/
theorem effect {c : Call} (h : Exchanged m log) (heff : Effect m c m') :
    Exchanged m' (log ++ m.exchangeOf c) := by
  refine ⟨?_, List.forall_mem_append.mpr ⟨h.answered, answered_exchangeOf m c⟩⟩
  rw [trace_effect heff, h.trace_eq, List.flatMap_append]

/-- What is read off a session's history event by event, and only off the
events about what passes, is read off the notes of the session. -/
theorem map_history {β : Type} (F : List Event → List β) (h : Exchanged m log)
    (hnil : F [] = []) (happend : ∀ xs ys, F (xs ++ ys) = F xs ++ F ys)
    (hsilent : ∀ e : Event, e.passes = false → F [e] = []) :
    F (m.view s).history = (Exchange.of s log).flatMap fun x => F x.events := by
  have hpasses (xs : List Event) : F (xs.filter (·.session? = some s)) =
      F ((xs.filter Event.passes).filter (·.session? = some s)) := by
    induction xs with
    | nil => rfl
    | cons e xs ih =>
        rw [List.filter_cons, List.filter_cons (p := Event.passes)]
        by_cases hs : e.session? = some s <;> by_cases hp : e.passes = true <;>
          simp only [hs, hp, decide_true, decide_false, if_true, if_false, List.filter_cons,
            Bool.false_eq_true]
        · rw [← List.singleton_append, happend, ih, ← happend]
          rfl
        · rw [← List.singleton_append, happend, ih, hsilent e (by simpa using hp)]
          rfl
        · exact ih
        · exact ih
  have hnotes (xs : List Exchange) :
      F ((xs.flatMap Exchange.events).filter (·.session? = some s)) =
        (Exchange.of s xs).flatMap fun x => F x.events := by
    induction xs with
    | nil => exact hnil
    | cons x xs ih =>
        rw [List.flatMap_cons, List.filter_append, happend, ih, Exchange.of, Exchange.of,
          List.filter_cons, x.filter_events]
        by_cases hs : x.session = s
        · simp only [hs, decide_true, if_true, List.flatMap_cons]
        · simp only [hs, decide_false, Bool.false_eq_true, if_false, hnil, List.nil_append]
  rw [view, hpasses, h.trace_eq, hnotes]

/-- The reads asked for, by the trace and by the log. -/
theorem readSizes_eq (h : Exchanged m log) :
    readSizes (m.view s).history = Exchange.readsAsked s log := by
  refine (h.map_history readSizes rfl readSizes_append ?_).trans (List.flatMap_congr fun x _ => ?_)
  · intro e he
    cases e <;> first | rfl | cases he
  · cases x with
    | recv => simp only [Exchange.events]; split <;> rfl
    | _ => rfl

/-- The writes asked for, by the trace and by the log. -/
theorem writeRequests_eq (h : Exchanged m log) :
    writeRequests (m.view s).history = Exchange.writesAsked s log := by
  refine (h.map_history writeRequests rfl writeRequests_append ?_).trans
    (List.flatMap_congr fun x _ => ?_)
  · intro e he
    cases e <;> first | rfl | cases he
  · cases x with
    | recv => simp only [Exchange.events]; split <;> rfl
    | _ => rfl

/-- **What the handler has received is what `recv` gave.** -/
theorem bytesReceived_eq (h : Exchanged m log) :
    bytesReceived (m.view s).history = Exchange.received s log := by
  rw [Exchange.received, Exchange.recvCalls, joined, List.flatMap_assoc]
  refine (h.map_history bytesReceived rfl bytesReceived_append ?_).trans
    (List.flatMap_congr fun x _ => ?_)
  · intro e he
    cases e <;> first | rfl | cases he
  · cases x with
    | recv s kernel calls =>
        simp only [Exchange.events]
        split <;> simp [bytesReceived, joined]
    | _ => rfl

/-- **What the handler has sent is what `send` took.** -/
theorem bytesSent_eq (h : Exchanged m log) :
    bytesSent (m.view s).history = Exchange.sent s log := by
  rw [Exchange.sent, Exchange.sendCalls, joined, List.flatMap_assoc]
  refine (h.map_history bytesSent rfl bytesSent_append ?_).trans
    (List.flatMap_congr fun x _ => ?_)
  · intro e he
    cases e <;> first | rfl | cases he
  · cases x with
    | recv s kernel calls => simp only [Exchange.events]; split <;> rfl
    | send s kernel calls => simp [Exchange.events, bytesSent, joined]
    | _ => rfl

/-- **The end of a stream is seen exactly if a `recv` gave nothing.** -/
theorem endOfStream_mem_iff (h : Exchanged m log) :
    .endOfStream s ∈ (m.view s).history ↔
      ∃ t ∈ Exchange.recvCalls s log, t.answer = some [] := by
  have hmem : .endOfStream s ∈ (m.view s).history ↔
      ∃ x ∈ log, Event.endOfStream s ∈ x.events := by
    rw [← List.mem_flatMap, ← h.trace_eq, view]
    simp [Event.session?, Event.passes]
  rw [hmem, Exchange.recvCalls]
  simp only [List.mem_flatMap, Exchange.of, List.mem_filter, decide_eq_true_iff]
  constructor
  · rintro ⟨x, hx, hend⟩
    cases x with
    | recv t kernel calls =>
        simp only [Exchange.events, List.mem_cons, reduceCtorEq, false_or] at hend
        split at hend
        · next hgave =>
            obtain ⟨call, hcall, hgave⟩ := hgave
            obtain rfl : s = t := by simpa using hend
            exact ⟨call, ⟨_, ⟨hx, rfl⟩, hcall⟩, hgave⟩
        · cases hend
    | _ => simp [Exchange.events] at hend
  · rintro ⟨call, ⟨x, ⟨hx, rfl⟩, hcall⟩, hgave⟩
    cases x with
    | recv t kernel calls =>
        refine ⟨_, hx, List.mem_cons_of_mem _ ?_⟩
        rw [if_pos ⟨call, hcall, hgave⟩]
        exact List.mem_singleton_self _
    | _ => cases hcall

end Exchanged

/-- **The trace of a run says what has passed in it.** -/
theorem exchanged_of_run {listenfdMaxconn : List (Fd × UInt32)} {m : System}
    {log : List Exchange} {cs : List Call}
    (hrun : Machine.run (Machine.recorded step noteExchange) (init listenfdMaxconn, []) cs =
      some (m, log)) (hok : m.failed = none) : Exchanged m log := by
  have hinv : m.failed = none → Exchanged m log := by
    refine Machine.run_invariant (fun r => r.1.failed = none → Exchanged r.1 r.2) ?_ hrun
      (fun _ => .init listenfdMaxconn)
    rintro ⟨m, log⟩ c ⟨m', log'⟩ hstep hm hok'
    obtain ⟨hcall, hnote⟩ := Machine.recorded_eq_some.mp hstep
    obtain ⟨hfree, heff⟩ := step_effect hcall hok'
    rw [show log' = log ++ m.exchangeOf c from hnote]
    exact (hm hfree).effect heff
  exact hinv hok

end System

end CppFastDevelop
