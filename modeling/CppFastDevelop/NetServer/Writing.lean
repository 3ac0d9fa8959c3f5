import CppFastDevelop.NetServer.View

/-!
# CppFastDevelop.NetServer.Writing

Writing to a connection: what the user hands over, what the handler sends
and the calls of `OnWriteComplete`, over any run, as the trace has it.
-/

namespace CppFastDevelop

/-! ## what a session's history says about writing -/

/-- The contents handed over. -/
def writeRequests : List Event → List (List UInt8) :=
  List.filterMap fun
    | .asyncWrite _ buf => some buf
    | _ => none

/-- The bytes sent. -/
def bytesSent : List Event → List UInt8 :=
  List.flatMap fun
    | .sent _ bytes => bytes
    | _ => []

/-- How often `OnWriteComplete` was called. -/
def writesCompleted : List Event → Nat :=
  List.countP fun
    | .onWriteComplete _ => true
    | _ => false

/-- The completed buffers that the running `OnWrite` has yet to report. -/
def writesOwed : List Frame → List WriteBuffer :=
  List.flatMap fun
    | .writing _ _ rest => rest
    | _ => []

@[simp] theorem writeRequests_append (xs ys : List Event) :
    writeRequests (xs ++ ys) = writeRequests xs ++ writeRequests ys := List.filterMap_append

@[simp] theorem bytesSent_append (xs ys : List Event) :
    bytesSent (xs ++ ys) = bytesSent xs ++ bytesSent ys := List.flatMap_append

@[simp] theorem writesCompleted_append (xs ys : List Event) :
    writesCompleted (xs ++ ys) = writesCompleted xs + writesCompleted ys := List.countP_append

@[simp] theorem writesOwed_append (xs ys : List Frame) :
    writesOwed (xs ++ ys) = writesOwed xs ++ writesOwed ys := List.flatMap_append

namespace System

open EventHandler

/-- Reporting the first of the completed buffers leaves the others owed. -/
theorem writesCompleted_writeEvents (s : Session) (bs : List WriteBuffer) :
    writesCompleted (writeEvents s bs) + (writesOwed (writeFrames s bs)).length = bs.length := by
  cases bs with
  | nil => rfl
  | cons b bs => simp [writeEvents, writeFrames, writesCompleted, writesOwed, Nat.add_comm]

@[simp] theorem writeRequests_writeEvents (s : Session) (bs : List WriteBuffer) :
    writeRequests (writeEvents s bs) = [] := by
  cases bs <;> rfl

@[simp] theorem bytesSent_writeEvents (s : Session) (bs : List WriteBuffer) :
    bytesSent (writeEvents s bs) = [] := by
  cases bs <;> rfl

/-- How many buffers of a session were completed, reported or not. -/
def writesDone (v : View) : Nat := writesCompleted v.history + (writesOwed v.frames).length

/-- The books of a session's writes. -/
abbrev WriteAccount (v : View) (wbChain done : List WriteBuffer) : Prop :=
  Chain.Account Buffer.Good Buffer.progress Buffer.size Buffer.buf done wbChain
    (writeRequests v.history) (bytesSent v.history)

/-- A registered client's writes are accounted for. -/
def WritesKept (v : View) : Prop :=
  ∀ ci, v.client = some ci → ∃ done, done.length = writesDone v ∧ WriteAccount v ci.wbChain done

/-- Events and frames that are not about writing. -/
theorem WritesKept.of_eq {v v' : View} (hv : WritesKept v)
    (hchain : v'.client.map ClientInfo.wbChain = v.client.map ClientInfo.wbChain)
    (hrequests : writeRequests v'.history = writeRequests v.history)
    (hbytes : bytesSent v'.history = bytesSent v.history) (hdone : writesDone v' = writesDone v) :
    WritesKept v' := by
  intro ci hci
  rw [hci, Option.map_some] at hchain
  obtain ⟨old, hold, heq⟩ := Option.map_eq_some_iff.mp hchain.symm
  obtain ⟨done, hlen, haccount⟩ := hv old hold
  refine ⟨done, by rw [hlen, hdone], ?_⟩
  rw [WriteAccount, hrequests, hbytes, ← heq]
  exact haccount

/-- The account of what was written is kept by every step of its session. -/
theorem writesKept_step {s : Session} {c : Call} {v v' : View}
    (hc : ∀ buf n, c = .asyncWrite s.fd buf n → 1 ≤ n.toNat) (hstep : SessionStep s c v v')
    (hv : WritesKept v) : WritesKept v' := by
  cases hstep with
  | same => exact hv
  | accept =>
      intro ci hci
      cases hci
      exact ⟨[], rfl, .nil⟩
  | asyncRead =>
      exact hv.of_eq rfl (by simp [writeRequests]) (by simp [bytesSent])
        (by simp [writesDone, writesCompleted])
  | @asyncWrite ci mask history frames buf n pool wb hs hlen hwb =>
      intro ci' hci'
      cases hci'
      obtain ⟨wb', hwb', hbuf, hnew, hunfinished⟩ := WriteBuffer.setBuffer_clear
        (pool.getFromPool WriteBuffer.sizeDefault).1 (hc buf n rfl) hlen
      rw [hwb, Except.ok.injEq] at hwb'
      subst hwb'
      obtain ⟨done, hdone, haccount⟩ := hv ci rfl
      refine ⟨done, by simpa [writesDone, writesCompleted] using hdone, ?_⟩
      have hnext := haccount.request hunfinished hnew
      rw [hbuf] at hnext
      simpa [WriteAccount, writeRequests, bytesSent] using hnext
  | close =>
      exact hv.of_eq rfl (by simp [writeRequests]) (by simp [bytesSent])
        (by simp [writesDone, writesCompleted, writesOwed])
  | onError =>
      exact hv.of_eq rfl (by simp [writeRequests]) (by simp [bytesSent])
        (by simp [writesDone, writesCompleted, writesOwed])
  | @onRead ci mask history kernel p hs hp hok =>
      refine hv.of_eq rfl ?_ ?_ ?_
      · cases p.complete <;> cases p.ended <;> simp [writeRequests, readEvents]
      · cases p.complete <;> cases p.ended <;> simp [bytesSent, readEvents]
      · cases p.complete <;> cases p.ended <;>
          simp [writesDone, writesCompleted, writesOwed, readEvents, readFrames]
  | @onWrite ci mask history kernel p hs hp hok =>
      intro ci' hci'
      cases hci'
      obtain ⟨done, hdone, haccount⟩ := hv ci rfl
      have hnext := haccount.pass WriteBuffer.moves
        (fun b k => (WriteBuffer.write_buffer b k).1) hp hok
      refine ⟨done ++ p.complete, ?_, ?_⟩
      · have hreport := writesCompleted_writeEvents s p.complete
        have hsent : writesCompleted [.sent s p.moved] = 0 := rfl
        have hnone : writesOwed [] = [] := rfl
        simp only [writesDone, hnone, List.length_nil] at hdone
        simp only [writesDone, writesCompleted_append, hsent, List.length_append]
        omega
      · simp only [WriteAccount, writeRequests_append, bytesSent_append,
          writeRequests_writeEvents, bytesSent_writeEvents, List.append_nil]
        simpa [writeRequests, bytesSent] using hnext
  | retAccepting => exact hv.of_eq rfl rfl rfl (by simp [writesDone, writesOwed])
  | @retReading client mask history frames rb rest =>
      refine hv.of_eq rfl ?_ ?_ ?_
      · cases rest <;> simp [writeRequests, readEvents]
      · cases rest <;> simp [bytesSent, readEvents]
      · cases rest <;> simp [writesDone, writesCompleted, writesOwed, readEvents, readFrames]
  | @retWriting client mask history frames wb rest =>
      refine hv.of_eq rfl (by simp) (by simp) ?_
      have hreport := writesCompleted_writeEvents s rest
      have hpop : writesOwed (.writing s wb rest :: frames) = rest ++ writesOwed frames := rfl
      simp only [writesDone, writesCompleted_append, writesOwed_append, hpop, List.length_append]
      omega
  | retClosing => exact fun ci hci => by cases hci

/-- Every run keeps the books of every registered client. -/
theorem writeAccount_of_run {listenfdMaxconn : List (Fd × UInt32)} {m : System}
    {cs : List Call} {fd : Fd} (hsized : ∀ buf n, .asyncWrite fd buf n ∈ cs → 1 ≤ n.toNat)
    (hrun : Machine.run step (init listenfdMaxconn) cs = some m) (hok : m.failed = none)
    {ci : ClientInfo} (hci : m.handler.clientInfo.lookup fd = some ci) :
    ∃ done, done.length = writesDone (m.view ci.session) ∧
      WriteAccount (m.view ci.session) ci.wbChain done := by
  have hcalls : ∀ c ∈ cs, ∀ buf n, c = .asyncWrite fd buf n → 1 ≤ n.toNat :=
    fun c hc buf n heq => hsized buf n (heq ▸ hc)
  obtain ⟨hw, -, hkept⟩ := run_session (fun s v => s.fd = fd → WritesKept v)
    (fun s _ ci hci => by cases hci)
    (fun m c s v hc hstep hv hfd => writesKept_step (hfd ▸ hc) hstep (hv hfd))
    (Machine.along_of_forall_mem step hcalls _) hrun hok
  exact hkept ci.session (hw.client fd ci hci).1 ci (view_client hw hci).1

/-- Nothing is owed when no handler is running. -/
theorem writesOwed_of_idle {m : System} (hidle : m.stack = []) (s : Session) :
    writesOwed (m.view s).frames = [] := by
  rw [view, hidle]
  rfl

/-- On a registered connection the bytes sent are a prefix of what the user
handed over; `OnWriteComplete` was called, or is about to be called by the
running `OnWrite`, once for each buffer wholly inside that prefix; and the
chain holds the other buffers, in order. -/
theorem buffers_of_writes {listenfdMaxconn : List (Fd × UInt32)} {m : System}
    {cs : List Call} {fd : Fd} (hsized : ∀ buf n, .asyncWrite fd buf n ∈ cs → 1 ≤ n.toNat)
    (hrun : Machine.run step (init listenfdMaxconn) cs = some m) (hok : m.failed = none)
    {ci : ClientInfo} (hci : m.handler.clientInfo.lookup fd = some ci) :
    let v := m.view ci.session
    let requests := writeRequests v.history
    let sent := bytesSent v.history
    sent <+: requests.flatten ∧
      writesCompleted v.history + (writesOwed v.frames).length =
        Chain.covered requests sent.length ∧
      ci.wbChain.map Buffer.buf = requests.drop (Chain.covered requests sent.length) := by
  intro v requests sent
  obtain ⟨done, hdone, haccount⟩ := writeAccount_of_run hsized hrun hok hci
  obtain ⟨hpre, hcovered, hchain⟩ := haccount.covered_eq
    (fun b hb => hb.length_buf) (fun b => List.take_prefix _ _)
  exact ⟨hpre, hdone.symm.trans hcovered.symm, hchain⟩

end System

end CppFastDevelop
