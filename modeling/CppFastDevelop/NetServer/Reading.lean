import CppFastDevelop.NetServer.View

/-!
# CppFastDevelop.NetServer.Reading

Reading from a connection: what the user asks for, what the handler receives
and what is delivered to `OnReadComplete`, over any run, as the trace has it.
-/

namespace CppFastDevelop

/-! ## what a session's history says about reading -/

/-- The sizes asked for. -/
def readSizes : List Event → List UInt32 :=
  List.filterMap fun
    | .asyncRead _ n => some n
    | _ => none

/-- The bytes received. -/
def bytesReceived : List Event → List UInt8 :=
  List.flatMap fun
    | .received _ bytes => bytes
    | _ => []

/-- The buffers delivered to `OnReadComplete`. -/
def buffersRead : List Event → List ReadBuffer :=
  List.filterMap fun
    | .onReadComplete _ rb => some rb
    | _ => none

/-- The completed buffers that the running `OnRead` has yet to deliver. -/
def readsOwed : List Frame → List ReadBuffer :=
  List.flatMap fun
    | .reading _ _ rest => rest
    | _ => []

@[simp] theorem readSizes_append (xs ys : List Event) :
    readSizes (xs ++ ys) = readSizes xs ++ readSizes ys := List.filterMap_append

@[simp] theorem bytesReceived_append (xs ys : List Event) :
    bytesReceived (xs ++ ys) = bytesReceived xs ++ bytesReceived ys := List.flatMap_append

@[simp] theorem buffersRead_append (xs ys : List Event) :
    buffersRead (xs ++ ys) = buffersRead xs ++ buffersRead ys := List.filterMap_append

@[simp] theorem readsOwed_append (xs ys : List Frame) :
    readsOwed (xs ++ ys) = readsOwed xs ++ readsOwed ys := List.flatMap_append

namespace System

open EventHandler

/-- Delivering the first of the completed buffers leaves the others owed. -/
theorem buffersRead_readEvents (s : Session) (bs : List ReadBuffer) :
    buffersRead (readEvents s bs) ++ readsOwed (readFrames s bs) = bs := by
  cases bs <;> simp [readEvents, readFrames, buffersRead, readsOwed]

@[simp] theorem readSizes_readEvents (s : Session) (bs : List ReadBuffer) :
    readSizes (readEvents s bs) = [] := by
  cases bs <;> rfl

@[simp] theorem bytesReceived_readEvents (s : Session) (bs : List ReadBuffer) :
    bytesReceived (readEvents s bs) = [] := by
  cases bs <;> rfl

/-- The books of a session's reads. -/
abbrev ReadAccount (v : View) (rbChain : List ReadBuffer) : Prop :=
  Chain.Account Buffer.Good Buffer.progress Buffer.size Buffer.total
    (buffersRead v.history ++ readsOwed v.frames) rbChain (readSizes v.history)
    (bytesReceived v.history)

/-- A registered client's reads are accounted for. -/
def ReadsKept (v : View) : Prop := ∀ ci, v.client = some ci → ReadAccount v ci.rbChain

/-- Events and frames that are not about reading. -/
theorem ReadsKept.of_eq {v v' : View} (hv : ReadsKept v)
    (hchain : v'.client.map ClientInfo.rbChain = v.client.map ClientInfo.rbChain)
    (hsizes : readSizes v'.history = readSizes v.history)
    (hbytes : bytesReceived v'.history = bytesReceived v.history)
    (hdone : buffersRead v'.history ++ readsOwed v'.frames =
      buffersRead v.history ++ readsOwed v.frames) : ReadsKept v' := by
  intro ci hci
  rw [hci, Option.map_some] at hchain
  obtain ⟨old, hold, heq⟩ := Option.map_eq_some_iff.mp hchain.symm
  rw [ReadAccount, hsizes, hbytes, hdone, ← heq]
  exact hv old hold

/-- The account of what was read is kept by every step of its session. -/
theorem readsKept_step {s : Session} {c : Call} {v v' : View}
    (hc : ∀ n, c = .asyncRead s.fd n → 1 ≤ n.toNat) (hstep : SessionStep s c v v')
    (hv : ReadsKept v) : ReadsKept v' := by
  cases hstep with
  | same => exact hv
  | accept =>
      intro ci hci
      cases hci
      exact .nil
  | @asyncRead ci mask history frames n pool rb hs hrb =>
      intro ci' hci'
      cases hci'
      obtain ⟨rb', hrb', htotal, hnew, hunfinished⟩ := ReadBuffer.setTotal_clear
        (pool.getFromPool ReadBuffer.sizeDefault).1 (hc n rfl)
      rw [hrb, Except.ok.injEq] at hrb'
      subst hrb'
      have haccount := (hv ci rfl).request hunfinished hnew
      rw [htotal] at haccount
      simpa [ReadAccount, readSizes, bytesReceived, buffersRead] using haccount
  | asyncWrite =>
      exact hv.of_eq rfl (by simp [readSizes]) (by simp [bytesReceived]) (by simp [buffersRead])
  | close =>
      exact hv.of_eq rfl (by simp [readSizes]) (by simp [bytesReceived])
        (by simp [buffersRead, readsOwed])
  | onError =>
      exact hv.of_eq rfl (by simp [readSizes]) (by simp [bytesReceived])
        (by simp [buffersRead, readsOwed])
  | @onRead ci mask history kernel p hs hp hok =>
      intro ci' hci'
      cases hci'
      have haccount := (hv ci rfl).pass ReadBuffer.moves ReadBuffer.total_read hp hok
      have heos : readSizes (if p.ended then [.endOfStream s] else []) = [] ∧
          bytesReceived (if p.ended then [.endOfStream s] else []) = [] ∧
          buffersRead (if p.ended then [.endOfStream s] else []) = [] := by
        split <;> exact ⟨rfl, rfl, rfl⟩
      obtain ⟨hsizes, hbytes, hread⟩ := heos
      have hdone : buffersRead (history ++ [.received s p.moved] ++
          (if p.ended then [.endOfStream s] else []) ++ readEvents s p.complete) ++
          readsOwed (readFrames s p.complete) =
          buffersRead history ++ readsOwed [] ++ p.complete := by
        rw [buffersRead_append, List.append_assoc, buffersRead_readEvents, buffersRead_append,
          hread, buffersRead_append]
        simp [buffersRead, readsOwed]
      simp only [ReadAccount, hdone, readSizes_append, bytesReceived_append, hsizes, hbytes,
        readSizes_readEvents, bytesReceived_readEvents, List.append_nil]
      simpa [readSizes, bytesReceived] using haccount
  | @onWrite ci mask history kernel p hs hp hok =>
      refine hv.of_eq rfl ?_ ?_ ?_
      · cases p.complete <;> simp [readSizes, writeEvents]
      · cases p.complete <;> simp [bytesReceived, writeEvents]
      · cases p.complete <;> simp [buffersRead, readsOwed, writeEvents, writeFrames]
  | retAccepting => exact hv.of_eq rfl rfl rfl (by simp [readsOwed])
  | @retReading client mask history frames rb rest =>
      refine hv.of_eq rfl (by simp) (by simp) ?_
      rw [buffersRead_append, readsOwed_append, List.append_assoc,
        ← List.append_assoc (buffersRead (readEvents s rest)), buffersRead_readEvents]
      simp [readsOwed]
  | @retWriting client mask history frames wb rest =>
      refine hv.of_eq rfl ?_ ?_ ?_
      · cases rest <;> simp [readSizes, writeEvents]
      · cases rest <;> simp [bytesReceived, writeEvents]
      · cases rest <;> simp [buffersRead, readsOwed, writeEvents, writeFrames]
  | retClosing => exact fun ci hci => by cases hci

/-- Every run keeps the books of every registered client. -/
theorem readAccount_of_run {listenfdMaxconn : List (Fd × UInt32)} {m : System}
    {cs : List Call} {fd : Fd} (hsized : ∀ n, .asyncRead fd n ∈ cs → 1 ≤ n.toNat)
    (hrun : Machine.run step (init listenfdMaxconn) cs = some m) (hok : m.failed = none)
    {ci : ClientInfo} (hci : m.handler.clientInfo.lookup fd = some ci) :
    ReadAccount (m.view ci.session) ci.rbChain := by
  have hcalls : ∀ c ∈ cs, ∀ n, c = .asyncRead fd n → 1 ≤ n.toNat :=
    fun c hc n heq => hsized n (heq ▸ hc)
  obtain ⟨hw, -, hkept⟩ := run_session (fun s v => s.fd = fd → ReadsKept v)
    (fun s _ ci hci => by cases hci)
    (fun m c s v hc hstep hv hfd => readsKept_step (hfd ▸ hc) hstep (hv hfd))
    (Machine.along_of_forall_mem step hcalls _) hrun hok
  exact hkept ci.session (hw.client fd ci hci).1 ci (view_client hw hci).1

/-- Nothing is owed when no handler is running. -/
theorem readsOwed_of_idle {m : System} (hidle : m.stack = []) (s : Session) :
    readsOwed (m.view s).frames = [] := by
  rw [view, hidle]
  rfl

/-- On a registered connection the buffers delivered, those completed but not
yet delivered, and those in the chain are what was asked for, in order; each
delivered buffer holds all its bytes; and what was received is what they
hold, followed by what the first buffer of the chain holds. -/
theorem buffers_of_reads {listenfdMaxconn : List (Fd × UInt32)} {m : System}
    {cs : List Call} {fd : Fd} (hsized : ∀ n, .asyncRead fd n ∈ cs → 1 ≤ n.toNat)
    (hrun : Machine.run step (init listenfdMaxconn) cs = some m) (hok : m.failed = none)
    {ci : ClientInfo} (hci : m.handler.clientInfo.lookup fd = some ci) :
    let v := m.view ci.session
    let done := buffersRead v.history ++ readsOwed v.frames
    readSizes v.history = (done ++ ci.rbChain).map Buffer.total ∧
      (∀ rb ∈ done, rb.already = rb.total ∧ rb.buf.length = rb.total.toNat) ∧
      bytesReceived v.history =
        done.flatMap Buffer.buf ++ ci.rbChain.head?.toList.flatMap Buffer.progress ∧
      ∀ rb ∈ ci.rbChain.tail, rb.progress = [] := by
  intro v done
  have haccount := readAccount_of_run hsized hrun hok hci
  obtain ⟨hmoved, htail⟩ := haccount.moved_eq_head
  have hprogress : done.flatMap Buffer.progress = done.flatMap Buffer.buf :=
    List.flatMap_congr fun rb hrb => Buffer.progress_of_finished (haccount.finished rb hrb)
  refine ⟨haccount.requests_eq, ?_, ?_, htail⟩
  · intro rb hrb
    have hfinished := haccount.finished rb hrb
    refine ⟨?_, hfinished.good.length_buf⟩
    have heq := hfinished.eq
    rw [Buffer.length_progress hfinished.good] at heq
    exact UInt32.toNat_inj.mp heq
  · rw [hmoved, hprogress]

end System

end CppFastDevelop
