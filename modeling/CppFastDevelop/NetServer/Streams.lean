import CppFastDevelop.NetServer.Exchange
import CppFastDevelop.NetServer.Served

/-!
# CppFastDevelop.NetServer.Streams

The two streams of a connection: the bytes that `recv` gives, which go into
the buffers asked for with `AsyncRead`, and those handed over with
`AsyncWrite`, which `send` takes.  Both are told by the kernel's answers
(`NetServer.Exchange`), for every run in which nothing is thrown; and where
the loop names what is there and no system call fails, nothing is
(`NetServer.Served`).
-/

namespace CppFastDevelop

namespace System

variable {listenfdMaxconn : List (Fd × UInt32)} {m : System} {log : List Exchange}
variable {cs : List Call}

/-- In the conversation of `talk` no system call fails. -/
theorem talk_served : Machine.Along step Served (init [(3, 0)]) talk := by decide +kernel

/-- **Reading is in order and loses nothing.**  Where the kernel reports no
error nothing is thrown, and until something is, on a registered connection:
the buffers delivered, those completed but not yet delivered, and those in
the chain are what was asked for, in order; each delivered buffer holds all
its bytes; what the calls of `recv` gave, each the kernel's next answer, is
what they hold, followed by what the first buffer of the chain holds; and
when no handler is running nothing is left undelivered. -/
theorem reads_delivered_in_order
    (hrun : Machine.run (Machine.recorded step noteExchange) (init listenfdMaxconn, []) cs =
      some (m, log)) :
    ((∀ c ∈ cs, c.Sized) → Machine.Along step Served (init listenfdMaxconn) cs →
      m.failed = none) ∧
    (m.failed = none → (∀ x ∈ log, x.Answered) ∧
      ∀ fd ci, m.handler.clientInfo.lookup fd = some ci →
        (∀ n, .asyncRead fd n ∈ cs → 1 ≤ n.toNat) →
        let v := m.view ci.session
        let done := buffersRead v.history ++ readsOwed v.frames
        Exchange.readsAsked ci.session log = (done ++ ci.rbChain).map Buffer.total ∧
          (∀ rb ∈ done, rb.already = rb.total ∧ rb.buf.length = rb.total.toNat) ∧
          Exchange.received ci.session log =
            done.flatMap Buffer.buf ++ ci.rbChain.head?.toList.flatMap Buffer.progress ∧
          (∀ rb ∈ ci.rbChain.tail, rb.progress = []) ∧
          (m.stack = [] → readsOwed v.frames = [])) := by
  have hrun' : Machine.run step (init listenfdMaxconn) cs = some m :=
    Machine.run_of_run_recorded hrun
  refine ⟨fun hsized hserved => ok_of_run_served hsized hserved hrun', fun hok => ?_⟩
  have hlog := exchanged_of_run hrun hok
  refine ⟨hlog.answered, fun fd ci hci hsized => ?_⟩
  obtain ⟨hasked, hfull, hreceived, htail⟩ := buffers_of_reads hsized hrun' hok hci
  rw [hlog.readSizes_eq] at hasked
  rw [hlog.bytesReceived_eq] at hreceived
  exact ⟨hasked, hfull, hreceived, htail, fun hidle => readsOwed_of_idle hidle _⟩

theorem reads_delivered_in_order_talk : ∃ m log ci,
    Machine.run (Machine.recorded step noteExchange) (init [(3, 0)], []) talk = some (m, log) ∧
      m.failed = none ∧ m.handler.clientInfo.lookup 5 = some ci ∧
      Exchange.received ci.session log =
        (buffersRead (m.view ci.session).history ++
          readsOwed (m.view ci.session).frames).flatMap Buffer.buf ++
          ci.rbChain.head?.toList.flatMap Buffer.progress := by
  obtain ⟨m, ci, hrun, -, hci⟩ := run_talk
  obtain ⟨log, hlog⟩ := Machine.exists_run_recorded noteExchange hrun []
  obtain ⟨hok, hreads⟩ := reads_delivered_in_order hlog
  have hok := hok talk_sized talk_served
  have hreads := (hreads hok).2 5 ci hci fun n hn => talk_sized _ hn
  exact ⟨m, log, ci, hlog, hok, hci, hreads.2.2.1⟩

/-- **Writing is in order and loses nothing.**  Where the kernel reports no
error nothing is thrown, and until something is, on a registered connection:
the bytes that the calls of `send` took, each as the kernel's next answer
says, are a prefix of what the user handed over; `OnWriteComplete` was
called, or is about to be called by the running `OnWrite`, once for each
buffer wholly inside that prefix; the chain holds the other buffers, in
order; and when no handler is running no call is outstanding. -/
theorem writes_sent_in_order
    (hrun : Machine.run (Machine.recorded step noteExchange) (init listenfdMaxconn, []) cs =
      some (m, log)) :
    ((∀ c ∈ cs, c.Sized) → Machine.Along step Served (init listenfdMaxconn) cs →
      m.failed = none) ∧
    (m.failed = none → (∀ x ∈ log, x.Answered) ∧
      ∀ fd ci, m.handler.clientInfo.lookup fd = some ci →
        (∀ buf n, .asyncWrite fd buf n ∈ cs → 1 ≤ n.toNat) →
        let v := m.view ci.session
        let requests := Exchange.writesAsked ci.session log
        let sent := Exchange.sent ci.session log
        sent <+: requests.flatten ∧
          writesCompleted v.history + (writesOwed v.frames).length =
            Chain.covered requests sent.length ∧
          ci.wbChain.map Buffer.buf = requests.drop (Chain.covered requests sent.length) ∧
          (m.stack = [] → writesOwed v.frames = [])) := by
  have hrun' : Machine.run step (init listenfdMaxconn) cs = some m :=
    Machine.run_of_run_recorded hrun
  refine ⟨fun hsized hserved => ok_of_run_served hsized hserved hrun', fun hok => ?_⟩
  have hlog := exchanged_of_run hrun hok
  refine ⟨hlog.answered, fun fd ci hci hsized => ?_⟩
  obtain ⟨hpre, hcompleted, hchain⟩ := buffers_of_writes hsized hrun' hok hci
  rw [hlog.writeRequests_eq, hlog.bytesSent_eq] at hpre hcompleted hchain
  exact ⟨hpre, hcompleted, hchain, fun hidle => writesOwed_of_idle hidle _⟩

theorem writes_sent_in_order_talk : ∃ m log ci,
    Machine.run (Machine.recorded step noteExchange) (init [(3, 0)], []) talk = some (m, log) ∧
      m.failed = none ∧ m.handler.clientInfo.lookup 5 = some ci ∧
      Exchange.sent ci.session log <+: (Exchange.writesAsked ci.session log).flatten := by
  obtain ⟨m, ci, hrun, -, hci⟩ := run_talk
  obtain ⟨log, hlog⟩ := Machine.exists_run_recorded noteExchange hrun []
  obtain ⟨hok, hwrites⟩ := writes_sent_in_order hlog
  have hok := hok talk_sized talk_served
  exact ⟨m, log, ci, hlog, hok, hci, ((hwrites hok).2 5 ci hci fun buf n hn => talk_sized _ hn).1⟩

end System

end CppFastDevelop
