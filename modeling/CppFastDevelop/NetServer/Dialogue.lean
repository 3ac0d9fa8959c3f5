import CppFastDevelop.NetServer.ServerLoop
import CppFastDevelop.NetServer.TestClient

/-!
# CppFastDevelop.NetServer.Dialogue

A thread of the test client and the test server, joined by a connection.  The
server serves whom else it likes; the connection gives the `recv` and `read`
of one side what the `write` and `send` of the other took, in order, in pieces
and at times of its own.

Every reply is the request of its turn, whatever the order of steps
(`replies_are_requests`): the server keeps the frames of a stream, the thread
sends frames of one length, and neither looks at the clock of the other.
-/

namespace CppFastDevelop

open CppFastDevelop.System IOCompleteHandler

/-! ## both sides -/

/-- The server process, what has passed between it and the kernel, and a
thread of the client. -/
structure Dialogue where
  process : ServerLoop
  log : List Exchange
  client : TestClient

namespace Dialogue

/-- The server takes a step, or the thread one iteration of a call. -/
inductive Action
  | server (a : ServerLoop.Action)
  | send (r : SendRound)
  | recv (r : RecvRound)

def init (listenfdMaxconn : List (Fd × UInt32)) (R : ClientArgs) : Dialogue :=
  ⟨.init listenfdMaxconn, [], .init R⟩

/-- The connection of the session `s`: the `recv` of the server gives what
the thread has sent, and the `read` of the thread what the server has. -/
def step (R : ClientArgs) (s : Session) (d : Dialogue) : Action → Option Dialogue
  | .server a => ((d.process.step a).map fun p =>
      { d with process := p, log := d.log ++ d.process.exchangeOf a }).filter fun d =>
        Exchange.received s d.log <+: d.client.sent
  | .send r => (d.client.sendRound R r).map fun c => { d with client := c }
  | .recv r => ((d.client.recvRound R r).map fun c => { d with client := c }).filter fun d =>
      d.client.received <+: Exchange.sent s d.log

/-- No call of the thread returns halfway, and no system call of the server
fails. -/
def Whole (R : ClientArgs) (d : Dialogue) : Action → Prop
  | .server a => ServerLoop.Quiet a
  | .send r => d.client.SendsWhole R r
  | .recv r => d.client.RecvsWhole R r

instance (R : ClientArgs) (d : Dialogue) : DecidablePred (d.Whole R)
  | .server a => inferInstanceAs (Decidable (ServerLoop.Quiet a))
  | .send r => inferInstanceAs (Decidable (d.client.SendsWhole R r))
  | .recv r => inferInstanceAs (Decidable (d.client.RecvsWhole R r))

/-! ## runs -/

variable {listenfdMaxconn : List (Fd × UInt32)} {R : ClientArgs} {s : Session} {d d' : Dialogue}

/-- What both sides keep.  The server is sound, or has met a header that it
does not take. -/
structure Kept (listenfdMaxconn : List (Fd × UInt32)) (R : ClientArgs) (s : Session)
    (d : Dialogue) : Prop where
  server : ServerLoop.Sound listenfdMaxconn d.process ∨
    d.process.server.system.failed ≠ none ∧ ServerLoop.Bad d.process.server.system
  exchanged : Exchanged d.process.server.system d.log
  client : TestClient.Kept R d.client
  toServer : Exchange.received s d.log <+: d.client.sent
  toClient : d.client.received <+: Exchange.sent s d.log

/-- At the beginning neither side has sent anything. -/
theorem kept_init (listenfdMaxconn : List (Fd × UInt32)) (R : ClientArgs) (s : Session) :
    Kept listenfdMaxconn R s (init listenfdMaxconn R) :=
  ⟨.inl (ServerLoop.sound_init listenfdMaxconn), .init listenfdMaxconn, TestClient.kept_init,
    List.nil_prefix, List.nil_prefix⟩

/-- A step keeps both sides' accounts and the two streams between them. -/
theorem kept_step {a : Action} (ha : d.Whole R a) (hstep : d.step R s a = some d')
    (hd : Kept listenfdMaxconn R s d) : Kept listenfdMaxconn R s d' := by
  obtain ⟨hserver, hlog, hclient, hto, hfrom⟩ := hd
  cases a with
  | server a =>
      obtain ⟨hmap, hpre⟩ := Option.filter_eq_some_iff.mp hstep
      obtain ⟨p, hp, rfl⟩ := Option.map_eq_some_iff.mp hmap
      have hsound := hserver.resolve_right fun hbad => hbad.1 (ServerLoop.free_of_step hp)
      refine ⟨ServerLoop.sound_step ha hp hsound, ServerLoop.exchanged_step ha hp hsound hlog,
        hclient, of_decide_eq_true hpre, hfrom.trans ?_⟩
      rw [Exchange.sent_append]
      exact List.prefix_append _ _
  | send r =>
      obtain ⟨c, hc, rfl⟩ := Option.map_eq_some_iff.mp hstep
      obtain ⟨hsent, hreceived⟩ := TestClient.sendRound_sent R hc
      refine ⟨hserver, hlog, TestClient.kept_sendRound hclient ha hc, hto.trans hsent, ?_⟩
      show c.received <+: _
      rw [hreceived]
      exact hfrom
  | recv r =>
      obtain ⟨hmap, hpre⟩ := Option.filter_eq_some_iff.mp hstep
      obtain ⟨c, hc, rfl⟩ := Option.map_eq_some_iff.mp hmap
      refine ⟨hserver, hlog, TestClient.kept_recvRound hclient ha hc, ?_, of_decide_eq_true hpre⟩
      show _ <+: c.sent
      rw [TestClient.recvRound_sent R hc]
      exact hto

/-- Every whole run keeps the accounts. -/
theorem kept_of_run {acts : List Action}
    (hrun : Machine.run (step R s) (init listenfdMaxconn R) acts = some d)
    (hwhole : Machine.Along (step R s) (Whole R) (init listenfdMaxconn R) acts) :
    Kept listenfdMaxconn R s d :=
  Machine.run_invariant_along (Kept listenfdMaxconn R s)
    (fun _ _ _ ha hstep hd => kept_step ha hstep hd) hwhole hrun
    (kept_init listenfdMaxconn R s)

/-! ## requests and replies -/

/-- What a thread has sent is its requests, which are frames, and a part of
one. -/
theorem sent_frames (hsize : R.reqsize + 20 ≤ 819200) {c : TestClient}
    (hc : TestClient.Kept R c) : (∀ f ∈ c.requests, ∃ k, f = R.bufsend k) ∧
      (∀ f ∈ c.requests, format.IsFrame f) ∧ format.frames c.sent = c.requests ∧
        (∃ k, format.rest c.sent <+: R.bufsend k ∧ (format.rest c.sent).length < R.size) := by
  have hall : ∀ f ∈ c.requests, ∃ k, f = R.bufsend k := by
    intro f hf
    obtain ⟨k, -, rfl⟩ := List.mem_map.mp (hc.inTurn.subset hf)
    exact ⟨k, rfl⟩
  have hpart : ∃ k, TestClient.underwaySent R c.phase <+: R.bufsend k ∧
      (TestClient.underwaySent R c.phase).length < R.size := by
    have hunder := hc.underway
    cases hphase : c.phase with
    | sending k call =>
        rw [hphase] at hunder
        refine ⟨k, List.take_prefix _ _, ?_⟩
        rw [TestClient.underwaySent, List.length_take]
        have hlt := hunder.1
        omega
    | receiving | finished => exact ⟨0, List.nil_prefix, R.size_pos⟩
  obtain ⟨k, hpre, hlt⟩ := hpart
  have hframes : ∀ f ∈ c.requests, format.IsFrame f := by
    intro f hf
    obtain ⟨j, rfl⟩ := hall f hf
    exact R.isFrame_bufsend hsize j
  have hnone := Framing.Format.frameLen_of_prefix (R.isFrame_bufsend hsize k) hpre
    (by rwa [R.length_bufsend])
  obtain ⟨hcut, hleft⟩ := Framing.Format.frames_eq hframes hnone hc.sent
  exact ⟨hall, hframes, hcut, k, hleft ▸ hpre, hleft ▸ hlt⟩

/-- The beginning of a request is no header that the server refuses. -/
theorem not_badHeader (hsize : R.reqsize + 20 ≤ 819200) {bytes : List UInt8} {k : Nat}
    (h : format.rest bytes <+: R.bufsend k) : ¬ BadHeader bytes := by
  rintro ⟨head, tail, hrest, hhead, hnone⟩
  obtain ⟨head', body, hframe, hhead', hbody⟩ := R.isFrame_bufsend hsize k
  obtain ⟨more, hmore⟩ := h
  rw [hrest, hframe, List.append_assoc] at hmore
  rw [(List.append_inj hmore (hhead.trans hhead'.symm)).1, hbody] at hnone
  cases hnone

/-- **Every reply is the request of its turn.**  Whatever the order of steps,
where no call of the thread returns halfway, no system call of the server
fails and no other client sends what the server does not take: the server does
not fail, and refuses nothing that the thread sends; the requests it has sent
are frames; the replies it has received are these requests, from the first on,
and pass their checks; and where nothing is on its way, none is missing. -/
theorem replies_are_requests {acts : List Action} (hsize : R.reqsize + 20 ≤ 819200)
    (hrun : Machine.run (step R s) (init listenfdMaxconn R) acts = some d)
    (hwhole : Machine.Along (step R s) (Whole R) (init listenfdMaxconn R) acts)
    (hothers : ∀ t, t ≠ s → ¬ BadHeader (Exchange.received t d.log)) :
    d.process.server.system.failed = none ∧ (∀ x ∈ d.log, x.Answered) ∧
      ¬ BadHeader (Exchange.received s d.log) ∧
      d.client.requests.Sublist ((List.range R.times).map R.bufsend) ∧
      (∀ f ∈ d.client.requests, format.IsFrame f) ∧
      d.client.replies <+: d.client.requests ∧
      (∀ bufrecv ∈ d.client.replies, R.checkResult bufrecv) ∧
      ∀ ci, d.process.server.system.handler.client s = some ci → d.process.server.todo = [] →
        ci.wbChain = [] → Exchange.received s d.log = d.client.sent →
        d.client.received = Exchange.sent s d.log → d.client.replies = d.client.requests := by
  have hkept := kept_of_run hrun hwhole
  obtain ⟨hall, hisFrame, hframes, k, hpre, -⟩ := sent_frames hsize hkept.client
  have hgood : ¬ BadHeader (Exchange.received s d.log) := by
    intro hbad
    obtain ⟨more, hmore⟩ := hkept.toServer
    exact not_badHeader hsize hpre (hmore ▸ hbad.append more)
  have hsound : ServerLoop.Sound listenfdMaxconn d.process := by
    refine hkept.server.resolve_right ?_
    rintro ⟨-, t, hbad⟩
    rw [hkept.exchanged.bytesReceived_eq] at hbad
    by_cases ht : t = s
    · exact hgood (ht ▸ hbad)
    · exact hothers t ht hbad
  have hserver := hsound.survives.toKept
  have hok := hsound.survives.free
  have hlen : ∀ f ∈ d.client.requests, f.length = R.size := by
    intro f hf
    obtain ⟨j, rfl⟩ := hall f hf
    exact R.length_bufsend j
  have hreplies : d.client.replies <+: d.client.requests := by
    refine Framing.prefix_of_flatten R.size_pos hkept.client.whole hlen ?_
    have hfront : d.client.replies.flatten <+: d.client.received := by
      rw [hkept.client.received]
      exact List.prefix_append _ _
    have hechoed := (hserver.echoes s).1
    rw [hkept.exchanged.bytesReceived_eq, hkept.exchanged.bytesSent_eq] at hechoed
    have hasked := Framing.Format.frames_prefix (F := format) hkept.toServer
    rw [hframes] at hasked
    obtain ⟨more, hmore⟩ := hasked
    rw [← hmore, List.flatten_append]
    exact ((hfront.trans hkept.toClient).trans hechoed).trans (List.prefix_append _ _)
  refine ⟨hok, hkept.exchanged.answered, hgood, hkept.client.sublist, hisFrame, hreplies, ?_, ?_⟩
  · intro bufrecv hmem
    obtain ⟨j, rfl⟩ := hall bufrecv (hreplies.subset hmem)
    exact R.checkResult_bufsend j
  · intro ci hci htodo hchain hreceived hsent
    obtain ⟨hreads, done, hwrites⟩ := hserver.reached.accounts hok hci
    rw [hchain] at hwrites
    have hmoved := hwrites.moved_of_nil (fun b hb => hb.length_buf)
      (fun b => List.take_prefix _ _)
    rw [hserver.told.answered_eq hci hreads htodo, hkept.exchanged.bytesReceived_eq,
      hkept.exchanged.bytesSent_eq] at hmoved
    have hall' : d.client.replies.flatten ++ TestClient.underwayReceived d.client.phase =
        d.client.requests.flatten := by
      rw [← hkept.client.received, hsent, ← hframes, ← hreceived]
      exact hmoved
    exact Framing.eq_of_flatten hlen hreplies hall' hkept.client.length_underwayReceived

/-- The checksum of zlib. -/
def adler32 (bytes : List UInt8) : UInt32 :=
  let (a, b) := bytes.foldl (fun (a, b) c =>
    ((a + c.toNat) % 65521, (b + (a + c.toNat)) % 65521)) (1, 0)
  UInt32.ofNat (b * 65536 + a)

/-- Two requests of one character. -/
def twoRequests : ClientArgs where
  calAdler32 := adler32
  index := 0
  times := 2
  reqsize := 1
  text k := [UInt8.ofNat (97 + k)]
  length_text _ := rfl

/-- A read or write that takes no time. -/
def atOnce : TimeVal := .zero

/-- Both requests are sent; the server has answered the first, and its reply
arrives in two pieces. -/
def firstReply : List Action :=
  [.server (.waitEvent (some [(3, EPOLLIN)])), .server (.dispatch ⟨[5], [], []⟩), .server .next,
    .server .next, .send ⟨atOnce, some 1, some 7, atOnce⟩, .send ⟨atOnce, some 1, some 18, atOnce⟩,
    .send ⟨atOnce, some 1, some 25, atOnce⟩, .server (.waitEvent (some [(5, EPOLLIN)])),
    .server (.dispatch ⟨[], [.data ((twoRequests.bufsend 0).take 4)], []⟩), .server .next,
    .server .next, .server (.waitEvent (some [(5, EPOLLIN)])),
    .server (.dispatch ⟨[], [.data ((twoRequests.bufsend 0).drop 4)], []⟩), .server .next,
    .server .next, .server .next, .server (.waitEvent (some [(5, EPOLLOUT)])),
    .server (.dispatch ⟨[], [], [.accepted 25]⟩),
    .recv ⟨atOnce, some 1, some ((twoRequests.bufsend 0).take 9), atOnce⟩,
    .recv ⟨atOnce, some 1, some ((twoRequests.bufsend 0).drop 9), atOnce⟩]

/-- Two requests sent and the first reply read back. -/
theorem replies_are_requests_firstReply : ∃ d,
    Machine.run (step twoRequests ⟨0, 5⟩) (init [(3, 0)] twoRequests) firstReply = some d ∧
      d.process.server.system.failed = none ∧ d.client.replies.length = 1 ∧
      d.client.replies <+: d.client.requests := by
  have hsome : ((Machine.run (step twoRequests ⟨0, 5⟩) (init [(3, 0)] twoRequests)
      firstReply).filter fun d => d.client.replies.length = 1 ∧
        ∀ x ∈ d.log, x.session = ⟨0, 5⟩).isSome := by decide +kernel
  have hwhole : Machine.Along (step twoRequests ⟨0, 5⟩) (Whole twoRequests)
      (init [(3, 0)] twoRequests) firstReply := by decide +kernel
  obtain ⟨d, hd⟩ := Option.isSome_iff_exists.mp hsome
  obtain ⟨hrun, hd⟩ := Option.filter_eq_some_iff.mp hd
  obtain ⟨hlen, hone⟩ := of_decide_eq_true hd
  have hothers : ∀ t, t ≠ ⟨0, 5⟩ → ¬ BadHeader (Exchange.received t d.log) := by
    intro t ht hbad
    rw [Exchange.received_of_forall hone ht] at hbad
    exact not_badHeader_nil hbad
  obtain ⟨hok, -, -, -, -, hreplies, -⟩ := replies_are_requests (by decide) hrun hwhole hothers
  exact ⟨d, hrun, hok, hlen, hreplies⟩

end Dialogue

end CppFastDevelop
