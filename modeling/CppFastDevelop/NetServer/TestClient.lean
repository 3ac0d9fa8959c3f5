import CppFastDevelop.Lib.CString
import CppFastDevelop.NetServer.Conversation
import CppFastDevelop.Network.Transfers

/-!
# CppFastDevelop.NetServer.TestClient

A thread of `netserver/test/src/test_client.cpp`: it sends all its requests
and then receives as many replies, each within a time limit.  A request is a
frame for the server, whose body carries the checksum of what follows, and
`CheckResult` compares the checksum of a reply with its text.

What a thread has sent does not depend on what it receives, so the requests
that were sent whole and the replies that were received whole are recorded
(`Kept`).
-/

namespace CppFastDevelop

open CString IOCompleteHandler Transfers

/-! ## requests -/

/-- What a thread is started with, and the texts it draws.  `calAdler32` is
zlib's. -/
structure ClientArgs where
  calAdler32 : List UInt8 → UInt32
  index : Nat
  times : Nat
  reqsize : Nat
  text : Nat → List UInt8
  length_text : ∀ k, (text k).length = reqsize

namespace ClientArgs

def idSize : Nat := 16

def headerSize : Nat := 4 + 4 + idSize

/-- `"[%6d ,%6d]"`, of which `PackHeader` copies `ID_SIZE` characters. -/
def id (index k : Nat) : List UInt8 :=
  snprintf (idSize + 1) (ofString "[" ++ padLeft 6 ' ' (unsigned index) ++ ofString " ," ++
    padLeft 6 ' ' (unsigned k) ++ ofString "]")

variable (R : ClientArgs)

def packHeader (body id : List UInt8) : List UInt8 :=
  let bodyLen := UInt32.ofNat body.length + UInt32.ofNat (headerSize - 4)
  htonl bodyLen ++ htonl (R.calAdler32 body) ++ id.take idSize

/-- `bufsend` in the turn `k`. -/
def bufsend (k : Nat) : List UInt8 := R.packHeader (R.text k) (id R.index k) ++ R.text k

/-- `bufsend.size()`, and `bufrecv.size()`. -/
def size : Nat := R.reqsize + headerSize

/-- `CheckResult` of a whole buffer.  Both sums are compared as they lie in
memory. -/
def checkResult (bufrecv : List UInt8) : Bool :=
  (bufrecv.drop 4).take 4 = htonl (R.calAdler32 (bufrecv.drop headerSize))

theorem length_id (index k : Nat) : (id index k).length = idSize + 1 := by
  rw [id, length_snprintf (by decide), idSize, Nat.add_sub_cancel, Nat.min_eq_left]
  simp [padLeft]
  omega

/-- A packed header has the length that is sent for it. -/
theorem length_packHeader (body : List UInt8) (k : Nat) :
    (R.packHeader body (id R.index k)).length = headerSize := by
  simp [packHeader, length_htonl, length_id, headerSize, idSize]

/-- Every request has the length that the threads were told. -/
theorem length_bufsend (k : Nat) : (R.bufsend k).length = R.size := by
  rw [bufsend, List.length_append, length_packHeader, R.length_text, size, Nat.add_comm]

/-- No request is empty, since it has a header. -/
theorem size_pos : 0 < R.size := by
  rw [size, headerSize]
  omega

/-- **A request passes its check.** -/
theorem checkResult_bufsend (k : Nat) : R.checkResult (R.bufsend k) = true := by
  have htext : (R.bufsend k).drop headerSize = R.text k :=
    List.drop_left' (R.length_packHeader _ k)
  rw [checkResult, decide_eq_true_iff, htext, bufsend, packHeader]
  simp only [List.append_assoc]
  rw [List.drop_left' (length_htonl _), List.take_left' (length_htonl _)]

/-- **A request is a frame of the server** that is not too large for it. -/
theorem isFrame_bufsend (hsize : R.reqsize + 20 ≤ 819200) (k : Nat) :
    format.IsFrame (R.bufsend k) := by
  have hlen : (UInt32.ofNat (R.text k).length + UInt32.ofNat (headerSize - 4)).toNat =
      R.reqsize + 20 := by
    rw [R.length_text, ← UInt32.ofNat_add, UInt32.toNat_ofNat']
    exact Nat.mod_eq_of_lt (by simp only [headerSize, idSize]; omega)
  refine ⟨htonl (UInt32.ofNat (R.text k).length + UInt32.ofNat (headerSize - 4)),
    htonl (R.calAdler32 (R.text k)) ++ (id R.index k).take idSize ++ R.text k, ?_,
    length_htonl _, ?_⟩
  · simp only [bufsend, packHeader, List.append_assoc]
  · have hbody := ntohl_htonl_append
      (UInt32.ofNat (R.text k).length + UInt32.ofNat (headerSize - 4)) []
    rw [List.append_nil] at hbody
    rw [bodyLen_eq_some, hbody, UInt32.lt_iff_toNat_lt, UInt32.le_iff_toNat_le, hlen]
    simp [length_htonl, length_id, idSize, R.length_text, maxBodySize]
    omega

end ClientArgs

/-! ## the thread -/

/-- Where a thread is.  A call that throws ends it, and is where it is left
then. -/
inductive Phase
  | sending (k : Nat) (call : SendSync)
  | receiving (k : Nat) (call : RecvSync)
  | finished
  deriving DecidableEq, Repr

/-- A thread in `Run`.  What its calls of `write` took and its calls of `read`
gave, and the buffers sent and received whole, only watch. -/
structure TestClient where
  phase : Phase
  sent : List UInt8
  received : List UInt8
  requests : List (List UInt8)
  replies : List (List UInt8)
  deriving DecidableEq, Repr

namespace TestClient

def timeoutMsec : Int32 := 8000

variable (R : ClientArgs)

/-- The top of the loop that receives. -/
def beginRecv (k : Nat) : Phase :=
  if k < R.times then .receiving k (recvSegmentSync R.size 0 false timeoutMsec) else .finished

/-- The top of the loop that sends. -/
def beginSend (k : Nat) : Phase :=
  if k < R.times then .sending k (sendSegmentSync R.size 0 timeoutMsec) else beginRecv R 0

def init : TestClient := ⟨beginSend R 0, [], [], [], []⟩

/-- One iteration of `SendSegmentSync`.  Whatever it returns, the next request
follows. -/
def sendRound (c : TestClient) (r : SendRound) : Option TestClient :=
  match c.phase with
  | .sending k call => (sendStep R.size R.size call r).map fun call' =>
    let c := { c with sent := c.sent ++ joined (r.calls (R.bufsend k) R.size R.size call) }
    match call'.status with
    | .returned _ => { c with
        phase := beginSend R (k + 1)
        requests := if call'.hasDone = R.size then c.requests ++ [R.bufsend k] else c.requests }
    | _ => { c with phase := .sending k call' }
  | _ => none

/-- One iteration of `RecvSegmentSync`.  A whole reply is checked, and the
thread stops at one that does not pass. -/
def recvRound (c : TestClient) (r : RecvRound) : Option TestClient :=
  match c.phase with
  | .receiving k call => (recvStep R.size (-1) call r).map fun call' =>
    let c := { c with received := c.received ++ joined (r.calls R.size (-1) call) }
    match call'.status with
    | .returned _ =>
      if call'.hasDone = R.size then { c with
        phase := if R.checkResult call'.received then beginRecv R (k + 1) else .finished
        replies := c.replies ++ [call'.received] }
      else { c with phase := beginRecv R (k + 1) }
    | _ => { c with phase := .receiving k call' }
  | _ => none

/-- Sending receives nothing, and takes nothing back. -/
theorem sendRound_sent {c c' : TestClient} {r : SendRound} (hstep : c.sendRound R r = some c') :
    c.sent <+: c'.sent ∧ c'.received = c.received := by
  unfold sendRound at hstep
  split at hstep
  · obtain ⟨call', -, rfl⟩ := Option.map_eq_some_iff.mp hstep
    dsimp only
    split <;> exact ⟨List.prefix_append _ _, rfl⟩
  · cases hstep

/-- Receiving sends nothing. -/
theorem recvRound_sent {c c' : TestClient} {r : RecvRound} (hstep : c.recvRound R r = some c') :
    c'.sent = c.sent := by
  unfold recvRound at hstep
  split at hstep
  · obtain ⟨call', -, rfl⟩ := Option.map_eq_some_iff.mp hstep
    dsimp only
    split
    · split <;> rfl
    · rfl
  · cases hstep

/-! ## what it has sent and received -/

/-- What the running call has sent. -/
def underwaySent : Phase → List UInt8
  | .sending k call => (R.bufsend k).take call.hasDone
  | _ => []

/-- What the running call has received. -/
def underwayReceived : Phase → List UInt8
  | .receiving _ call => call.received
  | _ => []

/-- The running call is in its loop, or was left by an exception. -/
def Underway : Phase → Prop
  | .sending k call => call.hasDone < R.size ∧ k < R.times
  | .receiving _ call => call.hasDone < R.size ∧ call.received.length = call.hasDone
  | .finished => True

/-- The requests that have had their turn. -/
def turns : Phase → Nat
  | .sending k _ => k
  | _ => R.times

/-- The iteration does not make a call return halfway. -/
def SendsWhole (c : TestClient) (r : SendRound) : Prop := match c.phase with
  | .sending _ call => ∀ call' ∈ sendStep R.size R.size call r, ∀ b,
      call'.status = .returned b → call'.hasDone = 0 ∨ call'.hasDone = R.size
  | _ => True

def RecvsWhole (c : TestClient) (r : RecvRound) : Prop := match c.phase with
  | .receiving _ call => ∀ call' ∈ recvStep R.size (-1) call r, ∀ b,
      call'.status = .returned b → call'.hasDone = 0 ∨ call'.hasDone = R.size
  | _ => True

instance (c : TestClient) (r : SendRound) : Decidable (c.SendsWhole R r) := by
  unfold SendsWhole
  split <;> infer_instance

instance (c : TestClient) (r : RecvRound) : Decidable (c.RecvsWhole R r) := by
  unfold RecvsWhole
  split <;> infer_instance

/-- What a thread keeps whose calls return having moved all or nothing. -/
structure Kept (c : TestClient) : Prop where
  sent : c.sent = c.requests.flatten ++ underwaySent R c.phase
  received : c.received = c.replies.flatten ++ underwayReceived c.phase
  underway : Underway R c.phase
  inTurn : c.requests.Sublist ((List.range (turns R c.phase)).map R.bufsend)
  whole : ∀ f ∈ c.replies, f.length = R.size

variable {R}

/-- Nothing is under way at the top of a loop. -/
theorem beginRecv_spec (k : Nat) : underwaySent R (beginRecv R k) = [] ∧
    underwayReceived (beginRecv R k) = [] ∧ Underway R (beginRecv R k) ∧
      turns R (beginRecv R k) = R.times := by
  unfold beginRecv
  split
  · rw [recvSegmentSync, if_neg (Nat.ne_of_gt R.size_pos)]
    exact ⟨rfl, rfl, ⟨R.size_pos, rfl⟩, rfl⟩
  · exact ⟨rfl, rfl, trivial, rfl⟩

/-- A turn begins with nothing under way, and is counted. -/
theorem beginSend_spec {k : Nat} (hk : k ≤ R.times) : underwaySent R (beginSend R k) = [] ∧
    underwayReceived (beginSend R k) = [] ∧ Underway R (beginSend R k) ∧
      k ≤ turns R (beginSend R k) := by
  unfold beginSend
  split
  · next hlt =>
      rw [sendSegmentSync, if_neg (Nat.ne_of_gt R.size_pos)]
      exact ⟨rfl, rfl, ⟨R.size_pos, hlt⟩, Nat.le_refl k⟩
  · obtain ⟨hsent, hreceived, hunderway, hturns⟩ := beginRecv_spec (R := R) 0
    exact ⟨hsent, hreceived, hunderway, hturns ▸ hk⟩

/-- At the beginning nothing is sent, received or under way. -/
theorem kept_init : Kept R (init R) := by
  obtain ⟨hsent, hreceived, hunderway, -⟩ := beginSend_spec (R := R) (Nat.zero_le _)
  exact ⟨hsent.symm, hreceived.symm, hunderway, List.nil_sublist _, by simp [init]⟩

/-- The turns go on. -/
theorem sublist_turns {requests : List (List UInt8)} {j k : Nat}
    (h : requests.Sublist ((List.range j).map R.bufsend)) (hjk : j ≤ k) :
    requests.Sublist ((List.range k).map R.bufsend) :=
  h.trans ((List.range_sublist.mpr hjk).map _)

/-- What `write` took is what is counted. -/
theorem joined_sendCalls {call call' : SendSync} {r : SendRound} (k : Nat)
    (hcall : sendStep R.size R.size call r = some call') (hle : call.hasDone ≤ R.size) :
    joined (r.calls (R.bufsend k) R.size R.size call) =
      ((R.bufsend k).drop call.hasDone).take (call'.hasDone - call.hasDone) := by
  obtain ⟨hrequests, htaken, -⟩ :=
    sendStep_calls (Nat.le_of_eq (R.length_bufsend k).symm) hle hcall
  exact joined_eq_of_taken hrequests.consecutive htaken

/-- A round of sending that moved all or nothing keeps the account. -/
theorem kept_sendRound {c c' : TestClient} {r : SendRound} (hc : Kept R c)
    (hwhole : c.SendsWhole R r) (hstep : c.sendRound R r = some c') : Kept R c' := by
  obtain ⟨phase, sent, received, requests, replies⟩ := c
  obtain ⟨hsent, hreceived, hunderway, hturn, hlen⟩ := hc
  dsimp only at hsent hreceived hunderway hturn hlen
  unfold sendRound at hstep
  cases phase with
  | receiving | finished => cases hstep
  | sending k call =>
      obtain ⟨call', hcall, rfl⟩ := Option.map_eq_some_iff.mp hstep
      obtain ⟨hlt, hk⟩ := hunderway
      obtain ⟨hge, hle⟩ := sendStep_hasDone_le hcall (Nat.le_of_lt hlt)
      have hsent' : sent ++ joined (r.calls (R.bufsend k) R.size R.size call) =
          requests.flatten ++ (R.bufsend k).take call'.hasDone := by
        have htake := List.take_add (l := R.bufsend k) (i := call.hasDone)
          (j := call'.hasDone - call.hasDone)
        rw [Nat.add_sub_cancel' hge] at htake
        rw [joined_sendCalls k hcall (Nat.le_of_lt hlt), hsent, htake, List.append_assoc]
        rfl
      dsimp only
      split
      · next b hstatus =>
          obtain ⟨hnone, hnone', hunder, hturns⟩ := beginSend_spec (R := R) (Nat.succ_le_of_lt hk)
          rcases hwhole call' hcall b hstatus with hzero | hall
          · rw [if_neg (by rw [hzero]; exact Nat.ne_of_lt R.size_pos)]
            refine ⟨?_, ?_, hunder, sublist_turns hturn (Nat.le_of_lt hturns), hlen⟩
            · rw [hsent', hzero, hnone, List.take_zero]
            · rw [hreceived, hnone']
              rfl
          · rw [if_pos hall]
            refine ⟨?_, ?_, hunder, sublist_turns ?_ hturns, hlen⟩
            · rw [hsent', hall, hnone, List.append_nil, List.flatten_append,
                List.take_of_length_le (Nat.le_of_eq (R.length_bufsend k)), List.flatten_singleton]
            · rw [hreceived, hnone']
              rfl
            · rw [List.range_succ, List.map_append]
              exact hturn.append (List.Sublist.refl _)
      · next hstatus =>
          exact ⟨hsent', hreceived, ⟨sendStep_unfinished hcall hlt hstatus, hk⟩, hturn, hlen⟩

/-- A round of receiving that moved all or nothing keeps the account. -/
theorem kept_recvRound {c c' : TestClient} {r : RecvRound} (hc : Kept R c)
    (hwhole : c.RecvsWhole R r) (hstep : c.recvRound R r = some c') : Kept R c' := by
  obtain ⟨phase, sent, received, requests, replies⟩ := c
  obtain ⟨hsent, hreceived, hunderway, hturn, hlen⟩ := hc
  dsimp only at hsent hreceived hunderway hturn hlen
  unfold recvRound at hstep
  cases phase with
  | sending | finished => cases hstep
  | receiving k call =>
      obtain ⟨call', hcall, rfl⟩ := Option.map_eq_some_iff.mp hstep
      obtain ⟨hlt, hdone⟩ := hunderway
      obtain ⟨bytes, hbytes, hdone', hle⟩ := recvStep_received hcall
      have hlen' : call'.received.length = call'.hasDone := by
        rw [hbytes, List.length_append, hdone, hdone']
      have hreceived' : received ++ joined (r.calls R.size (-1) call) =
          replies.flatten ++ call'.received := by
        rw [hreceived, (recvStep_calls (Nat.le_of_lt hlt) hcall).2.1, List.append_assoc]
        rfl
      obtain ⟨hnone, hnone', hunder, hturns⟩ := beginRecv_spec (R := R) (k + 1)
      dsimp only
      split
      · next b hstatus =>
          split
          · next hall =>
              have hwhole' : ∀ f ∈ replies ++ [call'.received], f.length = R.size := by
                intro f hf
                rcases List.mem_append.mp hf with hf | hf
                · exact hlen f hf
                · rw [List.mem_singleton.mp hf, hlen', hall]
              have hflat : received ++ joined (r.calls R.size (-1) call) =
                  (replies ++ [call'.received]).flatten := by
                rw [hreceived', List.flatten_append, List.flatten_singleton]
              split
              · refine ⟨?_, ?_, hunder, hturns ▸ hturn, hwhole'⟩
                · rw [hsent, hnone]
                  rfl
                · rw [hflat, hnone', List.append_nil]
              · exact ⟨hsent, hflat.trans (List.append_nil _).symm, trivial, hturn, hwhole'⟩
          · next hne =>
              have hzero := (hwhole call' hcall b hstatus).resolve_right hne
              refine ⟨?_, ?_, hunder, hturns ▸ hturn, hlen⟩
              · rw [hsent, hnone]
                rfl
              · rw [hreceived', hnone', List.eq_nil_of_length_eq_zero (hlen'.trans hzero)]
      · next hstatus =>
          exact ⟨hsent, hreceived', ⟨recvStep_unfinished hcall hlt hstatus, hlen'⟩, hturn, hlen⟩

/-- A request is sent in its turn, and once. -/
theorem Kept.sublist {c : TestClient} (hc : Kept R c) :
    c.requests.Sublist ((List.range R.times).map R.bufsend) := by
  refine sublist_turns hc.inTurn ?_
  have hunder := hc.underway
  cases hphase : c.phase with
  | sending k call =>
      rw [hphase] at hunder
      exact Nat.le_of_lt hunder.2
  | receiving | finished => exact Nat.le_refl _

/-- Less than a reply has been received of the next. -/
theorem Kept.length_underwayReceived {c : TestClient} (hc : Kept R c) :
    (underwayReceived c.phase).length < R.size := by
  have hunder := hc.underway
  cases hphase : c.phase with
  | receiving k call =>
      rw [hphase] at hunder
      rw [underwayReceived, hunder.2]
      exact hunder.1
  | sending | finished => exact R.size_pos

end TestClient

end CppFastDevelop
