import CppFastDevelop.Lib.Transfers
import CppFastDevelop.Network.SegmentSync

/-!
# CppFastDevelop.Network.Transfers

Which bytes the four functions move (`cf_network.cpp`).  Here every call of
`send`, `recv`, `write` or `read` is noted, with its place in `buf` and the
length asked for, and `recv` and `read` store into `buf`.  Whatever the kernel
answers, the calls follow each other in `buf` from its front, so the number
reported is that of the bytes at the front that were moved
(`segments_consecutive`).
-/

namespace CppFastDevelop

open Machine Transfers

/-! ## SendSegmentAsync and RecvSegmentAsync -/

/-- `cf_int(alreadyDone)` -/
def cfInt (alreadyDone : Nat) : Int32 := Int32.ofNat alreadyDone

theorem toInt_cfInt {alreadyDone : Nat} (h : alreadyDone < 2 ^ 31) :
    (cfInt alreadyDone).toInt = alreadyDone := Int32.toInt_ofNat_of_lt h

/-- The loop of `SendSegmentAsync`, and its calls of `send`. -/
def sendLoopCalls (buf : List UInt8) (totalLen : Nat) (segsize : Int) :
    List SendResult → Nat → SendOutcome × List (Transfer UInt8)
  | [], alreadyDone => (⟨alreadyDone, none, []⟩,
      if alreadyDone < totalLen then [⟨alreadyDone, lenLeft totalLen alreadyDone segsize, none⟩]
      else [])
  | r :: rs, alreadyDone =>
    if alreadyDone < totalLen then
      let asked := lenLeft totalLen alreadyDone segsize
      match r with
      | .again => (⟨alreadyDone, none, rs⟩, [⟨alreadyDone, asked, none⟩])
      | .failed => (⟨alreadyDone, some writeFailed, rs⟩, [⟨alreadyDone, asked, none⟩])
      | .accepted len =>
        let len := min len asked
        let o := sendLoopCalls buf totalLen segsize rs (alreadyDone + len)
        (o.1, ⟨alreadyDone, asked, some ((buf.drop alreadyDone).take len)⟩ :: o.2)
    else (⟨alreadyDone, none, r :: rs⟩, [])

def sendSegmentAsyncCalls (buf : List UInt8) (totalLen : Nat) (segsize : Int)
    (kernel : List SendResult) : SendOutcome × List (Transfer UInt8) :=
  if totalLen = 0 then (⟨0, none, kernel⟩, []) else sendLoopCalls buf totalLen segsize kernel 0

/-- How a `RecvSegmentAsync` ended, with `buf` and the calls of `recv`. -/
structure RecvCalls where
  alreadyDone : Nat
  buf : List UInt8
  peerClosedWhenRead : Bool
  failure : Option BaseException
  rest : List RecvResult
  calls : List (Transfer UInt8)
  deriving DecidableEq, Repr

/-- The loop of `RecvSegmentAsync`, and its calls of `recv`. -/
def recvLoopCalls (totalLen : Nat) (segsize : Int) :
    List RecvResult → List UInt8 → Nat → RecvCalls
  | [], buf, alreadyDone => ⟨alreadyDone, buf, false, none, [],
      if alreadyDone < totalLen then [⟨alreadyDone, lenLeft totalLen alreadyDone segsize, none⟩]
      else []⟩
  | r :: rs, buf, alreadyDone =>
    if alreadyDone < totalLen then
      let asked := lenLeft totalLen alreadyDone segsize
      match r with
      | .again => ⟨alreadyDone, buf, false, none, rs, [⟨alreadyDone, asked, none⟩]⟩
      | .failed => ⟨alreadyDone, buf, false, some writeFailed, rs, [⟨alreadyDone, asked, none⟩]⟩
      | .data bytes =>
        let bytes := bytes.take asked
        let call : Transfer UInt8 := ⟨alreadyDone, asked, some bytes⟩
        if bytes.length = 0 then ⟨alreadyDone, call.store buf, true, none, rs, [call]⟩
        else
          let o := recvLoopCalls totalLen segsize rs (call.store buf) (alreadyDone + bytes.length)
          { o with calls := call :: o.calls }
    else ⟨alreadyDone, buf, false, none, r :: rs, []⟩

def recvSegmentAsyncCalls (buf : List UInt8) (totalLen : Nat) (segsize : Int)
    (kernel : List RecvResult) : RecvCalls :=
  if totalLen = 0 then ⟨0, buf, false, none, kernel, []⟩
  else recvLoopCalls totalLen segsize kernel buf 0

/-! ## what the kernel gives -/

/-- `recv` is given no more than it asks for. -/
def RecvResult.Gives : RecvResult → Transfer UInt8 → Prop
  | .data bytes, t => t.answer = some (bytes.take t.asked)
  | .again, t | .failed, t => t.answer = none

/-- `send` offers what `buf` holds where it begins, and no more of it is
taken than it offers. -/
def SendResult.Takes (buf : List UInt8) : SendResult → Transfer UInt8 → Prop
  | .accepted len, t => t.answer = some ((buf.drop t.offset).take (min len t.asked))
  | .again, t | .failed, t => t.answer = none

/-! ## SendSegmentSync and RecvSegmentSync -/

/-- The call of `write` in an iteration, unless it ends before. -/
def SendRound.calls (buf : List UInt8) (totalLen : Nat) (segsize : Int) (s : SendSync)
    (r : SendRound) : List (Transfer UInt8) :=
  let asked := lenLeft totalLen s.hasDone segsize
  match r.poll with
  | some (_ + 1) =>
    [⟨s.hasDone, asked, r.len.map fun len => (buf.drop s.hasDone).take (min len asked)⟩]
  | _ => []

/-- The call of `read` in an iteration, unless it ends before. -/
def RecvRound.calls (totalLen : Nat) (segsize : Int) (s : RecvSync) (r : RecvRound) :
    List (Transfer UInt8) :=
  let asked := lenLeft totalLen s.hasDone segsize
  match r.poll with
  | some (_ + 1) => [⟨s.hasDone, asked, r.bytes.map (·.take asked)⟩]
  | _ => []

/-- The calls of `write` so far. -/
def noteSend (buf : List UInt8) (totalLen : Nat) (segsize : Int) (calls : List (Transfer UInt8))
    (s : SendSync) (r : SendRound) (_ : SendSync) : List (Transfer UInt8) :=
  calls ++ r.calls buf totalLen segsize s

/-- `buf` and the calls of `read` so far. -/
def noteRecv (totalLen : Nat) (segsize : Int) (k : List UInt8 × List (Transfer UInt8))
    (s : RecvSync) (r : RecvRound) (_ : RecvSync) : List UInt8 × List (Transfer UInt8) :=
  (storeAll k.1 (r.calls totalLen segsize s), k.2 ++ r.calls totalLen segsize s)

/-! ## one request -/

section Request

variable {totalLen alreadyDone : Nat} {segsize : Int}

theorem lenLeft_le_segsize (h : 0 < segsize) :
    (lenLeft totalLen alreadyDone segsize : Int) ≤ segsize := by
  simp only [lenLeft]
  split <;> omega

variable (segsize) in
theorem lenLeft_pos (h : alreadyDone < totalLen) : 0 < lenLeft totalLen alreadyDone segsize := by
  simp only [lenLeft]
  split <;> omega

/-- Requests that follow each other in `buf`, each within its limits. -/
structure Requests (totalLen : Nat) (segsize : Int) (begins ends : Nat)
    (calls : List (Transfer UInt8)) : Prop where
  consecutive : Consecutive begins calls ends
  within : ∀ t ∈ calls, t.Within totalLen segsize

/-- All four functions limit their requests alike. -/
theorem within_lenLeft {answer : Option (List UInt8)}
    (h : (answer.getD []).length ≤ lenLeft totalLen alreadyDone segsize) :
    Transfer.Within totalLen segsize
      ⟨alreadyDone, lenLeft totalLen alreadyDone segsize, answer⟩ :=
  ⟨lenLeft_le totalLen alreadyDone segsize, lenLeft_le_segsize, h⟩

theorem Requests.nil : Requests totalLen segsize alreadyDone alreadyDone [] := ⟨rfl, by simp⟩

theorem Requests.cons {answer : Option (List UInt8)} {ends : Nat}
    {calls : List (Transfer UInt8)}
    (hlen : (answer.getD []).length ≤ lenLeft totalLen alreadyDone segsize)
    (h : Requests totalLen segsize (alreadyDone + (answer.getD []).length) ends calls) :
    Requests totalLen segsize alreadyDone ends
      (⟨alreadyDone, lenLeft totalLen alreadyDone segsize, answer⟩ :: calls) :=
  ⟨⟨rfl, h.consecutive⟩, List.forall_mem_cons.mpr ⟨within_lenLeft hlen, h.within⟩⟩

/-- A request that moves nothing. -/
theorem Requests.single {answer : Option (List UInt8)} (h : answer.getD [] = []) :
    Requests totalLen segsize alreadyDone alreadyDone
      [⟨alreadyDone, lenLeft totalLen alreadyDone segsize, answer⟩] := by
  have hlen : (answer.getD []).length = 0 := by rw [h]; rfl
  exact Requests.cons (by omega) (hlen.symm ▸ Requests.nil)

theorem Requests.append {begins ends ends' : Nat} {calls calls' : List (Transfer UInt8)}
    (h : Requests totalLen segsize begins ends calls)
    (h' : Requests totalLen segsize ends ends' calls') :
    Requests totalLen segsize begins ends' (calls ++ calls') :=
  ⟨h.consecutive.append h'.consecutive, List.forall_mem_append.mpr ⟨h.within, h'.within⟩⟩

end Request

/-! ## the asynchronous loops -/

section Async

variable {buf : List UInt8} {totalLen : Nat} (segsize : Int)

/-- Noting the calls changes nothing. -/
theorem sendLoopCalls_fst (kernel : List SendResult) (alreadyDone : Nat) :
    (sendLoopCalls buf totalLen segsize kernel alreadyDone).1 =
      sendLoop totalLen segsize kernel alreadyDone := by
  induction kernel generalizing alreadyDone with
  | nil => rfl
  | cons r rs ih =>
      unfold sendLoopCalls sendLoop
      split
      · cases r with
        | again => rfl
        | failed => rfl
        | accepted len => exact ih _
      · rfl

/-- What is received lies at the front of `buf`. -/
theorem recvLoop_take (kernel : List RecvResult) {buf : List UInt8} {alreadyDone : Nat}
    (hbuf : totalLen ≤ buf.length) (h : alreadyDone ≤ totalLen) :
    recvLoop totalLen segsize kernel (buf.take alreadyDone) =
      let o := recvLoopCalls totalLen segsize kernel buf alreadyDone
      ⟨o.buf.take o.alreadyDone, o.peerClosedWhenRead, o.failure, o.rest⟩ := by
  induction kernel generalizing buf alreadyDone with
  | nil => rfl
  | cons r rs ih =>
      have hlen : (buf.take alreadyDone).length = alreadyDone := by simp; omega
      unfold recvLoopCalls recvLoop
      rw [hlen]
      by_cases hlt : alreadyDone < totalLen
      · simp only [if_pos hlt]
        cases r with
        | again => rfl
        | failed => rfl
        | data bytes =>
            have hle := lenLeft_le totalLen alreadyDone segsize
            have hpiece := List.length_take_le (lenLeft totalLen alreadyDone segsize) bytes
            simp only
            generalize bytes.take (lenLeft totalLen alreadyDone segsize) = piece at hpiece ⊢
            have hroom : alreadyDone + piece.length ≤ buf.length := by omega
            have hfront := Transfer.take_store
              (t := ⟨alreadyDone, lenLeft totalLen alreadyDone segsize, some piece⟩) hroom
            simp only [Transfer.moved_some] at hfront
            split
            · next hempty =>
                rw [List.length_eq_zero_iff.mp hempty] at hfront ⊢
                rw [List.append_nil] at hfront
                exact congrArg (RecvOutcome.mk · true none rs) hfront.symm
            · rw [← hfront, ih (by simpa using hbuf) (by omega)]
      · simp only [if_neg hlt]

theorem requests_sendLoopCalls (hbuf : totalLen ≤ buf.length) (kernel : List SendResult)
    {alreadyDone : Nat} (h : alreadyDone ≤ totalLen) :
    Requests totalLen segsize alreadyDone
      (sendLoopCalls buf totalLen segsize kernel alreadyDone).1.alreadyDone
      (sendLoopCalls buf totalLen segsize kernel alreadyDone).2 := by
  induction kernel generalizing alreadyDone with
  | nil =>
      unfold sendLoopCalls
      split
      · exact Requests.single rfl
      · exact Requests.nil
  | cons r rs ih =>
      unfold sendLoopCalls
      split
      · cases r with
        | again => exact Requests.single rfl
        | failed => exact Requests.single rfl
        | accepted len =>
            have hle := lenLeft_le totalLen alreadyDone segsize
            have hmin := Nat.min_le_right len (lenLeft totalLen alreadyDone segsize)
            simp only
            generalize min len (lenLeft totalLen alreadyDone segsize) = len at hmin ⊢
            have hlen : ((buf.drop alreadyDone).take len).length = len := by simp; omega
            have hend : alreadyDone + len ≤ totalLen := by omega
            exact Requests.cons (Nat.le_trans (Nat.le_of_eq hlen) hmin) (hlen.symm ▸ ih hend)
      · exact Requests.nil

/-- The bytes sent are those of `buf`. -/
theorem takenFrom_sendLoopCalls (kernel : List SendResult) (alreadyDone : Nat) :
    ∀ t ∈ (sendLoopCalls buf totalLen segsize kernel alreadyDone).2, t.TakenFrom buf := by
  induction kernel generalizing alreadyDone with
  | nil => unfold sendLoopCalls; split <;> simp
  | cons r rs ih =>
      unfold sendLoopCalls
      split
      · cases r with
        | again => simp
        | failed => simp
        | accepted len => exact List.forall_mem_cons.mpr ⟨List.take_prefix _ _, ih _⟩
      · simp

/-- A call that moves nothing is the last, if every send moves something. -/
theorem pairwise_sendLoopCalls (hbuf : totalLen ≤ buf.length) {kernel : List SendResult}
    (hmoves : ∀ n, .accepted n ∈ kernel → 1 ≤ n) (alreadyDone : Nat) :
    (sendLoopCalls buf totalLen segsize kernel alreadyDone).2.Pairwise
      fun t _ => t.moved ≠ [] := by
  induction kernel generalizing alreadyDone with
  | nil => unfold sendLoopCalls; split <;> simp
  | cons r rs ih =>
      unfold sendLoopCalls
      split
      · next hlt =>
          cases r with
          | again => simp
          | failed => simp
          | accepted len =>
              have hle := lenLeft_le totalLen alreadyDone segsize
              have hpos := lenLeft_pos segsize hlt
              have hlen : 1 ≤ len := hmoves len (by simp)
              have hrest := ih (fun n hn => hmoves n (by simp [hn]))
              refine List.pairwise_cons.mpr ⟨fun _ _ => ?_, hrest _⟩
              apply List.ne_nil_of_length_pos
              simp only [Transfer.moved_some, List.length_take, List.length_drop]
              omega
      · simp

/-- Without an error nothing is thrown. -/
theorem failure_sendLoop {kernel : List SendResult} (h : .failed ∉ kernel) (alreadyDone : Nat) :
    (sendLoop totalLen segsize kernel alreadyDone).failure = none := by
  induction kernel generalizing alreadyDone with
  | nil => rfl
  | cons r rs ih =>
      obtain ⟨hr, hrs⟩ := not_or.mp (List.mem_cons.not.mp h)
      unfold sendLoop
      split
      · cases r with
        | again => rfl
        | failed => exact absurd rfl hr
        | accepted len => exact ih hrs _
      · rfl

/-- What the calls of `recv` amount to. -/
structure Receives (totalLen : Nat) (segsize : Int) (buf : List UInt8) (begins : Nat)
    (o : RecvCalls) : Prop where
  requests : Requests totalLen segsize begins o.alreadyDone o.calls
  le : o.alreadyDone ≤ totalLen
  stored : o.buf = storeAll buf o.calls
  closed : o.peerClosedWhenRead = true ↔ ∃ t ∈ o.calls, t.answer = some []
  moves : o.calls.Pairwise fun t _ => t.moved ≠ []

/-- A refused call stores nothing. -/
theorem storeAll_refused (offset asked : Nat) : storeAll buf [⟨offset, asked, none⟩] = buf := by
  apply List.ext_getElem?
  intro k
  simp [Transfer.store, Patch.place]

theorem receives_recvLoopCalls (kernel : List RecvResult) (buf : List UInt8) {alreadyDone : Nat}
    (h : alreadyDone ≤ totalLen) :
    Receives totalLen segsize buf alreadyDone
      (recvLoopCalls totalLen segsize kernel buf alreadyDone) := by
  induction kernel generalizing buf alreadyDone with
  | nil =>
      unfold recvLoopCalls
      by_cases hlt : alreadyDone < totalLen
      · rw [if_pos hlt]
        exact ⟨Requests.single rfl, h, (storeAll_refused _ _).symm, by simp, by simp⟩
      · rw [if_neg hlt]
        exact ⟨Requests.nil, h, rfl, by simp, by simp⟩
  | cons r rs ih =>
      unfold recvLoopCalls
      split
      · cases r with
        | again =>
            exact ⟨Requests.single rfl, h, (storeAll_refused _ _).symm, by simp, by simp⟩
        | failed =>
            exact ⟨Requests.single rfl, h, (storeAll_refused _ _).symm, by simp, by simp⟩
        | data bytes =>
            have hle := lenLeft_le totalLen alreadyDone segsize
            have hpiece := List.length_take_le (lenLeft totalLen alreadyDone segsize) bytes
            simp only
            generalize bytes.take (lenLeft totalLen alreadyDone segsize) = piece at hpiece ⊢
            split
            · next hempty =>
                have hnil := List.length_eq_zero_iff.mp hempty
                subst hnil
                exact ⟨Requests.single rfl, h, rfl, by simp, by simp⟩
            · next hne =>
                have hmoves : piece ≠ [] := fun hnil => hne (by rw [hnil]; rfl)
                have hend : alreadyDone + piece.length ≤ totalLen := by omega
                obtain ⟨hrequests, hle', hstored, hclosed, hpairwise⟩ := ih
                  (Transfer.store ⟨alreadyDone, lenLeft totalLen alreadyDone segsize, some piece⟩
                    buf) hend
                refine ⟨Requests.cons hpiece hrequests, hle', hstored, ?_, ?_⟩
                · simp [hclosed, hmoves]
                · simp [hpairwise, hmoves]
      · exact ⟨Requests.nil, h, rfl, by simp, by simp⟩

theorem failure_recvLoopCalls {kernel : List RecvResult} (h : .failed ∉ kernel)
    (buf : List UInt8) (alreadyDone : Nat) :
    (recvLoopCalls totalLen segsize kernel buf alreadyDone).failure = none := by
  induction kernel generalizing buf alreadyDone with
  | nil => rfl
  | cons r rs ih =>
      obtain ⟨hr, hrs⟩ := not_or.mp (List.mem_cons.not.mp h)
      unfold recvLoopCalls
      split
      · cases r with
        | again => rfl
        | failed => exact absurd rfl hr
        | data bytes =>
            simp only
            split
            · rfl
            · exact ih hrs _ _
      · rfl

/-- What `sendLoop` counts is what its calls of `send` have moved. -/
theorem joined_sendLoopCalls (kernel : List SendResult) (alreadyDone : Nat) :
    let o := sendLoopCalls buf totalLen segsize kernel alreadyDone
    alreadyDone ≤ o.1.alreadyDone ∧
      joined o.2 = (buf.drop alreadyDone).take (o.1.alreadyDone - alreadyDone) := by
  induction kernel generalizing alreadyDone with
  | nil =>
      unfold sendLoopCalls
      split <;> simp
  | cons r rs ih =>
      unfold sendLoopCalls
      split
      · cases r with
        | again => simp
        | failed => simp
        | accepted len =>
            dsimp only
            generalize min len (lenLeft totalLen alreadyDone segsize) = len
            obtain ⟨hle, hjoined⟩ := ih (alreadyDone + len)
            have hsplit : (sendLoopCalls buf totalLen segsize rs (alreadyDone + len)).1.alreadyDone -
                alreadyDone = len + ((sendLoopCalls buf totalLen segsize rs
                  (alreadyDone + len)).1.alreadyDone - (alreadyDone + len)) := by omega
            refine ⟨by omega, ?_⟩
            rw [joined_cons, Transfer.moved_some, hjoined, hsplit, List.take_add, List.drop_drop]
      · simp

/-- Every call of `send` is given the next answer. -/
theorem answered_sendLoopCalls (kernel : List SendResult) (alreadyDone : Nat) :
    Answered (SendResult.Takes buf) .again kernel
      (sendLoopCalls buf totalLen segsize kernel alreadyDone).2
      (sendLoopCalls buf totalLen segsize kernel alreadyDone).1.rest := by
  induction kernel generalizing alreadyDone with
  | nil =>
      unfold sendLoopCalls
      split
      · exact .usedUp rfl (.done [])
      · exact .done []
  | cons r rs ih =>
      unfold sendLoopCalls
      split
      · cases r with
        | again => exact .call rfl (.done rs)
        | failed => exact .call rfl (.done rs)
        | accepted len => exact .call rfl (ih _)
      · exact .done _

/-- What `recvLoop` stores is what its calls of `recv` were given. -/
theorem recvLoop_eq_joined (kernel : List RecvResult) (buf received : List UInt8) :
    recvLoop totalLen segsize kernel received =
      let o := recvLoopCalls totalLen segsize kernel buf received.length
      ⟨received ++ joined o.calls, o.peerClosedWhenRead, o.failure, o.rest⟩ := by
  induction kernel generalizing buf received with
  | nil =>
      unfold recvLoopCalls recvLoop
      dsimp only
      split <;> simp
  | cons r rs ih =>
      unfold recvLoopCalls recvLoop
      by_cases hlt : received.length < totalLen
      · simp only [if_pos hlt]
        cases r with
        | again => simp
        | failed => simp
        | data bytes =>
            dsimp only
            generalize bytes.take (lenLeft totalLen received.length segsize) = piece
            split
            · next hempty => simp [List.length_eq_zero_iff.mp hempty]
            · rw [ih (Transfer.store ⟨received.length, lenLeft totalLen received.length segsize,
                some piece⟩ buf), List.length_append]
              simp
      · simp [if_neg hlt]

/-- Every call of `recv` is given the next answer. -/
theorem answered_recvLoopCalls (kernel : List RecvResult) (buf : List UInt8)
    (alreadyDone : Nat) :
    Answered RecvResult.Gives .again kernel
      (recvLoopCalls totalLen segsize kernel buf alreadyDone).calls
      (recvLoopCalls totalLen segsize kernel buf alreadyDone).rest := by
  induction kernel generalizing buf alreadyDone with
  | nil =>
      unfold recvLoopCalls
      by_cases hlt : alreadyDone < totalLen
      · rw [if_pos hlt]
        exact .usedUp rfl (.done [])
      · rw [if_neg hlt]
        exact .done []
  | cons r rs ih =>
      unfold recvLoopCalls
      split
      · cases r with
        | again => exact .call rfl (.done rs)
        | failed => exact .call rfl (.done rs)
        | data bytes =>
            dsimp only
            split
            · exact .call rfl (.done rs)
            · exact .call rfl (ih _ _)
      · exact .done _

end Async

/-- **What `SendSegmentAsync` reports is what `send` took**: the bytes at the
front of `buf`, as its answers to the calls have it. -/
theorem sendSegmentAsync_calls (buf : List UInt8) (totalLen : Nat) (segsize : Int)
    (kernel : List SendResult) :
    let o := sendSegmentAsyncCalls buf totalLen segsize kernel
    o.1 = sendSegmentAsync totalLen segsize kernel ∧ joined o.2 = buf.take o.1.alreadyDone ∧
      Answered (SendResult.Takes buf) .again kernel o.2 o.1.rest := by
  unfold sendSegmentAsyncCalls sendSegmentAsync
  split
  · exact ⟨rfl, rfl, .done kernel⟩
  · exact ⟨sendLoopCalls_fst segsize kernel 0, (joined_sendLoopCalls segsize kernel 0).2,
      answered_sendLoopCalls segsize kernel 0⟩

/-- **What `RecvSegmentAsync` stores is what `recv` gave**, and it reports
the end of the stream exactly if a `recv` gave nothing. -/
theorem recvSegmentAsync_calls (buf : List UInt8) (totalLen : Nat) (segsize : Int)
    (kernel : List RecvResult) :
    let o := recvSegmentAsyncCalls buf totalLen segsize kernel
    recvSegmentAsync totalLen segsize kernel =
        ⟨joined o.calls, o.peerClosedWhenRead, o.failure, o.rest⟩ ∧
      (o.peerClosedWhenRead = true ↔ ∃ t ∈ o.calls, t.answer = some []) ∧
      Answered RecvResult.Gives .again kernel o.calls o.rest := by
  unfold recvSegmentAsyncCalls recvSegmentAsync
  split
  · exact ⟨rfl, by simp, .done kernel⟩
  · exact ⟨recvLoop_eq_joined segsize kernel buf [],
      (receives_recvLoopCalls segsize kernel buf (Nat.zero_le totalLen)).closed,
      answered_recvLoopCalls segsize kernel buf 0⟩

/-! ## the iterations of the synchronous loops -/

section Sync

variable {buf : List UInt8} {totalLen : Nat} {segsize : Int}

theorem sendStep_calls {s t : SendSync} {r : SendRound} (hbuf : totalLen ≤ buf.length)
    (hle : s.hasDone ≤ totalLen) (h : sendStep totalLen segsize s r = some t) :
    Requests totalLen segsize s.hasDone t.hasDone (r.calls buf totalLen segsize s) ∧
      (∀ c ∈ r.calls buf totalLen segsize s, c.TakenFrom buf) ∧ t.hasDone ≤ totalLen := by
  obtain ⟨hasDone, timeout, status⟩ := s
  obtain ⟨b, poll, len, e⟩ := r
  cases status with
  | returned result => cases h
  | threw e => cases h
  | running =>
      rcases poll with _ | _ | n
      · cases h; exact ⟨Requests.nil, by simp [SendRound.calls], hle⟩
      · cases h; exact ⟨Requests.nil, by simp [SendRound.calls], hle⟩
      · cases len with
        | none => cases h; exact ⟨Requests.single rfl, by simp [SendRound.calls], hle⟩
        | some len =>
            cases h
            have hleft := lenLeft_le totalLen hasDone segsize
            have hmin := Nat.min_le_right len (lenLeft totalLen hasDone segsize)
            simp only [SendRound.calls, Option.map_some] at hle ⊢
            generalize min len (lenLeft totalLen hasDone segsize) = len at hmin ⊢
            have hlen : ((buf.drop hasDone).take len).length = len := by simp; omega
            refine ⟨?_, by simp [Transfer.TakenFrom, List.take_prefix], by omega⟩
            exact Requests.cons (Nat.le_trans (Nat.le_of_eq hlen) hmin) (hlen.symm ▸ Requests.nil)

theorem recvStep_calls {s t : RecvSync} {r : RecvRound} (hle : s.hasDone ≤ totalLen)
    (h : recvStep totalLen segsize s r = some t) :
    Requests totalLen segsize s.hasDone t.hasDone (r.calls totalLen segsize s) ∧
      t.received = s.received ++ joined (r.calls totalLen segsize s) ∧ t.hasDone ≤ totalLen := by
  obtain ⟨hasDone, received, closed, timeout, status⟩ := s
  obtain ⟨b, poll, bytes, e⟩ := r
  cases status with
  | returned result => cases h
  | threw e => cases h
  | running =>
      rcases poll with _ | _ | n
      · cases h; exact ⟨Requests.nil, by simp [RecvRound.calls], hle⟩
      · cases h; exact ⟨Requests.nil, by simp [RecvRound.calls], hle⟩
      · cases bytes with
        | none => cases h; exact ⟨Requests.single rfl, by simp [RecvRound.calls], hle⟩
        | some bytes =>
            have hleft := lenLeft_le totalLen hasDone segsize
            have hpiece := List.length_take_le (lenLeft totalLen hasDone segsize) bytes
            simp only [recvStep, RecvRound.calls, Option.map_some] at h hle ⊢
            generalize bytes.take (lenLeft totalLen hasDone segsize) = piece at h hpiece ⊢
            split at h
            · next hempty =>
                cases h
                have hnil := List.length_eq_zero_iff.mp hempty
                subst hnil
                exact ⟨Requests.single rfl, by simp, hle⟩
            · cases h
              exact ⟨Requests.cons hpiece Requests.nil, by simp, by simp only; omega⟩

/-- What the iterations of a `SendSegmentSync` keep. -/
structure SendsSoFar (buf : List UInt8) (totalLen : Nat) (segsize : Int)
    (s : SendSync × List (Transfer UInt8)) : Prop where
  requests : Requests totalLen segsize 0 s.1.hasDone s.2
  taken : ∀ t ∈ s.2, t.TakenFrom buf
  le : s.1.hasDone ≤ totalLen

/-- What the iterations of a `RecvSegmentSync` keep. -/
structure ReceivesSoFar (buf : List UInt8) (totalLen : Nat) (segsize : Int)
    (s : RecvSync × List UInt8 × List (Transfer UInt8)) : Prop where
  requests : Requests totalLen segsize 0 s.1.hasDone s.2.2
  stored : s.2.1 = storeAll buf s.2.2
  received : s.1.received = joined s.2.2
  le : s.1.hasDone ≤ totalLen

theorem sendsSoFar_of_run {s t : SendSync × List (Transfer UInt8)} {rounds : List SendRound}
    (hbuf : totalLen ≤ buf.length)
    (hrun : run (recorded (sendStep totalLen segsize) (noteSend buf totalLen segsize)) s rounds =
      some t) (h : SendsSoFar buf totalLen segsize s) : SendsSoFar buf totalLen segsize t := by
  refine run_invariant (SendsSoFar buf totalLen segsize) ?_ hrun h
  rintro s r ⟨t, calls⟩ hstep hs
  obtain ⟨ht, hnote⟩ := recorded_eq_some.mp hstep
  obtain ⟨hrequests, htaken, hle⟩ := sendStep_calls hbuf hs.le ht
  simp only [noteSend] at hnote
  subst hnote
  exact ⟨hs.requests.append hrequests, List.forall_mem_append.mpr ⟨hs.taken, htaken⟩, hle⟩

theorem receivesSoFar_of_run
    {s t : RecvSync × List UInt8 × List (Transfer UInt8)} {rounds : List RecvRound}
    (hrun : run (recorded (recvStep totalLen segsize) (noteRecv totalLen segsize)) s rounds =
      some t) (h : ReceivesSoFar buf totalLen segsize s) :
    ReceivesSoFar buf totalLen segsize t := by
  refine run_invariant (ReceivesSoFar buf totalLen segsize) ?_ hrun h
  rintro s r ⟨t, buf', calls⟩ hstep hs
  obtain ⟨ht, hnote⟩ := recorded_eq_some.mp hstep
  obtain ⟨hrequests, hreceived, hle⟩ := recvStep_calls hs.le ht
  simp only [noteRecv, hs.stored, ← storeAll_append, Prod.mk.injEq] at hnote
  obtain ⟨rfl, rfl⟩ := hnote
  refine ⟨hs.requests.append hrequests, rfl, ?_, hle⟩
  rw [joined_append, ← hs.received]
  exact hreceived

end Sync

/-! ## exactly the front of the buffer -/

/-- The calls send exactly the first `n` bytes of `buf`, one piece after the
other. -/
structure SendsFront (buf : List UInt8) (totalLen : Nat) (segsize : Int) (n : Nat)
    (calls : List (Transfer UInt8)) : Prop where
  requests : Requests totalLen segsize 0 n calls
  sent : joined calls = buf.take n
  le : n ≤ totalLen

/-- The calls store exactly the first `n` bytes of `buf'`, one piece after the
other, and leave the others as they were in `buf`. -/
structure StoresFront (buf buf' : List UInt8) (totalLen : Nat) (segsize : Int) (n : Nat)
    (calls : List (Transfer UInt8)) : Prop where
  requests : Requests totalLen segsize 0 n calls
  stored : joined calls = buf'.take n
  kept : buf'.drop n = buf.drop n
  le : n ≤ totalLen

section Front

variable {buf : List UInt8} {totalLen n : Nat} {segsize : Int} {calls : List (Transfer UInt8)}

theorem sendsFront (h : Requests totalLen segsize 0 n calls)
    (ht : ∀ t ∈ calls, t.TakenFrom buf) (hle : n ≤ totalLen) :
    SendsFront buf totalLen segsize n calls :=
  ⟨h, joined_eq_of_taken h.consecutive ht, hle⟩

theorem storesFront (h : Requests totalLen segsize 0 n calls) (hbuf : totalLen ≤ buf.length)
    (hle : n ≤ totalLen) : StoresFront buf (storeAll buf calls) totalLen segsize n calls := by
  have hlen := h.consecutive.add_length_joined
  rw [Nat.zero_add] at hlen
  have hfront : storeAll buf calls = joined calls ++ buf.drop n :=
    storeAll_front h.consecutive (by omega)
  refine ⟨h, ?_, ?_, hle⟩
  · rw [hfront, ← hlen, List.take_left]
  · rw [hfront, ← hlen, List.drop_left]

/-! ## the four functions -/

theorem sendSegmentAsync_front (hne : totalLen ≠ 0) (hlt : totalLen < 2 ^ 31)
    (hbuf : totalLen ≤ buf.length) {kernel : List SendResult} (hkernel : .failed ∉ kernel) :
    let o := sendSegmentAsyncCalls buf totalLen segsize kernel
    o.1 = sendSegmentAsync totalLen segsize kernel ∧ o.1.failure = none ∧
      (cfInt o.1.alreadyDone).toInt = o.1.alreadyDone ∧
      SendsFront buf totalLen segsize o.1.alreadyDone o.2 ∧
      ((∀ n, .accepted n ∈ kernel → 1 ≤ n) → o.2.length ≤ totalLen + 1) := by
  simp only [sendSegmentAsyncCalls, sendSegmentAsync, if_neg hne]
  have hfst : (sendLoopCalls buf totalLen segsize kernel 0).1 =
      sendLoop totalLen segsize kernel 0 := sendLoopCalls_fst segsize kernel 0
  have hle : (sendLoopCalls buf totalLen segsize kernel 0).1.alreadyDone ≤ totalLen := by
    rw [hfst]
    exact alreadyDone_sendLoop_le segsize kernel (Nat.zero_le _)
  have hrequests := requests_sendLoopCalls segsize hbuf kernel (Nat.zero_le _)
  have htaken : ∀ t ∈ (sendLoopCalls buf totalLen segsize kernel 0).2, t.TakenFrom buf :=
    takenFrom_sendLoopCalls segsize kernel 0
  refine ⟨hfst, hfst ▸ failure_sendLoop segsize hkernel 0, toInt_cfInt (by omega),
    sendsFront hrequests htaken hle, fun hmoves => ?_⟩
  have hlen := hrequests.consecutive.length_le (pairwise_sendLoopCalls segsize hbuf hmoves 0)
  omega

theorem recvSegmentAsync_front (hne : totalLen ≠ 0) (hlt : totalLen < 2 ^ 31)
    (hbuf : totalLen ≤ buf.length) {kernel : List RecvResult} (hkernel : .failed ∉ kernel) :
    let o := recvSegmentAsyncCalls buf totalLen segsize kernel
    recvSegmentAsync totalLen segsize kernel =
        ⟨o.buf.take o.alreadyDone, o.peerClosedWhenRead, o.failure, o.rest⟩ ∧
      o.failure = none ∧ (cfInt o.alreadyDone).toInt = o.alreadyDone ∧
      StoresFront buf o.buf totalLen segsize o.alreadyDone o.calls ∧
      (o.peerClosedWhenRead = true ↔ ∃ t ∈ o.calls, t.answer = some []) ∧
      o.calls.length ≤ totalLen + 1 := by
  simp only [recvSegmentAsyncCalls, recvSegmentAsync, if_neg hne]
  obtain ⟨hrequests, hle, hstored, hclosed, hmoves⟩ :=
    receives_recvLoopCalls segsize kernel buf (Nat.zero_le totalLen)
  refine ⟨recvLoop_take segsize kernel hbuf (Nat.zero_le _),
    failure_recvLoopCalls segsize hkernel buf 0, toInt_cfInt (by omega),
    hstored ▸ storesFront hrequests hbuf hle, hclosed, ?_⟩
  have hlen := hrequests.consecutive.length_le hmoves
  omega

theorem sendSegmentSync_front (hne : totalLen ≠ 0) (hbuf : totalLen ≤ buf.length)
    {rounds : List SendRound} {hasDone : Nat} {timeoutMilliSeconds : Int32} {s : SendSync}
    (hrun : run (recorded (sendStep totalLen segsize) (noteSend buf totalLen segsize))
      (sendSegmentSync totalLen hasDone timeoutMilliSeconds, []) rounds = some (s, calls)) :
    SendsFront buf totalLen segsize s.hasDone calls := by
  rw [sendSegmentSync, if_neg hne] at hrun
  have h := sendsSoFar_of_run hbuf hrun ⟨Requests.nil, by simp, Nat.zero_le _⟩
  exact sendsFront h.requests h.taken h.le

theorem recvSegmentSync_front (hne : totalLen ≠ 0) (hbuf : totalLen ≤ buf.length)
    {rounds : List RecvRound} {hasDone : Nat} {closed : Bool} {timeoutMilliSeconds : Int32}
    {s : RecvSync} {buf' : List UInt8}
    (hrun : run (recorded (recvStep totalLen segsize) (noteRecv totalLen segsize))
      (recvSegmentSync totalLen hasDone closed timeoutMilliSeconds, buf, []) rounds =
        some (s, buf', calls)) :
    StoresFront buf buf' totalLen segsize s.hasDone calls := by
  rw [recvSegmentSync, if_neg hne] at hrun
  have h := receivesSoFar_of_run hrun ⟨Requests.nil, rfl, rfl, Nat.zero_le _⟩
  have hfront := storesFront h.requests hbuf h.le
  rwa [← h.stored] at hfront

end Front

/-- **What the four functions move is the front of the buffer.**  Whatever
the kernel answers, the calls of a function follow each other from the start
of `buf`, none asks for more than a segment or than is missing, and together
they move exactly the bytes that are counted.  `RecvSegmentAsync` reports the
end of the stream exactly if a `recv` returned 0, and where every `send` moves
something neither asynchronous loop makes more calls than there are bytes,
and one. -/
theorem segments_consecutive {buf : List UInt8} {totalLen : Nat} (hpos : 0 < totalLen)
    (hlt : totalLen < 2 ^ 31) (hbuf : totalLen ≤ buf.length) (segsize : Int) :
    (∀ kernel : List SendResult, .failed ∉ kernel →
      let o := sendSegmentAsyncCalls buf totalLen segsize kernel
      o.1 = sendSegmentAsync totalLen segsize kernel ∧ o.1.failure = none ∧
        (cfInt o.1.alreadyDone).toInt = o.1.alreadyDone ∧
        SendsFront buf totalLen segsize o.1.alreadyDone o.2 ∧
        ((∀ n, .accepted n ∈ kernel → 1 ≤ n) → o.2.length ≤ totalLen + 1)) ∧
    (∀ kernel : List RecvResult, .failed ∉ kernel →
      let o := recvSegmentAsyncCalls buf totalLen segsize kernel
      recvSegmentAsync totalLen segsize kernel =
          ⟨o.buf.take o.alreadyDone, o.peerClosedWhenRead, o.failure, o.rest⟩ ∧
        o.failure = none ∧ (cfInt o.alreadyDone).toInt = o.alreadyDone ∧
        StoresFront buf o.buf totalLen segsize o.alreadyDone o.calls ∧
        (o.peerClosedWhenRead = true ↔ ∃ t ∈ o.calls, t.answer = some []) ∧
        o.calls.length ≤ totalLen + 1) ∧
    (∀ (rounds : List SendRound) (hasDone : Nat) (timeoutMilliSeconds : Int32)
      (s : SendSync) (calls : List (Transfer UInt8)),
      run (recorded (sendStep totalLen segsize) (noteSend buf totalLen segsize))
        (sendSegmentSync totalLen hasDone timeoutMilliSeconds, []) rounds = some (s, calls) →
      SendsFront buf totalLen segsize s.hasDone calls) ∧
    (∀ (rounds : List RecvRound) (hasDone : Nat) (peerClosedWhenRead : Bool)
      (timeoutMilliSeconds : Int32) (s : RecvSync) (buf' : List UInt8)
      (calls : List (Transfer UInt8)),
      run (recorded (recvStep totalLen segsize) (noteRecv totalLen segsize))
        (recvSegmentSync totalLen hasDone peerClosedWhenRead timeoutMilliSeconds, buf, [])
        rounds = some (s, buf', calls) →
      StoresFront buf buf' totalLen segsize s.hasDone calls) := by
  have hne : totalLen ≠ 0 := by omega
  exact ⟨fun kernel => sendSegmentAsync_front hne hlt hbuf,
    fun kernel => recvSegmentAsync_front hne hlt hbuf,
    fun rounds hasDone timeout s calls => sendSegmentSync_front hne hbuf,
    fun rounds hasDone closed timeout s buf' calls => recvSegmentSync_front hne hbuf⟩

/-- Three bytes in segments of two: one segment is sent before the kernel
refuses, or received before the peer closes. -/
theorem segments_consecutive_three :
    SendsFront [1, 2, 3] 3 2 2 [⟨0, 2, some [1, 2]⟩, ⟨2, 1, none⟩] ∧
    StoresFront [1, 2, 3] [7, 8, 3] 3 2 2 [⟨0, 2, some [7, 8]⟩, ⟨2, 1, some []⟩] := by
  have hbuf : 3 ≤ ([1, 2, 3] : List UInt8).length := by decide
  obtain ⟨hsend, hrecv, -⟩ := segments_consecutive (by decide : 0 < 3) (by decide) hbuf 2
  constructor
  · exact (hsend [.accepted 5, .again] (by decide)).2.2.2.1
  · exact (hrecv [.data [7, 8, 9], .data []] (by decide)).2.2.2.1

end CppFastDevelop
