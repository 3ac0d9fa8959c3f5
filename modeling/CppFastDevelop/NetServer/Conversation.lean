import CppFastDevelop.Lib.Framing
import CppFastDevelop.NetServer.Reading
import CppFastDevelop.NetServer.TestServer
import CppFastDevelop.NetServer.Writing

/-!
# CppFastDevelop.NetServer.Conversation

What a client and the test server say to each other.  `Talk` is the
conversation of a session as its callbacks see it: headers and bodies in turn,
each asked for by the one before, and every frame sent back.  `Converses` says
that a session of the server is in one, and `Answer` that `OnReadComplete`
goes on with it.
-/

namespace CppFastDevelop

open CppFastDevelop.System

/-! ## frames -/

namespace IOCompleteHandler

/-- The frames the server takes. -/
def format : Framing.Format UInt8 where
  headLen := 4
  headLen_pos := by decide
  bodyLen head :=
    if 0 < ntohl head ∧ ntohl head ≤ maxBodySize then some (ntohl head).toNat else none

/-- A header is four bytes. -/
theorem length_htonl (n : UInt32) : (htonl n).length = 4 := Words.length_encodeBE 4 _

/-- What was read as a header is written as it was. -/
theorem htonl_ntohl {head : List UInt8} (h : head.length = 4) : htonl (ntohl head) = head := by
  have hlt : Words.decodeBE head < 2 ^ 32 := by
    have hlt := Words.decodeBE_lt head
    rwa [h] at hlt
  rw [htonl, ntohl, List.take_of_length_le (by omega), UInt32.toNat_ofNat_of_lt' hlt, ← h,
    Words.encodeBE_decodeBE]

/-- Reading a header back gives the number it was made from, whatever follows. -/
theorem ntohl_htonl_append (n : UInt32) (bytes : List UInt8) : ntohl (htonl n ++ bytes) = n := by
  rw [ntohl, List.take_left' (length_htonl n), htonl, Words.decodeBE_encodeBE n.toNat_lt,
    UInt32.ofNat_toNat]

/-- The server takes a header when its number is from 1 to the largest body, and no other. -/
theorem bodyLen_eq_some {head : List UInt8} {k : Nat} :
    format.bodyLen head = some k ↔
      (0 < ntohl head ∧ ntohl head ≤ maxBodySize) ∧ (ntohl head).toNat = k := by
  simp [format]

/-- A stream shorter than the frame it begins does not hold it. -/
theorem frameLen_short {head progress : List UInt8} (hhead : head.length = 4)
    (h : progress.length < (ntohl head).toNat) : format.frameLen (head ++ progress) = none := by
  have htake : (head ++ progress).take format.headLen = head := List.take_left' hhead
  unfold Framing.Format.frameLen
  rw [htake]
  split
  · rfl
  · next n hn =>
      rw [if_neg]
      have hlen := (bodyLen_eq_some.mp hn).2
      rw [List.length_append, hhead]
      show ¬ 4 + n ≤ _
      omega

/-- Fewer than four bytes do not yet say how long the frame is. -/
theorem frameLen_header {progress : List UInt8} (h : progress.length < 4) :
    format.frameLen progress = none := by
  unfold Framing.Format.frameLen
  split
  · rfl
  · next n hn =>
      rw [if_neg]
      show ¬ 4 + n ≤ _
      omega

/-- A header that the server refuses begins no frame. -/
theorem frameLen_refused {head rest : List UInt8} (hhead : head.length = 4)
    (h : format.bodyLen head = none) : format.frameLen (head ++ rest) = none := by
  have htake : (head ++ rest).take format.headLen = head := List.take_left' hhead
  unfold Framing.Format.frameLen
  rw [htake, h]

/-- The bytes begin with a header that announces no body. -/
def BeginsZero (bytes : List UInt8) : Prop :=
  ∃ head tail, bytes = head ++ tail ∧ head.length = 4 ∧ ntohl head = 0

/-- Behind its whole frames a stream has a header that announces no body. -/
def ZeroHeader (received : List UInt8) : Prop := BeginsZero (format.rest received)

/-- Before the fourth byte there is no zero header. -/
theorem not_beginsZero_short {bytes : List UInt8} (h : bytes.length < 4) : ¬ BeginsZero bytes := by
  rintro ⟨head, tail, rfl, hhead, -⟩
  rw [List.length_append] at h
  omega

/-- A header other than zero is no zero header, whatever follows it. -/
theorem not_beginsZero {head rest : List UInt8} (hhead : head.length = 4)
    (hne : ntohl head ≠ 0) : ¬ BeginsZero (head ++ rest) := by
  rintro ⟨head', tail, heq, hhead', hzero⟩
  rw [(List.append_inj heq (by rw [hhead, hhead'])).1] at hne
  exact hne hzero

/-- Behind its whole frames a stream has a header that the server does not
take. -/
def BadHeader (received : List UInt8) : Prop :=
  ∃ head tail, format.rest received = head ++ tail ∧ head.length = 4 ∧
    format.bodyLen head = none

/-- A zero header is one of the headers that the server refuses. -/
theorem ZeroHeader.badHeader {received : List UInt8} (h : ZeroHeader received) :
    BadHeader received := by
  obtain ⟨head, tail, hrest, hhead, hzero⟩ := h
  refine ⟨head, tail, hrest, hhead, if_neg fun hsize => ?_⟩
  rw [hzero] at hsize
  exact absurd hsize.1 (by decide)

/-- What comes behind such a header does not matter. -/
theorem BadHeader.append {received : List UInt8} (h : BadHeader received) (more : List UInt8) :
    BadHeader (received ++ more) := by
  obtain ⟨head, tail, hrest, hhead, hnone⟩ := h
  refine ⟨head, tail ++ more, ?_, hhead, hnone⟩
  have hrefused : format.frameLen (head ++ (tail ++ more)) = none := frameLen_refused hhead hnone
  rw [(Framing.Format.frames_append format received more).2, hrest, List.append_assoc]
  exact (Framing.Format.frames_of_none hrefused).2

/-- Nothing received, nothing refused. -/
theorem not_badHeader_nil : ¬ BadHeader [] := by
  rintro ⟨head, tail, heq, hhead, -⟩
  have hnone : format.frameLen [] = none := frameLen_header (by decide)
  rw [(Framing.Format.frames_of_none hnone).2] at heq
  rw [(List.append_eq_nil_iff.mp heq.symm).1] at hhead
  cases hhead

end IOCompleteHandler

open IOCompleteHandler

/-! ## a conversation -/

/-- What the server waits for in a session: nothing more, once it has refused
a header. -/
inductive Awaits
  | header
  | body
  | nothing
  deriving DecidableEq, Repr

namespace Awaits

/-- The reads asked for and not yet handed over. -/
def owed : Awaits → Nat
  | header | body => 1
  | nothing => 0

/-- What `_recvHeader` says. -/
def flag : Awaits → Bool
  | body => false
  | header | nothing => true

end Awaits

/-- The buffers that a session was handed, the sizes it has asked for and what
it has sent back. -/
inductive Talk : Awaits → List (List UInt8) → List UInt32 → List (List UInt8) → Prop
  | accepted : Talk .header [] [headLen] []
  | header {bufs : List (List UInt8)} {sizes : List UInt32} {writes : List (List UInt8)}
      {head : List UInt8} (h : Talk .header bufs sizes writes) (hhead : head.length = 4)
      (hsize : 0 < ntohl head ∧ ntohl head ≤ maxBodySize) :
    Talk .body (bufs ++ [head]) (sizes ++ [ntohl head]) writes
  | body {bufs : List (List UInt8)} {sizes : List UInt32} {writes : List (List UInt8)}
      {head body : List UInt8} (h : Talk .header bufs sizes writes) (hhead : head.length = 4)
      (hsize : 0 < ntohl head ∧ ntohl head ≤ maxBodySize)
      (hbody : body.length = (ntohl head).toNat) :
    Talk .header (bufs ++ [head] ++ [body]) (sizes ++ [ntohl head] ++ [headLen])
      (writes ++ [head ++ body])
  | refused {bufs : List (List UInt8)} {sizes : List UInt32} {writes : List (List UInt8)}
      {head : List UInt8} (h : Talk .header bufs sizes writes) (hhead : head.length = 4)
      (hsize : maxBodySize < ntohl head) : Talk .nothing (bufs ++ [head]) sizes writes

namespace Talk

variable {a : Awaits} {bufs : List (List UInt8)} {sizes : List UInt32}
  {writes : List (List UInt8)} {progress : List UInt8}

/-- Every read asked for has been answered but for the one that is owed. -/
theorem length_sizes (h : Talk a bufs sizes writes) : sizes.length = bufs.length + a.owed := by
  induction h with
  | accepted => rfl
  | header _ _ _ ih => simpa [Awaits.owed] using ih
  | body _ _ _ _ ih => simpa [Awaits.owed] using ih
  | refused _ _ _ ih => simpa [Awaits.owed] using ih

/-- Nothing is asked for but a header or a body that is not empty. -/
theorem sizes_pos (h : Talk a bufs sizes writes) : ∀ n ∈ sizes, 0 < n.toNat := by
  have hhead : 0 < headLen.toNat := by decide
  induction h with
  | accepted => simpa using hhead
  | header _ _ hsize ih =>
      intro n hn
      rcases List.mem_append.mp hn with hn | hn
      · exact ih n hn
      · rw [List.mem_singleton.mp hn]
        exact UInt32.lt_iff_toNat_lt.mp hsize.1
  | body _ _ hsize _ ih =>
      intro n hn
      simp only [List.mem_append, List.mem_singleton] at hn
      obtain (hn | rfl) | rfl := hn
      · exact ih n hn
      · exact UInt32.lt_iff_toNat_lt.mp hsize.1
      · exact hhead
  | refused _ _ _ ih => exact ih

/-- Between frames a header has been asked for. -/
theorem last_header (h : Talk .header bufs sizes writes) :
    ∃ front, sizes = front ++ [headLen] := by
  cases h with
  | accepted => exact ⟨[], rfl⟩
  | body => exact ⟨_, rfl⟩

/-- Within a frame the body has been asked for, and will be sent back behind
its length. -/
theorem last_body (h : Talk .body bufs sizes writes) : ∃ front n, sizes = front ++ [n] ∧
    (0 < n ∧ n ≤ maxBodySize) ∧ ∀ body : List UInt8, body.length = n.toNat →
      Talk .header (bufs ++ [body]) (sizes ++ [headLen]) (writes ++ [htonl n ++ body]) := by
  cases h with
  | @header bufs sizes _ head htalk hhead hsize =>
      refine ⟨sizes, ntohl head, rfl, hsize, fun body hbody => ?_⟩
      rw [htonl_ntohl hhead]
      exact .body htalk hhead hsize hbody

/-- What is sent back are whole frames. -/
theorem isFrame (h : Talk a bufs sizes writes) : ∀ w ∈ writes, format.IsFrame w := by
  induction h with
  | accepted => simp
  | header _ _ _ ih => exact ih
  | @body _ _ _ head body _ hhead hsize hbody ih =>
      intro w hw
      rcases List.mem_append.mp hw with hw | hw
      · exact ih w hw
      · rw [List.mem_singleton.mp hw]
        exact ⟨head, body, rfl, hhead, bodyLen_eq_some.mpr ⟨hsize, hbody.symm⟩⟩
  | refused _ _ _ ih => exact ih

/-- Between two frames every byte read has been asked to be written. -/
theorem flatten_eq (h : Talk .header bufs sizes writes) : bufs.flatten = writes.flatten := by
  generalize ha : Awaits.header = a at h
  induction h with
  | accepted => rfl
  | header => cases ha
  | body _ _ _ _ ih => simp [ih ha]
  | refused => cases ha

/-- What was handed over, with a part of what was asked for last, is cut into
the frames sent back, and what is left does not begin with a header that
announces no body. -/
theorem frames_eq (h : Talk a bufs sizes writes)
    (hprogress : ∀ n ∈ sizes.getLast?, progress.length < n.toNat) :
    format.frames (bufs.flatten ++ progress) = writes ∧
      ¬ ZeroHeader (bufs.flatten ++ progress) := by
  have hsplit {xs : List UInt8} (hframes : ∀ w ∈ writes, format.IsFrame w)
      (hnone : format.frameLen xs = none) (hzero : ¬ BeginsZero xs)
      (heq : bufs.flatten ++ progress = writes.flatten ++ xs) :
      format.frames (bufs.flatten ++ progress) = writes ∧
        ¬ ZeroHeader (bufs.flatten ++ progress) := by
    obtain ⟨hcut, hrest⟩ := Framing.Format.frames_eq hframes hnone heq
    refine ⟨hcut, ?_⟩
    rwa [ZeroHeader, hrest]
  have hframes := h.isFrame
  cases h with
  | accepted =>
      have hshort : progress.length < 4 := hprogress headLen rfl
      exact hsplit hframes (frameLen_header hshort) (not_beginsZero_short hshort) rfl
  | @header bufs sizes _ head htalk hhead hsize =>
      have hshort : progress.length < (ntohl head).toNat :=
        hprogress (ntohl head) (List.getLast?_concat ..)
      refine hsplit hframes (frameLen_short hhead hshort)
        (not_beginsZero hhead (Ne.symm (UInt32.ne_of_lt hsize.1))) ?_
      simp [htalk.flatten_eq]
  | @body bufs sizes writes head body htalk hhead hsize hbody =>
      have hshort : progress.length < 4 := hprogress headLen (List.getLast?_concat ..)
      refine hsplit hframes (frameLen_header hshort) (not_beginsZero_short hshort) ?_
      simp [htalk.flatten_eq]
  | @refused bufs _ _ head htalk hhead hsize =>
      have hnone : format.bodyLen head = none := if_neg fun h => UInt32.not_le.mpr hsize h.2
      have hpos : 0 < ntohl head := UInt32.lt_trans (by decide) hsize
      have hrefused : format.frameLen (head ++ progress) = none := frameLen_refused hhead hnone
      refine hsplit hframes hrefused (not_beginsZero hhead (Ne.symm (UInt32.ne_of_lt hpos))) ?_
      simp [htalk.flatten_eq]

/-- The header that ended the conversation. -/
theorem badHeader (h : Talk .nothing bufs sizes writes) (progress : List UInt8) :
    BadHeader (bufs.flatten ++ progress) := by
  cases h with
  | @refused bufs _ _ head htalk hhead hsize =>
      have hnone : format.bodyLen head = none := if_neg fun h => UInt32.not_le.mpr hsize h.2
      have hrefused : format.frameLen (head ++ progress) = none := frameLen_refused hhead hnone
      refine ⟨head, progress, ?_, hhead, hnone⟩
      refine (Framing.Format.frames_eq htalk.isFrame hrefused ?_).2
      simp [htalk.flatten_eq]

/-- A header that announces no body. -/
theorem zeroHeader (h : Talk .header bufs sizes writes) {head : List UInt8}
    (hhead : head.length = 4) (hzero : ntohl head = 0) :
    ZeroHeader (bufs.flatten ++ head) := by
  have hnone : format.bodyLen head = none := by
    refine if_neg fun h => ?_
    rw [hzero] at h
    exact absurd h.1 (by decide)
  have hrefused : format.frameLen (head ++ []) = none := frameLen_refused hhead hnone
  rw [List.append_nil] at hrefused
  obtain ⟨-, hrest⟩ := Framing.Format.frames_eq h.isFrame hrefused rfl
  rw [ZeroHeader, h.flatten_eq, hrest]
  exact ⟨head, [], (List.append_nil head).symm, hhead, hzero⟩

end Talk

/-! ## the server -/

namespace TestServer

open EventHandler EventLoop

/-- What the running callbacks have still to read from a descriptor. -/
def pendingReads (fd : Fd) : List System.Call → List UInt32 :=
  List.filterMap fun
    | .asyncRead k n => if k = fd then some n else none
    | _ => none

/-- What the running callbacks have still to write to a descriptor. -/
def pendingWrites (fd : Fd) : List System.Call → List (List UInt8) :=
  List.filterMap fun
    | .asyncWrite k buf n => if k = fd then some (buf.take n.toNat) else none
    | _ => none

section Pending

variable {fd k : Fd} {n : UInt32} {buf : List UInt8} {rest : List System.Call}

@[simp] theorem pendingReads_read :
    pendingReads fd (.asyncRead fd n :: rest) = n :: pendingReads fd rest := by
  simp [pendingReads]

@[simp] theorem pendingReads_write :
    pendingReads fd (.asyncWrite k buf n :: rest) = pendingReads fd rest := rfl

@[simp] theorem pendingReads_close :
    pendingReads fd (.asyncClose k :: rest) = pendingReads fd rest := rfl

@[simp] theorem pendingReads_ret : pendingReads fd (.ret :: rest) = pendingReads fd rest := rfl

@[simp] theorem pendingWrites_read :
    pendingWrites fd (.asyncRead k n :: rest) = pendingWrites fd rest := rfl

@[simp] theorem pendingWrites_write :
    pendingWrites fd (.asyncWrite fd buf n :: rest) =
      buf.take n.toNat :: pendingWrites fd rest := by
  simp [pendingWrites]

@[simp] theorem pendingWrites_close :
    pendingWrites fd (.asyncClose k :: rest) = pendingWrites fd rest := rfl

@[simp] theorem pendingWrites_ret : pendingWrites fd (.ret :: rest) = pendingWrites fd rest := rfl

/-- Calls for another descriptor. -/
theorem pendingReads_of_ne (hk : k ≠ fd) :
    pendingReads fd (.asyncRead k n :: rest) = pendingReads fd rest := by
  simp [pendingReads, hk]

/-- A write to another descriptor is none of this connection's. -/
theorem pendingWrites_of_ne (hk : k ≠ fd) :
    pendingWrites fd (.asyncWrite k buf n :: rest) = pendingWrites fd rest := by
  simp [pendingWrites, hk]

end Pending

/-- The buffers a session was handed. -/
def handed (t : TestServer) (s : Session) : List (List UInt8) :=
  (buffersRead (t.system.view s).history).map Buffer.buf

/-- What a session has asked for, or is about to. -/
def asked (t : TestServer) (s : Session) : List UInt32 :=
  readSizes (t.system.view s).history ++ pendingReads s.fd t.todo

/-- What a session has sent back, or is about to. -/
def answered (t : TestServer) (s : Session) : List (List UInt8) :=
  writeRequests (t.system.view s).history ++ pendingWrites s.fd t.todo

/-- A session is being closed, or is about to be. -/
def Closes (t : TestServer) (s : Session) : Prop :=
  .asyncClose s.fd ∈ t.todo ∨ .closing s ∈ t.system.stack

/-- Nothing more is to be said. -/
structure Spoken (t : TestServer) : Prop where
  reads : ∀ fd, pendingReads fd t.todo = []
  writes : ∀ fd, pendingWrites fd t.todo = []
  closes : ∀ s, ¬ t.Closes s

/-- With no callback running there is nothing to carry out. -/
theorem spoken_idle {e : EventHandler} {h : IOCompleteHandler} :
    Spoken ⟨⟨e, [], none⟩, h, []⟩ :=
  ⟨fun _ => rfl, fun _ => rfl, by simp [Closes]⟩

/-- A callback that has only to return says nothing more. -/
theorem spoken_ret {e : EventHandler} {h : IOCompleteHandler} {f : Frame}
    (hf : f.closes? = none) : Spoken ⟨⟨e, [f], none⟩, h, [.ret]⟩ := by
  refine ⟨fun _ => rfl, fun _ => rfl, ?_⟩
  rintro s (hs | hs)
  · simp at hs
  · rw [← List.mem_singleton.mp hs] at hf
    cases hf

/-- What is said in a session: `_recvHeader` follows it, and a session is
closed by the server if it is refused, and only then. -/
def Converses (t : TestServer) (s : Session) : Prop :=
  ∃ a : Awaits, Talk a (t.handed s) (t.asked s) (t.answered s) ∧
    t.handler.expectsHeader s.fd = a.flag ∧ (a = .nothing → t.Closes s) ∧
    (.asyncClose s.fd ∈ t.todo → a = .nothing)

/-- A running callback of a session has only this to do: to read or write at
least one byte of the session, or to close it, and to return. -/
inductive Asks (h : EventHandler) (s : Session) : List System.Call → Prop
  | done : Asks h s [.ret]
  | read {n : UInt32} {rest : List System.Call} (hn : 1 ≤ n.toNat) (hs : h.client s ≠ none)
      (hrest : Asks h s rest) : Asks h s (.asyncRead s.fd n :: rest)
  | write {buf : List UInt8} {n : UInt32} {rest : List System.Call} (hn : 1 ≤ n.toNat)
      (hlen : n.toNat ≤ buf.length) (hs : h.client s ≠ none) (hrest : Asks h s rest) :
    Asks h s (.asyncWrite s.fd buf n :: rest)
  | close (hs : h.client s ≠ none) : Asks h s [.asyncClose s.fd, .ret]

/-- What a callback asked for stays in order while its client stays in the record. -/
theorem Asks.mono {h h' : EventHandler} {s : Session} {todo : List System.Call}
    (hasks : Asks h s todo) (hs : h.client s ≠ none → h'.client s ≠ none) : Asks h' s todo := by
  induction hasks with
  | done => exact .done
  | read hn hc _ ih => exact .read hn (hs hc) ih
  | write hn hlen hc _ ih => exact .write hn hlen (hs hc) ih
  | close hc => exact .close (hs hc)

/-- It says nothing to other descriptors. -/
theorem Asks.pending_of_ne {h : EventHandler} {s : Session} {todo : List System.Call}
    (hasks : Asks h s todo) {fd : Fd} (hfd : fd ≠ s.fd) :
    pendingReads fd todo = [] ∧ pendingWrites fd todo = [] ∧ .asyncClose fd ∉ todo := by
  induction hasks with
  | done => exact ⟨rfl, rfl, by simp⟩
  | read _ _ _ ih =>
      rw [pendingReads_of_ne (Ne.symm hfd), pendingWrites_read]
      exact ⟨ih.1, ih.2.1, by simp [ih.2.2]⟩
  | write _ _ _ _ ih =>
      rw [pendingWrites_of_ne (Ne.symm hfd), pendingReads_write]
      exact ⟨ih.1, ih.2.1, by simp [ih.2.2]⟩
  | close => exact ⟨rfl, rfl, by simp [hfd]⟩

/-- What there is to do, against the stack.  At most one callback is running,
but for the close that one may ask for; a session is handed one buffer at a
time. -/
inductive Shape (h : EventHandler) : List Frame → List System.Call → Prop
  | idle : Shape h [] []
  | timingOut : Shape h [.timingOut] [.ret]
  | callback {f : Frame} {s : Session} {todo : List System.Call} (hf : f.session? = some s)
      (hopen : f.closes? = none) (hlast : ∀ rb rest, f = .reading s rb rest → rest = [])
      (hasks : Asks h s todo) : Shape h [f] todo
  | refused {f : Frame} {s : Session} (hs : h.client s ≠ none) (hf : f.session? = some s)
      (hopen : f.closes? = none) (hlast : ∀ rb rest, f = .reading s rb rest → rest = []) :
    Shape h [.closing s, f] [.ret, .ret]
  | closing {f : Frame} {s : Session} (hs : h.client s ≠ none) (hf : f.closes? = some s) :
    Shape h [f] [.ret]

/-! ### the callbacks -/

/-- A callback leaves what the object holds for other descriptors. -/
theorem expectsHeader_react_of_ne (h : IOCompleteHandler) {f : Frame} {s : Session}
    (hf : f.session? = some s) {k : Fd} (hk : k ≠ s.fd) :
    (h.react f).handler.expectsHeader k = h.expectsHeader k := by
  have hset (b : Bool) : (h.setRecvHeader s.fd b).expectsHeader k = h.expectsHeader k := by
    rw [expectsHeader_setRecvHeader, if_neg hk]
  cases f <;> cases hf
  case accepting => exact hset true
  case reading rb rest =>
      simp only [react, onReadComplete]
      split
      · split
        · rfl
        · split
          · split <;> exact hset false
          · rfl
      · exact hset true
  all_goals rfl

/-- `OnReadComplete` takes a header. -/
theorem onReadComplete_header {h : IOCompleteHandler} {s : Session} {rb : ReadBuffer}
    (hflag : h.expectsHeader s.fd = true) (htotal : rb.total = headLen)
    (hok : (h.onReadComplete s rb).thrown = none) :
    (0 < ntohl rb.buf ∧ ntohl rb.buf ≤ maxBodySize) ∧ h.onReadComplete s rb =
        ⟨h.setRecvHeader s.fd false, [.asyncRead s.fd (ntohl rb.buf)], none⟩ ∨
      maxBodySize < ntohl rb.buf ∧ h.onReadComplete s rb = ⟨h, [.asyncClose s.fd], none⟩ := by
  unfold onReadComplete at hok ⊢
  simp only [hflag, htotal, if_true, ne_eq, not_true_eq_false, if_false] at hok ⊢
  by_cases hle : ntohl rb.buf ≤ maxBodySize
  · rw [if_pos hle] at hok ⊢
    by_cases hpos : 0 < ntohl rb.buf
    · exact .inl ⟨⟨hpos, hle⟩, if_pos hpos⟩
    · rw [if_neg hpos] at hok
      cases hok
  · exact .inr ⟨UInt32.not_le.mp hle, if_neg hle⟩

/-- `OnReadComplete` takes a body. -/
theorem onReadComplete_body {h : IOCompleteHandler} {s : Session} {rb : ReadBuffer}
    (hflag : h.expectsHeader s.fd = false) (hlen : rb.buf.length = rb.total.toNat) :
    h.onReadComplete s rb = ⟨h.setRecvHeader s.fd true,
      [.asyncWrite s.fd (htonl rb.total ++ rb.buf) (rb.total + 4), .asyncRead s.fd headLen],
      none⟩ := by
  simp only [onReadComplete, hflag, Bool.false_eq_true, if_false]
  rw [List.take_of_length_le (by omega)]

/-- What `OnReadComplete` says, if it throws nothing. -/
structure Answer (h : IOCompleteHandler) (s : Session) (bufs : List (List UInt8))
    (sizes : List UInt32) (writes : List (List UInt8)) (buf : List UInt8) (r : Reaction) :
    Prop where
  talk : ∃ a : Awaits, Talk a (bufs ++ [buf]) (sizes ++ pendingReads s.fd r.calls)
    (writes ++ pendingWrites s.fd r.calls) ∧ r.handler.expectsHeader s.fd = a.flag ∧
      (a = .nothing ↔ .asyncClose s.fd ∈ r.calls)
  asks : ∀ m : EventHandler, m.client s ≠ none → Asks m s (r.calls ++ [.ret])

/-- The read callback of the test handler answers a completed buffer as the conversation says. -/
theorem onReadComplete_answer {h : IOCompleteHandler} {s : Session} {rb : ReadBuffer}
    {a : Awaits} {bufs : List (List UInt8)} {sizes front : List UInt32}
    {writes : List (List UInt8)} (htalk : Talk a bufs sizes writes)
    (hflag : h.expectsHeader s.fd = a.flag) (hlast : sizes = front ++ [rb.total])
    (ha : a ≠ .nothing) (hlen : rb.buf.length = rb.total.toNat)
    (hok : (h.onReadComplete s rb).thrown = none) :
    Answer h s bufs sizes writes rb.buf (h.onReadComplete s rb) := by
  cases a with
  | nothing => exact absurd rfl ha
  | header =>
      obtain ⟨front', hfront⟩ := htalk.last_header
      have htotal : rb.total = headLen := by
        rw [hlast] at hfront
        exact List.singleton_inj.mp (List.append_inj_right' hfront rfl)
      have hhead : rb.buf.length = 4 := by
        rw [hlen, htotal]
        rfl
      rcases onReadComplete_header hflag htotal hok with ⟨hsize, heq⟩ | ⟨hsize, heq⟩
      · rw [heq]
        refine ⟨⟨.body, ?_, by simp [Awaits.flag], by simp⟩, fun m hm => ?_⟩
        · simpa [pendingReads, pendingWrites] using htalk.header hhead hsize
        · exact .read (UInt32.lt_iff_toNat_lt.mp hsize.1) hm .done
      · rw [heq]
        refine ⟨⟨.nothing, ?_, hflag, by simp⟩, fun m hm => .close hm⟩
        simpa [pendingReads, pendingWrites] using htalk.refused hhead hsize
  | body =>
      obtain ⟨front', n, hfront, ⟨hpos, hle⟩, hnext⟩ := htalk.last_body
      have htotal : rb.total = n := by
        rw [hlast] at hfront
        exact List.singleton_inj.mp (List.append_inj_right' hfront rfl)
      rw [htotal] at hlen
      have hsize : (n + 4).toNat = (htonl n ++ rb.buf).length := by
        have hle : n.toNat ≤ 819200 := UInt32.le_iff_toNat_le.mp hle
        have hfour : (4 : UInt32).toNat = 4 := rfl
        rw [List.length_append, length_htonl, hlen, UInt32.toNat_add, hfour]
        omega
      have hbody : h.onReadComplete s rb = _ :=
        onReadComplete_body hflag (by rw [hlen, htotal])
      rw [hbody, htotal]
      refine ⟨⟨.header, ?_, by simp [Awaits.flag], by simp⟩, fun m hm => ?_⟩
      · have htake : (htonl n ++ rb.buf).take (n + 4).toNat = htonl n ++ rb.buf :=
          List.take_of_length_le (Nat.le_of_eq hsize.symm)
        simp only [pendingReads_write, pendingReads_read, pendingWrites_write,
          pendingWrites_read, htake]
        exact hnext rb.buf hlen
      · refine .write ?_ (Nat.le_of_eq hsize) hm (.read (by decide) hm .done)
        rw [hsize, List.length_append, length_htonl]
        omega

end TestServer

end CppFastDevelop
