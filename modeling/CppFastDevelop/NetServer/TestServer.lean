import CppFastDevelop.Lib.Words
import CppFastDevelop.NetServer.EventLoop

/-!
# CppFastDevelop.NetServer.TestServer

The server of `netserver/test/src/test_server.cpp`: an `EventHandler` whose
callbacks are those of `IOCompleteHandler`.  A client sends frames, each of
four bytes that hold the length of the body in network order, and the body;
the server sends every frame back.

`System` lets the user call what it likes from a callback.  Here a callback
asks for what `IOCompleteHandler` asks for, and `TestServer.todo` is what the
running callbacks have not yet asked for.
-/

namespace CppFastDevelop

open CppFastDevelop.System

/-! ## the callbacks -/

/-- `htonl(n)`, as it lies in memory. -/
def htonl (n : UInt32) : List UInt8 := Words.encodeBE 4 n.toNat

/-- `ntohl(*p)`. -/
def ntohl (bytes : List UInt8) : UInt32 := UInt32.ofNat (Words.decodeBE (bytes.take 4))

/-- `IOCompleteHandler`: whether the next read of a descriptor is a header.
A key that is not in `_recvHeader` reads as `false`. -/
structure IOCompleteHandler where
  recvHeader : FdMap Bool

/-- What a callback does: what it leaves in its object, what it asks for, in
order, and what it throws then. -/
structure Reaction where
  handler : IOCompleteHandler
  calls : List System.Call
  thrown : Option BaseException

namespace IOCompleteHandler

def headLen : UInt32 := 4

def maxBodySize : UInt32 := 819200

def sizeZero : BaseException := ⟨.valueError, "size==0 !", []⟩

/-- `_recvHeader[fd]`. -/
def expectsHeader (h : IOCompleteHandler) (fd : Fd) : Bool := (h.recvHeader.lookup fd).getD false

/-- `_recvHeader[fd] =b`. -/
def setRecvHeader (h : IOCompleteHandler) (fd : Fd) (b : Bool) : IOCompleteHandler :=
  ⟨AList.insert fd b h.recvHeader⟩

def onAcceptComplete (h : IOCompleteHandler) (session : Session) : Reaction where
  handler := h.setRecvHeader session.fd true
  calls := [.asyncRead session.fd headLen]
  thrown := none

/-- A header is followed by its body, a body by its frame and the next
header. -/
def onReadComplete (h : IOCompleteHandler) (session : Session) (rb : ReadBuffer) : Reaction :=
  let totalLen := rb.total
  if h.expectsHeader session.fd then
    if headLen ≠ totalLen then ⟨h, [], none⟩
    else
      let size := ntohl rb.buf
      if size ≤ maxBodySize then
        let h := h.setRecvHeader session.fd false
        if 0 < size then ⟨h, [.asyncRead session.fd size], none⟩ else ⟨h, [], some sizeZero⟩
      else ⟨h, [.asyncClose session.fd], none⟩
  else
    let bd := htonl totalLen ++ rb.buf.take totalLen.toNat
    ⟨h.setRecvHeader session.fd true,
      [.asyncWrite session.fd bd (totalLen + 4), .asyncRead session.fd headLen], none⟩

/-- The callback that a frame waits for.  Those not named do nothing. -/
def react (h : IOCompleteHandler) : Frame → Reaction
  | .accepting _ session _ => h.onAcceptComplete session
  | .reading session rb _ => h.onReadComplete session rb
  | .writing _ _ _ | .closing _ | .erroring _ | .timingOut => ⟨h, [], none⟩

end IOCompleteHandler

/-! ## the server -/

/-- The event handler, the user's part of it, and what the callbacks on the
stack have still to do: what each asks for, and its return. -/
structure TestServer where
  system : System
  handler : IOCompleteHandler
  todo : List System.Call

namespace TestServer

open EventHandler IOCompleteHandler EventLoop

/-- `call` is a call of the event loop, `next` what the running callback does
next. -/
inductive Action
  | call (c : System.Call)
  | next
  deriving DecidableEq, Repr

def init (listenfdMaxconn : List (Fd × UInt32)) : TestServer := ⟨.init listenfdMaxconn, ⟨∅⟩, []⟩

/-- The callback that a call has made, if it has. -/
def entered (m : System) (c : System.Call) (m' : System) : Option Frame :=
  let below := if c = .ret then m.stack.tail else m.stack
  if below.length < m'.stack.length then m'.stack.head? else none

/-- Nothing catches what a callback throws. -/
def perform (t : TestServer) (c : System.Call) (rest : List System.Call) : TestServer :=
  let m := t.system.perform c
  match entered t.system c m with
  | none => { t with system := m, todo := rest }
  | some f =>
    let r := t.handler.react f
    match r.thrown with
    | some e => ⟨{ m with stack := [], failed := some e }, r.handler, []⟩
    | none => ⟨m, r.handler, r.calls ++ .ret :: rest⟩

def step (t : TestServer) : Action → Option TestServer
  | .call c =>
    if t.system.failed = none ∧ t.todo = [] ∧ ¬ FromCallback c ∧ t.system.Enabled c then
      some (t.perform c [])
    else none
  | .next => match t.todo with
    | [] => none
    | c :: rest => if t.system.failed = none then some (t.perform c rest) else none

/-- A flag that was set. -/
@[simp] theorem expectsHeader_setRecvHeader (h : IOCompleteHandler) (fd k : Fd) (b : Bool) :
    (h.setRecvHeader fd b).expectsHeader k = if k = fd then b else h.expectsHeader k := by
  rw [expectsHeader, setRecvHeader, FdMap.lookup_insert_eq]
  split <;> rfl

/-! ## what a step does -/

/-- What a step does that throws nothing: it makes one call, and where that
calls back, the callback is what is done next. -/
inductive Turn (t : TestServer) (c : System.Call) (rest : List System.Call) : TestServer → Prop
  | quiet {m : System} (hcall : t.system.perform c = m) (hquiet : entered t.system c m = none) :
    Turn t c rest { t with system := m, todo := rest }
  | callback {m : System} {f : Frame} (hcall : t.system.perform c = m)
      (hf : entered t.system c m = some f) (hthrown : (t.handler.react f).thrown = none) :
    Turn t c rest
      ⟨m, (t.handler.react f).handler, (t.handler.react f).calls ++ .ret :: rest⟩

/-- A call that leaves no exception is a turn. -/
theorem perform_turn {t : TestServer} {c : System.Call} {rest : List System.Call}
    (hok : (t.perform c rest).system.failed = none) : Turn t c rest (t.perform c rest) := by
  unfold perform at hok ⊢
  dsimp only at hok ⊢
  split
  · next hnone => exact .quiet rfl hnone
  · next f hf =>
      rw [hf] at hok
      dsimp only at hok ⊢
      split at hok
      · cases hok
      · next hthrown => exact .callback rfl hf hthrown

/-- A turn does to the system what its call does. -/
theorem Turn.system_eq {t t' : TestServer} {c : System.Call} {rest : List System.Call}
    (h : Turn t c rest t') : t'.system = t.system.perform c := by
  cases h with
  | quiet hcall => exact hcall.symm
  | callback hcall => exact hcall.symm

/-- Every step makes one call: the loop's, between the handlers, or the first
of what there is to do. -/
theorem step_perform {t t' : TestServer} {a : Action} (hstep : t.step a = some t') :
    t.system.failed = none ∧ ∃ c rest, t' = t.perform c rest ∧
      (a = .call c ∧ t.todo = [] ∧ rest = [] ∧ ¬ FromCallback c ∧ t.system.Enabled c ∨
        a = .next ∧ t.todo = c :: rest) := by
  cases a with
  | call c =>
      simp only [step] at hstep
      split at hstep
      · next h =>
          obtain ⟨hfree, htodo, hc, hen⟩ := h
          cases hstep
          exact ⟨hfree, c, [], rfl, .inl ⟨rfl, htodo, rfl, hc, hen⟩⟩
      · cases hstep
  | next =>
      simp only [step] at hstep
      split at hstep
      · cases hstep
      · next c rest htodo =>
          split at hstep
          · next hfree =>
              cases hstep
              exact ⟨hfree, c, rest, rfl, .inr ⟨rfl, htodo⟩⟩
          · cases hstep

end TestServer

end CppFastDevelop
