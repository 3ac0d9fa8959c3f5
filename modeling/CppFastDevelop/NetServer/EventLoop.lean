import CppFastDevelop.NetServer.View

/-!
# CppFastDevelop.NetServer.EventLoop

`cf::EventLoop` (`cf_event_loop.hpp`).  `WaitEvent` collects the events of
one `epoll_wait` in `_vecEvent` and then calls a handler for each in turn;
the user acts from the callbacks in between.  A step of the loop is a call
of the handler, or one that calls nothing and collects a batch.
-/

namespace CppFastDevelop

/-! ## the loop -/

/-- An entry of `_vecEvent`.  `heldBy` only watches: the session that held
the descriptor when the batch was collected. -/
structure PendingEvent where
  fd : Fd
  ev : EV_TYPE
  heldBy : Option Session
  deriving DecidableEq, Repr

/-- An event whose handler was called, and the session that held its
descriptor then. -/
structure Delivery where
  event : PendingEvent
  servedTo : Option Session
  deriving DecidableEq, Repr

/-- `cf::EventLoop`; `deliveries` only watches. -/
structure EventLoop where
  system : System
  vecEvent : List PendingEvent
  deliveries : List Delivery

namespace EventLoop

open EventHandler

/-- What the kernel gives or takes during one handler. -/
structure Answers where
  accepted : List Fd := []
  received : List RecvResult := []
  taken : List SendResult := []

/-- `waitEvent` is a call of `_demux->WaitEvent`, with what `epoll_wait`
returned; `dispatch` is one turn of the loop over `_vecEvent`; `user` is a
call or a return from a callback. -/
inductive Action
  | waitEvent (returned : Option (List (Fd × cf_ev)))
  | dispatch (answers : Answers)
  | user (c : System.Call)

/-- The server after the constructor. -/
def init (listenfdMaxconn : List (Fd × UInt32)) : EventLoop :=
  ⟨.init listenfdMaxconn, [], []⟩

/-- The session that holds a descriptor. -/
def holder (m : System) (fd : Fd) : Option Session :=
  (m.handler.clientInfo.lookup fd).map ClientInfo.session

/-- The handler of an event. -/
def handlerOf (e : PendingEvent) (answers : Answers) : System.Call :=
  match e.ev with
  | .CFEV_ACCEPT => .onAccept e.fd answers.accepted
  | .CFEV_READ => .onRead e.fd answers.received
  | .CFEV_WRITE => .onWrite e.fd answers.taken
  | .CFEV_CLOSE => .onClose e.fd
  | .CFEV_ERROR => .onError e.fd

/-- `epoll_wait` has at most one entry for a descriptor, and none for one
that the kernel does not watch. -/
def Returns (m : System) (returned : Option (List (Fd × cf_ev))) : Prop :=
  ∀ ret ∈ returned, (ret.map Prod.fst).Nodup ∧ ∀ r ∈ ret, r.1 ∈ m.handler.demux.interest

/-- What a callback does. -/
def FromCallback : System.Call → Prop
  | .asyncRead _ _ | .asyncWrite _ _ _ | .asyncClose _ | .ret => True
  | _ => False

instance (m : System) (returned : Option (List (Fd × cf_ev))) :
    Decidable (Returns m returned) :=
  inferInstanceAs (Decidable (∀ ret ∈ returned,
    (ret.map Prod.fst).Nodup ∧ ∀ r ∈ ret, r.1 ∈ m.handler.demux.interest))

instance : DecidablePred FromCallback
  | .asyncRead _ _ | .asyncWrite _ _ _ | .asyncClose _ | .ret => inferInstanceAs (Decidable True)
  | .onAccept _ _ | .onRead _ _ | .onWrite _ _ | .onClose _ | .onError _ | .onTimeout =>
    inferInstanceAs (Decidable False)

/-- The events of a batch, with who holds their descriptors. -/
def batch (m : System) (events : List (Fd × EV_TYPE)) : List PendingEvent :=
  events.map fun p => ⟨p.1, p.2, holder m p.1⟩

/-- A new batch, or the timeout. -/
def collect (l : EventLoop) (returned : Option (List (Fd × cf_ev))) : Option EventLoop :=
  match l.system.handler.demux.waitEvent returned with
  | .error e => some { l with system := { l.system with failed := some e } }
  | .ok [] => (l.system.step .onTimeout).map fun m => { l with system := m }
  | .ok events => some { l with vecEvent := batch l.system events }

def step (l : EventLoop) : Action → Option EventLoop
  | .waitEvent returned =>
    if l.system.failed = none ∧ l.system.stack = [] ∧ l.vecEvent = [] ∧
      Returns l.system returned then l.collect returned
    else none
  | .dispatch answers => match l.vecEvent with
    | [] => none
    | e :: rest => (l.system.step (handlerOf e answers)).map fun m =>
        ⟨m, rest, l.deliveries ++ [⟨e, holder l.system e.fd⟩]⟩
  | .user c =>
    if l.system.stack ≠ [] ∧ FromCallback c then
      (l.system.step c).map fun m => { l with system := m }
    else none

/-! ## what a step does -/

/-- What a step does: the loop makes one call, or collects a batch, or
`epoll_wait` fails. -/
inductive Effect : EventLoop → Action → EventLoop → Prop
  | failed {l : EventLoop} :
    Effect l (.waitEvent none)
      { l with system := { l.system with failed := some Epoll.epollWaitFailed } }
  | collected {l : EventLoop} {ret : List (Fd × cf_ev)} (hfree : l.system.failed = none)
      (hidle : l.system.stack = []) (hreturns : Returns l.system (some ret)) :
    Effect l (.waitEvent (some ret))
      { l with vecEvent := batch l.system (ret.flatMap l.system.handler.demux.expand) }
  | timeout {l : EventLoop} {returned : Option (List (Fd × cf_ev))} {m : System}
      (hcall : l.system.step .onTimeout = some m) :
    Effect l (.waitEvent returned) { l with system := m }
  | dispatched {l : EventLoop} {answers : Answers} {e : PendingEvent} {rest : List PendingEvent}
      {m : System} (hvec : l.vecEvent = e :: rest)
      (hcall : l.system.step (handlerOf e answers) = some m) :
    Effect l (.dispatch answers) ⟨m, rest, l.deliveries ++ [⟨e, holder l.system e.fd⟩]⟩
  | user {l : EventLoop} {c : System.Call} {m : System} (hfrom : FromCallback c)
      (hcall : l.system.step c = some m) :
    Effect l (.user c) { l with system := m }

/-- A step of the loop does one of the things listed. -/
theorem step_effect {l l' : EventLoop} {a : Action} (hstep : l.step a = some l') :
    Effect l a l' := by
  cases a with
  | waitEvent returned =>
      simp only [step] at hstep
      split at hstep
      case isFalse => cases hstep
      case isTrue hen =>
        obtain ⟨hfree, hidle, hvec, hreturns⟩ := hen
        cases returned with
        | none => cases hstep; exact .failed
        | some ret =>
            simp only [collect, Epoll.waitEvent] at hstep
            split at hstep
            · next heq => cases heq
            · obtain ⟨m, hcall, rfl⟩ := Option.map_eq_some_iff.mp hstep
              exact .timeout hcall
            · next events hne heq =>
                cases heq
                cases hstep
                exact .collected hfree hidle hreturns
  | dispatch answers =>
      simp only [step] at hstep
      split at hstep
      · cases hstep
      · next e rest hvec =>
          obtain ⟨m, hcall, rfl⟩ := Option.map_eq_some_iff.mp hstep
          exact .dispatched hvec hcall
  | user c =>
      simp only [step] at hstep
      split at hstep
      case isFalse => cases hstep
      case isTrue hen =>
        obtain ⟨m, hcall, rfl⟩ := Option.map_eq_some_iff.mp hstep
        exact .user hen.2 hcall

/-! ## the calls of a run -/

/-- The handler is in a state of a run of calls. -/
def Reached (listenfdMaxconn : List (Fd × UInt32)) (m : System) : Prop :=
  ∃ cs, Machine.run System.step (System.init listenfdMaxconn) cs = some m

/-- A call from a reached state reaches the next. -/
theorem Reached.call {listenfdMaxconn : List (Fd × UInt32)} {m m' : System} {c : System.Call}
    (hm : Reached listenfdMaxconn m) (hcall : m.step c = some m') :
    Reached listenfdMaxconn m' := by
  obtain ⟨cs, hcs⟩ := hm
  exact ⟨cs ++ [c], Machine.run_concat_eq_some.mpr ⟨m, hcs, hcall⟩⟩

/-- **A run of the loop is a run of calls** until `epoll_wait` fails, so
what holds of every run of calls holds of every run of the loop. -/
theorem reached_of_run {listenfdMaxconn : List (Fd × UInt32)} {l : EventLoop}
    {acts : List Action} (hrun : Machine.run step (init listenfdMaxconn) acts = some l)
    (hok : l.system.failed ≠ some Epoll.epollWaitFailed) : Reached listenfdMaxconn l.system := by
  have hinv : l.system.failed ≠ some Epoll.epollWaitFailed →
      Reached listenfdMaxconn l.system := by
    refine Machine.run_invariant (fun l => l.system.failed ≠ some Epoll.epollWaitFailed →
      Reached listenfdMaxconn l.system) ?_ hrun (fun _ => ⟨[], rfl⟩)
    intro l a l' hstep hl hok'
    have hprev {c : System.Call} {m : System} (hcall : l.system.step c = some m) :
        Reached listenfdMaxconn l.system := by
      refine hl fun hfailed => ?_
      simp [System.step, hfailed] at hcall
    cases step_effect hstep with
    | failed => exact absurd rfl hok'
    | collected hfree => exact hl (by rw [hfree]; simp)
    | timeout hcall => exact (hprev hcall).call hcall
    | dispatched hvec hcall => exact (hprev hcall).call hcall
    | user hfrom hcall => exact (hprev hcall).call hcall
  exact hinv hok

end EventLoop

end CppFastDevelop
