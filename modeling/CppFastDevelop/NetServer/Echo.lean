import CppFastDevelop.NetServer.Attached
import CppFastDevelop.NetServer.Conversation
import CppFastDevelop.NetServer.Exchange

/-!
# CppFastDevelop.NetServer.Echo

The test server sends back what it receives.  `Told` says that there is to do
what the stack waits for and that every registered session is in a
conversation; a turn keeps it (`told_turn`), so it holds in every run.  The
buffers a session was handed are the front of what the kernel gave it, so what
the server sends is the whole frames of what it received, in order
(`echoes_frames`), however the bytes were cut up on the way.  Both are told by
the kernel's answers (`exchanged_of_run`).
-/

namespace CppFastDevelop

open CppFastDevelop.System

namespace TestServer

open EventHandler EventLoop IOCompleteHandler

/-! ## a turn -/

/-- The frames that a call leaves below the callback it makes. -/
def below (m : System) (c : System.Call) : List Frame := if c = .ret then m.stack.tail else m.stack

/-- A call makes at most one callback. -/
theorem effect_stack {m m' : System} {c : System.Call} (heff : Effect m c m') :
    m'.stack = below m c ∨ ∃ f, m'.stack = f :: below m c := by
  cases heff with
  | asyncRead => exact .inl rfl
  | asyncWrite => exact .inl rfl
  | close hc => obtain rfl | ⟨rfl, rfl⟩ := hc <;> exact .inr ⟨_, rfl⟩
  | onError => exact .inr ⟨_, rfl⟩
  | @onRead _ _ _ _ p =>
      cases hp : p.complete with
      | nil => exact .inl rfl
      | cons rb rest => exact .inr ⟨_, rfl⟩
  | @onWrite _ _ _ _ p =>
      cases hp : p.complete with
      | nil => exact .inl rfl
      | cons wb rest => exact .inr ⟨_, rfl⟩
  | onTimeout => exact .inr ⟨_, rfl⟩
  | onAcceptNothing => exact .inl rfl
  | onAccept _ haccept =>
      cases haccept with
      | finish => exact .inl rfl
      | accept => exact .inr ⟨_, rfl⟩
  | retAccepting _ haccept =>
      cases haccept with
      | finish => exact .inl rfl
      | accept => exact .inr ⟨_, rfl⟩
  | @retReading _ _ s _ rest =>
      cases rest with
      | nil => exact .inl rfl
      | cons rb rest => exact .inr ⟨_, rfl⟩
  | @retWriting _ _ s _ rest =>
      cases rest with
      | nil => exact .inl rfl
      | cons wb rest => exact .inr ⟨_, rfl⟩
  | retClosing => exact .inl rfl
  | retTimingOut => exact .inl rfl

/-- The stack after a call is the one below it with the callback entered, if there is one. -/
theorem stack_of_entered {m m' : System} {c : System.Call} (heff : Effect m c m') :
    (entered m c m' = none → m'.stack = below m c) ∧
      ∀ f, entered m c m' = some f → m'.stack = f :: below m c := by
  have hlt (f : Frame) (hstack : m'.stack = f :: below m c) :
      (below m c).length < m'.stack.length := by simp [hstack]
  simp only [entered, ← below.eq_def]
  rcases effect_stack heff with hstack | ⟨f, hstack⟩
  · exact ⟨fun _ => hstack, by simp [hstack]⟩
  · rw [if_pos (hlt f hstack), hstack]
    constructor
    · intro hnone
      cases hnone
    · intro g hg
      cases hg
      rfl

/-- A turn, by the stack it leaves. -/
theorem Turn.inv {m m' : System} {h h' : IOCompleteHandler} {todo todo' rest : List System.Call}
    {c : System.Call} (hturn : Turn ⟨m, h, todo⟩ c rest ⟨m', h', todo'⟩) (heff : Effect m c m') :
    m'.stack = below m c ∧ h' = h ∧ todo' = rest ∨
      ∃ f, m'.stack = f :: below m c ∧ (h.react f).thrown = none ∧
        h' = (h.react f).handler ∧ todo' = (h.react f).calls ++ .ret :: rest := by
  obtain ⟨hquiet, hcallback⟩ := stack_of_entered heff
  cases hturn with
  | quiet hcall hnone => exact .inl ⟨hquiet hnone, rfl, rfl⟩
  | @callback _ f hcall hf hthrown => exact .inr ⟨f, hcallback f hf, hthrown, rfl, rfl⟩

/-- Events that are not about what is said. -/
def Silent (es : List Event) : Prop :=
  readSizes es = [] ∧ buffersRead es = [] ∧ writeRequests es = []

/-- Filtering cannot bring back what `filterMap` drops. -/
theorem filterMap_filter_nil {α β : Type} {f : α → Option β} {p : α → Bool} {xs : List α}
    (h : xs.filterMap f = []) : (xs.filter p).filterMap f = [] := by
  rw [List.filterMap_eq_nil_iff] at h ⊢
  exact fun x hx => h x (List.mem_of_mem_filter hx)

/-- A part of a silent stretch of events is silent. -/
theorem Silent.filter {es : List Event} (h : Silent es) (p : Event → Bool) :
    Silent (es.filter p) :=
  ⟨filterMap_filter_nil h.1, filterMap_filter_nil h.2.1, filterMap_filter_nil h.2.2⟩

variable {m m' : System} {h h' : IOCompleteHandler} {todo todo' rest : List System.Call}
  {s : Session}

/-- The history of a session after more events. -/
theorem history_append {es : List Event} (htrace : m'.handler.trace = m.handler.trace ++ es) :
    (m'.view s).history = (m.view s).history ++ es.filter (·.session? = some s) := by
  show m'.handler.trace.filter _ = _
  rw [htrace, List.filter_append]
  rfl

/-- A turn in which nothing is said. -/
theorem Converses.quiet {es : List Event} (hconv : Converses ⟨m, h, todo⟩ s)
    (htrace : m'.handler.trace = m.handler.trace ++ es)
    (hes : Silent (es.filter (·.session? = some s)))
    (hflag : h'.expectsHeader s.fd = h.expectsHeader s.fd)
    (hreads : pendingReads s.fd todo' = pendingReads s.fd todo)
    (hwrites : pendingWrites s.fd todo' = pendingWrites s.fd todo)
    (hcloses : Closes ⟨m, h, todo⟩ s → Closes ⟨m', h', todo'⟩ s)
    (hno : .asyncClose s.fd ∈ todo' → .asyncClose s.fd ∈ todo) :
    Converses ⟨m', h', todo'⟩ s := by
  obtain ⟨a, htalk, ha, hclose, honly⟩ := hconv
  obtain ⟨hsizes, hbufs, hrequests⟩ := hes
  refine ⟨a, ?_, hflag.trans ha, fun hnothing => hcloses (hclose hnothing),
    fun hmem => honly (hno hmem)⟩
  simp only [handed, asked, answered] at htalk ⊢
  rwa [history_append htrace, readSizes_append, buffersRead_append, writeRequests_append, hsizes,
    hbufs, hrequests, List.append_nil, List.append_nil, List.append_nil, hreads, hwrites]

/-- Two sessions that are registered have two descriptors. -/
theorem session_eq_of_fd {m : EventHandler} {s t : Session} (hs : m.client s ≠ none)
    (ht : m.client t ≠ none) (hfd : s.fd = t.fd) : s = t := by
  obtain ⟨ci, hci⟩ := Option.ne_none_iff_exists'.mp hs
  obtain ⟨ci', hci'⟩ := Option.ne_none_iff_exists'.mp ht
  obtain ⟨hlookup, rfl⟩ := client_eq_some.mp hci
  obtain ⟨hlookup', rfl⟩ := client_eq_some.mp hci'
  rw [hfd, hlookup', Option.some.injEq] at hlookup
  rw [hlookup]

/-- Nobody becomes registered but by `OnAcceptComplete`. -/
theorem registered_of_effect {c : System.Call} {es : List Event} (hw : WellFormed m)
    (hr : System.Recorded m) (heff : Effect m c m')
    (htrace : m'.handler.trace = m.handler.trace ++ es) (hno : ∀ l, .onAcceptComplete l s ∉ es)
    (hs : m'.handler.client s ≠ none) :
    m.handler.client s ≠ none := by
  have hkept (v v' : View) (hstep : SessionStep s c v v') (hv : v'.client ≠ none) :
      v.client ≠ none ∨ v.history = [] ∧ ∃ l, v'.history = [.onAcceptComplete l s] := by
    cases hstep with
    | accept c listenfd rest => exact .inr ⟨rfl, listenfd, rfl⟩
    | same => exact .inl hv
    | retAccepting => exact .inl hv
    | retReading => exact .inl hv
    | retWriting => exact .inl hv
    | retClosing => exact absurd rfl hv
    | _ => exact .inl (by simp)
  rcases hkept _ _ (session_step heff hw hr s) hs with hold | ⟨hempty, l, hnew⟩
  · exact hold
  · rw [history_append htrace, hempty, List.nil_append] at hnew
    have hmem : Event.onAcceptComplete l s ∈ es.filter (·.session? = some s) := by
      rw [hnew]
      exact List.mem_singleton_self _
    exact absurd (List.mem_of_mem_filter hmem) (hno l)

/-- Only the return of a callback ends a registration. -/
theorem registered_mono {c : System.Call} {v v' : View} (hstep : SessionStep s c v v')
    (hc : c ≠ .ret) (hs : v.client ≠ none) : v'.client ≠ none := by
  cases hstep with
  | same => exact hs
  | retAccepting => exact absurd rfl hc
  | retReading => exact absurd rfl hc
  | retWriting => exact absurd rfl hc
  | retClosing => exact absurd rfl hc
  | _ => simp

/-- The client a session sees in the record carries that session. -/
theorem session_of_client {e : EventHandler} {ci : ClientInfo}
    (hci : e.clientInfo.lookup s.fd = some ci) (hs : e.client s ≠ none) : ci.session = s := by
  obtain ⟨ci', hci'⟩ := Option.ne_none_iff_exists'.mp hs
  obtain ⟨hlookup, hsession⟩ := client_eq_some.mp hci'
  rw [hci, Option.some.injEq] at hlookup
  rw [hlookup, hsession]

/-- A read is asked for. -/
theorem Converses.asyncRead {n : UInt32} {t : Session}
    (hconv : Converses ⟨m, h, .asyncRead t.fd n :: rest⟩ s)
    (htrace : m'.handler.trace = m.handler.trace ++ [.asyncRead t n])
    (hstack : m'.stack = m.stack) (hfd : s.fd = t.fd → s = t) : Converses ⟨m', h, rest⟩ s := by
  obtain ⟨a, htalk, ha, hclose, honly⟩ := hconv
  refine ⟨a, ?_, ha, fun hnothing => ?_, fun hmem => honly (List.mem_cons_of_mem _ hmem)⟩
  · simp only [handed, asked, answered, pendingWrites_read] at htalk ⊢
    rw [history_append htrace]
    by_cases hs : s = t
    · subst hs
      rw [pendingReads_read] at htalk
      simpa [Event.session?, readSizes, buffersRead, writeRequests] using htalk
    · rw [pendingReads_of_ne fun heq => hs (hfd heq.symm)] at htalk
      have hne : ¬ t = s := fun heq => hs heq.symm
      simpa [Event.session?, hne] using htalk
  · simpa [Closes, hstack] using hclose hnothing

/-- A write is asked for. -/
theorem Converses.asyncWrite {buf : List UInt8} {n : UInt32} {t : Session}
    (hconv : Converses ⟨m, h, .asyncWrite t.fd buf n :: rest⟩ s)
    (htrace : m'.handler.trace = m.handler.trace ++ [.asyncWrite t (buf.take n.toNat)])
    (hstack : m'.stack = m.stack) (hfd : s.fd = t.fd → s = t) : Converses ⟨m', h, rest⟩ s := by
  obtain ⟨a, htalk, ha, hclose, honly⟩ := hconv
  refine ⟨a, ?_, ha, fun hnothing => ?_, fun hmem => honly (List.mem_cons_of_mem _ hmem)⟩
  · simp only [handed, asked, answered, pendingReads_write] at htalk ⊢
    rw [history_append htrace]
    by_cases hs : s = t
    · subst hs
      rw [pendingWrites_write] at htalk
      simpa [Event.session?, readSizes, buffersRead, writeRequests] using htalk
    · rw [pendingWrites_of_ne fun heq => hs (hfd heq.symm)] at htalk
      have hne : ¬ t = s := fun heq => hs heq.symm
      simpa [Event.session?, hne] using htalk
  · simpa [Closes, hstack] using hclose hnothing

/-- A session is accepted, and asks for its first header. -/
theorem Converses.accepted {listenfd : Fd} (hnew : (m.view s).history = [])
    (htrace : m'.handler.trace = m.handler.trace ++ [.onAcceptComplete listenfd s]) :
    Converses ⟨m', h.setRecvHeader s.fd true, [.asyncRead s.fd headLen, .ret]⟩ s := by
  refine ⟨.header, ?_, by simp [Awaits.flag], by simp, by simp⟩
  simp only [handed, asked, answered, history_append htrace, hnew]
  simpa [Event.session?, readSizes, buffersRead, writeRequests, pendingReads, pendingWrites]
    using Talk.accepted

/-- A session is handed a buffer: it was the only one asked for. -/
theorem Converses.taken {es : List Event} {rb : ReadBuffer} {rbs rbChain : List ReadBuffer}
    (hconv : Converses ⟨m, h, todo⟩ s) (hspoken : Spoken ⟨m, h, todo⟩)
    (htrace : m'.handler.trace = m.handler.trace ++ (es ++ [.onReadComplete s rb]))
    (hes : Silent es) (hframes : readsOwed (m'.view s).frames = rbs)
    (haccount : ReadAccount (m'.view s) rbChain) :
    rbs = [] ∧ rbChain = [] ∧ rb.buf.length = rb.total.toNat ∧
      ∃ (a : Awaits) (bufs : List ReadBuffer) (front : List UInt32), a ≠ .nothing ∧
        h.expectsHeader s.fd = a.flag ∧ buffersRead (m'.view s).history = bufs ++ [rb] ∧
        readSizes (m'.view s).history = front ++ [rb.total] ∧
        Talk a (bufs.map Buffer.buf) (readSizes (m'.view s).history)
          (writeRequests (m'.view s).history) := by
  obtain ⟨a, htalk, ha, -, -⟩ := hconv
  obtain ⟨hsizes, hbufs, hrequests⟩ := hes.filter (·.session? = some s)
  have hhistory := history_append (s := s) htrace
  rw [List.filter_append] at hhistory
  have hread : buffersRead (m'.view s).history = buffersRead (m.view s).history ++ [rb] := by
    rw [hhistory, buffersRead_append, buffersRead_append, hbufs]
    simp [Event.session?, buffersRead]
  have hasked : readSizes (m'.view s).history = readSizes (m.view s).history := by
    rw [hhistory, readSizes_append, readSizes_append, hsizes]
    simp [Event.session?, readSizes]
  have hanswered : writeRequests (m'.view s).history = writeRequests (m.view s).history := by
    rw [hhistory, writeRequests_append, writeRequests_append, hrequests]
    simp [Event.session?, writeRequests]
  have hpr : pendingReads s.fd todo = [] := hspoken.reads s.fd
  have hpw : pendingWrites s.fd todo = [] := hspoken.writes s.fd
  simp only [handed, asked, answered, hpr, hpw, List.append_nil] at htalk
  -- the reads asked for are those handed over, this one, and what is left
  have hlabels := haccount.requests_eq
  rw [hasked, hread, hframes] at hlabels
  have hlen := htalk.length_sizes
  rw [hlabels, List.length_map, List.length_map] at hlen
  simp only [List.length_append, List.length_singleton] at hlen
  have howed : a.owed ≤ 1 := by cases a <;> decide
  have hrbs : rbs = [] := List.length_eq_zero_iff.mp (by omega)
  have hchain : rbChain = [] := List.length_eq_zero_iff.mp (by omega)
  have hne : a ≠ .nothing := by
    rintro rfl
    simp [Awaits.owed] at hlen
    omega
  have hfinished := haccount.finished rb (by rw [hread]; simp)
  refine ⟨hrbs, hchain, hfinished.good.length_buf, a, buffersRead (m.view s).history,
    (buffersRead (m.view s).history).map Buffer.total, hne, ha, hread, ?_, ?_⟩
  · rw [hasked, hlabels, hrbs, hchain]
    simp
  · rw [hasked, hanswered]
    exact htalk

/-- The callback answers a buffer that it was handed. -/
theorem Converses.delivered {es : List Event} {rb : ReadBuffer} {rbs rbChain : List ReadBuffer}
    (hconv : Converses ⟨m, h, todo⟩ s) (hspoken : Spoken ⟨m, h, todo⟩)
    (htrace : m'.handler.trace = m.handler.trace ++ (es ++ [.onReadComplete s rb]))
    (hes : Silent es) (hframes : readsOwed (m'.view s).frames = rbs)
    (haccount : ReadAccount (m'.view s) rbChain)
    (hok : (h.onReadComplete s rb).thrown = none) :
    rbs = [] ∧
      Converses ⟨m', (h.onReadComplete s rb).handler, (h.onReadComplete s rb).calls ++ [.ret]⟩ s ∧
      ∀ e : EventHandler, e.client s ≠ none →
        Asks e s ((h.onReadComplete s rb).calls ++ [.ret]) := by
  obtain ⟨hrbs, -, hlen, a, bufs, front, hne, ha, hread, hlast, htalk⟩ :=
    hconv.taken hspoken htrace hes hframes haccount
  have hanswer := onReadComplete_answer htalk ha hlast hne hlen hok
  refine ⟨hrbs, ?_, hanswer.asks⟩
  obtain ⟨b, htalk', hb, hclose⟩ := hanswer.talk
  refine ⟨b, ?_, hb, fun hnothing => .inl (List.mem_append_left _ (hclose.mp hnothing)),
    fun hmem => hclose.mpr (by simpa using hmem)⟩
  have hpr : pendingReads s.fd ((h.onReadComplete s rb).calls ++ [.ret]) =
      pendingReads s.fd (h.onReadComplete s rb).calls := by simp [pendingReads]
  have hpw : pendingWrites s.fd ((h.onReadComplete s rb).calls ++ [.ret]) =
      pendingWrites s.fd (h.onReadComplete s rb).calls := by simp [pendingWrites]
  simp only [handed, asked, answered, hread, hpr, hpw, List.map_append, List.map_cons,
    List.map_nil]
  exact htalk'

/-- The server is in order: there is to do what the stack waits for, and all
that is said in the registered sessions is a conversation. -/
structure Told (t : TestServer) : Prop where
  shape : Shape t.system.handler t.system.stack t.todo
  converses : ∀ s, t.system.handler.client s ≠ none → t.Converses s

/-- A turn in which nobody says anything. -/
theorem Told.quiet {c : System.Call} (es : List Event) (ht : Told ⟨m, h, todo⟩) (hw : WellFormed m)
    (hr : System.Recorded m) (heff : Effect m c m')
    (htrace : m'.handler.trace = m.handler.trace ++ es) (hes : Silent es)
    (hno : ∀ l s, .onAcceptComplete l s ∉ es)
    (hpending : ∀ fd, pendingReads fd todo' = pendingReads fd todo ∧
      pendingWrites fd todo' = pendingWrites fd todo)
    (hcloses : ∀ s, m'.handler.client s ≠ none → Closes ⟨m, h, todo⟩ s →
      Closes ⟨m', h, todo'⟩ s)
    (honly : ∀ fd, .asyncClose fd ∈ todo' → .asyncClose fd ∈ todo)
    (hshape : Shape m'.handler m'.stack todo') : Told ⟨m', h, todo'⟩ := by
  refine ⟨hshape, fun s hs => ?_⟩
  have hold := registered_of_effect hw hr heff htrace (fun l => hno l s) hs
  exact (ht.converses s hold).quiet htrace (hes.filter _) rfl (hpending s.fd).1
    (hpending s.fd).2 (hcloses s hs) (honly s.fd)

/-- `OnAccept` begins, or goes on. -/
theorem Told.accept {e e₁ e' : EventHandler} {stack frames : List Frame} {c : System.Call}
    {listenfd : Fd} {accepted : List Fd} (ht : Told ⟨⟨e, stack, none⟩, h, todo⟩)
    (hw : WellFormed ⟨e, stack, none⟩) (hr : System.Recorded ⟨e, stack, none⟩)
    (heff : Effect ⟨e, stack, none⟩ c ⟨e', frames, none⟩)
    (hturn : Turn ⟨⟨e, stack, none⟩, h, todo⟩ c [] ⟨⟨e', frames, none⟩, h', todo'⟩)
    (hbelow : below ⟨e, stack, none⟩ c = [])
    (hspoken : Spoken ⟨⟨e, stack, none⟩, h, todo⟩)
    (hstep : AcceptStep listenfd accepted e₁ e' frames) (htrace : e₁.trace = e.trace)
    (hnext : e₁.nextSession = e.nextSession) (hclient : e₁.clientInfo = e.clientInfo) :
    Told ⟨⟨e', frames, none⟩, h', todo'⟩ := by
  have hinv := hturn.inv heff
  rw [hbelow] at hinv
  cases hstep with
  | finish hli =>
      obtain ⟨-, rfl, rfl⟩ | ⟨f, hf, -⟩ := hinv
      · refine ht.quiet [] hw hr heff ?_ ⟨rfl, rfl, rfl⟩ (by simp) ?_ ?_ (by simp) .idle
        · rw [List.append_nil]
          exact htrace
        · exact fun fd => ⟨(hspoken.reads fd).symm, (hspoken.writes fd).symm⟩
        · exact fun s _ hc => absurd hc (hspoken.closes s)
      · cases hf
  | @accept fd more hfd hmore hfree =>
      rw [hclient] at hfree
      obtain ⟨hf, -⟩ | ⟨f, hf, -, rfl, rfl⟩ := hinv
      · cases hf
      · cases hf
        have hadded : (e₁.withNewConn listenfd fd).trace =
            e.trace ++ [.onAcceptComplete listenfd ⟨e₁.nextSession, fd⟩] := by
          rw [← htrace]
          rfl
        have hregistered : (e₁.withNewConn listenfd fd).client ⟨e₁.nextSession, fd⟩ ≠ none := by
          rw [EventHandler.client, withNewConn, FdMap.lookup_insertNew, if_pos rfl, hclient, hfree]
          simp
        refine ⟨.callback rfl rfl (fun rb rest hf => by cases hf)
          (.read (by decide) hregistered .done), fun s hs => ?_⟩
        by_cases heq : s = ⟨e₁.nextSession, fd⟩
        · subst heq
          exact .accepted (by rw [view_new hw hnext]) hadded
        · have hold := registered_of_effect hw hr heff hadded (by simp [heq]) hs
          have hne : s.fd ≠ fd := by
            intro hfd
            obtain ⟨ci, hci⟩ := Option.ne_none_iff_exists'.mp hold
            rw [client_eq_some, hfd, hfree] at hci
            cases hci.1
          have hes : Silent [.onAcceptComplete listenfd ⟨e₁.nextSession, fd⟩] := ⟨rfl, rfl, rfl⟩
          refine (ht.converses s hold).quiet hadded (hes.filter _)
            (expectsHeader_react_of_ne h rfl hne) ?_ ?_ (fun hc => absurd hc (hspoken.closes s))
            (by simp [react, onAcceptComplete])
          · rw [hspoken.reads s.fd]
            show pendingReads s.fd (.asyncRead fd headLen :: [.ret]) = []
            rw [pendingReads_of_ne (Ne.symm hne)]
            rfl
          · rw [hspoken.writes s.fd]
            rfl

/-- A buffer is handed to a session. -/
theorem Told.deliver {c : System.Call} {es : List Event} {s : Session} {ci : ClientInfo}
    {rb : ReadBuffer} {rbs : List ReadBuffer} (ht : Told ⟨m, h, todo⟩) (hw : WellFormed m)
    (hr : System.Recorded m) (heff : Effect m c m')
    (hspoken : Spoken ⟨m, h, todo⟩)
    (htrace : m'.handler.trace = m.handler.trace ++ (es ++ [.onReadComplete s rb]))
    (hes : Silent es) (hno : ∀ l s, .onAcceptComplete l s ∉ es)
    (hstack : m'.stack = [.reading s rb rbs]) (hs : m'.handler.client s = some ci)
    (haccount : ReadAccount (m'.view s) ci.rbChain)
    (hok : (h.onReadComplete s rb).thrown = none) :
    Told ⟨m', (h.onReadComplete s rb).handler, (h.onReadComplete s rb).calls ++ [.ret]⟩ := by
  have hregistered : m'.handler.client s ≠ none := by rw [hs]; simp
  have hold (t : Session) (ht' : m'.handler.client t ≠ none) : m.handler.client t ≠ none :=
    registered_of_effect hw hr heff htrace (by simp [hno]) ht'
  have hframes : readsOwed (m'.view s).frames = rbs := by
    show readsOwed (m'.stack.filter _) = rbs
    rw [hstack]
    simp [Frame.session?, readsOwed]
  obtain ⟨rfl, hconv, hasks⟩ := (ht.converses s (hold s hregistered)).delivered
    hspoken htrace hes hframes haccount hok
  refine ⟨?_, fun t ht' => ?_⟩
  · show Shape m'.handler m'.stack _
    rw [hstack]
    refine .callback rfl rfl ?_ (hasks m'.handler hregistered)
    intro rb' rest hf
    cases hf
    rfl
  · by_cases heq : t = s
    · rw [heq]
      exact hconv
    · have hne : t.fd ≠ s.fd := fun hfd => heq (session_eq_of_fd ht' hregistered hfd)
      obtain ⟨hreads, hwrites, hnone⟩ := (hasks m'.handler hregistered).pending_of_ne hne
      have hflag := expectsHeader_react_of_ne h (f := .reading s rb []) rfl hne
      refine (ht.converses t (hold t ht')).quiet htrace ?_ hflag
        (hreads.trans (hspoken.reads t.fd).symm) (hwrites.trans (hspoken.writes t.fd).symm)
        (fun hc => absurd hc (hspoken.closes t)) (fun hmem => absurd hmem hnone)
      have hst : ¬ s = t := fun heq' => heq heq'.symm
      have hother : [Event.onReadComplete s rb].filter (·.session? = some t) = [] := by
        simp [Event.session?, hst]
      rw [List.filter_append, hother, List.append_nil]
      exact hes.filter _

/-- Writes are reported. -/
theorem Told.write {c : System.Call} (es : List Event) {s : Session} {bs : List WriteBuffer}
    (ht : Told ⟨m, h, todo⟩) (hw : WellFormed m) (hr : System.Recorded m) (heff : Effect m c m')
    (hinv : m'.stack = [] ∧ h' = h ∧ todo' = [] ∨ ∃ f, m'.stack = [f] ∧
      (h.react f).thrown = none ∧ h' = (h.react f).handler ∧ todo' = (h.react f).calls ++ [.ret])
    (hstack : m'.stack = writeFrames s bs)
    (htrace : m'.handler.trace = m.handler.trace ++ (es ++ writeEvents s bs)) (hes : Silent es)
    (hno : ∀ l s, .onAcceptComplete l s ∉ es) (hspoken : Spoken ⟨m, h, todo⟩) :
    Told ⟨m', h', todo'⟩ := by
  have hsilent : Silent (es ++ writeEvents s bs) := by
    obtain ⟨hsizes, hbufs, hrequests⟩ := hes
    have hbuffers : buffersRead (writeEvents s bs) = [] := by cases bs <;> rfl
    have hreads : readSizes (writeEvents s bs) = [] := by cases bs <;> rfl
    simp [Silent, hsizes, hbufs, hrequests, hbuffers, hreads]
  have hno' : ∀ l s', .onAcceptComplete l s' ∉ es ++ writeEvents s bs := by
    cases bs <;> simp [writeEvents, hno]
  cases bs with
  | nil =>
      obtain ⟨-, rfl, rfl⟩ | ⟨f, hf, -⟩ := hinv
      · refine ht.quiet _ hw hr heff htrace hsilent hno'
          (fun fd => ⟨(hspoken.reads fd).symm, (hspoken.writes fd).symm⟩)
          (fun s _ hc => absurd hc (hspoken.closes s)) (by simp) ?_
        rw [hstack]
        exact .idle
      · rw [hstack] at hf
        cases hf
  | cons wb bs =>
      obtain ⟨hf, -⟩ | ⟨f, hf, -, rfl, rfl⟩ := hinv
      · rw [hstack] at hf
        cases hf
      · rw [hstack] at hf
        cases hf
        refine ht.quiet _ hw hr heff htrace hsilent hno'
          (fun fd => ⟨(hspoken.reads fd).symm, (hspoken.writes fd).symm⟩)
          (fun s _ hc => absurd hc (hspoken.closes s)) (by simp [react]) ?_
        rw [hstack]
        exact .callback rfl rfl (fun rb rest hf => by cases hf) .done

/-- Between the handlers there is nothing to do. -/
theorem Shape.idle_of_nil {e : EventHandler} {stack : List Frame} (hshape : Shape e stack []) :
    stack = [] := by
  cases hshape with
  | idle => rfl
  | callback _ _ _ hasks => cases hasks

/-- A callback that has something to do is running. -/
theorem Shape.busy {e : EventHandler} {stack : List Frame} {c : System.Call}
    (hshape : Shape e stack (c :: rest)) : stack ≠ [] := by
  rintro rfl
  cases hshape

/-- The callback of a frame that is returning has nothing more to do. -/
theorem Shape.ret {e : EventHandler} {f : Frame} {stack : List Frame} (hf : f.closes? = none)
    (hshape : Shape e (f :: stack) (.ret :: rest)) :
    stack = [] ∧ rest = [] ∧ ∀ s rb rbs, f = .reading s rb rbs → rbs = [] := by
  cases hshape with
  | timingOut => exact ⟨rfl, rfl, fun s rb rbs hf => by cases hf⟩
  | callback hsession _ hlast hasks =>
      cases hasks
      refine ⟨rfl, rfl, fun s rb rbs heq => ?_⟩
      subst heq
      cases hsession
      exact hlast rb rbs rfl
  | refused => cases hf
  | closing _ hc => rw [hf] at hc; cases hc

/-- What there is to do is what a callback does. -/
theorem Shape.fromCallback {e : EventHandler} {stack : List Frame} {c : System.Call}
    (hshape : Shape e stack (c :: rest)) : FromCallback c := by
  cases hshape with
  | callback _ _ _ hasks => cases hasks <;> trivial
  | _ => trivial

/-- A callback that has asked for something of its session goes on. -/
theorem Shape.asked {e e' : EventHandler} {stack : List Frame} {c : System.Call} {fd : Fd}
    (hshape : Shape e stack (c :: rest))
    (hc : (∃ n, c = .asyncRead fd n) ∨ ∃ buf n, c = .asyncWrite fd buf n)
    (hkept : ∀ s, e.client s ≠ none → e'.client s ≠ none) :
    (∃ s : Session, s.fd = fd ∧ e.client s ≠ none) ∧ Shape e' stack rest := by
  cases hshape with
  | @callback f s _ hf hopen hlast hasks =>
      cases hasks with
      | read hn hs hrest =>
          have hfd : s.fd = fd := by simpa using hc
          exact ⟨⟨s, hfd, hs⟩, .callback hf hopen hlast (hrest.mono (hkept s))⟩
      | write hn hlen hs hrest =>
          have hfd : s.fd = fd := by simpa using hc
          exact ⟨⟨s, hfd, hs⟩, .callback hf hopen hlast (hrest.mono (hkept s))⟩
      | done => simp at hc
      | close => simp at hc
  | timingOut => simp at hc
  | refused => simp at hc
  | closing => simp at hc

/-- A callback closes its own session. -/
theorem Told.asyncClose {e e' : EventHandler} {stack : List Frame} {fd : Fd} {ci : ClientInfo}
    (ht : Told ⟨⟨e, stack, none⟩, h, .asyncClose fd :: rest⟩) (hw : WellFormed ⟨e, stack, none⟩)
    (hr : System.Recorded ⟨e, stack, none⟩) (hci : e.clientInfo.lookup fd = some ci)
    (heff : Effect ⟨e, stack, none⟩ (.asyncClose fd) ⟨e', .closing ci.session :: stack, none⟩)
    (htrace : e'.trace = e.trace ++ [.onCloseComplete ci.session])
    (hclient : e'.clientInfo = e.clientInfo) :
    Told ⟨⟨e', .closing ci.session :: stack, none⟩, h, .ret :: rest⟩ := by
  cases ht.shape with
  | @callback f s _ hf hopen hlast hasks =>
      cases hasks with
      | close hs =>
          obtain rfl : ci.session = s := session_of_client hci hs
          have hs' : e'.client ci.session ≠ none := by rwa [EventHandler.client, hclient]
          refine ht.quiet _ hw hr heff htrace ⟨rfl, rfl, rfl⟩ (by simp) (fun fd => ⟨rfl, rfl⟩)
            (fun t ht' hc => .inr ?_) (by simp) (.refused hs' hf hopen hlast)
          have hold := registered_of_effect hw hr heff htrace (by simp) ht'
          rcases hc with hc | hc
          · have hfd : t.fd = ci.session.fd := by simpa using hc
            rw [session_eq_of_fd hold hs hfd]
            exact List.mem_cons_self
          · exact List.mem_cons_of_mem _ hc

/-- Bytes are read, and the first of the buffers completed is handed over. -/
theorem Told.read {e e' : EventHandler} {fd : Fd} {kernel : List RecvResult} {ci ci' : ClientInfo}
    {es : List Event} {complete : List ReadBuffer} (ht : Told ⟨⟨e, [], none⟩, h, []⟩)
    (hw : WellFormed ⟨e, [], none⟩) (hr : System.Recorded ⟨e, [], none⟩)
    (heff : Effect ⟨e, [], none⟩ (.onRead fd kernel)
      ⟨e', readFrames ci.session complete, none⟩)
    (htrace : e'.trace = e.trace ++ es ++ readEvents ci.session complete) (hes : Silent es)
    (hno : ∀ l s, .onAcceptComplete l s ∉ es) (hci' : e'.client ci.session = some ci')
    (haccount : ReadAccount (System.view ⟨e', readFrames ci.session complete, none⟩ ci.session)
      ci'.rbChain)
    (hinv : readFrames ci.session complete = [] ∧ h' = h ∧ todo' = [] ∨
      ∃ f, readFrames ci.session complete = [f] ∧ (h.react f).thrown = none ∧
        h' = (h.react f).handler ∧ todo' = (h.react f).calls ++ [.ret]) :
    Told ⟨⟨e', readFrames ci.session complete, none⟩, h', todo'⟩ := by
  cases complete with
  | nil =>
      obtain ⟨-, rfl, rfl⟩ | ⟨f, hf, -⟩ := hinv
      · refine ht.quiet es hw hr heff ?_ hes hno (fun fd => ⟨rfl, rfl⟩) (by simp [Closes])
          (by simp) .idle
        rw [htrace, readEvents, List.append_nil]
      · cases hf
  | cons rb more =>
      obtain ⟨hf, -⟩ | ⟨f, hf, hthrown, rfl, rfl⟩ := hinv
      · cases hf
      · cases hf
        exact ht.deliver hw hr heff spoken_idle (by simp [htrace, readEvents]) hes hno rfl hci'
          haccount hthrown

/-- A closing is over, and its session with it. -/
theorem Told.closed {e e' : EventHandler} {f : Frame} {stack : List Frame} {t : Session}
    (ht : Told ⟨⟨e, f :: stack, none⟩, h, .ret :: rest⟩) (hw : WellFormed ⟨e, f :: stack, none⟩)
    (hr : System.Recorded ⟨e, f :: stack, none⟩) (hf : f = .closing t ∨ f = .erroring t)
    (heff : Effect ⟨e, f :: stack, none⟩ .ret ⟨e', stack, none⟩) (htrace : e'.trace = e.trace)
    (hgone : e'.client t = none) : Told ⟨⟨e', stack, none⟩, h, rest⟩ := by
  refine ht.quiet [] hw hr heff (by simp [htrace]) ⟨rfl, rfl, rfl⟩ (by simp)
    (fun fd => ⟨rfl, rfl⟩) (fun s hs hc => ?_) (by simp +contextual) ?_
  · rcases hc with hc | hc
    · exact .inl (by simpa using hc)
    · rcases List.mem_cons.mp hc with rfl | hc
      · obtain heq | heq := hf
        · cases heq
          exact absurd hgone hs
        · cases heq
      · exact .inr hc
  · cases ht.shape with
    | timingOut => rcases hf with hf | hf <;> cases hf
    | callback _ hopen => rcases hf with rfl | rfl <;> cases hopen
    | refused _ hf' hopen hlast => exact .callback hf' hopen hlast .done
    | closing => exact .idle

/-- One turn of the test server keeps every conversation in step with its chain. -/
theorem told_turn {c : System.Call} (ht : Told ⟨m, h, todo⟩) (hw : WellFormed m)
    (hr : System.Recorded m) (heff : Effect m c m')
    (hturn : Turn ⟨m, h, todo⟩ c rest ⟨m', h', todo'⟩)
    (hnext : todo = [] ∧ rest = [] ∧ ¬ FromCallback c ∨ todo = c :: rest)
    (haccount : ∀ s ci, m'.handler.client s = some ci → ReadAccount (m'.view s) ci.rbChain) :
    Told ⟨m', h', todo'⟩ := by
  have hinv := hturn.inv heff
  have hshape := ht.shape
  have hloop : ¬ FromCallback c → todo = [] ∧ rest = [] := by
    intro hc
    rcases hnext with ⟨htodo, hrest, -⟩ | htodo
    · exact ⟨htodo, hrest⟩
    · rw [htodo] at hshape
      exact absurd hshape.fromCallback hc
  have huser : FromCallback c → todo = c :: rest := by
    intro hc
    rcases hnext with ⟨-, -, hnot⟩ | htodo
    · exact absurd hc hnot
    · exact htodo
  cases heff with
  | @asyncRead e stack fd n ci rb hci hrb =>
      obtain rfl := huser trivial
      obtain ⟨-, rfl, rfl⟩ | ⟨f, hf, -⟩ := hinv
      · have heff : Effect ⟨e, stack, none⟩ (.asyncRead fd n) _ := .asyncRead hci hrb
        obtain ⟨⟨s, rfl, hs⟩, hshape'⟩ := hshape.asked (.inl ⟨n, rfl⟩) fun s =>
          registered_mono (session_step heff hw hr s) (by simp)
        obtain rfl : ci.session = s := session_of_client hci hs
        refine ⟨hshape', fun t ht' => ?_⟩
        have hold := registered_of_effect hw hr heff rfl (by simp) ht'
        exact (ht.converses t hold).asyncRead rfl rfl (session_eq_of_fd hold hs)
      · exact absurd hf (List.ne_cons_self)
  | @asyncWrite e stack fd buf n ci wb hci hlen hwb =>
      obtain rfl := huser trivial
      obtain ⟨-, rfl, rfl⟩ | ⟨f, hf, -⟩ := hinv
      · have heff : Effect ⟨e, stack, none⟩ (.asyncWrite fd buf n) _ :=
          .asyncWrite hci hlen hwb
        obtain ⟨⟨s, rfl, hs⟩, hshape'⟩ := hshape.asked (.inr ⟨buf, n, rfl⟩) fun s =>
          registered_mono (session_step heff hw hr s) (by simp)
        obtain rfl : ci.session = s := session_of_client hci hs
        refine ⟨hshape', fun t ht' => ?_⟩
        have hold := registered_of_effect hw hr heff rfl (by simp) ht'
        exact (ht.converses t hold).asyncWrite rfl rfl (session_eq_of_fd hold hs)
      · exact absurd hf (List.ne_cons_self)
  | @close e stack _ fd ci hc hci =>
      have heff := Effect.close hc hci
      have hregistered : e.client ci.session ≠ none := by
        rw [show e.client ci.session = some ci from (view_client hw hci).1]
        simp
      have hne : c ≠ .ret := by rcases hc with rfl | ⟨rfl, -⟩ <;> simp
      simp only [below, if_neg hne] at hinv
      obtain ⟨hf, -⟩ | ⟨f, hf, -, rfl, rfl⟩ := hinv
      · exact absurd hf (List.cons_ne_self _ _)
      · cases hf
        obtain rfl | ⟨rfl, rfl⟩ := hc
        · obtain rfl := huser trivial
          exact ht.asyncClose hw hr hci heff rfl rfl
        · obtain ⟨rfl, rfl⟩ := hloop id
          exact ht.quiet _ hw hr heff rfl ⟨rfl, rfl, rfl⟩ (by simp)
            (fun fd => ⟨rfl, rfl⟩) (by simp [Closes]) (by simp [react]) (.closing hregistered rfl)
  | @onError e fd ci hci =>
      obtain ⟨rfl, rfl⟩ := hloop id
      obtain ⟨hf, -⟩ | ⟨f, hf, -, rfl, rfl⟩ := hinv
      · cases hf
      · cases hf
        have hregistered : e.client ci.session ≠ none := by
          rw [show e.client ci.session = some ci from (view_client hw hci).1]
          simp
        exact ht.quiet _ hw hr (.onError hci) rfl ⟨rfl, rfl, rfl⟩ (by simp)
          (fun fd => ⟨rfl, rfl⟩) (by simp [Closes]) (by simp [react]) (.closing hregistered rfl)
  | @onRead e fd kernel ci p hci hp hok =>
      obtain ⟨rfl, rfl⟩ := hloop id
      have heff := Effect.onRead hci hp hok
      have hsilent : Silent (.received ci.session p.moved ::
          if p.ended then [.endOfStream ci.session] else []) := by
        split <;> exact ⟨rfl, rfl, rfl⟩
      have hno : ∀ l s, .onAcceptComplete l s ∉ Event.received ci.session p.moved ::
          (if p.ended then [.endOfStream ci.session] else []) := by
        split <;> simp
      obtain ⟨hfd, -⟩ := hw.client fd ci hci
      have hlookup := FdMap.lookup_insert_eq e.clientInfo fd ci.session.fd
        { ci with rbChain := p.chain.drop p.complete.length }
      rw [if_pos hfd] at hlookup
      exact ht.read hw hr heff (by simp) hsilent hno (client_eq_some.mpr ⟨hlookup, rfl⟩)
        (haccount _ _ (client_eq_some.mpr ⟨hlookup, rfl⟩)) hinv
  | @onWrite e fd kernel ci p hci hp hok =>
      obtain ⟨rfl, rfl⟩ := hloop id
      have heff := Effect.onWrite hci hp hok
      rw [List.append_assoc] at heff ⊢
      exact ht.write _ hw hr heff hinv rfl rfl ⟨rfl, rfl, rfl⟩ (by simp) spoken_idle
  | @onTimeout e =>
      obtain ⟨rfl, rfl⟩ := hloop id
      obtain ⟨hf, -⟩ | ⟨f, hf, -, rfl, rfl⟩ := hinv
      · cases hf
      · cases hf
        exact ht.quiet _ hw hr .onTimeout rfl ⟨rfl, rfl, rfl⟩ (by simp)
          (fun fd => ⟨rfl, rfl⟩) (by simp [Closes]) (by simp [react]) .timingOut
  | @onAcceptNothing e listenfd =>
      obtain ⟨rfl, rfl⟩ := hloop id
      obtain ⟨-, rfl, rfl⟩ | ⟨f, hf, -⟩ := hinv
      · exact ht
      · cases hf
  | @onAccept e e' listenfd accepted frames hnew haccept =>
      obtain ⟨rfl, rfl⟩ := hloop id
      exact ht.accept hw hr (.onAccept hnew haccept) hturn rfl spoken_idle haccept rfl rfl rfl
  | @retAccepting e e' stack listenfd t more frames li hli haccept =>
      obtain rfl := huser trivial
      obtain ⟨rfl, rfl, -⟩ := hshape.ret rfl
      have heff : Effect ⟨e, [.accepting listenfd t more], none⟩ .ret _ :=
        .retAccepting hli haccept
      rw [List.append_nil] at hturn heff ⊢
      exact ht.accept hw hr heff hturn rfl (spoken_ret rfl) haccept rfl rfl rfl
  | @retReading e stack t rb more =>
      obtain rfl := huser trivial
      obtain ⟨rfl, rfl, hlast⟩ := hshape.ret rfl
      obtain rfl := hlast t rb more rfl
      obtain ⟨-, rfl, rfl⟩ | ⟨f, hf, -⟩ := hinv
      · exact ht.quiet _ hw hr .retReading rfl ⟨rfl, rfl, rfl⟩ (by simp [readEvents])
          (fun fd => ⟨rfl, rfl⟩) (by simp [Closes]) (by simp) .idle
      · cases hf
  | @retWriting e stack t wb more =>
      obtain rfl := huser trivial
      obtain ⟨rfl, rfl, -⟩ := hshape.ret rfl
      have heff : Effect ⟨e, [.writing t wb more], none⟩ .ret _ := .retWriting
      rw [List.append_nil] at hinv heff ⊢
      exact ht.write [] hw hr heff hinv rfl rfl ⟨rfl, rfl, rfl⟩ (by simp) (spoken_ret rfl)
  | @retClosing e stack t f ci li hf hci hli =>
      obtain rfl := huser trivial
      have heff : Effect ⟨e, f :: stack, none⟩ .ret _ := .retClosing hf hci hli
      obtain ⟨-, rfl, rfl⟩ | ⟨g, hg, -⟩ := hinv
      · refine ht.closed hw hr hf heff rfl ?_
        rw [EventHandler.client, FdMap.lookup_erase_eq, if_pos rfl]
        rfl
      · exact absurd hg List.ne_cons_self
  | @retTimingOut e stack =>
      obtain rfl := huser trivial
      obtain ⟨rfl, rfl, -⟩ := hshape.ret rfl
      obtain ⟨-, rfl, rfl⟩ | ⟨f, hf, -⟩ := hinv
      · exact ht.quiet [] hw hr .retTimingOut (List.append_nil _).symm ⟨rfl, rfl, rfl⟩
          (by simp) (fun fd => ⟨rfl, rfl⟩) (by simp [Closes]) (by simp) .idle
      · cases hf

/-! ## runs -/

/-- What there is to do next may be done, and asks for at least one byte. -/
theorem Shape.enabled {c : System.Call} (hshape : Shape m.handler m.stack (c :: rest)) :
    m.Enabled c ∧ c.Sized := by
  have hmem {s : Session} (hs : m.handler.client s ≠ none) : s.fd ∈ m.handler.clientInfo := by
    obtain ⟨ci, hci⟩ := Option.ne_none_iff_exists'.mp hs
    exact FdMap.mem_of_lookup (client_eq_some.mp hci).1
  obtain ⟨e, stack, failed⟩ := m
  cases hshape with
  | callback hf hopen hlast hasks =>
      cases hasks with
      | done => exact ⟨by simp [Enabled], trivial⟩
      | read hn hs => exact ⟨hmem hs, hn⟩
      | write hn hlen hs => exact ⟨⟨hmem hs, hlen⟩, hn⟩
      | close hs => exact ⟨hmem hs, trivial⟩
  | timingOut => exact ⟨by simp [Enabled], trivial⟩
  | refused => exact ⟨by simp [Enabled], trivial⟩
  | closing => exact ⟨by simp [Enabled], trivial⟩

/-- The event handler is in a state of one of its own runs. -/
def Reached (listenfdMaxconn : List (Fd × UInt32)) (m : System) : Prop :=
  ∃ cs, (∀ c ∈ cs, c.Sized) ∧ Machine.run System.step (System.init listenfdMaxconn) cs = some m

/-- The kernel has taken of what was sent back no more than the frames that
were received, and no header was received that announces no body. -/
def Echoes (v : View) : Prop :=
  bytesSent v.history <+: (format.frames (bytesReceived v.history)).flatten ∧
    ¬ ZeroHeader (bytesReceived v.history)

variable {t t' : TestServer}

/-- A session was handed all it received but the part of the last buffer. -/
theorem received_eq {rbChain : List ReadBuffer}
    (haccount : ReadAccount (t.system.view s) rbChain)
    (howed : readsOwed (t.system.view s).frames = []) :
    bytesReceived (t.system.view s).history =
      (t.handed s).flatten ++ rbChain.head?.toList.flatMap Buffer.progress := by
  rw [ReadAccount, howed, List.append_nil] at haccount
  have hdone : (buffersRead (t.system.view s).history).flatMap Buffer.progress =
      (t.handed s).flatten := by
    rw [handed, List.flatMap_def, List.map_congr_left]
    exact fun rb hrb => Buffer.progress_of_finished (haccount.finished rb hrb)
  rw [haccount.moved_eq_head.1, hdone]

/-- With no read owed, the frames answered are the whole frames received. -/
theorem Converses.frames_eq {rbChain : List ReadBuffer} (hconv : t.Converses s)
    (haccount : ReadAccount (t.system.view s) rbChain)
    (howed : readsOwed (t.system.view s).frames = []) :
    format.frames (bytesReceived (t.system.view s).history) = t.answered s ∧
      ¬ ZeroHeader (bytesReceived (t.system.view s).history) := by
  obtain ⟨a, htalk, -⟩ := hconv
  rw [received_eq haccount howed]
  rw [ReadAccount, howed, List.append_nil] at haccount
  refine htalk.frames_eq fun n hn => ?_
  have hlen := htalk.length_sizes
  have hle : a.owed ≤ 1 := by cases a <;> decide
  have hasked : t.asked s = (buffersRead (t.system.view s).history ++ rbChain).map Buffer.total ++
      pendingReads s.fd t.todo := by rw [asked, haccount.requests_eq]
  have hcount : rbChain.length + (pendingReads s.fd t.todo).length = a.owed := by
    have hhanded : (t.handed s).length = (buffersRead (t.system.view s).history).length :=
      List.length_map _
    rw [hasked, hhanded] at hlen
    simp only [List.length_append, List.length_map] at hlen
    omega
  cases hchain : rbChain with
  | nil =>
      have hpos := htalk.sizes_pos n (List.mem_of_getLast? hn)
      simpa using hpos
  | cons rb more =>
      subst hchain
      rw [List.length_cons] at hcount
      obtain rfl : more = [] := List.length_eq_zero_iff.mp (by omega)
      have hnone : pendingReads s.fd t.todo = [] := List.length_eq_zero_iff.mp (by omega)
      have hlast : n = rb.total := by
        rw [hasked, hnone, List.append_nil, List.map_append] at hn
        exact (Option.mem_some.mp ((List.getLast?_concat ..) ▸ hn)).symm
      subst hlast
      simpa [Buffer.size] using haccount.underway.1.lt

/-- A handler that is running has no buffer to hand over but the one that was
handed over. -/
theorem Shape.readsOwed_eq {e : EventHandler} {stack : List Frame}
    (hshape : Shape e stack todo) (p : Frame → Bool) : readsOwed (stack.filter p) = [] := by
  rw [readsOwed, List.flatMap_eq_nil_iff]
  intro f hf
  have hmem := List.mem_of_mem_filter hf
  cases f with
  | reading s rb rbs =>
      cases hshape with
      | idle => cases hmem
      | timingOut => simp at hmem
      | callback hf' hopen hlast =>
          obtain heq := List.mem_singleton.mp hmem
          subst heq
          cases hf'
          exact hlast rb rbs rfl
      | refused _ hf' hopen hlast =>
          rcases List.mem_cons.mp hmem with heq | hmem
          · cases heq
          · obtain heq := List.mem_singleton.mp hmem
            subst heq
            cases hf'
            exact hlast rb rbs rfl
      | closing _ hc =>
          obtain heq := List.mem_singleton.mp hmem
          subst heq
          cases hc
  | _ => rfl

/-- A session that is not registered receives nothing and sends nothing. -/
theorem bytes_step {c : System.Call} {v v' : View} (hstep : SessionStep s c v v')
    (hnone : v'.client = none) : bytesSent v'.history = bytesSent v.history ∧
      bytesReceived v'.history = bytesReceived v.history := by
  cases hstep with
  | same => exact ⟨rfl, rfl⟩
  | retAccepting => exact ⟨rfl, rfl⟩
  | retReading =>
      have hsent (bs : List ReadBuffer) : bytesSent (readEvents s bs) = [] := by cases bs <;> rfl
      simp [hsent]
  | retWriting =>
      have hreceived (bs : List WriteBuffer) : bytesReceived (writeEvents s bs) = [] := by
        cases bs <;> rfl
      simp [hreceived]
  | retClosing => exact ⟨rfl, rfl⟩
  | _ => cases hnone

/-- What the server keeps. -/
structure Kept (listenfdMaxconn : List (Fd × UInt32)) (t : TestServer) : Prop where
  reached : Reached listenfdMaxconn t.system
  told : Told t
  echoes : ∀ s, Echoes (t.system.view s)

/-- The books of a registered session. -/
theorem Reached.accounts {listenfdMaxconn : List (Fd × UInt32)}
    (hreached : Reached listenfdMaxconn m) (hok : m.failed = none) {ci : ClientInfo}
    (hci : m.handler.client s = some ci) :
    ReadAccount (m.view s) ci.rbChain ∧ ∃ done, WriteAccount (m.view s) ci.wbChain done := by
  obtain ⟨cs, hsized, hrun⟩ := hreached
  obtain ⟨hlookup, rfl⟩ := client_eq_some.mp hci
  obtain ⟨done, -, hwrites⟩ :=
    writeAccount_of_run (fun buf n hn => hsized _ hn) hrun hok hlookup
  exact ⟨readAccount_of_run (fun n hn => hsized _ hn) hrun hok hlookup, done, hwrites⟩

/-- A registered session between two turns. -/
theorem Told.frames_eq (ht : Told t) {ci : ClientInfo}
    (hci : t.system.handler.client s = some ci)
    (hreads : ReadAccount (t.system.view s) ci.rbChain) :
    format.frames (bytesReceived (t.system.view s).history) = t.answered s ∧
      ¬ ZeroHeader (bytesReceived (t.system.view s).history) :=
  (ht.converses s (by rw [hci]; simp)).frames_eq hreads (ht.shape.readsOwed_eq _)

/-- Between the handlers, all the frames of a registered session have been
handed over to be sent. -/
theorem Told.answered_eq (ht : Told t) {ci : ClientInfo}
    (hci : t.system.handler.client s = some ci)
    (hreads : ReadAccount (t.system.view s) ci.rbChain) (htodo : t.todo = []) :
    writeRequests (t.system.view s).history =
      format.frames (bytesReceived (t.system.view s).history) := by
  rw [(ht.frames_eq hci hreads).1, answered, htodo]
  exact (List.append_nil _).symm

/-- The conversation and the two accounts together are the echo. -/
theorem Told.echoes (ht : Told t) {ci : ClientInfo} {done : List WriteBuffer}
    (hci : t.system.handler.client s = some ci)
    (hreads : ReadAccount (t.system.view s) ci.rbChain)
    (hwrites : WriteAccount (t.system.view s) ci.wbChain done) : Echoes (t.system.view s) := by
  have hsent := (hwrites.covered_eq (fun b hb => hb.length_buf)
    (fun b => List.take_prefix _ _)).1
  obtain ⟨hframes, hzero⟩ := ht.frames_eq hci hreads
  refine ⟨?_, hzero⟩
  rw [hframes, answered, List.flatten_append]
  exact hsent.trans (List.prefix_append _ _)

/-- At the beginning nobody has said anything. -/
theorem kept_init (listenfdMaxconn : List (Fd × UInt32)) :
    Kept listenfdMaxconn (init listenfdMaxconn) := by
  refine ⟨⟨[], by simp, rfl⟩, ⟨.idle, fun s hs => ?_⟩, fun s => ?_⟩
  · simp [init, System.init, EventHandler.init, EventHandler.client] at hs
  · rw [init, view_init]
    refine ⟨List.nil_prefix, ?_⟩
    have hnone : format.frameLen [] = none := frameLen_header (by decide)
    have hrest := (Framing.Format.frames_of_none hnone).2
    rw [ZeroHeader, bytesReceived, List.flatMap_nil, hrest]
    exact not_beginsZero_short (by decide)

/-- Every step makes a call that may be made, and the event handler goes on
with its run. -/
theorem Kept.call {listenfdMaxconn : List (Fd × UInt32)} {a : Action}
    (hk : Kept listenfdMaxconn t) (hstep : t.step a = some t') :
    t.system.failed = none ∧ ∃ c rest, t' = t.perform c rest ∧ c.Sized ∧ t.system.Enabled c ∧
      (a = .call c ∧ t.todo = [] ∧ rest = [] ∧ ¬ FromCallback c ∨
        a = .next ∧ t.todo = c :: rest) ∧
      Reached listenfdMaxconn (t.system.perform c) := by
  obtain ⟨hfree, c, rest, heq, hnext⟩ := step_perform hstep
  have hen : t.system.Enabled c ∧ c.Sized := by
    rcases hnext with ⟨-, -, -, hc, hen⟩ | ⟨-, htodo⟩
    · refine ⟨hen, ?_⟩
      cases c <;> first | trivial | exact absurd trivial hc
    · have hshape := hk.told.shape
      rw [htodo] at hshape
      exact hshape.enabled
  have hcall : t.system.step c = some (t.system.perform c) := if_pos ⟨hfree, hen.1⟩
  obtain ⟨cs, hsized, hcs⟩ := hk.reached
  refine ⟨hfree, c, rest, heq, hen.2, hen.1, ?_, cs ++ [c], fun d hd => ?_,
    Machine.run_concat_eq_some.mpr ⟨t.system, hcs, hcall⟩⟩
  · exact hnext.imp_left fun h => ⟨h.1, h.2.1, h.2.2.1, h.2.2.2.1⟩
  · rcases List.mem_append.mp hd with hd | hd
    · exact hsized d hd
    · rw [List.mem_singleton.mp hd]
      exact hen.2

/-- A step that throws nothing keeps the test server in order. -/
theorem kept_step {listenfdMaxconn : List (Fd × UInt32)} {a : Action}
    (hstep : t.step a = some t') (hk : Kept listenfdMaxconn t) (hok : t'.system.failed = none) :
    Kept listenfdMaxconn t' := by
  obtain ⟨hfree, c, rest, heq, -, hen, hnext, hreached⟩ := hk.call hstep
  have hturn : Turn t c rest t' := by
    subst heq
    exact perform_turn hok
  rw [← hturn.system_eq] at hreached
  have hcall : t.system.step c = some t'.system := by
    rw [System.step, if_pos ⟨hfree, hen⟩, hturn.system_eq]
  obtain ⟨-, heff⟩ := step_effect hcall hok
  obtain ⟨cs, hsized, hcs⟩ := hk.reached
  obtain ⟨hw, hr, -⟩ := tables_of_run hcs hfree
  have htold : Told t' := told_turn hk.told hw hr heff hturn
    (hnext.imp (fun h => ⟨h.2.1, h.2.2.1, h.2.2.2⟩) (fun h => h.2))
    (fun s ci hci => (hreached.accounts hok hci).1)
  refine ⟨hreached, htold, fun s => ?_⟩
  cases hs : t'.system.handler.client s with
  | none =>
      obtain ⟨hsent, hreceived⟩ := bytes_step (session_step heff hw hr s) hs
      rw [Echoes, hsent, hreceived]
      exact hk.echoes s
  | some ci =>
      obtain ⟨hreads, done, hwrites⟩ := hreached.accounts hok hs
      exact htold.echoes hs hreads hwrites

/-- **A run of the server is a run of its event handler**, and what is said in
it are conversations. -/
theorem kept_of_run {listenfdMaxconn : List (Fd × UInt32)} {acts : List Action}
    (hrun : Machine.run step (init listenfdMaxconn) acts = some t)
    (hok : t.system.failed = none) : Kept listenfdMaxconn t := by
  have hinv : t.system.failed = none → Kept listenfdMaxconn t := by
    refine Machine.run_invariant (fun t => t.system.failed = none → Kept listenfdMaxconn t) ?_
      hrun (fun _ => kept_init listenfdMaxconn)
    intro t a t' hstep hk hok'
    exact kept_step hstep (hk (step_perform hstep).1) hok'
  exact hinv hok

/-! ## what passes -/

/-- What passes in a step is what passes in the call it makes. -/
def exchangeOf (t : TestServer) : Action → List Exchange
  | .call c => t.system.exchangeOf c
  | .next => t.todo.head?.toList.flatMap t.system.exchangeOf

def noteExchange (log : List Exchange) (t : TestServer) (a : Action) (_ : TestServer) :
    List Exchange :=
  log ++ t.exchangeOf a

/-- A step of the test server exchanges what its call exchanges with the kernel. -/
theorem exchangeOf_eq {a : Action} {c : System.Call} {rest : List System.Call} {P : Prop}
    (h : a = .call c ∧ P ∨ a = .next ∧ t.todo = c :: rest) :
    t.exchangeOf a = t.system.exchangeOf c := by
  rcases h with ⟨rfl, -⟩ | ⟨rfl, htodo⟩
  · rfl
  · rw [exchangeOf, htodo]
    exact List.append_nil _

/-- A callback writes nothing into the trace. -/
theorem handler_perform (t : TestServer) (c : System.Call) (rest : List System.Call) :
    (t.perform c rest).system.handler = (t.system.perform c).handler := by
  unfold perform
  dsimp only
  split
  · rfl
  · split <;> rfl

/-- A call that throws nothing itself, whatever its callback throws. -/
theorem exchanged_perform {log : List Exchange} {c : System.Call} (rest : List System.Call)
    (heff : Effect t.system c (t.system.perform c)) (h : Exchanged t.system log) :
    Exchanged (t.perform c rest).system (log ++ t.system.exchangeOf c) := by
  have hnext := h.effect heff
  exact ⟨by rw [handler_perform]; exact hnext.trace_eq, hnext.answered⟩

/-- **The trace of a run of the server says what has passed in it.** -/
theorem exchanged_of_run {listenfdMaxconn : List (Fd × UInt32)} {acts : List Action}
    {log : List Exchange}
    (hrun : Machine.run (Machine.recorded step noteExchange) (init listenfdMaxconn, []) acts =
      some (t, log)) (hok : t.system.failed = none) : Exchanged t.system log := by
  have hinv : t.system.failed = none → Kept listenfdMaxconn t ∧ Exchanged t.system log := by
    refine Machine.run_invariant (fun r => r.1.system.failed = none →
      Kept listenfdMaxconn r.1 ∧ Exchanged r.1.system r.2) ?_ hrun
      (fun _ => ⟨kept_init listenfdMaxconn, .init listenfdMaxconn⟩)
    rintro ⟨t, log⟩ a ⟨t', log'⟩ hrec ht hok'
    obtain ⟨hstep, hnote⟩ := Machine.recorded_eq_some.mp hrec
    obtain ⟨hkept, hexchanged⟩ := ht (step_perform hstep).1
    refine ⟨kept_step hstep hkept hok', ?_⟩
    obtain ⟨hfree, c, rest, rfl, -, hen, hnext, -⟩ := hkept.call hstep
    have hcall : t.system.step c = some (t.system.perform c) := if_pos ⟨hfree, hen⟩
    have hcalled : (t.system.perform c).failed = none := by
      rw [← (perform_turn hok').system_eq]
      exact hok'
    rw [show log' = log ++ t.exchangeOf a from hnote, exchangeOf_eq hnext]
    exact exchanged_perform rest (step_effect hcall hcalled).2 hexchanged
  exact (hinv hok).2

/-- **The server echoes frames.**  In every session, open or closed, the bytes
that `send` has taken are a prefix of the whole frames among the bytes that
`recv` has given, in their order and none twice; on a connection that is open,
between the handlers, all these frames have been handed over to be sent, those
not wholly taken are still in the chain, and one more buffer is waited for. -/
theorem echoes_frames {listenfdMaxconn : List (Fd × UInt32)} {acts : List Action}
    {log : List Exchange}
    (hrun : Machine.run (Machine.recorded step noteExchange) (init listenfdMaxconn, []) acts =
      some (t, log)) (hok : t.system.failed = none) (s : Session) :
    (∀ x ∈ log, x.Answered) ∧
      let received := Exchange.received s log
      let sent := Exchange.sent s log
      let frames := format.frames received
      sent <+: frames.flatten ∧ frames.flatten <+: received ∧
        ∀ ci, t.system.handler.client s = some ci → t.todo = [] →
          Exchange.writesAsked s log = frames ∧
            ci.wbChain.map Buffer.buf = frames.drop (Chain.covered frames sent.length) ∧
            ci.rbChain.length = 1 := by
  have hlog := exchanged_of_run hrun hok
  refine ⟨hlog.answered, ?_⟩
  rw [← hlog.bytesReceived_eq, ← hlog.bytesSent_eq, ← hlog.writeRequests_eq]
  intro received sent frames
  have hk := kept_of_run (Machine.run_of_run_recorded hrun) hok
  refine ⟨(hk.echoes s).1, Framing.Format.flatten_frames_prefix format received, ?_⟩
  intro ci hci htodo
  obtain ⟨hreads, done, hwrites⟩ := hk.reached.accounts hok hci
  have hframes := hk.told.answered_eq hci hreads htodo
  refine ⟨hframes, ?_, ?_⟩
  · rw [show frames = _ from hframes.symm]
    exact (hwrites.covered_eq (fun b hb => hb.length_buf) (fun b => List.take_prefix _ _)).2.2
  · obtain ⟨a, htalk, -, hclose, -⟩ := hk.told.converses s (by rw [hci]; simp)
    have hshape := hk.told.shape
    rw [htodo] at hshape
    have hne : a ≠ .nothing := by
      intro ha
      rcases hclose ha with hc | hc
      · rw [htodo] at hc
        cases hc
      · rw [hshape.idle_of_nil] at hc
        cases hc
    have howed : readsOwed (t.system.view s).frames = [] := hshape.readsOwed_eq _
    have hlen := htalk.length_sizes
    rw [ReadAccount, howed, List.append_nil] at hreads
    rw [asked, htodo, hreads.requests_eq] at hlen
    simp only [pendingReads, List.filterMap_nil, List.append_nil, List.length_map,
      List.length_append, handed] at hlen
    cases a with
    | nothing => exact absurd rfl hne
    | header | body => simpa [Awaits.owed] using hlen

/-- A client sends a frame of two bytes; the header comes in two pieces, and
the kernel takes the reply but for its last byte. -/
def exchange : List Action :=
  [.call (.onAccept 3 [5]), .next, .next, .call (.onRead 5 [.data [0, 0, 0], .again]),
    .call (.onRead 5 [.data [2]]), .next, .next, .call (.onRead 5 [.data [7, 8]]), .next, .next,
    .next, .call (.onWrite 5 [.accepted 5])]

/-- A frame of one byte comes in and goes out again. -/
theorem run_exchange : ∃ t ci, Machine.run step (init [(3, 0)]) exchange = some t ∧
    t.system.failed = none ∧ t.todo = [] ∧ t.system.handler.client ⟨0, 5⟩ = some ci ∧
      bytesSent (t.system.view ⟨0, 5⟩).history = [0, 0, 0, 2, 7] := by
  have hsome : ((Machine.run step (init [(3, 0)]) exchange).filter fun t =>
      t.system.failed = none ∧ t.todo = [] ∧
        bytesSent (t.system.view ⟨0, 5⟩).history = [0, 0, 0, 2, 7]).isSome ∧
      ((Machine.run step (init [(3, 0)]) exchange).bind
        (·.system.handler.client ⟨0, 5⟩)).isSome := by decide +kernel
  obtain ⟨hrun, hclient⟩ := hsome
  obtain ⟨t, ht⟩ := Option.isSome_iff_exists.mp hrun
  obtain ⟨ci, hci⟩ := Option.isSome_iff_exists.mp hclient
  obtain ⟨ht, hok⟩ := Option.filter_eq_some_iff.mp ht
  obtain ⟨hok, htodo, hsent⟩ := of_decide_eq_true hok
  rw [ht] at hci
  exact ⟨t, ci, ht, hok, htodo, hci, hsent⟩

/-- The bytes of that exchange, by the answers of the kernel. -/
theorem echoes_frames_exchange : ∃ t log ci,
    Machine.run (Machine.recorded step noteExchange) (init [(3, 0)], []) exchange = some (t, log) ∧
      t.system.handler.client ⟨0, 5⟩ = some ci ∧
      Exchange.writesAsked ⟨0, 5⟩ log = format.frames (Exchange.received ⟨0, 5⟩ log) ∧
      Exchange.sent ⟨0, 5⟩ log = [0, 0, 0, 2, 7] ∧
      [0, 0, 0, 2, 7] <+: Exchange.received ⟨0, 5⟩ log := by
  obtain ⟨t, ci, hrun, hok, htodo, hci, hsent⟩ := run_exchange
  obtain ⟨log, hlog⟩ := Machine.exists_run_recorded noteExchange hrun []
  obtain ⟨-, hpre, hfront, hopen⟩ := echoes_frames hlog hok ⟨0, 5⟩
  rw [(exchanged_of_run hlog hok).bytesSent_eq] at hsent
  rw [hsent] at hpre
  exact ⟨t, log, ci, hlog, hci, (hopen ci hci htodo).1, hsent, hpre.trans hfront⟩

end TestServer

end CppFastDevelop
