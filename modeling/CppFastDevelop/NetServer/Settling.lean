import CppFastDevelop.NetServer.Callbacks
import CppFastDevelop.NetServer.Reading
import CppFastDevelop.NetServer.Writing

/-!
# CppFastDevelop.NetServer.Settling

What one `OnRead` or `OnWrite` leaves behind.  Its loop completes buffers
one by one, but takes them off the chain and reports them only after it, so
an exception from a later buffer leaves them in the chain, complete and
never reported.  Apart from that, a handler settles what it has completed
by the time it is over (`settles_iff`).
-/

namespace CppFastDevelop

/-! ## reading and writing -/

/-- The calls of `OnWriteComplete`, which is not told what was written. -/
def writeReports : List Event → List Unit :=
  List.filterMap fun
    | .onWriteComplete _ => some ()
    | _ => none

@[simp] theorem writeReports_append (xs ys : List Event) :
    writeReports (xs ++ ys) = writeReports xs ++ writeReports ys := List.filterMap_append

/-- Reading or writing: the buffers it works through, and its callbacks,
made or still owed by the running handler. -/
structure Side (γ : Type) where
  chain : ClientInfo → List Buffer
  isComplete : Buffer → Except BaseException Bool
  report : Buffer → γ
  reported : List Event → List γ
  owed : List Frame → List γ

def readSide : Side ReadBuffer where
  chain := ClientInfo.rbChain
  isComplete := ReadBuffer.isComplete
  report := id
  reported := buffersRead
  owed := readsOwed

def writeSide : Side Unit where
  chain := ClientInfo.wbChain
  isComplete := WriteBuffer.isComplete
  report _ := ()
  reported := writeReports
  owed frames := (writesOwed frames).map fun _ => ()

/-- The event loop does not make these calls. -/
def System.Call.OfUser : System.Call → Prop
  | .asyncRead _ _ | .asyncWrite _ _ _ | .asyncClose _ | .ret => True
  | _ => False

namespace Side

variable {γ : Type} (side : Side γ)

/-- No buffer of the chain is complete. -/
def Open (v : View) : Prop :=
  ∀ ci, v.client = some ci → ∀ b ∈ side.chain ci, side.isComplete b ≠ .ok true

/-- The callbacks made or owed. -/
def due (v : View) : List γ := side.reported v.history ++ side.owed v.frames

/-- No buffer is left in the chain that is complete, and of those that were
completed each has been reported once. -/
structure Settled (before after : View) (complete : List Buffer) : Prop where
  chain_open : side.Open after
  reported_eq : side.reported after.history =
    side.reported before.history ++ complete.map side.report

/-- What has nothing to do with this side. -/
structure Keeps (v v' : View) : Prop where
  chain_open : side.Open v → side.Open v'
  due_eq : side.due v' = side.due v

variable {side}

/-- Nothing changes over no call. -/
theorem Keeps.refl (v : View) : side.Keeps v v := ⟨id, rfl⟩

/-- What two runs keep, the one after the other keeps. -/
theorem Keeps.trans {v₁ v₂ v₃ : View} (h₁ : side.Keeps v₁ v₂) (h₂ : side.Keeps v₂ v₃) :
    side.Keeps v₁ v₃ :=
  ⟨h₂.chain_open ∘ h₁.chain_open, h₂.due_eq.trans h₁.due_eq⟩

/-- The chain is as it was. -/
theorem Keeps.of_chain {v v' : View}
    (hchain : v'.client.map side.chain = v.client.map side.chain)
    (hdue : side.due v' = side.due v) : side.Keeps v v' := by
  refine ⟨fun hopen ci hci => ?_, hdue⟩
  rw [hci, Option.map_some] at hchain
  obtain ⟨old, hold, heq⟩ := Option.map_eq_some_iff.mp hchain.symm
  rw [← heq]
  exact hopen old hold

end Side

namespace System

open EventHandler

/-! ## what leaves a side alone -/

/-- Only `OnRead` completes reads; every other call keeps what is due. -/
theorem keeps_readSide {s : Session} {c : Call} {v v' : View}
    (hc : ∀ kernel, c ≠ .onRead s.fd kernel) (hstep : SessionStep s c v v') :
    readSide.Keeps v v' := by
  cases hstep with
  | same => exact .refl v
  | accept =>
      refine ⟨fun _ ci hci => ?_, rfl⟩
      cases hci
      simp [readSide]
  | @asyncRead ci mask history frames n pool rb hs hrb =>
      refine ⟨fun hopen ci' hci' b hb => ?_, by simp [Side.due, readSide, buffersRead]⟩
      cases hci'
      rcases List.mem_append.mp hb with hold | hnew
      · exact hopen ci rfl b hold
      · rw [List.mem_singleton.mp hnew]
        exact ReadBuffer.isComplete_setTotal_clear hrb
  | asyncWrite => exact .of_chain rfl (by simp [Side.due, readSide, buffersRead])
  | close => exact .of_chain rfl (by simp [Side.due, readSide, buffersRead, readsOwed])
  | onError => exact .of_chain rfl (by simp [Side.due, readSide, buffersRead, readsOwed])
  | onRead => exact absurd rfl (hc _)
  | @onWrite ci mask history kernel p hs hp hok =>
      refine .of_chain rfl ?_
      cases p.complete <;>
        simp [Side.due, readSide, buffersRead, readsOwed, writeEvents, writeFrames]
  | retAccepting => exact .of_chain rfl (by simp [Side.due, readSide, readsOwed])
  | @retReading client mask history frames rb rest =>
      refine .of_chain rfl ?_
      have hreport := buffersRead_readEvents s rest
      simp only [Side.due, readSide, buffersRead_append, readsOwed_append]
      rw [List.append_assoc, ← List.append_assoc (buffersRead (readEvents s rest)), hreport]
      simp [readsOwed]
  | @retWriting client mask history frames wb rest =>
      refine .of_chain rfl ?_
      cases rest <;> simp [Side.due, readSide, buffersRead, readsOwed, writeEvents, writeFrames]
  | @retClosing ci mask history frames f hf =>
      refine ⟨fun _ ci hci => (by cases hci), ?_⟩
      cases f <;> simp_all [Frame.closes?, Side.due, readSide, readsOwed]

/-- Reporting the first of the completed buffers leaves the others owed. -/
theorem writeReports_writeEvents (s : Session) (bs : List WriteBuffer) :
    writeReports (writeEvents s bs) ++ (writesOwed (writeFrames s bs)).map (fun _ => ()) =
      bs.map fun _ => () := by
  cases bs <;> simp [writeEvents, writeFrames, writeReports, writesOwed]

/-- Only `OnWrite` completes writes; every other call keeps what is due. -/
theorem keeps_writeSide {s : Session} {c : Call} {v v' : View}
    (hc : ∀ kernel, c ≠ .onWrite s.fd kernel) (hstep : SessionStep s c v v') :
    writeSide.Keeps v v' := by
  cases hstep with
  | same => exact .refl v
  | accept =>
      refine ⟨fun _ ci hci => ?_, rfl⟩
      cases hci
      simp [writeSide]
  | asyncRead => exact .of_chain rfl (by simp [Side.due, writeSide, writeReports])
  | @asyncWrite ci mask history frames buf n pool wb hs hlen hwb =>
      refine ⟨fun hopen ci' hci' b hb => ?_, by simp [Side.due, writeSide, writeReports]⟩
      cases hci'
      rcases List.mem_append.mp hb with hold | hnew
      · exact hopen ci rfl b hold
      · rw [List.mem_singleton.mp hnew]
        exact WriteBuffer.isComplete_setBuffer_clear hwb
  | close => exact .of_chain rfl (by simp [Side.due, writeSide, writeReports, writesOwed])
  | onError => exact .of_chain rfl (by simp [Side.due, writeSide, writeReports, writesOwed])
  | @onRead ci mask history kernel p hs hp hok =>
      refine .of_chain rfl ?_
      cases p.complete <;> cases p.ended <;>
        simp [Side.due, writeSide, writeReports, writesOwed, readEvents, readFrames]
  | onWrite => exact absurd rfl (hc _)
  | retAccepting => exact .of_chain rfl (by simp [Side.due, writeSide, writesOwed])
  | @retReading client mask history frames rb rest =>
      refine .of_chain rfl ?_
      cases rest <;>
        simp [Side.due, writeSide, writeReports, writesOwed, readEvents, readFrames]
  | @retWriting client mask history frames wb rest =>
      refine .of_chain rfl ?_
      have hreport := writeReports_writeEvents s rest
      simp only [Side.due, writeSide, writeReports_append, writesOwed_append, List.map_append]
      rw [List.append_assoc, ← List.append_assoc (writeReports (writeEvents s rest)), hreport]
      simp [writesOwed]
  | @retClosing ci mask history frames f hf =>
      refine ⟨fun _ ci hci => (by cases hci), ?_⟩
      cases f <;> simp_all [Frame.closes?, Side.due, writeSide, writesOwed]

/-! ## the user's calls -/

open Exec

/-- The table of clients is not changed on the way to an exception. -/
abbrev KeepsClients {α : Type} (op : HandlerM α) : Prop := KeepsOnThrow (fun h => h.clientInfo) op

/-- Looking a client up changes no client. -/
theorem keeps_getClientInfo (fd : Fd) :
    Exec.Keeps (fun h => h.clientInfo) (getClientInfo fd false) := by
  intro h
  rw [getClientInfo_apply]
  cases h.clientInfo.lookup fd <;> rfl

/-- Looking a listener up changes no client. -/
theorem keeps_getListenInfo (listenfd : Fd) :
    Exec.Keeps (fun h => h.clientInfo) (getListenInfo listenfd) := by
  intro h
  rw [getListenInfo_apply]
  cases h.listenInfo.lookup listenfd <;> rfl

/-- The gate changes no client. -/
theorem keeps_checkMaxConnection (listenfd : Fd) (b : Bool) :
    Exec.Keeps (fun h => h.clientInfo) (checkMaxConnection listenfd b) := by
  intro h
  rw [checkMaxConnection_apply]
  cases h.listenInfo.lookup listenfd <;> rfl

/-- A read request that throws has changed no client. -/
theorem keepsClients_asyncRead (fd : Fd) (n : UInt32) : KeepsClients (asyncRead fd n) := by
  refine .bind (keeps_getClientInfo fd) fun ci => .bind (fun h => ?_) fun rb h e h' herror => ?_
  · simp only [getReadBuffer, bind_apply, get_apply, set_apply]
    cases ReadBuffer.setTotal (h.rbpool.getFromPool ReadBuffer.sizeDefault).1.clear n <;> rfl
  · cases herror

/-- A write request that throws has changed no client. -/
theorem keepsClients_asyncWrite (fd : Fd) (buf : List UInt8) (n : UInt32) :
    KeepsClients (asyncWrite fd buf n) := by
  refine .bind (keeps_getClientInfo fd) fun ci => .bind (fun h => ?_) fun wb h e h' herror => ?_
  · simp only [getWriteBuffer, bind_apply, get_apply, set_apply]
    cases WriteBuffer.setBuffer (h.wbpool.getFromPool WriteBuffer.sizeDefault).1.clear buf n <;> rfl
  · cases herror

/-- A close that throws has changed no client. -/
theorem keepsClients_onClose (fd : Fd) : KeepsClients (onClose fd) :=
  .bind (keeps_modify fun _ => rfl) fun _ => .bind (keeps_getClientInfo fd) fun _ _ _ _ herror =>
    by cases herror

/-- A loop over accepted connections that throws has changed no client. -/
theorem keepsClients_acceptLoop (listenfd : Fd) (accepted : List Fd) :
    KeepsClients (acceptLoop listenfd accepted) := by
  induction accepted with
  | nil => exact ((keeps_checkMaxConnection listenfd true).bind fun _ => keeps_pure none).onThrow
  | cons fd rest ih =>
      intro h e h' herror
      simp only [acceptLoop, bind_apply, get_apply] at herror
      split at herror
      · exact ih h e h' herror
      · cases herror

/-- When it throws, the function has registered nobody and touched no chain. -/
abbrev Registers {α : Type} (op : HandlerM α) : Prop :=
  ∀ h e h', op h = .error e h' → ∀ fd ci, h'.clientInfo.lookup fd = some ci →
    h.clientInfo.lookup fd = some ci

/-- An operation that changes no client registers none. -/
theorem KeepsClients.registers {α : Type} {op : HandlerM α} (hop : KeepsClients op) :
    Registers op := by
  intro h e h' herror fd ci hci
  rwa [← show h'.clientInfo = h.clientInfo from hop h e h' herror]

/-- Clearing a session takes a client out at most, also where it throws. -/
theorem registers_clear (s : Session) :
    Registers (do clearSessionAndBuffer s; pure none : HandlerM (Option Frame)) := by
  intro h e h' herror fd ci hci
  rcases bind_eq_error.mp herror with herror | ⟨_, _, _, hpure⟩
  case inr => cases hpure
  rcases clearSessionAndBuffer_error herror with ⟨-, rfl⟩ | ⟨-, -, -, rfl⟩
  · exact hci
  · rw [FdMap.lookup_erase_eq] at hci
    split at hci
    · cases hci
    · exact hci

/-- What follows a callback registers nobody where it throws. -/
theorem registers_resume (f : Frame) : Registers (resume f) := by
  cases f with
  | accepting listenfd s rest =>
      exact KeepsClients.registers (.bind ((keeps_getListenInfo listenfd).bind fun _ =>
        keeps_modify fun _ => rfl) fun _ => keepsClients_acceptLoop listenfd rest)
  | reading s rb rest =>
      exact KeepsClients.registers (.bind (keeps_modify fun _ => rfl) fun _ h e h' herror =>
        absurd herror (completeReads_ne_error s rest h e h'))
  | writing s wb rest =>
      exact KeepsClients.registers (.bind (keeps_modify fun _ => rfl) fun _ h e h' herror =>
        absurd herror (completeWrites_ne_error s rest h e h'))
  | closing s => exact registers_clear s
  | erroring s => exact registers_clear s
  | timingOut => exact fun h e h' herror => by cases herror

/-- A request that throws has changed no client. -/
theorem clientInfo_of_failed {m m' : System} {c : Call} (hc : c.OfUser) (hret : c ≠ .ret)
    (hstep : m.step c = some m') (hfail : m'.failed ≠ none) :
    m'.handler.clientInfo = m.handler.clientInfo := by
  have henter {op : HandlerM (Option Frame)} (hop : KeepsClients op)
      (hbad : (enter op m.handler m.stack).failed ≠ none) :
      (enter op m.handler m.stack).handler.clientInfo = m.handler.clientInfo := by
    obtain ⟨e, h', hrun, heq⟩ := enter_error hbad
    rw [heq]
    exact hop m.handler e h' hrun
  have hunit {op : HandlerM Unit} (hop : KeepsClients op) :
      KeepsClients (do op; pure none : HandlerM (Option Frame)) := by
    intro h e h' herror
    rcases bind_eq_error.mp herror with herror | ⟨_, _, _, hpure⟩
    · exact hop h e h' herror
    · cases hpure
  unfold step at hstep
  split at hstep
  case isFalse => cases hstep
  case isTrue =>
    rw [Option.some.injEq] at hstep
    subst hstep
    cases c with
    | asyncRead fd n => exact henter (hunit (keepsClients_asyncRead fd n)) hfail
    | asyncWrite fd buf n => exact henter (hunit (keepsClients_asyncWrite fd buf n)) hfail
    | asyncClose fd => exact henter (keepsClients_onClose fd) hfail
    | ret => exact absurd rfl hret
    | onAccept | onRead | onWrite | onClose | onError | onTimeout => cases hc

/-- A call that throws leaves no handler running. -/
theorem stack_of_failed {m m' : System} {c : Call} (hstep : m.step c = some m')
    (hfail : m'.failed ≠ none) : m'.stack = [] := by
  have henter {op : HandlerM (Option Frame)} {h : EventHandler} {stack : List Frame}
      (hbad : (enter op h stack).failed ≠ none) : (enter op h stack).stack = [] := by
    obtain ⟨e, h', -, heq⟩ := enter_error hbad
    rw [heq]
  unfold step at hstep
  split at hstep
  case isFalse => cases hstep
  case isTrue hen =>
    rw [Option.some.injEq] at hstep
    subst hstep
    cases c with
    | ret =>
        obtain ⟨h, stack, failed⟩ := m
        cases stack with
        | nil => exact absurd rfl hen.2
        | cons f rest => exact henter hfail
    | _ => exact henter hfail

/-- A call of the user that throws has registered nobody and touched no chain. -/
theorem step_failed {m m' : System} {c : Call} (hc : c.OfUser) (hstep : m.step c = some m')
    (hfail : m'.failed ≠ none) :
    m'.stack = [] ∧ ∀ fd ci, m'.handler.clientInfo.lookup fd = some ci →
      m.handler.clientInfo.lookup fd = some ci := by
  refine ⟨stack_of_failed hstep hfail, ?_⟩
  by_cases hret : c = .ret
  case neg =>
    rw [clientInfo_of_failed hc hret hstep hfail]
    exact fun _ _ hci => hci
  subst hret
  unfold step at hstep
  split at hstep
  case isFalse => cases hstep
  case isTrue hen =>
    rw [Option.some.injEq] at hstep
    subst hstep
    obtain ⟨h, stack, failed⟩ := m
    cases stack with
    | nil => exact absurd rfl hen.2
    | cons f rest =>
        obtain ⟨e, h', hrun, heq⟩ := enter_error hfail
        rw [show perform ⟨h, f :: rest, failed⟩ .ret = _ from heq]
        exact registers_resume f h e h' hrun

/-- A run that ends with an exception is over with the call that threw it. -/
theorem run_failed {m m' : System} {cs : List Call} (hrun : Machine.run step m cs = some m')
    (hok : m.failed = none) (hfail : m'.failed ≠ none) :
    ∃ u c, c ∈ cs ∧ Machine.run step m cs.dropLast = some u ∧ u.failed = none ∧
      u.step c = some m' := by
  have hne : cs ≠ [] := by
    rintro rfl
    cases hrun
    exact hfail hok
  rw [← List.dropLast_concat_getLast hne, Machine.run_concat_eq_some] at hrun
  obtain ⟨u, hbefore, hstep⟩ := hrun
  refine ⟨u, _, List.getLast_mem hne, hbefore, ?_, hstep⟩
  unfold step at hstep
  split at hstep
  · next hen => exact hen.1
  · cases hstep

/-- After a call that ended a run nothing can be called. -/
theorem run_of_failed {m m' : System} {cs : List Call} (hfail : m.failed ≠ none)
    (hrun : Machine.run step m cs = some m') : cs = [] ∧ m' = m := by
  cases cs with
  | nil => cases hrun; exact ⟨rfl, rfl⟩
  | cons c cs =>
      obtain ⟨t, hstep, -⟩ := Machine.run_cons_eq_some.mp hrun
      rw [step, if_neg fun h => hfail h.1] at hstep
      cases hstep

/-! ## until a handler is over -/

end System

namespace Side

open CppFastDevelop.System EventHandler

variable {γ : Type} {side : Side γ}

/-- What a side must be for its reports to be counted. -/
structure Lawful (side : Side γ) : Prop where
  reported_filter : ∀ p trace, side.reported (trace.filter p) =
    side.reported ((callbackEvents trace).filter p)
  owed_nil : side.owed [] = []
  keeps : ∀ s c v v', c.OfUser → SessionStep s c v v' → side.Keeps v v'

/-- If one of the calls throws, all that was completed had been reported
before. -/
def ThrowsLast (side : Side γ) (m : System) (cs : List System.Call) (m' : System) (s : Session) :
    Prop :=
  m'.failed ≠ none → ∀ u, Machine.run step m cs.dropLast = some u → side.owed (u.view s).frames = []

/-- The calls of the user report what is owed, and nothing else. -/
theorem keeps_of_run (hside : side.Lawful) {m m' : System} {cs : List System.Call}
    (hw : WellFormed m) (hr : System.Recorded m) (huser : ∀ c ∈ cs, c.OfUser)
    (hrun : Machine.run step m cs = some m') (hok : m'.failed = none) (s : Session) :
    side.Keeps (m.view s) (m'.view s) := by
  have hinv := run_invariant_of_effect (C := fun _ c => c.OfUser)
    (fun t => WellFormed t ∧ System.Recorded t ∧ side.Keeps (m.view s) (t.view s))
    (fun t c t' hc heff h => ⟨h.1.effect heff, h.2.1.effect heff h.1,
      h.2.2.trans (hside.keeps s c _ _ hc (session_step heff h.1 h.2.1 s))⟩)
    (Machine.along_of_forall_mem step huser m) hrun ⟨hw, hr, .refl _⟩ hok
  exact hinv.2.2

/-- Once no handler is running, what was completed has been reported,
unless a callback threw before. -/
theorem reported_iff_of_run (hside : side.Lawful) {m m' : System} {cs : List System.Call}
    (hw : WellFormed m) (hr : System.Recorded m) (hok : m.failed = none)
    (huser : ∀ c ∈ cs, c.OfUser)
    (hrun : Machine.run step m cs = some m') (hidle : m'.stack = []) {s : Session}
    (hopen : side.Open (m.view s)) :
    side.Open (m'.view s) ∧
      (side.reported (m'.view s).history = side.due (m.view s) ↔ side.ThrowsLast m cs m' s) := by
  by_cases hend : m'.failed = none
  · have hkeeps := keeps_of_run hside hw hr huser hrun hend s
    refine ⟨hkeeps.chain_open hopen, iff_of_true ?_ fun hfail => absurd hend hfail⟩
    rw [← hkeeps.due_eq, due, view, hidle, List.filter_nil, hside.owed_nil, List.append_nil]
  · obtain ⟨u, c, hc, hbefore, hu, hstep⟩ := run_failed hrun hok hend
    have hkeeps := keeps_of_run hside hw hr (fun c hc => huser c (List.dropLast_subset cs hc))
      hbefore hu s
    have hsub := (step_failed (huser c hc) hstep hend).2
    have hsame : side.reported (m'.view s).history = side.reported (u.view s).history := by
      have hpart (t : System) : side.reported (t.view s).history =
          side.reported ((callbackEvents t.handler.trace).filter (·.session? = some s)) :=
        hside.reported_filter _ _
      rw [hpart m', hpart u, callbacks_of_failed hstep hend]
    constructor
    · intro ci hci
      obtain ⟨hlookup, hs⟩ := client_eq_some.mp hci
      exact hkeeps.chain_open hopen ci (client_eq_some.mpr ⟨hsub _ ci hlookup, hs⟩)
    · rw [hsame, ← hkeeps.due_eq, due, List.self_eq_append_right]
      refine ⟨fun hnil _ u' hu' => ?_, fun hlast => hlast hend u hbefore⟩
      rw [hbefore] at hu'
      cases hu'
      exact hnil

/-- The buffers that a handler takes off its chain and reports. -/
def retired {κ : Type} (p : Chain.Pass BaseException Buffer κ UInt8) : List Buffer :=
  if p.failure.isSome then [] else p.complete

/-- A pass over the chain, up to its first callback or its exception. -/
structure Passed (side : Side γ) {κ : Type} (p : Chain.Pass BaseException Buffer κ UInt8)
    (s : Session) (v : View) (m : System) : Prop where
  failed : m.failed = p.failure
  client : ∃ ci, (m.view s).client = some ci ∧
    side.chain ci = p.chain.drop (retired p).length
  due : side.due (m.view s) = side.due v ++ (retired p).map side.report

/-- What the handler has completed it settles, exactly if its pass does not
fail behind the first buffer and no callback throws before the last. -/
theorem settled_iff (hside : side.Lawful) {κ : Type}
    {move : Buffer → κ → Chain.Attempt BaseException Buffer κ UInt8}
    (hmove : Chain.StaysOpen move side.isComplete) {bs : List Buffer} {k : κ}
    (hbs : ∀ b ∈ bs, side.isComplete b ≠ .ok true) {m m' : System} {s : Session} {v : View}
    (hv : side.owed v.frames = [])
    (hpassed : side.Passed (Chain.pass move side.isComplete bs k) s v m)
    (hm : m.failed = none → WellFormed m ∧ System.Recorded m) {cs : List System.Call}
    (huser : ∀ c ∈ cs, c.OfUser) (hrun : Machine.run step m cs = some m')
    (hidle : m'.stack = []) :
    side.Settled v (m'.view s)
        (Chain.completed side.isComplete (Chain.pass move side.isComplete bs k).chain) ↔
      ¬ Chain.FailsBehind move side.isComplete bs k ∧ side.ThrowsLast m cs m' s := by
  obtain ⟨rest, hchain, hcomplete, hrest⟩ := Chain.chain_pass_eq hmove hbs (k := k)
  obtain ⟨hfailed, ⟨ci, hci, hci'⟩, hdue⟩ := hpassed
  rw [Chain.completed_chain_pass hmove hbs, Chain.failsBehind_iff]
  have hdue' : side.due v = side.reported v.history := by rw [due, hv, List.append_nil]
  rw [hdue'] at hdue
  by_cases hfail : (Chain.pass move side.isComplete bs k).failure.isSome
  · rw [retired, if_pos hfail] at hci' hdue
    have hbad : m.failed ≠ none := by
      rw [hfailed]
      exact Option.isSome_iff_ne_none.mp hfail
    obtain ⟨rfl, rfl⟩ := run_of_failed hbad hrun
    have hframes : side.owed (m'.view s).frames = [] := by
      rw [view, hidle, List.filter_nil, hside.owed_nil]
    rw [due, hframes, List.append_nil, List.map_nil, List.append_nil] at hdue
    constructor
    · intro hsettled
      have hnil := hsettled.reported_eq
      rw [hdue, List.self_eq_append_right, List.map_eq_nil_iff] at hnil
      refine ⟨fun h => h.2 hnil, fun _ u hu => ?_⟩
      cases hu
      exact hframes
    · rintro ⟨hbehind, -⟩
      have hnil : (Chain.pass move side.isComplete bs k).complete = [] :=
        Decidable.of_not_not fun h => hbehind ⟨hfail, h⟩
      refine ⟨?_, by rw [hdue, hnil, List.map_nil, List.append_nil]⟩
      intro ci₁ hci₁
      rw [hci] at hci₁
      cases hci₁
      rw [hci', hchain, hnil, List.nil_append, List.length_nil, List.drop_zero]
      exact hrest
  · rw [retired, if_neg hfail] at hci' hdue
    have hok : m.failed = none := by
      rw [hfailed]
      exact Option.not_isSome_iff_eq_none.mp hfail
    obtain ⟨hw, hr⟩ := hm hok
    have hopen : side.Open (m.view s) := by
      intro ci₁ hci₁
      rw [hci] at hci₁
      cases hci₁
      rw [hci', hchain, List.drop_left]
      exact hrest
    obtain ⟨hopen', hreported⟩ := reported_iff_of_run hside hw hr hok huser hrun hidle hopen
    rw [hdue] at hreported
    rw [← hreported]
    exact ⟨fun h => ⟨fun hbehind => hfail hbehind.1, h.reported_eq⟩,
      fun h => ⟨hopen', h.2⟩⟩

end Side

/-! ## the two handlers -/

/-- What is read off the callbacks of a history is read off any part of it. -/
theorem filterMap_callbackEvents {γ : Type} {g : Event → Option γ}
    (hg : ∀ e, e.callback? = none → g e = none) (p : Event → Bool) (trace : List Event) :
    (trace.filter p).filterMap g = ((callbackEvents trace).filter p).filterMap g := by
  rw [callbackEvents, List.filterMap_filter, List.filterMap_filter, List.filterMap_filter]
  congr 1
  funext e
  cases he : e.callback? with
  | none => simp [hg e he]
  | some c => simp

/-- The reads are a lawful side. -/
theorem lawful_readSide : readSide.Lawful where
  reported_filter := filterMap_callbackEvents fun e he => by cases e <;> simp_all [Event.callback?]
  owed_nil := rfl
  keeps s c v v' hc := System.keeps_readSide fun kernel heq => by rw [heq] at hc; cases hc

/-- The writes are a lawful side. -/
theorem lawful_writeSide : writeSide.Lawful where
  reported_filter := filterMap_callbackEvents fun e he => by cases e <;> simp_all [Event.callback?]
  owed_nil := rfl
  keeps s c v v' hc := System.keeps_writeSide fun kernel heq => by rw [heq] at hc; cases hc

namespace System

open EventHandler

/-- The chain that `OnRead` leaves, and the one that `OnWrite` leaves. -/
theorem open_drop_pass {κ : Type} {move : Buffer → κ → Chain.Attempt BaseException Buffer κ UInt8}
    {isComplete : Buffer → Except BaseException Bool} (hmove : Chain.StaysOpen move isComplete)
    {bs : List Buffer} (hbs : ∀ b ∈ bs, isComplete b ≠ .ok true) (k : κ) :
    ∀ b ∈ (Chain.pass move isComplete bs k).chain.drop
      (Chain.pass move isComplete bs k).complete.length, isComplete b ≠ .ok true := by
  obtain ⟨rest, hchain, -, hrest⟩ := Chain.chain_pass_eq hmove hbs (k := k)
  rw [hchain, List.drop_left]
  exact hrest

/-- No step leaves a complete read buffer in a chain that had none. -/
theorem readOpen_step {s : Session} {c : Call} {v v' : View} (hstep : SessionStep s c v v')
    (hv : readSide.Open v) : readSide.Open v' := by
  by_cases hc : ∃ kernel, c = .onRead s.fd kernel
  · obtain ⟨kernel, rfl⟩ := hc
    cases hstep with
    | same => exact hv
    | accept => exact fun ci hci b hb => by cases hci; cases hb
    | close hci hc => rcases hc with hc | hc <;> simp at hc
    | @onRead ci mask history kernel p hs hp hok =>
        subst hp
        intro ci' hci'
        cases hci'
        exact open_drop_pass ReadBuffer.staysOpen (hv ci rfl) kernel
  · exact (keeps_readSide (fun kernel heq => hc ⟨kernel, heq⟩) hstep).chain_open hv

/-- No step leaves a complete write buffer in a chain that had none. -/
theorem writeOpen_step {s : Session} {c : Call} {v v' : View} (hstep : SessionStep s c v v')
    (hv : writeSide.Open v) : writeSide.Open v' := by
  by_cases hc : ∃ kernel, c = .onWrite s.fd kernel
  · obtain ⟨kernel, rfl⟩ := hc
    cases hstep with
    | same => exact hv
    | accept => exact fun ci hci b hb => by cases hci; cases hb
    | close hci hc => rcases hc with hc | hc <;> simp at hc
    | @onWrite ci mask history kernel p hs hp hok =>
        subst hp
        intro ci' hci'
        cases hci'
        exact open_drop_pass WriteBuffer.staysOpen (hv ci rfl) kernel
  · exact (keeps_writeSide (fun kernel heq => hc ⟨kernel, heq⟩) hstep).chain_open hv

/-- No run that throws nothing leaves a complete buffer in a chain. -/
theorem open_of_run {listenfdMaxconn : List (Fd × UInt32)} {m : System} {cs : List Call}
    (hrun : Machine.run step (init listenfdMaxconn) cs = some m) (hok : m.failed = none) :
    WellFormed m ∧ Recorded m ∧ ∀ s, readSide.Open (m.view s) ∧ writeSide.Open (m.view s) :=
  run_session (C := fun _ _ => True) (fun _ v => readSide.Open v ∧ writeSide.Open v)
    (fun _ => ⟨fun _ hci => (by cases hci), fun _ hci => (by cases hci)⟩)
    (fun _ _ _ _ _ hstep hv => ⟨readOpen_step hstep hv.1, writeOpen_step hstep hv.2⟩)
    (Machine.along_of_forall (fun _ _ => trivial) _ cs) hrun hok

/-- A session after a handler that has changed its chains, reported to it
and is still about it. -/
theorem view_passed {m m' : System} {fd : Fd} {ci ci' : ClientInfo} {es : List Event}
    (hfd : ci.session.fd = fd) (hsession : ci'.session = ci.session)
    (hclient : m'.handler.clientInfo = AList.insert fd ci' m.handler.clientInfo)
    (htrace : m'.handler.trace = m.handler.trace ++ es)
    (hes : ∀ e ∈ es, e.session? = some ci.session)
    (hframes : ∀ f ∈ m'.stack, f.session? = some ci.session) :
    (m'.view ci.session).client = some ci' ∧
      (m'.view ci.session).history = (m.view ci.session).history ++ es ∧
      (m'.view ci.session).frames = m'.stack := by
  refine ⟨client_eq_some.mpr ⟨?_, hsession⟩, ?_, filter_of_session hframes⟩
  · rw [hclient, hfd, AList.lookup_insert]
  · simp only [view, htrace, List.filter_append, filter_of_session hes]

/-- The system after `OnRead` from an empty stack. -/
theorem enter_endRead (fd : Fd) (ci : ClientInfo)
    (p : Chain.Pass BaseException ReadBuffer (List RecvResult) UInt8) (h : EventHandler) :
    enter (endRead fd ci p) h [] =
      ⟨{ h with
          demux := if p.ended ∨ p.allComplete then h.demux.delEvent fd .CFEV_READ else h.demux
          clientInfo := AList.insert fd
            { ci with rbChain := p.chain.drop (Side.retired p).length } h.clientInfo
          trace := h.trace ++ ([.received ci.session p.moved] ++
            (if p.ended then [.endOfStream ci.session] else []) ++
              readEvents ci.session (Side.retired p)) },
        readFrames ci.session (Side.retired p), p.failure⟩ := by
  unfold enter
  cases hop : endRead fd ci p h with
  | ok f h' =>
      obtain ⟨hfail, hf, rfl⟩ := endRead_ok hop
      simp [Side.retired, hfail, hf]
  | error e h' =>
      obtain ⟨hfail, rfl⟩ := endRead_error hop
      simp [Side.retired, hfail, readEvents, readFrames]

/-- The system after `OnWrite` from an empty stack. -/
theorem enter_endWrite (fd : Fd) (ci : ClientInfo)
    (p : Chain.Pass BaseException WriteBuffer (List SendResult) UInt8) (h : EventHandler) :
    enter (endWrite fd ci p) h [] =
      ⟨{ h with
          demux := if p.allComplete then h.demux.delEvent fd .CFEV_WRITE else h.demux
          clientInfo := AList.insert fd
            { ci with wbChain := p.chain.drop (Side.retired p).length } h.clientInfo
          trace := h.trace ++ ([.sent ci.session p.moved] ++
            writeEvents ci.session (Side.retired p)) },
        writeFrames ci.session (Side.retired p), p.failure⟩ := by
  unfold enter
  cases hop : endWrite fd ci p h with
  | ok f h' =>
      obtain ⟨hfail, hf, rfl⟩ := endWrite_ok hop
      simp [Side.retired, hfail, hf]
  | error e h' =>
      obtain ⟨hfail, rfl⟩ := endWrite_error hop
      simp [Side.retired, hfail, writeEvents, writeFrames]

/-- `OnRead`, up to its first callback or its exception. -/
theorem passed_onRead {m m' : System} (hw : WellFormed m) (hidle : m.stack = []) {fd : Fd}
    {ci : ClientInfo} (hci : m.handler.clientInfo.lookup fd = some ci) {kernel : List RecvResult}
    (hstep : m.step (.onRead fd kernel) = some m') :
    readSide.Passed (readPass ci.rbChain kernel) ci.session (m.view ci.session) m' := by
  have hm : m' = enter (endRead fd ci (readPass ci.rbChain kernel)) m.handler [] := by
    unfold step at hstep
    split at hstep
    · cases hstep
      simp only [perform, enter, onRead, Exec.bind_apply, getClientInfo_apply, hci, hidle]
    · cases hstep
  rw [enter_endRead] at hm
  have hstack : m'.stack = readFrames ci.session (Side.retired (readPass ci.rbChain kernel)) :=
    congrArg System.stack hm
  obtain ⟨hclient, hhistory, hframes⟩ := view_passed (hw.client fd ci hci).1 (by exact rfl)
    (congrArg (·.handler.clientInfo) hm) (congrArg (·.handler.trace) hm)
    (session_endRead ci.session _ _ _)
    (by rw [hstack]; exact fun f hf => (session_readFrames _ _ f hf).1)
  have heos (s : Session) (b : Bool) : buffersRead (if b then [.endOfStream s] else []) = [] := by
    cases b <;> rfl
  refine ⟨by rw [hm], ⟨_, hclient, rfl⟩, ?_⟩
  have hreport := buffersRead_readEvents ci.session (Side.retired (readPass ci.rbChain kernel))
  have hnone : readsOwed (m.view ci.session).frames = [] := readsOwed_of_idle hidle _
  rw [Side.due, Side.due, hhistory, hframes, hstack]
  simp only [readSide, buffersRead_append, heos, hnone, List.append_assoc, hreport, List.map_id]
  simp [buffersRead]

/-- `OnWrite`, up to its first callback or its exception. -/
theorem passed_onWrite {m m' : System} (hw : WellFormed m) (hidle : m.stack = []) {fd : Fd}
    {ci : ClientInfo} (hci : m.handler.clientInfo.lookup fd = some ci) {kernel : List SendResult}
    (hstep : m.step (.onWrite fd kernel) = some m') :
    writeSide.Passed (writePass ci.wbChain kernel) ci.session (m.view ci.session) m' := by
  have hm : m' = enter (endWrite fd ci (writePass ci.wbChain kernel)) m.handler [] := by
    unfold step at hstep
    split at hstep
    · cases hstep
      simp only [perform, enter, onWrite, Exec.bind_apply, getClientInfo_apply, hci, hidle]
    · cases hstep
  rw [enter_endWrite] at hm
  have hstack : m'.stack = writeFrames ci.session (Side.retired (writePass ci.wbChain kernel)) :=
    congrArg System.stack hm
  obtain ⟨hclient, hhistory, hframes⟩ := view_passed (hw.client fd ci hci).1 (by exact rfl)
    (congrArg (·.handler.clientInfo) hm) (congrArg (·.handler.trace) hm)
    (session_endWrite ci.session _ _)
    (by rw [hstack]; exact fun f hf => (session_writeFrames _ _ f hf).1)
  refine ⟨by rw [hm], ⟨_, hclient, rfl⟩, ?_⟩
  have hreport := writeReports_writeEvents ci.session (Side.retired (writePass ci.wbChain kernel))
  have hnone : (m.view ci.session).frames = [] := by rw [view, hidle]; rfl
  rw [Side.due, Side.due, hhistory, hframes, hstack, hnone]
  simp only [writeSide, writeReports_append, List.append_assoc, hreport]
  simp [writeReports, writesOwed]

/-- The first call of a run may be set apart from those that follow it. -/
theorem throwsLast_cons {γ : Type} {side : Side γ} (hside : side.Lawful) {m m' t : System}
    {c : Call} {cs : List Call} (hidle : m.stack = []) (hstep : m.step c = some t)
    (hrun : Machine.run step t cs = some m') (hover : m'.stack = []) (s : Session) :
    side.ThrowsLast m (c :: cs) m' s ↔ side.ThrowsLast t cs m' s := by
  have howed {u : System} (hu : u.stack = []) : side.owed (u.view s).frames = [] := by
    rw [view, hu, List.filter_nil, hside.owed_nil]
  unfold Side.ThrowsLast
  refine imp_congr_right fun _ => ?_
  cases cs with
  | nil =>
      cases hrun
      exact iff_of_true (fun u hu => by cases hu; exact howed hidle)
        (fun u hu => by cases hu; exact howed hover)
  | cons d ds =>
      rw [List.dropLast_cons_cons]
      refine forall_congr' fun u => ?_
      rw [Machine.run_cons_eq_some]
      refine ⟨fun h hu => h ⟨t, hstep, hu⟩, fun h hu => ?_⟩
      obtain ⟨_, hstep', hu⟩ := hu
      rw [hstep] at hstep'
      cases hstep'
      exact h hu

/-- **What a handler completes it settles.**  Whatever the kernel answers to
an `OnRead` of any reached state, and whatever the callbacks do: when it is
over no buffer left in the chain is complete, and those it completed have
been passed to `OnReadComplete`, each once, exactly if no buffer behind the
first fails after those before it were completed, and no callback throws
while completed buffers are still to be reported.  So it is with `OnWrite`. -/
theorem settles_iff {listenfdMaxconn : List (Fd × UInt32)} {m : System} {cs : List Call}
    (hrun : Machine.run step (init listenfdMaxconn) cs = some m) (hok : m.failed = none)
    (hidle : m.stack = []) {fd : Fd} {ci : ClientInfo}
    (hci : m.handler.clientInfo.lookup fd = some ci) :
    (∀ kernel calls m', (∀ c ∈ calls, c.OfUser) →
      Machine.run step m (.onRead fd kernel :: calls) = some m' → m'.stack = [] →
        (readSide.Settled (m.view ci.session) (m'.view ci.session)
            (Chain.completed ReadBuffer.isComplete (readPass ci.rbChain kernel).chain) ↔
          ¬ Chain.FailsBehind ReadBuffer.read ReadBuffer.isComplete ci.rbChain kernel ∧
            readSide.ThrowsLast m (.onRead fd kernel :: calls) m' ci.session)) ∧
    (∀ kernel calls m', (∀ c ∈ calls, c.OfUser) →
      Machine.run step m (.onWrite fd kernel :: calls) = some m' → m'.stack = [] →
        (writeSide.Settled (m.view ci.session) (m'.view ci.session)
            (Chain.completed WriteBuffer.isComplete (writePass ci.wbChain kernel).chain) ↔
          ¬ Chain.FailsBehind WriteBuffer.write WriteBuffer.isComplete ci.wbChain kernel ∧
            writeSide.ThrowsLast m (.onWrite fd kernel :: calls) m' ci.session)) := by
  obtain ⟨hw, hr, hopen⟩ := open_of_run hrun hok
  obtain ⟨hread, hwrite⟩ := hopen ci.session
  have hclient := (view_client hw hci).1
  have hkeep {c : Call} {t : System} (hstep : m.step c = some t) (ht : t.failed = none) :
      WellFormed t ∧ Recorded t := by
    have heff := (step_effect hstep ht).2
    exact ⟨hw.effect heff, hr.effect heff hw⟩
  have hframes : (m.view ci.session).frames = [] := by rw [view, hidle]; rfl
  constructor
  · intro kernel calls m' huser hcalls hover
    obtain ⟨t, hstep, hafter⟩ := Machine.run_cons_eq_some.mp hcalls
    rw [throwsLast_cons lawful_readSide hidle hstep hafter hover]
    exact Side.settled_iff lawful_readSide ReadBuffer.staysOpen (hread ci hclient)
      (by rw [hframes]; rfl) (passed_onRead hw hidle hci hstep) (hkeep hstep) huser hafter hover
  · intro kernel calls m' huser hcalls hover
    obtain ⟨t, hstep, hafter⟩ := Machine.run_cons_eq_some.mp hcalls
    rw [throwsLast_cons lawful_writeSide hidle hstep hafter hover]
    exact Side.settled_iff lawful_writeSide WriteBuffer.staysOpen (hwrite ci hclient)
      (by rw [hframes]; rfl) (passed_onWrite hw hidle hci hstep) (hkeep hstep) huser hafter hover

/-- The rest of a read arrives. -/
theorem settles_iff_talk : ∃ m ci m', Machine.run step (init [(3, 0)]) talk = some m ∧
    m.handler.clientInfo.lookup 5 = some ci ∧
    Machine.run step m [.onRead 5 [.data [13, 14]], .ret] = some m' ∧
    readSide.Settled (m.view ci.session) (m'.view ci.session)
      (Chain.completed ReadBuffer.isComplete (readPass ci.rbChain [.data [13, 14]]).chain) := by
  obtain ⟨m, ci, hrun, hok, hci⟩ := run_talk
  have hcheck : (Machine.run step (init [(3, 0)]) talk).any (fun m => m.stack = [] ∧
      (Machine.run step m [.onRead 5 [.data [13, 14]], .ret]).any
        (fun m' => m'.stack = [] ∧ m'.failed = none) ∧
      (m.handler.clientInfo.lookup 5).all
        fun ci => (readPass ci.rbChain [.data [13, 14]]).failure = none) := by decide +kernel
  simp only [hrun, hci, Option.any_some, Option.all_some, decide_eq_true_eq] at hcheck
  obtain ⟨hidle, hany, hpass⟩ := hcheck
  obtain ⟨m', hrun', hover⟩ := (Option.any_eq_true _ _).mp hany
  obtain ⟨hover, hok'⟩ := of_decide_eq_true hover
  refine ⟨m, ci, m', hrun, hci, hrun', ((settles_iff hrun hok hidle hci).1 _ _ m' ?_ hrun'
    hover).mpr ⟨?_, fun hfail => absurd hok' hfail⟩⟩
  · simp [Call.OfUser]
  · rw [Chain.failsBehind_iff, hpass]
    simp

/-- A client asks for two reads and two writes of a byte. -/
def twice : List Call :=
  [.onAccept 3 [5], .asyncRead 5 1, .asyncRead 5 1, .asyncWrite 5 [1] 1, .asyncWrite 5 [2] 1, .ret]

/-- A byte arrives, or is taken, and then the socket fails: the buffer it
completes is never reported. -/
theorem not_settled_twice : ∃ m ci, Machine.run step (init [(3, 0)]) twice = some m ∧
    m.handler.clientInfo.lookup 5 = some ci ∧
    (∃ m', Machine.run step m [.onRead 5 [.data [10], .failed]] = some m' ∧ m'.stack = [] ∧
      ¬ readSide.Settled (m.view ci.session) (m'.view ci.session)
        (Chain.completed ReadBuffer.isComplete (readPass ci.rbChain [.data [10], .failed]).chain)) ∧
    (∃ m', Machine.run step m [.onWrite 5 [.accepted 1, .failed]] = some m' ∧ m'.stack = [] ∧
      ¬ writeSide.Settled (m.view ci.session) (m'.view ci.session)
        (Chain.completed WriteBuffer.isComplete
          (writePass ci.wbChain [.accepted 1, .failed]).chain)) := by
  have hcheck : (Machine.run step (init [(3, 0)]) twice).any (fun m =>
      (m.handler.clientInfo.lookup 5).any fun ci =>
        (Machine.run step m [.onRead 5 [.data [10], .failed]]).any (fun m' => m'.stack = [] ∧
          buffersRead (m'.view ci.session).history ≠ buffersRead (m.view ci.session).history ++
            (Chain.completed ReadBuffer.isComplete
              (readPass ci.rbChain [.data [10], .failed]).chain).map id) ∧
        (Machine.run step m [.onWrite 5 [.accepted 1, .failed]]).any (fun m' => m'.stack = [] ∧
          writeReports (m'.view ci.session).history ≠ writeReports (m.view ci.session).history ++
            (Chain.completed WriteBuffer.isComplete
              (writePass ci.wbChain [.accepted 1, .failed]).chain).map fun _ => ())) := by
    decide +kernel
  obtain ⟨m, hrun, hcheck⟩ := (Option.any_eq_true _ _).mp hcheck
  obtain ⟨ci, hci, hcheck⟩ := (Option.any_eq_true _ _).mp hcheck
  obtain ⟨hread, hwrite⟩ := of_decide_eq_true hcheck
  obtain ⟨m₁, hrun₁, hread⟩ := (Option.any_eq_true _ _).mp hread
  obtain ⟨m₂, hrun₂, hwrite⟩ := (Option.any_eq_true _ _).mp hwrite
  obtain ⟨hidle₁, hread⟩ := of_decide_eq_true hread
  obtain ⟨hidle₂, hwrite⟩ := of_decide_eq_true hwrite
  exact ⟨m, ci, hrun, hci, ⟨m₁, hrun₁, hidle₁, fun h => hread h.reported_eq⟩,
    ⟨m₂, hrun₂, hidle₂, fun h => hwrite h.reported_eq⟩⟩

end System

end CppFastDevelop
