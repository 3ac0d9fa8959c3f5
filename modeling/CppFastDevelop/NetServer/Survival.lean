import CppFastDevelop.NetServer.Echo
import CppFastDevelop.NetServer.Served

/-!
# CppFastDevelop.NetServer.Survival

What ends the test server.  Where the event loop names only what is there and
the kernel reports no error, the event handler throws nothing (`ok_of_served`);
what is left is what `OnReadComplete` throws at a header that announces no
body.  So one client can end the server for all of them, by four zero bytes,
and in no other way (`failed_iff_zeroHeader`).
-/

namespace CppFastDevelop

namespace TestServer

open EventHandler EventLoop IOCompleteHandler CppFastDevelop.System

variable {listenfdMaxconn : List (Fd × UInt32)} {t t' : TestServer}

/-- The loop names what is there, and the kernel reports no error. -/
def Served (t : TestServer) : Action → Prop
  | .call c => t.system.Served c
  | .next => True

instance (t : TestServer) : DecidablePred t.Served
  | .call c => inferInstanceAs (Decidable (t.system.Served c))
  | .next => inferInstanceAs (Decidable True)

/-- What the callbacks do names what is there. -/
theorem Shape.served {c : System.Call} {rest : List System.Call}
    (hshape : Shape t.system.handler t.system.stack (c :: rest)) : t.system.Served c := by
  have hmem {s : Session} (hs : t.system.handler.client s ≠ none) :
      s.fd ∈ t.system.handler.clientInfo := by
    obtain ⟨ci, hci⟩ := Option.ne_none_iff_exists'.mp hs
    exact FdMap.mem_of_lookup (client_eq_some.mp hci).1
  obtain ⟨⟨e, stack, failed⟩, h, todo⟩ := t
  cases hshape with
  | timingOut =>
      refine ⟨fun f hf s hs => ?_, trivial⟩
      cases hf
      cases hs
  | callback hf hopen hlast hasks =>
      cases hasks with
      | done =>
          refine ⟨fun g hg s hs => ?_, trivial⟩
          cases hg
          rw [hopen] at hs
          cases hs
      | read => exact ⟨trivial, trivial⟩
      | write => exact ⟨trivial, trivial⟩
      | close => exact ⟨trivial, trivial⟩
  | refused hs hf =>
      refine ⟨fun g hg s' hs' => ?_, trivial⟩
      cases hg
      cases hs'
      exact hmem hs
  | closing hs hf =>
      refine ⟨fun g hg s' hs' => ?_, trivial⟩
      cases hg
      rw [hf] at hs'
      cases hs'
      exact hmem hs

/-- What the server keeps when it is served. -/
structure Survives (listenfdMaxconn : List (Fd × UInt32)) (t : TestServer) : Prop
    extends Kept listenfdMaxconn t where
  free : t.system.failed = none
  listed : Listed t.system

/-- At the beginning the server is in order. -/
theorem survives_init (listenfdMaxconn : List (Fd × UInt32)) :
    Survives listenfdMaxconn (init listenfdMaxconn) :=
  ⟨kept_init listenfdMaxconn, rfl, .init listenfdMaxconn⟩

/-- The chains of a run are in order. -/
theorem Reached.inOrder {m : System} (hreached : Reached listenfdMaxconn m)
    (hok : m.failed = none) : System.InOrder m := by
  obtain ⟨cs, hsized, hrun⟩ := hreached
  exact inOrder_of_run hsized hrun hok

/-- The last buffer handed over announces no body. -/
theorem zeroHeader_of_thrown {m m' : System} {h : IOCompleteHandler} {s : Session}
    {ci : ClientInfo} {rb : ReadBuffer} {rbs : List ReadBuffer} {es : List Event}
    {e : BaseException} (hconv : Converses ⟨m, h, []⟩ s) (hspoken : Spoken ⟨m, h, []⟩)
    (htrace : m'.handler.trace = m.handler.trace ++ (es ++ [.onReadComplete s rb]))
    (hes : Silent es) (hframes : readsOwed (m'.view s).frames = rbs)
    (haccount : ReadAccount (m'.view s) ci.rbChain)
    (hthrown : (h.onReadComplete s rb).thrown = some e) :
    e = sizeZero ∧ ZeroHeader (bytesReceived (m'.view s).history) := by
  obtain ⟨hrbs, hchain, hlen, a, bufs, front, hne, ha, hread, hlast, htalk⟩ :=
    hconv.taken hspoken htrace hes hframes haccount
  cases a with
  | nothing => exact absurd rfl hne
  | body =>
      rw [onReadComplete_body ha hlen] at hthrown
      cases hthrown
  | header =>
      obtain ⟨front', hfront⟩ := htalk.last_header
      have htotal : rb.total = headLen := by
        rw [hlast] at hfront
        exact List.singleton_inj.mp (List.append_inj_right' hfront rfl)
      have hhead : rb.buf.length = 4 := by
        rw [hlen, htotal]
        rfl
      simp only [onReadComplete, show h.expectsHeader s.fd = true from ha, htotal, if_true,
        ne_eq, not_true_eq_false, if_false] at hthrown
      split at hthrown
      · split at hthrown
        · cases hthrown
        · next hzero =>
            cases hthrown
            refine ⟨rfl, ?_⟩
            have hzero : ntohl rb.buf = 0 :=
              UInt32.toNat_inj.mp (Nat.eq_zero_of_not_pos fun hpos =>
                hzero (UInt32.lt_iff_toNat_lt.mpr hpos))
            rw [ReadAccount, hframes, hrbs, List.append_nil, hchain] at haccount
            have hreceived : bytesReceived (m'.view s).history =
                (bufs.map Buffer.buf).flatten ++ rb.buf := by
              rw [haccount.moved_eq, List.append_nil, hread, List.flatMap_append,
                List.flatMap_def, List.map_congr_left]
              · rw [List.flatMap_singleton, Buffer.progress_of_finished
                  (haccount.finished rb (by rw [hread]; simp))]
              · exact fun b hb => Buffer.progress_of_finished
                  (haccount.finished b (by rw [hread]; simp [hb]))
            rw [hreceived]
            exact htalk.zeroHeader hhead hzero
      · cases hthrown

/-- `OnReadComplete` is called by `OnRead`, for the first of the completed
buffers: a session is handed one at a time. -/
theorem read_of_effect {m m' : System} {todo : List System.Call} {c : System.Call} {s : Session}
    {rb : ReadBuffer} {rbs : List ReadBuffer} (hw : WellFormed m) (heff : Effect m c m')
    (hshape : Shape m.handler m.stack todo) (hstack : m'.stack = .reading s rb rbs :: below m c) :
    m.stack = [] ∧ m'.stack = [.reading s rb rbs] ∧ (∃ ci, m'.handler.client s = some ci) ∧
      ∃ es, m'.handler.trace = m.handler.trace ++ (es ++ [.onReadComplete s rb]) ∧ Silent es ∧
        ∀ l t, .onAcceptComplete l t ∉ es := by
  cases heff with
  | asyncRead => exact absurd hstack List.ne_cons_self
  | asyncWrite => exact absurd hstack List.ne_cons_self
  | close => cases hstack
  | onError => cases hstack
  | @onRead e fd kernel ci p hci =>
      cases hcomplete : p.complete with
      | nil =>
          rw [hcomplete] at hstack
          cases hstack
      | cons rb' more =>
          rw [hcomplete] at hstack
          cases hstack
          obtain ⟨hfd, -⟩ := hw.client fd ci hci
          have hlookup := FdMap.lookup_insert_eq e.clientInfo fd ci.session.fd
            { ci with rbChain := p.chain.drop (rb :: rbs).length }
          rw [if_pos hfd] at hlookup
          refine ⟨rfl, rfl, ⟨_, client_eq_some.mpr ⟨hlookup, rfl⟩⟩, .received ci.session p.moved ::
            if p.ended then [.endOfStream ci.session] else [], by simp [readEvents], ?_, ?_⟩
          · split <;> exact ⟨rfl, rfl, rfl⟩
          · split <;> simp
  | @onWrite _ _ _ _ p =>
      cases hcomplete : p.complete with
      | nil =>
          rw [hcomplete] at hstack
          cases hstack
      | cons wb more =>
          rw [hcomplete] at hstack
          cases hstack
  | onTimeout => cases hstack
  | onAcceptNothing => cases hstack
  | onAccept _ haccept => cases haccept <;> cases hstack
  | retAccepting _ haccept =>
      cases haccept with
      | finish => exact absurd hstack List.ne_cons_self
      | accept => cases hstack
  | @retReading e stack t rb' more =>
      have hmore : more = [] := by
        cases hshape with
        | callback hf hopen hlast =>
            cases hf
            exact hlast rb' more rfl
        | closing _ hf => cases hf
      rw [hmore] at hstack
      exact absurd hstack List.ne_cons_self
  | @retWriting e stack t wb more =>
      cases more with
      | nil => exact absurd hstack List.ne_cons_self
      | cons wb' more => cases hstack
  | retClosing => exact absurd hstack List.ne_cons_self
  | retTimingOut => exact absurd hstack List.ne_cons_self

/-- What is not thrown by a call is thrown by `OnReadComplete`. -/
theorem perform_throws {c : System.Call} {rest : List System.Call} {e : BaseException}
    (hok : (t.system.perform c).failed = none) (hbad : (t.perform c rest).system.failed = some e) :
    ∃ s rb rbs, entered t.system c (t.system.perform c) = some (.reading s rb rbs) ∧
      (t.handler.onReadComplete s rb).thrown = some e ∧
      (t.perform c rest).system =
        { t.system.perform c with stack := [], failed := some e } := by
  unfold perform at hbad ⊢
  dsimp only at hbad ⊢
  cases hf : entered t.system c (t.system.perform c) with
  | none =>
      simp only [hf] at hbad
      rw [hok] at hbad
      cases hbad
  | some f =>
      simp only [hf] at hbad ⊢
      cases hthrown : (t.handler.react f).thrown with
      | none =>
          simp only [hthrown] at hbad
          rw [hok] at hbad
          cases hbad
      | some e' =>
          simp only [hthrown, Option.some.injEq] at hbad
          subst hbad
          cases f with
          | reading s rb rbs => exact ⟨s, rb, rbs, rfl, hthrown, rfl⟩
          | _ => cases hthrown

/-- Between the handlers there is nothing to do. -/
theorem Shape.nil_of_idle {e : EventHandler} {todo : List System.Call} (hshape : Shape e [] todo) :
    todo = [] := by
  cases hshape
  rfl

/-- The call that a step of a server makes that is served throws nothing. -/
theorem Survives.effect {a : Action} (ht : Survives listenfdMaxconn t) (ha : t.Served a)
    (hstep : t.step a = some t') : ∃ c rest, t' = t.perform c rest ∧
      (t.system.perform c).failed = none ∧ Effect t.system c (t.system.perform c) ∧ t.exchangeOf a = t.system.exchangeOf c ∧
      Reached listenfdMaxconn (t.system.perform c) ∧ Listed (t.system.perform c) := by
  obtain ⟨hfree, c, rest, heq, hsized, hen, hnext, hreached⟩ := ht.call hstep
  have hserved : t.system.Served c := by
    rcases hnext with ⟨rfl, -⟩ | ⟨rfl, htodo⟩
    · exact ha
    · have hshape := ht.told.shape
      rw [htodo] at hshape
      exact hshape.served
  have hok := ok_of_served ht.listed (ht.reached.inOrder hfree) hserved hen hsized hfree
  have hcall : t.system.step c = some (t.system.perform c) := if_pos ⟨hfree, hen⟩
  obtain ⟨-, heff⟩ := step_effect hcall hok
  refine ⟨c, rest, heq, hok, heff, exchangeOf_eq hnext, hreached,
    .effect heff (fun listenfd accepted hc => ?_) ht.listed⟩
  subst hc
  exact hserved.2

/-- A step of a server that is served throws nothing, or it throws at a header
that announces no body. -/
theorem survives_step {a : Action} (ht : Survives listenfdMaxconn t) (ha : t.Served a)
    (hstep : t.step a = some t') : Survives listenfdMaxconn t' ∨
      t'.system.failed = some sizeZero ∧
        ∃ s, ZeroHeader (bytesReceived (t'.system.view s).history) := by
  obtain ⟨c, rest, heq, hok, heff, -, hreached, hlisted⟩ := ht.effect ha hstep
  cases hbad : t'.system.failed with
  | none =>
      refine .inl ⟨kept_step hstep ht.toKept hbad, hbad, ?_⟩
      subst heq
      rwa [(perform_turn hbad).system_eq]
  | some e =>
      subst heq
      obtain ⟨s, rb, rbs, hf, hthrown, hsystem⟩ := perform_throws hok hbad
      have hstack := (stack_of_entered heff).2 _ hf
      obtain ⟨cs, -, hcs⟩ := ht.reached
      obtain ⟨hw, hr, -⟩ := tables_of_run hcs ht.free
      obtain ⟨hidle, hone, ⟨ci, hci⟩, es, htrace, hes, hno⟩ :=
        read_of_effect hw heff ht.told.shape hstack
      have hold : t.system.handler.client s ≠ none :=
        registered_of_effect hw hr heff htrace (by simp [hno]) (by rw [hci]; simp)
      have hframes : readsOwed ((t.system.perform c).view s).frames = rbs := by
        show readsOwed ((t.system.perform c).stack.filter _) = rbs
        rw [hone]
        simp [Frame.session?, readsOwed]
      have hconv := ht.told.converses s hold
      have hshape := ht.told.shape
      obtain ⟨⟨h, stack, failed⟩, handler, todo⟩ := t
      obtain rfl : stack = [] := hidle
      obtain rfl : failed = none := ht.free
      obtain rfl : todo = [] := hshape.nil_of_idle
      obtain ⟨rfl, hzero⟩ := zeroHeader_of_thrown hconv spoken_idle htrace hes hframes
        (hreached.accounts hok hci).1 hthrown
      refine .inr ⟨rfl, s, ?_⟩
      rw [hsystem]
      exact hzero

/-- **What ends the server.**  Where the loop names what is there and the kernel
reports no error, the server throws only what it throws at a header that
announces no body, and it has thrown as soon as one of the clients has sent
such a header behind its frames. -/
theorem failed_iff_zeroHeader {acts : List Action}
    (hrun : Machine.run step (init listenfdMaxconn) acts = some t)
    (hserved : Machine.Along step Served (init listenfdMaxconn) acts) :
    (∀ e, t.system.failed = some e → e = sizeZero) ∧
      (t.system.failed ≠ none ↔ ∃ s, ZeroHeader (bytesReceived (t.system.view s).history)) := by
  have hinv : Survives listenfdMaxconn t ∨ t.system.failed = some sizeZero ∧
      ∃ s, ZeroHeader (bytesReceived (t.system.view s).history) := by
    refine Machine.run_invariant_along (fun t => Survives listenfdMaxconn t ∨
      t.system.failed = some sizeZero ∧
        ∃ s, ZeroHeader (bytesReceived (t.system.view s).history)) ?_ hserved hrun
      (.inl (survives_init listenfdMaxconn))
    intro t a t' ha hstep ht
    rcases ht with ht | ⟨hfailed, -⟩
    · exact survives_step ht ha hstep
    · rw [(step_perform hstep).1] at hfailed
      cases hfailed
  rcases hinv with ht | ⟨hfailed, hzero⟩
  · rw [ht.free]
    refine ⟨by simp, fun hne => absurd rfl hne, ?_⟩
    rintro ⟨s, hs⟩
    exact absurd hs (ht.echoes s).2
  · rw [hfailed]
    exact ⟨fun e he => (Option.some.inj he).symm, fun _ => hzero, fun _ => by simp⟩

/-- A client that announces no body, behind a frame. -/
def announceNothing : List Action :=
  [.call (.onAccept 3 [5]), .next, .next, .call (.onRead 5 [.data [0, 0, 0, 1]]), .next, .next,
    .call (.onRead 5 [.data [9]]), .next, .next, .next, .call (.onRead 5 [.data [0, 0], .again]),
    .call (.onRead 5 [.data [0, 0]])]

theorem failed_iff_zeroHeader_announceNothing : ∃ t,
    Machine.run step (init [(3, 0)]) announceNothing = some t ∧
      t.system.failed = some sizeZero ∧
      ∃ s, ZeroHeader (bytesReceived (t.system.view s).history) := by
  have hsome : ((Machine.run step (init [(3, 0)]) announceNothing).filter
      (·.system.failed ≠ none)).isSome := by decide +kernel
  have hserved : Machine.Along step Served (init [(3, 0)]) announceNothing := by decide +kernel
  obtain ⟨t, ht⟩ := Option.isSome_iff_exists.mp hsome
  obtain ⟨hrun, hfailed⟩ := Option.filter_eq_some_iff.mp ht
  have hfailed := of_decide_eq_true hfailed
  obtain ⟨honly, hiff⟩ := failed_iff_zeroHeader hrun hserved
  obtain ⟨e, he⟩ := Option.ne_none_iff_exists'.mp hfailed
  exact ⟨t, hrun, by rw [he, honly e he], hiff.mp hfailed⟩

end TestServer

end CppFastDevelop
