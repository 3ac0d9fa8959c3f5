import CppFastDevelop.NetServer.Reading
import CppFastDevelop.NetServer.Writing

/-!
# CppFastDevelop.NetServer.Interest

The events the demultiplexer has on record for a client follow its chains:
write events are asked for exactly while there is something to write, read
events only while there is something to read, and always then unless the
stream has ended.
-/

namespace CppFastDevelop

open Flags

/-! ## a record that suits a client -/

/-- The record `mask` of a client suits its chains. -/
structure Watched (ci : ClientInfo) (history : List Event) (mask : cf_ev) : Prop where
  rdhup : mask.getLsbD 13 = true
  out_iff : mask.getLsbD 2 = true ↔ ci.wbChain ≠ []
  in_of : mask.getLsbD 0 = true → ci.rbChain ≠ []
  ended_of : mask.getLsbD 0 = false → ci.rbChain ≠ [] → .endOfStream ci.session ∈ history

namespace Watched

open EventHandler

variable {ci : ClientInfo} {history : List Event} {mask : cf_ev}

/-- What is in the history stays there, so the record goes on to suit the client. -/
theorem append (h : Watched ci history mask) (es : List Event) :
    Watched ci (history ++ es) mask :=
  ⟨h.rdhup, h.out_iff, h.in_of,
    fun hin hne => List.mem_append_left es (h.ended_of hin hne)⟩

/-- A client that was just accepted. -/
theorem accepted {listenfd : Fd} {s : Session} :
    Watched ⟨s, listenfd, [], []⟩ history EPOLLRDHUP := by
  refine ⟨by decide, ?_, ?_, ?_⟩
  · simp [EPOLLRDHUP]
  · simp [EPOLLRDHUP]
  · intro _ hne
    exact absurd rfl hne

/-- A read request sets EPOLLIN with the buffer it puts on the chain. -/
theorem request_read (h : Watched ci history mask) (rb : ReadBuffer) :
    Watched { ci with rbChain := ci.rbChain ++ [rb] } history (mask ||| EPOLLIN) := by
  have hbit (i : Nat) : (mask ||| EPOLLIN).getLsbD i = (mask.getLsbD i || decide (0 = i)) :=
    getLsbD_or_twoPow mask (by decide)
  refine ⟨?_, ?_, by simp, ?_⟩
  · rw [hbit, h.rdhup]; rfl
  · rw [hbit]; simpa using h.out_iff
  · intro hin
    rw [hbit] at hin
    simp at hin

/-- A write request sets EPOLLOUT with the buffer it puts on the chain. -/
theorem request_write (h : Watched ci history mask) (wb : WriteBuffer) :
    Watched { ci with wbChain := ci.wbChain ++ [wb] } history (mask ||| EPOLLOUT) := by
  have hbit (i : Nat) : (mask ||| EPOLLOUT).getLsbD i = (mask.getLsbD i || decide (2 = i)) :=
    getLsbD_or_twoPow mask (by decide)
  refine ⟨?_, by rw [hbit]; simp, ?_, ?_⟩
  · rw [hbit, h.rdhup]; rfl
  · rw [hbit]; simpa using h.in_of
  · rw [hbit]; simpa using h.ended_of

/-- What `OnRead` leaves: read events go off when the stream ends or nothing
is left to read, and only then. -/
theorem pass_read (h : Watched ci history mask) (hunderway : Buffer.Underway ci.rbChain)
    {kernel : List RecvResult} {p : Chain.Pass BaseException ReadBuffer (List RecvResult) UInt8}
    (hp : p = readPass ci.rbChain kernel) (hok : p.failure = none) :
    Watched { ci with rbChain := p.chain.drop p.complete.length }
      (history ++ [.received ci.session p.moved] ++
        (if p.ended then [.endOfStream ci.session] else []))
      (if p.ended ∨ p.allComplete then mask &&& ~~~EPOLLIN else mask) := by
  have hspec : Chain.PassSpec Buffer.Good Buffer.progress Buffer.size ci.rbChain p := by
    subst hp
    exact Chain.pass_spec ReadBuffer.moves hunderway hok
  obtain ⟨⟨rest, hchain, -, hall, hall', hended⟩, -, -⟩ := hspec
  have hdrop : p.chain.drop p.complete.length = rest := by rw [hchain, List.drop_left]
  have hbit (i : Nat) :
      (mask &&& ~~~EPOLLIN).getLsbD i = (mask.getLsbD i && decide (0 ≠ i)) :=
    getLsbD_and_not_twoPow mask
  rw [hdrop]
  by_cases hoff : p.ended = true ∨ p.allComplete = true
  · rw [if_pos hoff]
    refine ⟨?_, ?_, ?_, ?_⟩
    · rw [hbit, h.rdhup]; rfl
    · rw [hbit]; simpa using h.out_iff
    · intro hin
      rw [hbit] at hin
      simp at hin
    · intro _ hne
      cases hoff with
      | inl hend => simp [hend]
      | inr hcomplete => exact absurd (hall hcomplete) hne
  · rw [if_neg hoff]
    rw [not_or] at hoff
    have hleft : ci.rbChain ≠ [] → rest ≠ [] := fun hne hnil => hoff.2 (hall' hnil hne)
    refine ⟨h.rdhup, h.out_iff, fun hin => hleft (h.in_of hin), fun hin hne => ?_⟩
    have hne' : ci.rbChain ≠ [] := by
      intro hnil
      rw [hp, hnil] at hchain
      have hempty : ([] : List ReadBuffer) = [] ++ rest := hchain
      exact hne hempty.symm
    simp [h.ended_of hin hne']

/-- What `OnWrite` leaves: write events go off when nothing is left to
write, and only then. -/
theorem pass_write (h : Watched ci history mask) (hunderway : Buffer.Underway ci.wbChain)
    {kernel : List SendResult}
    {p : Chain.Pass BaseException WriteBuffer (List SendResult) UInt8}
    (hp : p = writePass ci.wbChain kernel) (hok : p.failure = none) :
    Watched { ci with wbChain := p.chain.drop p.complete.length } history
      (if p.allComplete then mask &&& ~~~EPOLLOUT else mask) := by
  have hspec : Chain.PassSpec Buffer.Good Buffer.progress Buffer.size ci.wbChain p := by
    subst hp
    exact Chain.pass_spec WriteBuffer.moves hunderway hok
  obtain ⟨⟨rest, hchain, -, hall, hall', -⟩, -, -⟩ := hspec
  have hdrop : p.chain.drop p.complete.length = rest := by rw [hchain, List.drop_left]
  have hbit (i : Nat) :
      (mask &&& ~~~EPOLLOUT).getLsbD i = (mask.getLsbD i && decide (2 ≠ i)) :=
    getLsbD_and_not_twoPow mask
  rw [hdrop]
  by_cases hoff : p.allComplete = true
  · rw [if_pos hoff]
    refine ⟨?_, ?_, ?_, ?_⟩
    · rw [hbit, h.rdhup]; rfl
    · rw [hbit]; simp [hall hoff]
    · rw [hbit]; simpa using h.in_of
    · rw [hbit]; simpa using h.ended_of
  · rw [if_neg hoff]
    have hsame : rest ≠ [] ↔ ci.wbChain ≠ [] := by
      constructor
      · intro hne hnil
        rw [hp, hnil] at hchain
        have hempty : ([] : List WriteBuffer) = [] ++ rest := hchain
        exact hne hempty.symm
      · exact fun hne hnil => hoff (hall' hnil hne)
    exact ⟨h.rdhup, h.out_iff.trans hsame.symm, h.in_of, h.ended_of⟩

end Watched

/-! ## over a run -/

namespace System

open EventHandler

/-- A registered client that is not being closed has a record that suits
it. -/
def InterestKept (v : View) : Prop :=
  ∀ ci, v.client = some ci → (∀ f ∈ v.frames, f.closes? = none) →
    ∃ mask, v.mask = some mask ∧ Watched ci v.history mask

/-- Every step of a session keeps its mask in step with its chains. -/
theorem interestKept_step {s : Session} {c : Call} {v v' : View} (hstep : SessionStep s c v v')
    (hreads : ReadsKept v) (hwrites : WritesKept v) (hv : InterestKept v) : InterestKept v' := by
  cases hstep with
  | same => exact hv
  | accept =>
      intro ci hci _
      cases hci
      exact ⟨EPOLLRDHUP, rfl, .accepted⟩
  | asyncRead =>
      intro ci' hci' hframes
      cases hci'
      obtain ⟨mask, rfl, hwatched⟩ := hv _ rfl hframes
      exact ⟨_, rfl, (hwatched.request_read _).append _⟩
  | asyncWrite =>
      intro ci' hci' hframes
      cases hci'
      obtain ⟨mask, rfl, hwatched⟩ := hv _ rfl hframes
      exact ⟨_, rfl, (hwatched.request_write _).append _⟩
  | close =>
      intro ci' hci' hframes
      exact absurd (hframes _ List.mem_cons_self) (by simp [Frame.closes?])
  | onError =>
      intro ci' hci' hframes
      exact absurd (hframes _ List.mem_cons_self) (by simp [Frame.closes?])
  | @onRead ci mask history kernel p hs hp hok =>
      intro ci' hci' _
      cases hci'
      obtain ⟨mask, rfl, hwatched⟩ := hv ci rfl (by simp)
      have hnext := (hwatched.pass_read (hreads ci rfl).underway hp hok).append
        (readEvents ci.session p.complete)
      subst hs
      refine ⟨_, ?_, hnext⟩
      dsimp only
      split <;> rfl
  | @onWrite ci mask history kernel p hs hp hok =>
      intro ci' hci' _
      cases hci'
      obtain ⟨mask, rfl, hwatched⟩ := hv ci rfl (by simp)
      obtain ⟨done, -, haccount⟩ := hwrites ci rfl
      have hnext := ((hwatched.pass_write haccount.underway hp hok).append
        [.sent s p.moved]).append (writeEvents s p.complete)
      refine ⟨_, ?_, hnext⟩
      dsimp only
      split <;> rfl
  | retAccepting =>
      intro ci hci hframes
      refine hv ci hci fun f hf => ?_
      cases List.mem_cons.mp hf with
      | inl heq => rw [heq]; rfl
      | inr hf => exact hframes f hf
  | retReading =>
      intro ci hci hframes
      obtain ⟨mask, hmask, hwatched⟩ := hv ci hci fun f hf => by
        cases List.mem_cons.mp hf with
        | inl heq => rw [heq]; rfl
        | inr hf => exact hframes f (List.mem_append_right _ hf)
      exact ⟨mask, hmask, hwatched.append _⟩
  | retWriting =>
      intro ci hci hframes
      obtain ⟨mask, hmask, hwatched⟩ := hv ci hci fun f hf => by
        cases List.mem_cons.mp hf with
        | inl heq => rw [heq]; rfl
        | inr hf => exact hframes f (List.mem_append_right _ hf)
      exact ⟨mask, hmask, hwatched.append _⟩
  | retClosing => exact fun ci hci => by cases hci

/-- **The record follows the chains.**  For every registered client that is
not being closed (when no handler is running, nobody is) the record has
`EPOLLRDHUP`, has `EPOLLOUT` exactly if there is something to write, has
`EPOLLIN` only if there is something to read, and lacks it then only if
`recv` has reported the end of the stream.  Nothing but registered clients
and listeners is on record. -/
theorem interest_follows_chains {listenfdMaxconn : List (Fd × UInt32)} {m : System}
    {cs : List Call} (hsized : ∀ c ∈ cs, c.Sized)
    (hrun : Machine.run step (init listenfdMaxconn) cs = some m) (hok : m.failed = none) :
    (∀ fd ci, m.handler.clientInfo.lookup fd = some ci →
      (∀ f ∈ m.stack, f.closes? ≠ some ci.session) →
      ∃ mask, m.handler.demux.mapEvent.lookup fd = some mask ∧
        mask &&& EPOLLRDHUP ≠ 0 ∧
        (mask &&& EPOLLOUT ≠ 0 ↔ ci.wbChain ≠ []) ∧
        (mask &&& EPOLLIN ≠ 0 → ci.rbChain ≠ []) ∧
        (mask &&& EPOLLIN = 0 → ci.rbChain ≠ [] →
          .endOfStream ci.session ∈ m.handler.trace)) ∧
    ∀ fd ∈ m.handler.demux.mapEvent, fd ∈ m.handler.clientInfo ∨ fd ∈ m.handler.listenInfo := by
  obtain ⟨hw, hr, hkept⟩ := run_session
    (fun _ v => ReadsKept v ∧ WritesKept v ∧ InterestKept v)
    (fun s => ⟨(fun ci hci => by cases hci), (fun ci hci => by cases hci),
      (fun ci hci => by cases hci)⟩)
    (fun m c s v hc hstep hv => ⟨
      readsKept_step (fun n heq => by subst heq; exact hc) hstep hv.1,
      writesKept_step (fun buf n heq => by subst heq; exact hc) hstep hv.2.1,
      interestKept_step hstep hv.1 hv.2.1 hv.2.2⟩)
    (Machine.along_of_forall_mem step hsized _) hrun hok
  constructor
  · intro fd ci hci hopen
    obtain ⟨hclient, hrecord⟩ := view_client hw hci
    obtain ⟨mask, hmask, hwatched⟩ := (hkept ci.session).2.2 ci hclient fun f hf => by
      obtain ⟨hmem, hsession⟩ := List.mem_filter.mp hf
      have hnot := hopen f hmem
      rw [decide_eq_true_iff] at hsession
      cases f with
      | closing s => exact absurd hsession hnot
      | erroring s => exact absurd hsession hnot
      | accepting | reading | writing | timingOut => rfl
    rw [hrecord] at hmask
    have hin : mask &&& EPOLLIN ≠ 0 ↔ mask.getLsbD 0 = true := and_twoPow_ne_zero (by decide)
    refine ⟨mask, hmask, (and_twoPow_ne_zero (by decide)).mpr hwatched.rdhup,
      (and_twoPow_ne_zero (by decide)).trans hwatched.out_iff,
      fun hne => hwatched.in_of (hin.mp hne), fun hzero hne => ?_⟩
    have hclear : mask.getLsbD 0 = false := by
      rw [← Bool.not_eq_true, ← hin]
      exact fun hnot => hnot hzero
    exact (List.mem_filter.mp (hwatched.ended_of hclear hne)).1
  · intro fd hfd
    obtain ⟨mask, hmask⟩ := FdMap.mem_iff_exists.mp hfd
    exact hr.known fd mask hmask

/-- The masks after a short talk are of clients and listeners only. -/
theorem interest_follows_chains_talk : ∃ m,
    Machine.run step (init [(3, 0)]) talk = some m ∧
      ∀ fd ∈ m.handler.demux.mapEvent,
        fd ∈ m.handler.clientInfo ∨ fd ∈ m.handler.listenInfo := by
  obtain ⟨m, ci, hrun, hok, -⟩ := run_talk
  exact ⟨m, hrun, (interest_follows_chains talk_sized hrun hok).2⟩

end System

end CppFastDevelop
