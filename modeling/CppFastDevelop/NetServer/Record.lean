import CppFastDevelop.NetServer.Sessions

/-!
# CppFastDevelop.NetServer.Record

What the demultiplexer has on record in every run: only registered clients
and listeners, and no client that is being closed.  A client stays in the
table while its `OnCloseComplete` or `OnErrorComplete` runs, but nobody can
be accepted in that time: `OnAccept` is entered by the event loop only, so
the handlers above the first on the stack are all `OnClose`.
-/

namespace CppFastDevelop

/-- The session a frame is closing. -/
def Frame.closes? : Frame → Option Session
  | .closing s | .erroring s => some s
  | _ => none

namespace Epoll

/-- No operation on one descriptor changes the record of another. -/
theorem lookup_maxConnectionDemux (d : Epoll) {listenfd k : Fd} (li : ListenInfo) (b : Bool)
    (hk : k ≠ listenfd) :
    (EventHandler.maxConnectionDemux d listenfd li b).mapEvent.lookup k =
      d.mapEvent.lookup k := by
  unfold EventHandler.maxConnectionDemux
  split
  · split
    · rw [lookup_delConn, if_neg hk]
    · rfl
  · split
    · rw [lookup_addConn, if_neg hk]
    · rfl

/-- At the beginning the record holds the listening sockets only. -/
theorem lookup_create {listenfds : List Fd} {fd : Fd} {mask : cf_ev}
    (h : (create listenfds).mapEvent.lookup fd = some mask) : fd ∈ listenfds := by
  have hfold : ∀ (l : List Fd) (d : Epoll),
      (l.foldl (fun d fd => d.addConn fd .CFEV_READ) d).mapEvent.lookup fd = some mask →
        fd ∈ l ∨ d.mapEvent.lookup fd = some mask := by
    intro l
    induction l with
    | nil => exact fun d hd => .inr hd
    | cons k l ih =>
        intro d hd
        cases ih _ hd with
        | inl hmem => exact .inl (List.mem_cons_of_mem k hmem)
        | inr hd =>
            rw [lookup_addConn] at hd
            by_cases hk : fd = k
            · exact .inl (hk ▸ List.mem_cons_self)
            · rw [if_neg hk] at hd
              exact .inr hd
  cases hfold listenfds _ h with
  | inl hmem => exact hmem
  | inr hempty => simp at hempty

end Epoll

namespace System

open EventHandler

/-- Only `AsyncClose` is entered while another handler runs. -/
def Nested : List Frame → Prop
  | [] => True
  | [_] => True
  | f :: g :: stack => (∃ s, f = .closing s) ∧ Nested (g :: stack)

/-- A close may be entered inside any callback. -/
theorem Nested.push {stack : List Frame} (h : Nested stack) (s : Session) :
    Nested (.closing s :: stack) := by
  cases stack with
  | nil => trivial
  | cons g stack => exact ⟨⟨s, rfl⟩, h⟩

/-- What remains after a return is nested as before. -/
theorem Nested.pop {f : Frame} {stack : List Frame} (h : Nested (f :: stack)) :
    Nested stack := by
  cases stack with
  | nil => trivial
  | cons g stack => exact h.2

/-- Below a frame that is not an `OnClose` there is none. -/
theorem Nested.bottom {f : Frame} {stack : List Frame} (h : Nested (f :: stack))
    (hf : ∀ s, f ≠ .closing s) : stack = [] := by
  cases stack with
  | nil => rfl
  | cons g stack =>
      obtain ⟨s, hs⟩ := h.1
      exact absurd hs (hf s)

/-- One callback alone is nested. -/
theorem nested_readFrames (s : Session) (bs : List ReadBuffer) :
    Nested (readFrames s bs ++ []) := by
  cases bs <;> trivial

theorem nested_writeFrames (s : Session) (bs : List WriteBuffer) :
    Nested (writeFrames s bs ++ []) := by
  cases bs <;> trivial

/-- A read callback closes nothing of itself. -/
theorem closes_readFrames (s : Session) (bs : List ReadBuffer) :
    ∀ f ∈ readFrames s bs, f.closes? = none := by
  cases bs <;> simp [readFrames, Frame.closes?]

/-- A write callback closes nothing of itself. -/
theorem closes_writeFrames (s : Session) (bs : List WriteBuffer) :
    ∀ f ∈ writeFrames s bs, f.closes? = none := by
  cases bs <;> simp [writeFrames, Frame.closes?]

/-- The record is in order. -/
structure Recorded (m : System) : Prop where
  nested : Nested m.stack
  known : ∀ fd mask, m.handler.demux.mapEvent.lookup fd = some mask →
    fd ∈ m.handler.clientInfo ∨ fd ∈ m.handler.listenInfo
  closing : ∀ f ∈ m.stack, ∀ s, f.closes? = some s →
    s.fd ∉ m.handler.listenInfo ∧ m.handler.demux.mapEvent.lookup s.fd = none ∧
      ∀ ci, m.handler.clientInfo.lookup s.fd = some ci → ci.session = s

/-- At the beginning the record is in order. -/
theorem recorded_init (listenfdMaxconn : List (Fd × UInt32)) :
    Recorded (init listenfdMaxconn) := by
  refine ⟨trivial, ?_, by simp [init]⟩
  intro fd mask hmask
  have hmem : fd ∈ listenfdMaxconn.map (·.1) := Epoll.lookup_create hmask
  have hfold : ∀ (l : List (Fd × UInt32)) (m : FdMap ListenInfo),
      (fd ∈ l.map (·.1) ∨ fd ∈ m) →
        fd ∈ l.foldl (fun m it => m.insertNew it.1 ⟨it.2, 0⟩) m := by
    intro l
    induction l with
    | nil => simp
    | cons p l ih =>
        intro m hm
        refine ih _ ?_
        rw [← AList.lookup_isSome, FdMap.lookup_insertNew]
        simp only [List.map_cons, List.mem_cons] at hm
        obtain (rfl | hl) | hm := hm
        · exact .inr (by simp)
        · exact .inl hl
        · refine .inr ?_
          rw [← AList.lookup_isSome] at hm
          split
          · next heq => subst heq; simp
          · exact hm
  exact .inr (hfold _ _ (.inl hmem))

namespace Recorded

variable {h h' : EventHandler} {stack : List Frame}

/-- A step that leaves the record of every descriptor empty where it was,
the listeners and the sessions as they were, and closes nobody. -/
theorem of_same (hr : Recorded ⟨h, stack, none⟩) (frames : List Frame) {rest : List Frame}
    (hnested : Nested (frames ++ rest)) (hrest : ∀ f ∈ rest, f ∈ stack)
    (hframes : ∀ f ∈ frames, f.closes? = none)
    (hlisten : ∀ k, k ∈ h'.listenInfo ↔ k ∈ h.listenInfo)
    (hclient : ∀ k, (h'.clientInfo.lookup k).map ClientInfo.session =
      (h.clientInfo.lookup k).map ClientInfo.session)
    (hmask : ∀ k, h.demux.mapEvent.lookup k = none → h'.demux.mapEvent.lookup k = none) :
    Recorded ⟨h', frames ++ rest, none⟩ := by
  refine ⟨hnested, ?_, ?_⟩
  · intro fd mask hfd
    have hold : h.demux.mapEvent.lookup fd ≠ none := fun hnone => by
      rw [hmask fd hnone] at hfd
      cases hfd
    obtain ⟨old, hold⟩ := Option.ne_none_iff_exists'.mp hold
    cases hr.known fd old hold with
    | inl hmem =>
        refine .inl ?_
        rw [← AList.lookup_isSome, ← Option.isSome_map (f := ClientInfo.session)] at hmem ⊢
        rwa [hclient]
    | inr hmem => exact .inr ((hlisten fd).mpr hmem)
  · intro f hf s hs
    cases List.mem_append.mp hf with
    | inl hf => rw [hframes f hf] at hs; cases hs
    | inr hf =>
        obtain ⟨hnew, hnone, hsession⟩ := hr.closing f (hrest f hf) s hs
        refine ⟨fun hmem => hnew ((hlisten s.fd).mp hmem), hmask s.fd hnone, ?_⟩
        intro ci hci
        have hmap := hclient s.fd
        rw [hci] at hmap
        obtain ⟨old, hold, heq⟩ := Option.map_eq_some_iff.mp hmap.symm
        rw [← heq]
        exact hsession old hold

/-- Changing a client's chains leaves the sessions as they were. -/
theorem session_insert {m : FdMap ClientInfo} {fd : Fd} {ci ci' : ClientInfo}
    (hci : m.lookup fd = some ci) (hsession : ci'.session = ci.session) (k : Fd) :
    ((AList.insert fd ci' m).lookup k).map ClientInfo.session =
      (m.lookup k).map ClientInfo.session := by
  rw [FdMap.lookup_insert_eq]
  split
  · next heq => rw [heq, hci, Option.map_some, Option.map_some, hsession]
  · rfl

/-- The call `AddEvent` binds no descriptor that was not bound. -/
theorem lookup_addEvent_none {d : Epoll} (fd : Fd) (ev : EV_TYPE) (k : Fd)
    (hk : d.mapEvent.lookup k = none) :
    (d.addEvent fd ev).mapEvent.lookup k = none := by
  rw [Epoll.lookup_addEvent d fd k ev]
  split
  · next heq => rw [← heq, hk]; rfl
  · exact hk

/-- The call `DelEvent` binds no descriptor that was not bound. -/
theorem lookup_delEvent_none {d : Epoll} (fd : Fd) (ev : EV_TYPE) (k : Fd)
    (hk : d.mapEvent.lookup k = none) :
    (d.delEvent fd ev).mapEvent.lookup k = none := by
  rw [Epoll.lookup_delEvent d fd k ev]
  split
  · next heq => rw [← heq, hk]; rfl
  · exact hk

/-- The call `DelConn` binds no descriptor. -/
theorem lookup_delConn_none {d : Epoll} (fd k : Fd) (hk : d.mapEvent.lookup k = none) :
    (d.delConn fd).mapEvent.lookup k = none := by
  rw [Epoll.lookup_delConn, hk, ite_self]

/-- Entering `OnClose` or `OnError` for a registered client. -/
theorem close (hw : WellFormed ⟨h, stack, none⟩) (hr : Recorded ⟨h, stack, none⟩) {fd : Fd}
    {ci : ClientInfo} (hci : h.clientInfo.lookup fd = some ci) {f : Frame}
    (hf : f.closes? = some ci.session) (hnested : Nested (f :: stack)) {trace : List Event} :
    Recorded ⟨{ h with demux := h.demux.delConn fd, trace := trace }, f :: stack, none⟩ := by
  obtain ⟨hfd, -, hnew⟩ := hw.client fd ci hci
  refine ⟨hnested, ?_, ?_⟩
  · intro k mask hk
    rw [Epoll.lookup_delConn] at hk
    split at hk
    · cases hk
    · exact hr.known k mask hk
  · intro g hg s hs
    cases List.mem_cons.mp hg with
    | inl heq =>
        rw [heq, hf, Option.some.injEq] at hs
        rw [← hs, hfd]
        refine ⟨hnew, by rw [Epoll.lookup_delConn, if_pos rfl], ?_⟩
        intro ci' hci'
        rw [hci, Option.some.injEq] at hci'
        rw [hci']
    | inr hmem =>
        obtain ⟨hlisten, hnone, hsession⟩ := hr.closing g hmem s hs
        exact ⟨hlisten, lookup_delConn_none fd s.fd hnone, hsession⟩

/-- `OnAccept` runs at the bottom of the stack. -/
theorem acceptStep (hr : Recorded ⟨h, [], none⟩) {listenfd : Fd} {accepted : List Fd}
    {frames : List Frame} (hstep : AcceptStep listenfd accepted h h' frames) :
    Recorded ⟨h', frames ++ [], none⟩ := by
  cases hstep with
  | @finish li hli =>
      refine hr.of_same [] trivial (by simp) (by simp) (fun _ => Iff.rfl) (fun _ => rfl) ?_
      intro k hk
      dsimp only [maxConnectionDemux]
      rw [if_pos rfl]
      split
      · exact lookup_delConn_none listenfd k hk
      · exact hk
  | @accept fd rest hfd hrest hfree =>
      refine ⟨trivial, ?_, by simp [Frame.closes?]⟩
      intro k mask hk
      rw [withNewConn, Epoll.lookup_addConn] at hk
      rw [withNewConn, ← AList.lookup_isSome, FdMap.lookup_insertNew]
      split at hk
      · next heq => exact .inl (by rw [if_pos heq]; simp)
      · next hne =>
          rw [if_neg hne, AList.lookup_isSome]
          exact hr.known k mask hk

/-- Counting at a listener leaves the record in order. -/
theorem insert_listener (hr : Recorded ⟨h, stack, none⟩) {listenfd : Fd} {li : ListenInfo}
    (hli : h.listenInfo.lookup listenfd = some li) (li' : ListenInfo) :
    Recorded ⟨h.withListenInfo listenfd li', stack, none⟩ :=
  hr.of_same [] hr.nested (fun _ hf => hf) (by simp)
    (fun _ => FdMap.mem_insert_of_lookup hli) (fun _ => rfl) (fun _ hk => hk)

/-- `ClearSessionAndBuffer` forgets a client that is not on record. -/
theorem clear {f : Frame} {s : Session} (hr : Recorded ⟨h, f :: stack, none⟩)
    (hf : f.closes? = some s) {ci : ClientInfo} {li : ListenInfo}
    (hli : h.listenInfo.lookup ci.listenfd = some li) {rbpool wbpool : BufferPool} :
    Recorded ⟨{ h with
      demux := maxConnectionDemux h.demux ci.listenfd
        { li with currentconns := li.currentconns - 1 } false
      clientInfo := AList.erase s.fd h.clientInfo
      listenInfo := AList.insert ci.listenfd { li with currentconns := li.currentconns - 1 }
        h.listenInfo
      rbpool := rbpool
      wbpool := wbpool }, stack, none⟩ := by
  have hmem (k : Fd) : k ∈ AList.insert ci.listenfd
      { li with currentconns := li.currentconns - 1 } h.listenInfo ↔ k ∈ h.listenInfo :=
    FdMap.mem_insert_of_lookup hli
  obtain ⟨hnew, hnone, -⟩ := hr.closing f List.mem_cons_self s hf
  refine ⟨hr.nested.pop, ?_, ?_⟩
  · intro k mask hk
    dsimp only at hk ⊢
    by_cases hlisten : k = ci.listenfd
    · refine .inr ((hmem k).mpr ?_)
      rw [hlisten]
      exact FdMap.mem_of_lookup hli
    · rw [Epoll.lookup_maxConnectionDemux _ _ _ hlisten] at hk
      have hne : k ≠ s.fd := fun heq => by
        rw [heq, hnone] at hk
        cases hk
      cases hr.known k mask hk with
      | inl hclient =>
          refine .inl ?_
          rw [← AList.lookup_isSome, FdMap.lookup_erase_eq, if_neg hne, AList.lookup_isSome]
          exact hclient
      | inr hlisten => exact .inr ((hmem k).mpr hlisten)
  · intro g hg t ht
    obtain ⟨hlisten, hnone', hsession⟩ := hr.closing g (List.mem_cons_of_mem f hg) t ht
    have hne : t.fd ≠ ci.listenfd := fun heq => by
      apply hlisten
      rw [heq]
      exact FdMap.mem_of_lookup hli
    refine ⟨fun hin => hlisten ((hmem t.fd).mp hin), ?_, ?_⟩
    · rw [Epoll.lookup_maxConnectionDemux _ _ _ hne]
      exact hnone'
    · intro b hb
      rw [FdMap.lookup_erase_eq] at hb
      split at hb
      · cases hb
      · exact hsession b hb

/-- Every call leaves the record in order. -/
theorem effect {m m' : System} {c : Call} (heff : Effect m c m') (hw : WellFormed m)
    (hr : Recorded m) : Recorded m' := by
  cases heff with
  | @asyncRead h stack fd n ci rb hci hrb =>
      exact hr.of_same [] hr.nested (fun _ hf => hf) (by simp) (fun _ => Iff.rfl)
        (session_insert hci rfl) (lookup_addEvent_none fd .CFEV_READ)
  | @asyncWrite h stack fd buf n ci wb hci hlen hwb =>
      exact hr.of_same [] hr.nested (fun _ hf => hf) (by simp) (fun _ => Iff.rfl)
        (session_insert hci rfl) (lookup_addEvent_none fd .CFEV_WRITE)
  | close hc hci => exact hr.close hw hci rfl (hr.nested.push _)
  | onError hci => exact hr.close hw hci rfl trivial
  | @onRead h fd kernel ci p hci hp hok =>
      rw [← List.append_nil (readFrames ci.session p.complete)]
      refine hr.of_same _ (nested_readFrames _ _) (fun _ hf => hf) (closes_readFrames _ _)
        (fun _ => Iff.rfl) (session_insert hci rfl) ?_
      intro k hk
      dsimp only
      split
      · exact lookup_delEvent_none fd .CFEV_READ k hk
      · exact hk
  | @onWrite h fd kernel ci p hci hp hok =>
      rw [← List.append_nil (writeFrames ci.session p.complete)]
      refine hr.of_same _ (nested_writeFrames _ _) (fun _ hf => hf) (closes_writeFrames _ _)
        (fun _ => Iff.rfl) (session_insert hci rfl) ?_
      intro k hk
      dsimp only
      split
      · exact lookup_delEvent_none fd .CFEV_WRITE k hk
      · exact hk
  | onTimeout => exact ⟨trivial, hr.known, by simp [Frame.closes?]⟩
  | onAcceptNothing => exact hr
  | @onAccept h h' listenfd accepted frames hnew haccept =>
      rw [← List.append_nil frames]
      exact hr.acceptStep haccept
  | @retAccepting h h' stack listenfd s rest frames li hli haccept =>
      cases hr.nested.bottom (fun _ hf => by cases hf)
      have hpop : Recorded ⟨h, [], none⟩ := ⟨trivial, hr.known, by simp⟩
      exact (hpop.insert_listener hli _).acceptStep haccept
  | @retReading h stack s rb rest =>
      cases hr.nested.bottom (fun _ hf => by cases hf)
      exact hr.of_same _ (nested_readFrames s rest) (by simp) (closes_readFrames s rest)
        (fun _ => Iff.rfl) (fun _ => rfl) (fun _ hk => hk)
  | @retWriting h stack s wb rest =>
      cases hr.nested.bottom (fun _ hf => by cases hf)
      exact hr.of_same _ (nested_writeFrames s rest) (by simp) (closes_writeFrames s rest)
        (fun _ => Iff.rfl) (fun _ => rfl) (fun _ hk => hk)
  | retClosing hf hci hli =>
      obtain rfl | rfl := hf
      · exact hr.clear rfl hli
      · exact hr.clear rfl hli
  | @retTimingOut h stack =>
      cases hr.nested.bottom (fun _ hf => by cases hf)
      exact ⟨trivial, hr.known, by simp⟩

end Recorded

end System

end CppFastDevelop
