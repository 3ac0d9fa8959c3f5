import CppFastDevelop.NetServer.Attached
import CppFastDevelop.NetServer.Listener
import Mathlib.Data.Int.Interval

/-!
# CppFastDevelop.NetServer.Counting

The counter of a listener, and when the listener is watched.  `AddNewConn`
registers a client before its callback and counts it after, and a close from
within that callback takes it off again, so the counter lags behind by the
connection being accepted and may wrap below zero.  Modulo `2 ^ 32` the
counter and that connection are always the clients registered; when no
handler is running nothing is being accepted, and there are fewer clients
than descriptors.

A listener is not watched only while it has as many clients as it may have,
so no close that makes room for another one is missed.
-/

namespace CppFastDevelop

/-! ## descriptors -/

/-- What `accept` returns when it does not fail: a C int that is not
negative. -/
def IsDescriptor (fd : Fd) : Prop := 0 ≤ fd ∧ fd < 2 ^ 31

instance (fd : Fd) : Decidable (IsDescriptor fd) :=
  inferInstanceAs (Decidable (0 ≤ fd ∧ fd < 2 ^ 31))

/-- There are at most as many clients as there are descriptors. -/
theorem clientsOf_le {clientInfo : FdMap ClientInfo}
    (h : ∀ fd ci, clientInfo.lookup fd = some ci → IsDescriptor fd) (listenfd : Fd) :
    clientsOf listenfd clientInfo ≤ 2 ^ 31 := by
  have hkeys : clientInfo.keys.toFinset ⊆ Finset.Ico (0 : Int) (2 ^ 31) := by
    intro fd hfd
    have hmem : fd ∈ clientInfo := List.mem_toFinset.mp hfd
    obtain ⟨ci, hci⟩ := FdMap.mem_iff_exists.mp hmem
    exact Finset.mem_Ico.mpr (h fd ci hci)
  have hcard := Finset.card_le_card hkeys
  rw [List.toFinset_card_of_nodup clientInfo.keys_nodup, Int.card_Ico] at hcard
  have hlen : clientInfo.values.length = clientInfo.keys.length := by
    rw [FdMap.values, AList.keys, List.keys, List.length_map, List.length_map]
  calc clientsOf listenfd clientInfo
      ≤ clientInfo.values.length := List.countP_le_length
    _ = clientInfo.keys.length := hlen
    _ ≤ 2 ^ 31 := hcard

namespace System

open EventHandler

/-- The connections of `OnAccept` have descriptors. -/
def Call.Descriptors : Call → Prop
  | .onAccept _ accepted => ∀ fd ∈ accepted, IsDescriptor fd
  | _ => True

instance : DecidablePred Call.Descriptors
  | .onAccept _ accepted => inferInstanceAs (Decidable (∀ fd ∈ accepted, IsDescriptor fd))
  | .onRead _ _ | .onWrite _ _ | .onClose _ | .onError _ | .onTimeout | .asyncRead _ _
  | .asyncWrite _ _ _ | .asyncClose _ | .ret => inferInstanceAs (Decidable True)

/-- All descriptors are descriptors. -/
structure Descriptors (m : System) : Prop where
  client : ∀ fd ci, m.handler.clientInfo.lookup fd = some ci → IsDescriptor fd
  waiting : ∀ f ∈ m.stack, ∀ fd ∈ f.waiting, IsDescriptor fd

/-- At the beginning there are listening descriptors only. -/
theorem descriptors_init (listenfdMaxconn : List (Fd × UInt32)) :
    Descriptors (init listenfdMaxconn) :=
  ⟨fun fd ci hci => by simp [init, EventHandler.init] at hci, by simp [init]⟩

namespace Descriptors

variable {h h' : EventHandler} {stack : List Frame}

/-- Accepted descriptors are not negative, so registering them keeps the descriptors in range. -/
theorem acceptStep (hd : Descriptors ⟨h, stack, none⟩) {listenfd : Fd} {accepted : List Fd}
    {frames : List Frame} (hfds : ∀ fd ∈ accepted, IsDescriptor fd)
    (hstep : AcceptStep listenfd accepted h h' frames) :
    Descriptors ⟨h', frames ++ stack, none⟩ := by
  cases hstep with
  | finish => exact ⟨hd.client, hd.waiting⟩
  | @accept fd rest hfd hrest hnew =>
      refine ⟨FdMap.forall_insertNew hd.client fun _ => hfds fd hfd, ?_⟩
      intro f hf
      cases List.mem_append.mp hf with
      | inl hf =>
          rw [List.mem_singleton.mp hf]
          exact fun k hk => hfds k (hrest k hk)
      | inr hf => exact hd.waiting f hf

/-- Frames that wait for no descriptor may be put on the stack. -/
theorem append_frames (hd : Descriptors ⟨h, stack, none⟩) {frames : List Frame}
    (hframes : ∀ f ∈ frames, f.waiting = []) :
    ∀ f ∈ frames ++ stack, ∀ fd ∈ f.waiting, IsDescriptor fd := by
  intro f hf
  cases List.mem_append.mp hf with
  | inl hf => rw [hframes f hf]; simp
  | inr hf => exact hd.waiting f hf

/-- Leaving a callback keeps the descriptors in range. -/
theorem pop {f : Frame} (hd : Descriptors ⟨h, f :: stack, none⟩) :
    Descriptors ⟨h, stack, none⟩ :=
  ⟨hd.client, fun g hg => hd.waiting g (List.mem_cons_of_mem f hg)⟩

/-- Every call keeps the descriptors in range, given that `accept` answers such descriptors. -/
theorem effect {m m' : System} {c : Call} (hc : c.Descriptors) (heff : Effect m c m')
    (hd : Descriptors m) : Descriptors m' := by
  cases heff with
  | asyncRead hci =>
      exact ⟨FdMap.forall_insert hd.client (hd.client _ _ hci), hd.waiting⟩
  | asyncWrite hci =>
      exact ⟨FdMap.forall_insert hd.client (hd.client _ _ hci), hd.waiting⟩
  | @close h stack c fd ci =>
      have hframes : ∀ f ∈ [Frame.closing ci.session], f.waiting = [] := by simp [Frame.waiting]
      exact ⟨hd.client, hd.append_frames hframes⟩
  | onError => exact ⟨hd.client, by simp [Frame.waiting]⟩
  | @onRead h fd kernel ci p hci =>
      refine ⟨FdMap.forall_insert hd.client (hd.client _ _ hci), fun f hf => ?_⟩
      rw [(session_readFrames _ _ f hf).2]
      simp
  | @onWrite h fd kernel ci p hci =>
      refine ⟨FdMap.forall_insert hd.client (hd.client _ _ hci), fun f hf => ?_⟩
      rw [(session_writeFrames _ _ f hf).2]
      simp
  | onTimeout => exact ⟨hd.client, by simp [Frame.waiting]⟩
  | onAcceptNothing => exact hd
  | onAccept hnew haccept =>
      have hd' := hd.acceptStep hc haccept
      rwa [List.append_nil] at hd'
  | @retAccepting h h' stack listenfd session rest frames li hli haccept =>
      have hd' : Descriptors
          ⟨h.withListenInfo listenfd { li with currentconns := li.currentconns + 1 }, stack,
            none⟩ := ⟨hd.pop.client, hd.pop.waiting⟩
      exact hd'.acceptStep (hd.waiting _ List.mem_cons_self) haccept
  | retReading =>
      exact ⟨hd.client, hd.pop.append_frames fun f hf => (session_readFrames _ _ f hf).2⟩
  | retWriting =>
      exact ⟨hd.client, hd.pop.append_frames fun f hf => (session_writeFrames _ _ f hf).2⟩
  | retClosing => exact ⟨FdMap.forall_erase hd.client, hd.pop.waiting⟩
  | retTimingOut => exact hd.pop

end Descriptors

end System

namespace ListenerView

/-- The counter is right, and a listener that is not watched is full.  At
most one connection is being accepted. -/
structure Kept (v : ListenerView) : Prop where
  single : v.accepting.length ≤ 1
  counted : (v.info.currentconns.toNat + v.accepting.length) % 2 ^ 32 = v.clients % 2 ^ 32
  opened : v.watched = true ∨
    0 < v.info.maxconns.toNat ∧ v.info.maxconns.toNat + v.accepting.length ≤ v.clients

/-- Moreover a listener that is watched is not full, but when it is just
accepting connections. -/
structure Gated (v : ListenerView) : Prop extends Kept v where
  shut : v.accepting = [] → v.watched = true →
    v.info.maxconns.toNat = 0 ∨ v.clients < v.info.maxconns.toNat

variable {v v' : ListenerView}

/-- When nothing is being accepted the counter is right. -/
theorem Kept.currentconns_eq (h : Kept v) (hidle : v.accepting = [])
    (hle : v.clients < 2 ^ 32) : v.info.currentconns.toNat = v.clients := by
  have hcounted := h.counted
  have hlt := v.info.currentconns.toNat_lt
  rw [hidle, List.length_nil] at hcounted
  omega

/-- The check at the end of `OnAccept` leaves a listener gated. -/
theorem Kept.pause (h : Kept v) (hidle : v.accepting = []) (hle : v.clients < 2 ^ 32) :
    Gated v.pause := by
  have hcount := h.currentconns_eq hidle hle
  unfold ListenerView.pause
  split
  · next hfull =>
      have hmax : v.info.maxconns.toNat ≤ v.clients := by
        rw [← hcount]
        exact UInt32.le_iff_toNat_le.mp hfull.2
      have hpos : 0 < v.info.maxconns.toNat := UInt32.lt_iff_toNat_lt.mp hfull.1
      refine ⟨⟨h.single, h.counted, .inr ⟨hpos, ?_⟩⟩, fun _ hwatched => by cases hwatched⟩
      show v.info.maxconns.toNat + v.accepting.length ≤ v.clients
      rw [hidle, List.length_nil]
      exact hmax
  · next hfull =>
      rw [UInt32.lt_iff_toNat_lt, UInt32.le_iff_toNat_le, hcount, UInt32.toNat_zero] at hfull
      exact ⟨h, fun _ _ => by omega⟩

/-- A new client is registered; it is not counted yet. -/
theorem Kept.accept (h : Kept v) (hidle : v.accepting = []) (w : Nat) :
    Gated { v with clients := v.clients + 1, accepting := w :: v.accepting } := by
  have hcounted := h.counted
  have hopened := h.opened
  rw [hidle, List.length_nil] at hcounted hopened
  refine ⟨⟨?_, ?_, ?_⟩, fun hnil => by cases hnil⟩
  · rw [List.length_cons, hidle, List.length_nil]
  · show (v.info.currentconns.toNat + (w :: v.accepting).length) % 2 ^ 32 =
      (v.clients + 1) % 2 ^ 32
    rw [List.length_cons, hidle, List.length_nil]
    omega
  · show v.watched = true ∨ 0 < v.info.maxconns.toNat ∧
      v.info.maxconns.toNat + (w :: v.accepting).length ≤ v.clients + 1
    rw [List.length_cons, hidle, List.length_nil]
    grind

/-- One turn of the loop of `OnAccept` leaves a listener gated. -/
theorem Kept.acceptStep {k : Nat} (h : Kept v) (hidle : v.accepting = [])
    (hle : v.clients < 2 ^ 32) (hstep : AcceptStep k v v') : Gated v' := by
  cases hstep with
  | finish => exact h.pause hidle hle
  | accept => exact h.accept hidle _

/-- A callback of `OnAccept` returns and its connection is counted. -/
theorem Gated.count {li : ListenInfo} {watched : Bool} {n k : Nat} {ks : List Nat}
    (h : Gated ⟨li, watched, n, k :: ks⟩) :
    ks = [] ∧ Kept ⟨{ li with currentconns := li.currentconns + 1 }, watched, n, ks⟩ := by
  have hsingle : (k :: ks).length ≤ 1 := h.single
  have hcounted : (li.currentconns.toNat + (k :: ks).length) % 2 ^ 32 = n % 2 ^ 32 := h.counted
  have hopened : watched = true ∨
    0 < li.maxconns.toNat ∧ li.maxconns.toNat + (k :: ks).length ≤ n := h.opened
  rw [List.length_cons] at hsingle hcounted hopened
  have hnil : ks = [] := List.length_eq_zero_iff.mp (by omega)
  subst hnil
  rw [List.length_nil] at hcounted hopened
  refine ⟨rfl, Nat.zero_le 1, ?_, ?_⟩
  · show ((li.currentconns + 1).toNat + 0) % 2 ^ 32 = n % 2 ^ 32
    rw [UInt32.toNat_add, UInt32.toNat_one]
    omega
  · show watched = true ∨ 0 < li.maxconns.toNat ∧ li.maxconns.toNat + 0 ≤ n
    grind

/-- A client is closed.  If the listener is not watched, its counter is not
below its limit and does not wrap. -/
theorem Gated.restore {li : ListenInfo} {watched : Bool} {n : Nat} {ks : List Nat}
    (h : Gated ⟨li, watched, n + 1, ks⟩) (hle : n + 1 < 2 ^ 32) :
    Gated (ListenerView.restore
      ⟨{ li with currentconns := li.currentconns - 1 }, watched, n, ks⟩) := by
  have hcounted : (li.currentconns.toNat + ks.length) % 2 ^ 32 = (n + 1) % 2 ^ 32 := h.counted
  have hopened : watched = true ∨
    0 < li.maxconns.toNat ∧ li.maxconns.toNat + ks.length ≤ n + 1 := h.opened
  have hshut : ks = [] → watched = true → li.maxconns.toNat = 0 ∨ n + 1 < li.maxconns.toNat :=
    h.shut
  have hlt := li.currentconns.toNat_lt
  have hsub : (li.currentconns - 1).toNat = (2 ^ 32 - 1 + li.currentconns.toNat) % 2 ^ 32 := by
    rw [UInt32.toNat_sub, UInt32.toNat_one]
  have hcounted' : ((li.currentconns - 1).toNat + ks.length) % 2 ^ 32 = n % 2 ^ 32 := by
    rw [hsub]
    omega
  simp only [ListenerView.restore, UInt32.lt_iff_toNat_lt, UInt32.toNat_zero]
  split
  · next hroom =>
      refine ⟨⟨h.single, hcounted', .inl rfl⟩, fun hidle _ => .inr ?_⟩
      have hnil : ks = [] := hidle
      show n < li.maxconns.toNat
      rw [hnil, List.length_nil] at hcounted'
      omega
  · next hroom =>
      refine ⟨⟨h.single, hcounted', ?_⟩, fun hidle hwatched => ?_⟩
      · show watched = true ∨ 0 < li.maxconns.toNat ∧ li.maxconns.toNat + ks.length ≤ n
        exact hopened.imp_right fun hfull => by omega
      · have hold := hshut hidle hwatched
        show li.maxconns.toNat = 0 ∨ n < li.maxconns.toNat
        omega

/-- What a call does keeps a listener gated. -/
theorem Gated.step {listenfd : Fd} {c : System.Call}
    (hstep : System.ListenerStep listenfd c v v') (h : Gated v) (hle : v.clients < 2 ^ 32) :
    Gated v' := by
  cases hstep with
  | same => exact h
  | onAccept hidle haccept => exact h.toKept.acceptStep hidle hle haccept
  | retAccepting haccept =>
      obtain ⟨hnil, hkept⟩ := h.count
      exact hkept.acceptStep hnil hle haccept
  | retClosing => exact h.restore hle

end ListenerView

namespace System

open EventHandler

/-! ## all listeners of a run -/

/-- Every listener is gated. -/
def Listening (m : System) : Prop :=
  ∀ fd li, m.handler.listenInfo.lookup fd = some li → (m.listenerView fd li).Gated

/-- Epoll watches every listener from the start. -/
theorem mem_interest_create {listenfds : List Fd} {fd : Fd} (hfd : fd ∈ listenfds) :
    fd ∈ (Epoll.create listenfds).interest := by
  have hfold : ∀ (l : List Fd) (d : Epoll), fd ∈ l ∨ fd ∈ d.interest →
      fd ∈ (l.foldl (fun d fd => d.addConn fd .CFEV_READ) d).interest := by
    intro l
    induction l with
    | nil => exact fun d hmem => hmem.resolve_left List.not_mem_nil
    | cons k l ih =>
        intro d hmem
        refine ih _ ?_
        rw [Epoll.mem_interest_addConn]
        grind
  exact hfold listenfds _ (.inl hfd)

/-- At the beginning no listener has a connection. -/
theorem currentconns_init {listenfdMaxconn : List (Fd × UInt32)} {fd : Fd} {li : ListenInfo}
    (hli : (init listenfdMaxconn).handler.listenInfo.lookup fd = some li) :
    li.currentconns = 0 := by
  have hfold : ∀ (l : List (Fd × UInt32)) (m : FdMap ListenInfo),
      (∀ (fd : Fd) (li : ListenInfo), m.lookup fd = some li → li.currentconns = 0) →
      ∀ (fd : Fd) (li : ListenInfo),
        (l.foldl (fun m it => m.insertNew it.1 ⟨it.2, 0⟩) m).lookup fd = some li →
        li.currentconns = 0 := by
    intro l
    induction l with
    | nil => exact fun _ hm => hm
    | cons it l ih =>
        exact fun m hm => ih _ (FdMap.forall_insertNew
          (P := fun _ (li : ListenInfo) => li.currentconns = 0) hm fun _ => rfl)
  exact hfold listenfdMaxconn ∅ (fun fd li h => by simp at h) fd li hli

/-- At the beginning every listener is gated: it has no clients and counts none. -/
theorem listening_init (listenfdMaxconn : List (Fd × UInt32)) :
    Listening (init listenfdMaxconn) := by
  intro fd li hli
  have hmem : fd ∈ (init listenfdMaxconn).handler.listenInfo := FdMap.mem_of_lookup hli
  have hwatched : fd ∈ (init listenfdMaxconn).handler.demux.interest :=
    mem_interest_create ((Attached.init listenfdMaxconn).listener fd hmem)
  refine ⟨⟨Nat.zero_le 1, ?_, .inl (decide_eq_true hwatched)⟩, fun _ _ => ?_⟩
  · show (li.currentconns.toNat + 0) % 2 ^ 32 = 0 % 2 ^ 32
    rw [currentconns_init hli]
    rfl
  · show li.maxconns.toNat = 0 ∨ 0 < li.maxconns.toNat
    omega

/-- The tables are in order, clients are descriptors and listeners gated. -/
structure Listens (m : System) : Prop where
  wellFormed : WellFormed m
  descriptors : Descriptors m
  listening : Listening m

/-- At the beginning every listener is counted, and watched as its gate says. -/
theorem listens_init (listenfdMaxconn : List (Fd × UInt32)) : Listens (init listenfdMaxconn) :=
  ⟨wellFormed_init _, descriptors_init _, listening_init _⟩

/-- There are fewer clients than the counter can count. -/
theorem Descriptors.clientsOf_lt {m : System} (hd : Descriptors m) (fd : Fd) :
    clientsOf fd m.handler.clientInfo < 2 ^ 32 :=
  Nat.lt_of_le_of_lt (clientsOf_le hd.client fd) (by decide)

/-- Every call keeps the counts of all the listeners. -/
theorem Listens.effect {m m' : System} {c : Call} (hc : c.Descriptors) (heff : Effect m c m')
    (hm : Listens m) : Listens m' := by
  refine ⟨hm.wellFormed.effect heff, hm.descriptors.effect hc heff, fun fd li' hli' => ?_⟩
  obtain ⟨li, hli, hstep⟩ := listener_step heff hm.wellFormed hli'
  exact (hm.listening fd li hli).step hstep (hm.descriptors.clientsOf_lt fd)

/-- **The counters are right between handlers.**  When no handler is
running, `currentconns` of every listener is the number of its clients. -/
theorem currentconns_eq_clients {listenfdMaxconn : List (Fd × UInt32)} {cs : List Call}
    {m : System} (hfds : ∀ c ∈ cs, c.Descriptors)
    (hrun : Machine.run step (init listenfdMaxconn) cs = some m) (hok : m.failed = none)
    (hidle : m.stack = []) {fd : Fd} {li : ListenInfo}
    (hli : m.handler.listenInfo.lookup fd = some li) :
    li.currentconns.toNat = clientsOf fd m.handler.clientInfo := by
  have halong := Machine.along_of_forall_mem step hfds (init listenfdMaxconn)
  have hm : Listens m := run_invariant_of_effect Listens
    (fun _ _ _ hc heff hm => hm.effect hc heff) halong hrun (listens_init listenfdMaxconn) hok
  have haccepting : (m.listenerView fd li).accepting = [] := by
    rw [listenerView, hidle]
    rfl
  exact (hm.listening fd li hli).currentconns_eq haccepting (hm.descriptors.clientsOf_lt fd)

/-- Two connections are taken from the backlog, and the first is closed in
its `OnAcceptComplete`, before it is counted. -/
def closeWhileAccepting : List Call :=
  [.onAccept 3 [5, 6], .asyncClose 5, .ret, .ret, .ret]

/-- A connection closed while its batch is still being accepted is counted off. -/
theorem currentconns_eq_clients_closeWhileAccepting : ∃ m li,
    Machine.run step (init [(3, 0)]) closeWhileAccepting = some m ∧
    m.handler.listenInfo.lookup 3 = some li ∧
    li.currentconns.toNat = clientsOf 3 m.handler.clientInfo := by
  have hcheck : (Machine.run step (init [(3, 0)]) closeWhileAccepting).any (fun m =>
      m.failed = none ∧ m.stack = [] ∧ (m.handler.listenInfo.lookup 3).isSome) = true := by
    decide +kernel
  obtain ⟨m, hrun, hend⟩ := (Option.any_eq_true _ _).mp hcheck
  obtain ⟨hok, hidle, hsome⟩ := of_decide_eq_true hend
  obtain ⟨li, hli⟩ := Option.isSome_iff_exists.mp hsome
  exact ⟨m, li, hrun, hli, currentconns_eq_clients (by decide) hrun hok hidle hli⟩

end System

end CppFastDevelop
