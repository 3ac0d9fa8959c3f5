import CppFastDevelop.NetServer.Sessions

/-!
# CppFastDevelop.NetServer.Listener

A run as one listener sees it: its limit and its counter, whether the kernel
watches it, how many of its clients are registered, and the connections it
is accepting.  `listener_step` says what a call does to this view; what is
proved of it holds of every listener of the whole system.
-/

namespace CppFastDevelop

/-! ## clients and accepts of a listener -/

/-- How many connections `OnAccept` has still to look at, if the frame is one
of the listener. -/
def Frame.accepts? (listenfd : Fd) : Frame → Option Nat
  | .accepting fd _ rest => if fd = listenfd then some rest.length else none
  | _ => none

/-- The connections of a listener that are being accepted: how many are
waiting behind each. -/
def accepting (listenfd : Fd) (stack : List Frame) : List Nat :=
  stack.filterMap (Frame.accepts? listenfd)

/-- How many clients of a listener are registered. -/
def clientsOf (listenfd : Fd) (clientInfo : FdMap ClientInfo) : Nat :=
  clientInfo.values.countP fun ci => ci.listenfd = listenfd

section Clients

variable {clientInfo : FdMap ClientInfo} {fd listenfd : Fd} {ci : ClientInfo}

/-- Erasing a client takes one off the count of its listener, and of no other. -/
theorem clientsOf_of_lookup (h : clientInfo.lookup fd = some ci) (listenfd : Fd) :
    clientsOf listenfd clientInfo =
      clientsOf listenfd (AList.erase fd clientInfo) + if ci.listenfd = listenfd then 1 else 0 := by
  rw [clientsOf, (FdMap.perm_values h).countP_eq, List.countP_cons]
  simp [clientsOf]

/-- A change of a client's chains. -/
theorem clientsOf_insert (h : clientInfo.lookup fd = some ci) {ci' : ClientInfo}
    (hlistenfd : ci'.listenfd = ci.listenfd) (listenfd : Fd) :
    clientsOf listenfd (AList.insert fd ci' clientInfo) = clientsOf listenfd clientInfo := by
  rw [clientsOf_of_lookup h, ← hlistenfd, clientsOf, FdMap.values_insert, List.countP_cons]
  simp [clientsOf]

/-- Registering a client adds one to the count of its listener, and to no other. -/
theorem clientsOf_insertNew (h : clientInfo.lookup fd = none) (ci : ClientInfo)
    (listenfd : Fd) : clientsOf listenfd (clientInfo.insertNew fd ci) =
      clientsOf listenfd clientInfo + if ci.listenfd = listenfd then 1 else 0 := by
  rw [clientsOf, FdMap.values_insertNew h, List.countP_cons]
  simp [clientsOf]

end Clients

namespace EventHandler

/-- Read callbacks accept nothing. -/
theorem accepting_readFrames (session : Session) (bs : List ReadBuffer) (listenfd : Fd)
    (stack : List Frame) :
    accepting listenfd (readFrames session bs ++ stack) = accepting listenfd stack := by
  cases bs <;> rfl

/-- Write callbacks accept nothing. -/
theorem accepting_writeFrames (session : Session) (bs : List WriteBuffer) (listenfd : Fd)
    (stack : List Frame) :
    accepting listenfd (writeFrames session bs ++ stack) = accepting listenfd stack := by
  cases bs <;> rfl

end EventHandler

/-! ## the view of a listener -/

/-- What there is about one listener. -/
structure ListenerView where
  info : ListenInfo
  watched : Bool
  clients : Nat
  accepting : List Nat

namespace ListenerView

/-- `CheckMaxConnection` after connections were accepted. -/
def pause (v : ListenerView) : ListenerView :=
  if 0 < v.info.maxconns ∧ v.info.maxconns ≤ v.info.currentconns then { v with watched := false }
  else v

/-- `CheckMaxConnection` after a connection was closed. -/
def restore (v : ListenerView) : ListenerView :=
  if 0 < v.info.maxconns ∧ v.info.currentconns < v.info.maxconns then { v with watched := true }
  else v

/-- `OnAccept` with `k` connections to look at runs to its next callback, or
to its end. -/
inductive AcceptStep (k : Nat) (v : ListenerView) : ListenerView → Prop
  | finish : AcceptStep k v v.pause
  | accept {w : Nat} (hw : w < k) :
    AcceptStep k v { v with clients := v.clients + 1, accepting := w :: v.accepting }

end ListenerView

namespace System

open EventHandler

def listenerView (m : System) (listenfd : Fd) (li : ListenInfo) : ListenerView where
  info := li
  watched := listenfd ∈ m.handler.demux.interest
  clients := clientsOf listenfd m.handler.clientInfo
  accepting := accepting listenfd m.stack

/-- What a call does to the view of a listener. -/
inductive ListenerStep (listenfd : Fd) : Call → ListenerView → ListenerView → Prop
  | same (c : Call) (v : ListenerView) : ListenerStep listenfd c v v
  | onAccept {accepted : List Fd} {v v' : ListenerView} (hidle : v.accepting = [])
      (hstep : v.AcceptStep accepted.length v') :
    ListenerStep listenfd (.onAccept listenfd accepted) v v'
  | retAccepting {li : ListenInfo} {watched : Bool} {n k : Nat} {ks : List Nat}
      {v' : ListenerView} (hstep : ListenerView.AcceptStep k
        ⟨{ li with currentconns := li.currentconns + 1 }, watched, n, ks⟩ v') :
    ListenerStep listenfd .ret ⟨li, watched, n, k :: ks⟩ v'
  | retClosing {li : ListenInfo} {watched : Bool} {n : Nat} {ks : List Nat} :
    ListenerStep listenfd .ret ⟨li, watched, n + 1, ks⟩
      (ListenerView.restore ⟨{ li with currentconns := li.currentconns - 1 }, watched, n, ks⟩)

/-! ## what a call does to the view -/

/-- What makes the views of a listener before and after a change equal. -/
theorem listenerView_congr {m m' : System} {listenfd : Fd} (li : ListenInfo)
    (hwatched : listenfd ∈ m'.handler.demux.interest ↔ listenfd ∈ m.handler.demux.interest)
    (hclients : clientsOf listenfd m'.handler.clientInfo = clientsOf listenfd m.handler.clientInfo)
    (haccepting : accepting listenfd m'.stack = accepting listenfd m.stack) :
    m'.listenerView listenfd li = m.listenerView listenfd li := by
  simp only [listenerView, hwatched, hclients, haccepting]

/-- `CheckMaxConnection` watches and unwatches no other listener. -/
theorem mem_interest_maxConnectionDemux {d : Epoll} {fd k : Fd} {li : ListenInfo} {b : Bool}
    (hne : k ≠ fd) : k ∈ (maxConnectionDemux d fd li b).interest ↔ k ∈ d.interest := by
  unfold maxConnectionDemux
  split <;> split <;>
    simp [Epoll.mem_interest_addConn, Epoll.mem_interest_delConn, hne]

section Step

variable {h h' : EventHandler} {stack : List Frame} {listenfd : Fd}

/-- Seen from the listener, `CheckMaxConnection` at the end of `OnAccept` is `pause`. -/
theorem listenerView_pause (li : ListenInfo) :
    listenerView ⟨{ h with demux := maxConnectionDemux h.demux listenfd li true }, stack, none⟩
      listenfd li = (listenerView ⟨h, stack, none⟩ listenfd li).pause := by
  simp only [listenerView, ListenerView.pause, maxConnectionDemux, if_true]
  by_cases hfull : 0 < li.maxconns ∧ li.maxconns ≤ li.currentconns
  · simp [hfull, Epoll.mem_interest_delConn]
  · simp only [hfull, if_false]

/-- What `OnAccept` of any listener does to the view of one. -/
theorem listenerView_acceptStep (stack : List Frame) {fd : Fd} {accepted : List Fd}
    {frames : List Frame} {li : ListenInfo} (hstep : AcceptStep fd accepted h h' frames)
    (hnew : ∀ k ∈ accepted, k ∉ h.listenInfo) (hli : h'.listenInfo.lookup listenfd = some li) :
    h.listenInfo.lookup listenfd = some li ∧
      if listenfd = fd then
        ListenerView.AcceptStep accepted.length (listenerView ⟨h, stack, none⟩ listenfd li)
          (listenerView ⟨h', frames ++ stack, none⟩ listenfd li)
      else listenerView ⟨h', frames ++ stack, none⟩ listenfd li =
        listenerView ⟨h, stack, none⟩ listenfd li := by
  cases hstep with
  | @finish li₀ hli₀ =>
      refine ⟨hli, ?_⟩
      split
      · next heq =>
          subst heq
          cases hli₀.symm.trans hli
          rw [List.nil_append, listenerView_pause]
          exact .finish
      · next hne =>
          exact listenerView_congr li (mem_interest_maxConnectionDemux hne) rfl rfl
  | @accept k rest hk hrest hfree hshort =>
      refine ⟨hli, ?_⟩
      have hother : listenfd ≠ k := fun heq => hnew k hk (heq ▸ FdMap.mem_of_lookup hli)
      have hwatched : listenfd ∈ (h.demux.addConn k .CFEV_CLOSE).interest ↔
          listenfd ∈ h.demux.interest := by
        rw [Epoll.mem_interest_addConn]
        exact or_iff_right hother
      have hclients := clientsOf_insertNew hfree ⟨⟨h.nextSession, k⟩, fd, [], []⟩ listenfd
      split
      · next heq =>
          subst heq
          have hview : listenerView ⟨h.withNewConn listenfd k,
              [.accepting listenfd ⟨h.nextSession, k⟩ rest] ++ stack, none⟩ listenfd li =
              { listenerView ⟨h, stack, none⟩ listenfd li with
                clients := (listenerView ⟨h, stack, none⟩ listenfd li).clients + 1
                accepting := rest.length ::
                  (listenerView ⟨h, stack, none⟩ listenfd li).accepting } := by
            rw [if_pos rfl] at hclients
            simp only [listenerView, withNewConn, hwatched, hclients, accepting,
              List.singleton_append, List.filterMap_cons, Frame.accepts?, if_true]
          rw [hview]
          exact .accept hshort
      · next hne =>
          rw [if_neg (Ne.symm hne)] at hclients
          refine listenerView_congr li hwatched hclients ?_
          simp [accepting, Frame.accepts?, Ne.symm hne]

/-- A client whose listener this is has been closed. -/
theorem listenerView_restore (stack : List Frame) {fd : Fd} {ci : ClientInfo}
    (hci : h.clientInfo.lookup fd = some ci) (hlistenfd : ci.listenfd = listenfd)
    (li li' : ListenInfo) (listenInfo : FdMap ListenInfo) (rbpool wbpool : BufferPool) :
    ∃ n, listenerView ⟨h, stack, none⟩ listenfd li =
        ⟨li, decide (listenfd ∈ h.demux.interest), n + 1, accepting listenfd stack⟩ ∧
      listenerView ⟨{ h with
          demux := maxConnectionDemux h.demux listenfd li' false
          clientInfo := AList.erase fd h.clientInfo
          listenInfo := listenInfo
          rbpool := rbpool
          wbpool := wbpool }, stack, none⟩ listenfd li' =
        ListenerView.restore
          ⟨li', decide (listenfd ∈ h.demux.interest), n, accepting listenfd stack⟩ := by
  refine ⟨clientsOf listenfd (AList.erase fd h.clientInfo), ?_, ?_⟩
  · rw [listenerView, clientsOf_of_lookup hci, if_pos hlistenfd]
  · simp only [listenerView, ListenerView.restore, maxConnectionDemux, Bool.false_eq_true,
      if_false]
    by_cases hfree : 0 < li'.maxconns ∧ li'.currentconns < li'.maxconns
    · simp [hfree, Epoll.mem_interest_addConn]
    · simp only [hfree, if_false]

end Step

/-- **What a call does to a listener.** -/
theorem listener_step {m m' : System} {c : Call} (heff : Effect m c m') (hw : WellFormed m)
    {listenfd : Fd} {li' : ListenInfo} (hli' : m'.handler.listenInfo.lookup listenfd = some li') :
    ∃ li, m.handler.listenInfo.lookup listenfd = some li ∧
      ListenerStep listenfd c (m.listenerView listenfd li) (m'.listenerView listenfd li') := by
  -- a registered client is no listener
  have hother {fd : Fd} {ci : ClientInfo}
      (hli : ∃ li, m.handler.listenInfo.lookup listenfd = some li)
      (hci : m.handler.clientInfo.lookup fd = some ci) : listenfd ≠ fd := by
    rintro rfl
    exact (hw.client _ ci hci).2.2 (FdMap.mem_iff_exists.mpr hli)
  have hsame (hview : m'.listenerView listenfd li' = m.listenerView listenfd li') :
      ListenerStep listenfd c (m.listenerView listenfd li') (m'.listenerView listenfd li') := by
    rw [hview]
    exact .same c _
  cases heff with
  | asyncRead hci =>
      exact ⟨li', hli', hsame (listenerView_congr li' Epoll.mem_interest_addEvent
        (clientsOf_insert hci rfl _) rfl)⟩
  | asyncWrite hci =>
      exact ⟨li', hli', hsame (listenerView_congr li' Epoll.mem_interest_addEvent
        (clientsOf_insert hci rfl _) rfl)⟩
  | close hc hci =>
      refine ⟨li', hli', hsame (listenerView_congr li' ?_ rfl rfl)⟩
      rw [Epoll.mem_interest_delConn]
      exact and_iff_right (hother ⟨li', hli'⟩ hci)
  | onError hci =>
      refine ⟨li', hli', hsame (listenerView_congr li' ?_ rfl rfl)⟩
      rw [Epoll.mem_interest_delConn]
      exact and_iff_right (hother ⟨li', hli'⟩ hci)
  | @onRead h fd kernel ci p hci =>
      refine ⟨li', hli', hsame (listenerView_congr li' ?_ (clientsOf_insert hci rfl _) ?_)⟩
      · dsimp only
        split
        · exact Epoll.mem_interest_delEvent
        · exact Iff.rfl
      · have hframes := accepting_readFrames ci.session p.complete listenfd []
        rwa [List.append_nil] at hframes
  | @onWrite h fd kernel ci p hci =>
      refine ⟨li', hli', hsame (listenerView_congr li' ?_ (clientsOf_insert hci rfl _) ?_)⟩
      · dsimp only
        split
        · exact Epoll.mem_interest_delEvent
        · exact Iff.rfl
      · have hframes := accepting_writeFrames ci.session p.complete listenfd []
        rwa [List.append_nil] at hframes
  | onTimeout => exact ⟨li', hli', hsame (listenerView_congr li' Iff.rfl rfl rfl)⟩
  | onAcceptNothing => exact ⟨li', hli', hsame rfl⟩
  | @onAccept h h' fd accepted frames hnew haccept =>
      obtain ⟨hli, hstep⟩ := listenerView_acceptStep [] haccept hnew hli'
      refine ⟨li', hli, ?_⟩
      rw [List.append_nil] at hstep
      split at hstep
      · next heq =>
          subst heq
          exact .onAccept rfl hstep
      · rw [hstep]
        exact .same _ _
  | @retAccepting h h' stack fd session rest frames li₀ hli₀ haccept =>
      have hnew : ∀ k ∈ rest, k ∉ (h.withListenInfo fd
          { li₀ with currentconns := li₀.currentconns + 1 }).listenInfo := fun k hk hmem =>
        hw.waiting _ List.mem_cons_self k hk ((FdMap.mem_insert_of_lookup hli₀).mp hmem)
      obtain ⟨hli, hstep⟩ := listenerView_acceptStep stack haccept hnew hli'
      simp only [withListenInfo, FdMap.lookup_insert_eq] at hli
      split at hstep
      · next heq =>
          subst heq
          rw [if_pos rfl, Option.some.injEq] at hli
          subst hli
          refine ⟨li₀, hli₀, ?_⟩
          have hview : listenerView ⟨h, .accepting listenfd session rest :: stack, none⟩ listenfd
              li₀ = ⟨li₀, decide (listenfd ∈ h.demux.interest), clientsOf listenfd h.clientInfo,
                rest.length :: accepting listenfd stack⟩ := by
            simp [listenerView, accepting, Frame.accepts?]
          rw [hview]
          exact .retAccepting hstep
      · next hne =>
          rw [if_neg hne] at hli
          refine ⟨li', hli, hsame (hstep.trans (listenerView_congr li' Iff.rfl rfl ?_))⟩
          simp [accepting, Frame.accepts?, Ne.symm hne]
  | @retReading h stack session rb rest =>
      refine ⟨li', hli', hsame (listenerView_congr li' Iff.rfl rfl ?_)⟩
      exact accepting_readFrames session rest listenfd stack
  | @retWriting h stack session wb rest =>
      refine ⟨li', hli', hsame (listenerView_congr li' Iff.rfl rfl ?_)⟩
      exact accepting_writeFrames session rest listenfd stack
  | @retClosing h stack session f ci li₀ hf hci hli₀ =>
      have hframe : accepting listenfd (f :: stack) = accepting listenfd stack := by
        obtain rfl | rfl := hf <;> rfl
      simp only [FdMap.lookup_insert_eq] at hli'
      split at hli'
      · next heq =>
          subst heq
          cases hli'
          obtain ⟨n, hbefore, hafter⟩ := listenerView_restore stack hci rfl li₀
            { li₀ with currentconns := li₀.currentconns - 1 }
            (AList.insert ci.listenfd { li₀ with currentconns := li₀.currentconns - 1 }
              h.listenInfo)
            (ci.rbChain.foldl .putIntoPool h.rbpool) (ci.wbChain.foldl .putIntoPool h.wbpool)
          refine ⟨li₀, hli₀, ?_⟩
          have hpop : listenerView ⟨h, f :: stack, none⟩ ci.listenfd li₀ =
              listenerView ⟨h, stack, none⟩ ci.listenfd li₀ :=
            listenerView_congr li₀ Iff.rfl rfl hframe
          rw [hpop, hbefore, hafter]
          exact .retClosing
      · next hne =>
          refine ⟨li', hli', hsame (listenerView_congr li'
            (mem_interest_maxConnectionDemux hne) ?_ hframe.symm)⟩
          have hclients := clientsOf_of_lookup hci listenfd
          rw [if_neg (Ne.symm hne)] at hclients
          exact hclients.symm
  | retTimingOut => exact ⟨li', hli', hsame (listenerView_congr li' Iff.rfl rfl rfl)⟩

end System

end CppFastDevelop
