import CppFastDevelop.NetServer.System

/-!
# CppFastDevelop.NetServer.Ownership

Where the buffers are.  A pool numbers the buffers it allocates; each of
them is free, in the chain of one client, or with a handler that is still
to report it complete, and it is in one of these places once
(`Accounts`).  A handler that has returned holds none, so between handlers
the free buffers and those in the chains are all there are
(`buffers_owned_once`).
-/

namespace CppFastDevelop

/-! ## counting buffers -/

namespace Buffer

/-- How often buffer `i` occurs. -/
def copies (i : Nat) (bs : List Buffer) : Nat := (bs.map Buffer.id).count i

@[simp] theorem copies_nil (i : Nat) : copies i [] = 0 := rfl

@[simp] theorem copies_cons (i : Nat) (b : Buffer) (bs : List Buffer) :
    copies i (b :: bs) = copies i bs + if b.id = i then 1 else 0 := by
  rw [copies, List.map_cons, List.count_cons]
  simp [copies]

@[simp] theorem copies_append (i : Nat) (bs cs : List Buffer) :
    copies i (bs ++ cs) = copies i bs + copies i cs := by
  rw [copies, List.map_append, List.count_append]
  rfl

/-- Only the identities of buffers are counted. -/
theorem copies_congr {i : Nat} {bs cs : List Buffer} (h : bs.map Buffer.id = cs.map Buffer.id) :
    copies i bs = copies i cs := by
  rw [copies, h, copies]

end Buffer

namespace ReadBuffer

/-- Reading into a buffer leaves it the buffer it is. -/
theorem id_read (rb : ReadBuffer) (kernel : List RecvResult) :
    (read rb kernel).buffer.id = rb.id := by
  unfold read
  split
  · rfl
  · simp only
    split <;> rfl

/-- A length set on a buffer leaves it the buffer it is. -/
theorem id_setTotal {rb rb' : ReadBuffer} {total : UInt32} (h : setTotal rb total = .ok rb') :
    rb'.id = rb.id := by
  unfold setTotal at h
  split at h <;> cases h
  rfl

end ReadBuffer

namespace WriteBuffer

/-- Sending from a buffer leaves it the buffer it is. -/
theorem id_write (wb : WriteBuffer) (kernel : List SendResult) :
    (write wb kernel).buffer.id = wb.id := by
  unfold write
  split
  · rfl
  · simp only
    split <;> rfl

/-- Bytes put into a buffer leave it the buffer it is. -/
theorem id_setBuffer {wb wb' : WriteBuffer} {buffer : List UInt8} {total : UInt32}
    (h : setBuffer wb buffer total = .ok wb') : wb'.id = wb.id := by
  unfold setBuffer at h
  split at h <;> cases h
  rfl

end WriteBuffer

/-! ## a pool and the buffers that are out -/

namespace BufferPool

open Buffer

/-- Every buffer allocated is free or out, and it is so once. -/
def Accounts (p : BufferPool) (out : List Buffer) : Prop :=
  ∀ i, copies i p.free + copies i out = if i < p.maxAllocCnt then 1 else 0

variable {p : BufferPool} {out out' : List Buffer}

/-- A pool just created has all of its buffers free. -/
theorem accounts_create (size poolsize : Nat) : Accounts (create size poolsize) [] := by
  intro i
  have hids : ((List.range poolsize).map (allocOne size)).map Buffer.id = List.range poolsize := by
    rw [List.map_map]
    exact List.map_id _
  rw [copies_nil, Nat.add_zero, create, copies, hids, List.count_range]

/-- How often a buffer is out counts, not in which order. -/
theorem Accounts.congr (h : Accounts p out) (heq : ∀ i, copies i out' = copies i out) :
    Accounts p out' := fun i => by
  rw [heq i]
  exact h i

/-- A buffer taken from the pool is out. -/
theorem Accounts.getFromPool (h : Accounts p out) (size : Nat) :
    Accounts (p.getFromPool size).2 ((p.getFromPool size).1 :: out) := by
  intro i
  have hi := h i
  unfold BufferPool.getFromPool
  cases hfree : p.free with
  | nil =>
      rw [hfree] at hi
      simp only [allocOne, copies_cons, copies_nil] at hi ⊢
      grind
  | cons rb free =>
      rw [hfree] at hi
      simp only [copies_cons] at hi ⊢
      omega

/-- Buffers that are out may be put back. -/
theorem Accounts.putIntoPool (bs : List Buffer) (h : Accounts p (bs ++ out)) :
    Accounts (bs.foldl .putIntoPool p) out := by
  induction bs generalizing p with
  | nil => exact h
  | cons b bs ih =>
      refine ih fun i => ?_
      have hi := h i
      show copies i (p.free ++ [b]) + copies i (bs ++ out) = if i < p.maxAllocCnt then 1 else 0
      simp only [List.cons_append, copies_cons, copies_append, copies_nil] at hi ⊢
      omega

/-- No buffer is free and out at once, or out twice. -/
theorem Accounts.nodup (h : Accounts p out) : ((p.free ++ out).map Buffer.id).Nodup := by
  rw [List.nodup_iff_count_le_one]
  intro i
  have hi : copies i (p.free ++ out) = if i < p.maxAllocCnt then 1 else 0 :=
    (copies_append i p.free out).trans (h i)
  show copies i (p.free ++ out) ≤ 1
  rw [hi]
  split <;> omega

/-- The free buffers and those out are as many as were allocated. -/
theorem Accounts.length_eq (h : Accounts p out) : p.free.length + out.length = p.maxAllocCnt := by
  have hperm : ((p.free ++ out).map Buffer.id).Perm (List.range p.maxAllocCnt) := by
    rw [List.perm_iff_count]
    intro i
    rw [List.count_range]
    exact (copies_append i p.free out).trans (h i)
  have hlen := hperm.length_eq
  rwa [List.length_map, List.length_append, List.length_range] at hlen

end BufferPool

/-! ## the buffers of a run -/

/-- The read buffers a handler has still to report, and the one it reports. -/
def Frame.rbHeld : Frame → List ReadBuffer
  | .reading _ rb rest => rb :: rest
  | _ => []

def Frame.wbHeld : Frame → List WriteBuffer
  | .writing _ wb rest => wb :: rest
  | _ => []

namespace System

open EventHandler Buffer BufferPool

/-- The buffers of all chains, each client's taken from it by `chain`. -/
def chained (chain : ClientInfo → List Buffer) (clientInfo : FdMap ClientInfo) : List Buffer :=
  clientInfo.values.flatMap chain

section Chained

variable {chain : ClientInfo → List Buffer} {clientInfo : FdMap ClientInfo} {fd : Fd}
  {ci : ClientInfo}

/-- The order in which the clients are visited does not matter. -/
theorem copies_flatMap_of_perm {cis cis' : List ClientInfo} (h : cis.Perm cis') (i : Nat) :
    copies i (cis.flatMap chain) = copies i (cis'.flatMap chain) :=
  ((h.flatMap_right chain).map Buffer.id).count_eq i

/-- A client's chain is part of all chains. -/
theorem copies_chained (h : clientInfo.lookup fd = some ci) (i : Nat) :
    copies i (chained chain clientInfo) =
      copies i (chain ci) + copies i (chained chain (AList.erase fd clientInfo)) := by
  rw [chained, copies_flatMap_of_perm (FdMap.perm_values h), List.flatMap_cons, copies_append]
  rfl

/-- A client's new chain in the place of its old one. -/
theorem copies_chained_insert (ci' : ClientInfo) (i : Nat) :
    copies i (chained chain (AList.insert fd ci' clientInfo)) =
      copies i (chain ci') + copies i (chained chain (AList.erase fd clientInfo)) := by
  rw [chained, FdMap.values_insert, List.flatMap_cons, copies_append]
  rfl

/-- A new client with an empty chain. -/
theorem chained_insertNew (h : clientInfo.lookup fd = none) (hnil : chain ci = []) :
    chained chain (clientInfo.insertNew fd ci) = chained chain clientInfo := by
  rw [chained, FdMap.values_insertNew h, List.flatMap_cons, hnil, List.nil_append]
  rfl

end Chained

/-- Both pools account for their buffers. -/
structure Owned (m : System) : Prop where
  reads : Accounts m.handler.rbpool
    (chained (·.rbChain) m.handler.clientInfo ++ m.stack.flatMap Frame.rbHeld)
  writes : Accounts m.handler.wbpool
    (chained (·.wbChain) m.handler.clientInfo ++ m.stack.flatMap Frame.wbHeld)

/-- At the beginning both pools have all of their buffers. -/
theorem owned_init (listenfdMaxconn : List (Fd × UInt32)) : Owned (init listenfdMaxconn) :=
  ⟨accounts_create _ _, accounts_create _ _⟩

/-- The read callbacks that are due hold the read buffers that are complete. -/
theorem rbHeld_readFrames (session : Session) (bs : List ReadBuffer) :
    (readFrames session bs).flatMap Frame.rbHeld = bs ∧
      (readFrames session bs).flatMap Frame.wbHeld = [] := by
  cases bs <;> simp [readFrames, Frame.rbHeld, Frame.wbHeld]

/-- The write callbacks that are due hold the write buffers that are complete. -/
theorem wbHeld_writeFrames (session : Session) (bs : List WriteBuffer) :
    (writeFrames session bs).flatMap Frame.wbHeld = bs ∧
      (writeFrames session bs).flatMap Frame.rbHeld = [] := by
  cases bs <;> simp [writeFrames, Frame.rbHeld, Frame.wbHeld]

/-- What a pass completes and what it leaves are the buffers of the chain. -/
theorem copies_pass {κ : Type} {move : Buffer → κ → Chain.Attempt BaseException Buffer κ UInt8}
    {isComplete : Buffer → Except BaseException Bool}
    (hid : ∀ b k, (move b k).buffer.id = b.id) {bs : List Buffer} {k : κ}
    {p : Chain.Pass BaseException Buffer κ UInt8} (hp : p = Chain.pass move isComplete bs k)
    (hok : p.failure = none) (i : Nat) :
    copies i (p.chain.drop p.complete.length) + copies i p.complete = copies i bs := by
  subst hp
  have happ := Chain.complete_append_pass hok
  have hids := Chain.map_chain_pass isComplete Buffer.id hid bs k
  rw [← copies_congr hids, ← happ, copies_append, List.drop_left]
  omega

namespace Owned

variable {h h' : EventHandler} {stack : List Frame}

/-- A turn of the accept loop moves no buffer. -/
theorem acceptStep (ho : Owned ⟨h, stack, none⟩) {listenfd : Fd} {accepted : List Fd}
    {frames : List Frame} (hstep : AcceptStep listenfd accepted h h' frames) :
    Owned ⟨h', frames ++ stack, none⟩ := by
  cases hstep with
  | finish => exact ⟨ho.reads, ho.writes⟩
  | accept _ _ hnew =>
      refine ⟨?_, ?_⟩
      · show Accounts _ (chained _ (h.clientInfo.insertNew _ _) ++ _)
        rw [chained_insertNew hnew rfl]
        exact ho.reads
      · show Accounts _ (chained _ (h.clientInfo.insertNew _ _) ++ _)
        rw [chained_insertNew hnew rfl]
        exact ho.writes

/-- No call loses a buffer or gives one away twice. -/
theorem effect {m m' : System} {c : Call} (heff : Effect m c m') (ho : Owned m) : Owned m' := by
  obtain ⟨hreads, hwrites⟩ := ho
  cases heff with
  | @asyncRead h stack fd n ci rb hci hrb =>
      have hid : rb.id = (h.rbpool.getFromPool ReadBuffer.sizeDefault).1.id := by
        rw [ReadBuffer.id_setTotal hrb, clear]
      refine ⟨(hreads.getFromPool ReadBuffer.sizeDefault).congr fun i => ?_,
        hwrites.congr fun i => ?_⟩
      · simp only [copies_append, copies_cons, copies_nil, copies_chained_insert,
          copies_chained hci, hid]
        omega
      · simp only [copies_append, copies_chained_insert, copies_chained hci]
  | @asyncWrite h stack fd buf n ci wb hci hlen hwb =>
      have hid : wb.id = (h.wbpool.getFromPool WriteBuffer.sizeDefault).1.id := by
        rw [WriteBuffer.id_setBuffer hwb, clear]
      refine ⟨hreads.congr fun i => ?_,
        (hwrites.getFromPool WriteBuffer.sizeDefault).congr fun i => ?_⟩
      · simp only [copies_append, copies_chained_insert, copies_chained hci]
      · simp only [copies_append, copies_cons, copies_nil, copies_chained_insert,
          copies_chained hci, hid]
        omega
  | close => exact ⟨hreads, hwrites⟩
  | onError => exact ⟨hreads, hwrites⟩
  | @onRead h fd kernel ci p hci hp hok =>
      obtain ⟨hrb, hwb⟩ := rbHeld_readFrames ci.session p.complete
      have hpass := copies_pass ReadBuffer.id_read hp hok
      refine ⟨hreads.congr fun i => ?_, hwrites.congr fun i => ?_⟩
      · simp only [copies_append, copies_chained_insert, copies_chained hci, hrb, ← hpass i,
          List.flatMap_nil, copies_nil]
        omega
      · simp only [copies_append, copies_chained_insert, copies_chained hci, hwb,
          List.flatMap_nil]
  | @onWrite h fd kernel ci p hci hp hok =>
      obtain ⟨hwb, hrb⟩ := wbHeld_writeFrames ci.session p.complete
      have hpass := copies_pass WriteBuffer.id_write hp hok
      refine ⟨hreads.congr fun i => ?_, hwrites.congr fun i => ?_⟩
      · simp only [copies_append, copies_chained_insert, copies_chained hci, hrb,
          List.flatMap_nil]
      · simp only [copies_append, copies_chained_insert, copies_chained hci, hwb, ← hpass i,
          List.flatMap_nil, copies_nil]
        omega
  | onTimeout => exact ⟨hreads, hwrites⟩
  | onAcceptNothing => exact ⟨hreads, hwrites⟩
  | onAccept hnew haccept =>
      have ho' := acceptStep ⟨hreads, hwrites⟩ haccept
      rwa [List.append_nil] at ho'
  | @retAccepting h h' stack listenfd session rest frames li hli haccept =>
      have ho : Owned
          ⟨h.withListenInfo listenfd { li with currentconns := li.currentconns + 1 }, stack,
            none⟩ := ⟨hreads, hwrites⟩
      exact ho.acceptStep haccept
  | @retReading h stack session rb rest =>
      obtain ⟨hrb, hwb⟩ := rbHeld_readFrames session rest
      refine ⟨?_, hwrites.congr fun i => ?_⟩
      · refine Accounts.putIntoPool [rb] (hreads.congr fun i => ?_)
        simp only [copies_append, copies_cons, copies_nil, List.flatMap_append, hrb,
          List.flatMap_cons, Frame.rbHeld]
        omega
      · simp only [copies_append, List.flatMap_append, hwb, List.flatMap_cons, Frame.wbHeld]
  | @retWriting h stack session wb rest =>
      obtain ⟨hwb, hrb⟩ := wbHeld_writeFrames session rest
      refine ⟨hreads.congr fun i => ?_, ?_⟩
      · simp only [copies_append, List.flatMap_append, hrb, List.flatMap_cons, Frame.rbHeld]
      · refine Accounts.putIntoPool [wb] (hwrites.congr fun i => ?_)
        simp only [copies_append, copies_cons, copies_nil, List.flatMap_append, hwb,
          List.flatMap_cons, Frame.wbHeld]
        omega
  | @retClosing h stack session f ci li hf hci hli =>
      have hheld : f.rbHeld = [] ∧ f.wbHeld = [] := by
        obtain rfl | rfl := hf <;> exact ⟨rfl, rfl⟩
      refine ⟨Accounts.putIntoPool ci.rbChain (hreads.congr fun i => ?_),
        Accounts.putIntoPool ci.wbChain (hwrites.congr fun i => ?_)⟩
      · simp only [copies_append, List.flatMap_cons, hheld.1, copies_chained hci, copies_nil]
        omega
      · simp only [copies_append, List.flatMap_cons, hheld.2, copies_chained hci, copies_nil]
        omega
  | retTimingOut => exact ⟨hreads, hwrites⟩

end Owned

/-- **No buffer has two owners.**  In every run, a buffer is free at most
once or in one client's chain once; when no handler is running, the free
buffers and those in the chains are as many as were allocated. -/
theorem buffers_owned_once {listenfdMaxconn : List (Fd × UInt32)} {cs : List Call} {m : System}
    (hrun : Machine.run step (init listenfdMaxconn) cs = some m) (hok : m.failed = none) :
    ((m.handler.rbpool.free ++ m.handler.clientInfo.values.flatMap (·.rbChain)).map
        Buffer.id).Nodup ∧
      ((m.handler.wbpool.free ++ m.handler.clientInfo.values.flatMap (·.wbChain)).map
        Buffer.id).Nodup ∧
      (m.stack = [] →
        m.handler.rbpool.free.length +
            (m.handler.clientInfo.values.flatMap (·.rbChain)).length =
          m.handler.rbpool.maxAllocCnt ∧
        m.handler.wbpool.free.length +
            (m.handler.clientInfo.values.flatMap (·.wbChain)).length =
          m.handler.wbpool.maxAllocCnt) := by
  have ho : Owned m := run_invariant_of_effect Owned (fun _ _ _ _ => Owned.effect)
    (Machine.along_of_forall (C := fun _ _ => True) (fun _ _ => trivial) _ _) hrun
    (owned_init listenfdMaxconn) hok
  refine ⟨?_, ?_, fun hidle => ?_⟩
  · have hnodup := ho.reads.nodup
    rw [← List.append_assoc, List.map_append] at hnodup
    exact hnodup.of_append_left
  · have hnodup := ho.writes.nodup
    rw [← List.append_assoc, List.map_append] at hnodup
    exact hnodup.of_append_left
  · have hreads := ho.reads.length_eq
    have hwrites := ho.writes.length_eq
    rw [hidle, List.flatMap_nil, List.append_nil] at hreads hwrites
    exact ⟨hreads, hwrites⟩

/-- One read of `talk` has been reported, another one and a write are still in
the client's chains. -/
theorem buffers_owned_once_talk : ∃ m, Machine.run step (init [(3, 0)]) talk = some m ∧
    ((m.handler.rbpool.free ++ m.handler.clientInfo.values.flatMap (·.rbChain)).map
      Buffer.id).Nodup ∧
    ((m.handler.wbpool.free ++ m.handler.clientInfo.values.flatMap (·.wbChain)).map
      Buffer.id).Nodup ∧
    m.handler.rbpool.free.length + (m.handler.clientInfo.values.flatMap (·.rbChain)).length =
      m.handler.rbpool.maxAllocCnt ∧
    m.handler.wbpool.free.length + (m.handler.clientInfo.values.flatMap (·.wbChain)).length =
      m.handler.wbpool.maxAllocCnt := by
  have hcheck : (Machine.run step (init [(3, 0)]) talk).any
      (fun m => m.failed = none ∧ m.stack = []) = true := by decide +kernel
  obtain ⟨m, hrun, hend⟩ := (Option.any_eq_true _ _).mp hcheck
  obtain ⟨hok, hidle⟩ := of_decide_eq_true hend
  obtain ⟨hreads, hwrites, hcount⟩ := buffers_owned_once hrun hok
  exact ⟨m, hrun, hreads, hwrites, hcount hidle⟩

end System

end CppFastDevelop
