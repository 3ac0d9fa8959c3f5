import CppFastDevelop.CircularQueue.Refinement

/-!
# CppFastDevelop.CircularQueue.ReadGuards

`ElementOp::read` on a region that may hold anything.  The length and the
case byte come from memory other processes write to; each route checks them
in its own way, in 64-bit sums that wrap, and copies before, between and
after its checks.  The checks and the accesses of a route are read off it
once, in the order they come in (`Ends`); the rest is arithmetic: the
elements at which the checks let a read leave its buffers.

A copy that leaves a buffer counts wherever it stands.  One made in front of
a check has gone wrong whether or not the check then throws, and one that
runs past the local header or the output string overwrites what "unchanged"
would speak about.  The output string is taken to grow to any length it is
given.
-/

namespace CppFastDevelop

open RingBuffer Words Exec

/-- A copy stays inside both of its buffers, of the region inside the first
`n` bytes. -/
def Access.StaysInside (n : Nat) : Access → Prop
  | .copy dst src len =>
      dst.off + len ≤ dst.cap ∧ (src.place = .region → ∀ i < len, src.off + i < n)
  | .sub _ _ => True

@[simp] theorem Access.staysInside_sub (n : Nat) (a b : UInt64) :
    (Access.sub a b).StaysInside n := trivial

@[simp] theorem Access.staysInside_copy {n : Nat} {dst : Span} {cap off len : Nat} :
    (Access.copy dst ⟨.region, cap, off⟩ len).StaysInside n ↔
      dst.off + len ≤ dst.cap ∧ (len = 0 ∨ off + len ≤ n) := by
  show _ ∧ (_ → ∀ i < len, off + i < n) ↔ _
  refine and_congr_right fun _ => ⟨fun h => ?_, fun h _ i hi => by omega⟩
  by_contra hlen
  have hlast := h rfl (len - 1) (by omega)
  omega

namespace ElementOp

/-! ## what a read should do -/

/-- The read throws a `ValueError` and changes nothing, or it returns and
leaves the tail inside the region; every copy it has made by then, before
the throw too, stays inside its buffers. -/
def Guarded (w : Shm) (env : Environment) : Prop :=
  (∃ e w' as, read env w = .error e w' ∧ e.className = .valueError ∧
    w'.pMeta = w.pMeta ∧ w'.pQueue = w.pQueue ∧ w'.data = w.data ∧
    w'.accesses = w.accesses ++ as ∧ ∀ a ∈ as, a.StaysInside w.pMeta.qTotalSize.toNat) ∨
  (∃ w' as, read env w = .ok () w' ∧ w'.accesses = w.accesses ++ as ∧
    (∀ a ∈ as, a.StaysInside w.pMeta.qTotalSize.toNat) ∧
    w'.pMeta.tailIndex.toNat < w'.pMeta.qTotalSize.toNat)

/-! ## how a route ends -/

/-- What a route does next: it makes a check, or an access. -/
inductive Stage
  | check (passes : Prop)
  | touch (a : Access)

/-- What a route does, in order, and the tail it leaves. -/
structure Course where
  stages : List Stage
  tail : UInt64

/-- The stages stay inside their buffers, in a region of `n` bytes, as far
as the checks let them, and leave the tail inside the region if they come
to the end. -/
def FitsFrom (n : Nat) (tail : UInt64) : List Stage → Prop
  | [] => tail.toNat < n
  | .check passes :: stages => passes → FitsFrom n tail stages
  | .touch a :: stages => a.StaysInside n ∧ FitsFrom n tail stages

def Course.Fits (c : Course) (n : Nat) : Prop := FitsFrom n c.tail c.stages

/-- A run that goes through the stages: it throws a `ValueError` at the
first check that does not pass, with nothing changed, or returns behind the
last access.  What is in front of a check changes no more than the record
of accesses. -/
inductive EndsFrom (tail : UInt64) :
    Shm → List Stage → EStateM.Result BaseException Shm UInt64 → Prop
  | refused {w : Shm} {passes : Prop} {stages : List Stage} {e : BaseException}
      (hnot : ¬ passes) (he : e.className = .valueError) :
      EndsFrom tail w (.check passes :: stages) (.error e w)
  | passed {w : Shm} {passes : Prop} {stages : List Stage}
      {r : EStateM.Result BaseException Shm UInt64} (hpasses : passes)
      (hrest : EndsFrom tail w stages r) : EndsFrom tail w (.check passes :: stages) r
  | touched {w : Shm} {a : Access} {stages : List Stage}
      {r : EStateM.Result BaseException Shm UInt64}
      (hrest : EndsFrom tail { w with accesses := w.accesses ++ [a] } stages r) :
      EndsFrom tail w (.touch a :: stages) r
  | returned {w : Shm} (as : List Access) (size : UInt64) (w' : Shm)
      (haccesses : w'.accesses = w.accesses ++ as)
      (hmeta : w'.pMeta = { w.pMeta with tailIndex := tail }) :
      EndsFrom tail w (as.map .touch) (.ok size w')

/-- A run that follows the course. -/
abbrev Ends (w : Shm) (c : Course) (r : EStateM.Result BaseException Shm UInt64) : Prop :=
  EndsFrom c.tail w c.stages r

/-- Accesses without checks between them fit where each of them stays inside. -/
theorem fitsFrom_map_touch (n : Nat) (tail : UInt64) (as : List Access) :
    FitsFrom n tail (as.map .touch) ↔ (∀ a ∈ as, a.StaysInside n) ∧ tail.toNat < n := by
  induction as with
  | nil => simp [FitsFrom]
  | cons a as ih => simp [FitsFrom, ih, and_assoc]

namespace EndsFrom

variable {w : Shm} {stages : List Stage} {tail : UInt64}

/-- A throw changes nothing, and the stages fit if what was touched by then
does. -/
theorem error {r : EStateM.Result BaseException Shm UInt64} (h : EndsFrom tail w stages r)
    {e : BaseException} {w' : Shm} (hr : r = .error e w') (n : Nat) :
    e.className = .valueError ∧ w'.pMeta = w.pMeta ∧ w'.pQueue = w.pQueue ∧
      w'.data = w.data ∧ ∃ as, w'.accesses = w.accesses ++ as ∧
        (FitsFrom n tail stages ↔ ∀ a ∈ as, a.StaysInside n) := by
  induction h with
  | refused hnot he =>
      cases hr
      exact ⟨he, rfl, rfl, rfl, [], (List.append_nil _).symm,
        iff_of_true (fun hp => absurd hp hnot) (by simp)⟩
  | passed hpasses hrest ih =>
      obtain ⟨he, hmeta, hqueue, hdata, as, has, hfits⟩ := ih hr
      exact ⟨he, hmeta, hqueue, hdata, as, has, (forall_prop_of_true hpasses).trans hfits⟩
  | @touched w a stages r hrest ih =>
      obtain ⟨he, hmeta, hqueue, hdata, as, has, hfits⟩ := ih hr
      refine ⟨he, hmeta, hqueue, hdata, a :: as, has.trans (List.append_assoc _ _ _), ?_⟩
      rw [List.forall_mem_cons]
      exact and_congr_right fun _ => hfits
  | returned as size w' haccesses hmeta => cases hr

/-- A return sets the tail, and the stages fit if the tail and all that was
touched do. -/
theorem ok {r : EStateM.Result BaseException Shm UInt64} (h : EndsFrom tail w stages r)
    {size : UInt64} {w' : Shm} (hr : r = .ok size w') (n : Nat) :
    w'.pMeta = { w.pMeta with tailIndex := tail } ∧ ∃ as, w'.accesses = w.accesses ++ as ∧
      (FitsFrom n tail stages ↔ (∀ a ∈ as, a.StaysInside n) ∧ tail.toNat < n) := by
  induction h with
  | refused hnot he => cases hr
  | passed hpasses hrest ih =>
      obtain ⟨hmeta, as, has, hfits⟩ := ih hr
      exact ⟨hmeta, as, has, (forall_prop_of_true hpasses).trans hfits⟩
  | @touched w a stages r hrest ih =>
      obtain ⟨hmeta, as, has, hfits⟩ := ih hr
      refine ⟨hmeta, a :: as, has.trans (List.append_assoc _ _ _), ?_⟩
      rw [List.forall_mem_cons, and_assoc]
      exact and_congr_right fun _ => hfits
  | returned as size w' haccesses hmeta =>
      cases hr
      exact ⟨hmeta, as, haccesses, fitsFrom_map_touch n tail as⟩

theorem getMeta {rest : QMeta → Op UInt64} (hrest : EndsFrom tail w stages (rest w.pMeta w)) :
    EndsFrom tail w stages ((CppFastDevelop.getMeta >>= rest) w) := hrest

/-- A check in front of the rest of a route. -/
theorem guard {c : Prop} [Decidable c] {e : BaseException} {rest : Unit → Op UInt64}
    (he : e.className = .valueError) (hrest : EndsFrom tail w stages (rest () w)) :
    EndsFrom tail w (.check (¬ c) :: stages) ((throwIf c e >>= rest) w) := by
  rw [throwIf_bind_apply]
  split
  · next hc => exact .refused (not_not_intro hc) he
  · next hc => exact .passed hc hrest

/-- Copying `n` bytes from `pos` to offset `off` of the local header. -/
theorem copyToHeader {ph : Mem} {off' pos' n' : UInt64} {off pos n : Nat}
    {rest : Mem → Op UInt64} (hoff : off'.toNat = off) (hpos : pos'.toNat = pos)
    (hn : n'.toNat = n)
    (hrest : EndsFrom tail
      { w with accesses := w.accesses ++
        [.copy ⟨.header, 24, off⟩ ⟨.region, w.pMeta.qTotalSize.toNat, pos⟩ n] }
      stages (rest (copy ph off w.pQueue pos n)
        { w with accesses := w.accesses ++
          [.copy ⟨.header, 24, off⟩ ⟨.region, w.pMeta.qTotalSize.toNat, pos⟩ n] })) :
    EndsFrom tail w
      (.touch (.copy ⟨.header, 24, off⟩ ⟨.region, w.pMeta.qTotalSize.toNat, pos⟩ n) :: stages)
      ((CppFastDevelop.copyToHeader ph off' pos' n' >>= rest) w) := by
  subst hoff hpos hn
  exact hrest.touched

/-- An unsigned subtraction. -/
theorem sub {a b : UInt64} {rest : UInt64 → Op UInt64}
    (hrest : EndsFrom tail { w with accesses := w.accesses ++ [.sub a b] } stages
      (rest (a - b) { w with accesses := w.accesses ++ [.sub a b] })) :
    EndsFrom tail w (.touch (.sub a b) :: stages) ((CppFastDevelop.sub a b >>= rest) w) :=
  hrest.touched

/-- The end of a route whose body is in one piece. -/
theorem deliver (size : UInt64) {pos' : UInt64} {pos : Nat} (hpos : pos'.toNat = pos) :
    EndsFrom tail w
      [.touch (.copy ⟨.data, size.toNat, 0⟩ ⟨.region, w.pMeta.qTotalSize.toNat, pos⟩
        size.toNat)]
      ((do
        resizeData size
        copyToData 0 pos' size
        setTailIndex tail
        return size : Op UInt64) w) := by
  subst hpos
  exact .returned [_] size _ rfl rfl

/-- The end of the route whose body is in two pieces. -/
theorem deliverSplit (m : QMeta) (size : UInt64) :
    EndsFrom (size - (m.qTotalSize - m.tailIndex - headerSize)) w
      [.touch (.sub m.qTotalSize m.tailIndex),
        .touch (.sub (m.qTotalSize - m.tailIndex) headerSize),
        .touch (.sub size (m.qTotalSize - m.tailIndex - headerSize)),
        .touch (.copy ⟨.data, size.toNat, 0⟩
          ⟨.region, w.pMeta.qTotalSize.toNat, (m.tailIndex + headerSize).toNat⟩
          (m.qTotalSize - m.tailIndex - headerSize).toNat),
        .touch (.copy
          ⟨.data, size.toNat, (m.qTotalSize - m.tailIndex - headerSize).toNat⟩
          ⟨.region, w.pMeta.qTotalSize.toNat, 0⟩
          (size - (m.qTotalSize - m.tailIndex - headerSize)).toNat)]
      ((do
        resizeData size
        let rest ← CppFastDevelop.sub m.qTotalSize m.tailIndex
        let size0 ← CppFastDevelop.sub rest headerSize
        let size1 ← CppFastDevelop.sub size size0
        copyToData 0 (m.tailIndex + headerSize) size0
        copyToData size0 0 size1
        setTailIndex size1
        return size : Op UInt64) w) := by
  refine .returned [_, _, _, _, _] size _ ?_ rfl
  show w.accesses ++ _ ++ _ ++ _ ++ _ ++ _ = _
  simp only [List.append_assoc]
  rfl

end EndsFrom

/-- The length in a header that is read in one piece. -/
def bodyLenAt (w : Shm) : UInt64 :=
  (ElementHeader.ofBytes (slice w.pQueue w.pMeta.tailIndex.toNat 24)).bodyLen

/-- The length read from the header is the one that stands at the tail. -/
theorem bodyLen_headerOf (ph : Mem) (w : Shm) :
    (headerOf (copy ph 0 w.pQueue w.pMeta.tailIndex.toNat 24)).bodyLen = bodyLenAt w := by
  rw [headerOf, slice_copy_inside _ _ _ _ _ (Nat.zero_le 0) (Nat.le_refl 24)]
  rfl

/-- The length in a header that is read in two pieces. -/
def splitBodyLenAt (w : Shm) : UInt64 :=
  (ElementHeader.ofBytes (load w.pMeta.qTotalSize.toNat w.pQueue w.pMeta.tailIndex.toNat
    24)).bodyLen

/-- The two copies read the header from the ring.  Where the header does not
reach the end of the region the first copy alone does, and runs past it. -/
theorem bodyLen_headerOf_split (ph : Mem) (w : Shm) (htotal : 24 < w.pMeta.qTotalSize.toNat)
    (htail : w.pMeta.tailIndex.toNat < w.pMeta.qTotalSize.toNat) :
    (headerOf (copy (copy ph 0 w.pQueue w.pMeta.tailIndex.toNat
      (w.pMeta.qTotalSize - w.pMeta.tailIndex).toNat)
      (w.pMeta.qTotalSize - w.pMeta.tailIndex).toNat w.pQueue 0
      (headerSize - (w.pMeta.qTotalSize - w.pMeta.tailIndex)).toNat)).bodyLen =
      splitBodyLenAt w := by
  have hsize0 := toNat_rest htail
  have hmod := Nat.mod_eq_of_lt htail
  suffices hbytes : slice (copy (copy ph 0 w.pQueue w.pMeta.tailIndex.toNat
      (w.pMeta.qTotalSize - w.pMeta.tailIndex).toNat)
      (w.pMeta.qTotalSize - w.pMeta.tailIndex).toNat w.pQueue 0
      (headerSize - (w.pMeta.qTotalSize - w.pMeta.tailIndex)).toNat) 0 24 =
      load w.pMeta.qTotalSize.toNat w.pQueue w.pMeta.tailIndex.toNat 24 by
    rw [headerOf, hbytes]
    rfl
  rw [hsize0]
  by_cases hsplit : w.pMeta.qTotalSize.toNat - w.pMeta.tailIndex.toNat < 24
  · have hsize1 := toNat_headerSize_sub_rest htail (by omega)
    have hparts := slice_copy_copy_eq_load ph w.pQueue hmod
      (Nat.add_sub_of_le (Nat.le_of_lt htail))
      (show 24 - (w.pMeta.qTotalSize.toNat - w.pMeta.tailIndex.toNat) ≤ _ by omega)
    rwa [Nat.add_sub_of_le (by omega), ← hsize1] at hparts
  · rw [slice_copy_outside _ _ _ _ _ (.inl (by omega)),
      slice_copy_inside _ _ _ _ _ (Nat.le_refl 0) (by omega),
      load_eq_slice w.pQueue hmod (by omega)]
    rfl

section Routes

variable (ph : Mem) (w : Shm)

/-- The copy of `n` bytes from `pos` of the region to `off` of the header. -/
def headerCopy (off pos n : Nat) : Stage :=
  .touch (.copy ⟨.header, 24, off⟩ ⟨.region, w.pMeta.qTotalSize.toNat, pos⟩ n)

/-- The copy of `n` bytes from `pos` of the region to `off` of the output
string, which is `size` bytes long. -/
def dataCopy (size off pos n : Nat) : Stage :=
  .touch (.copy ⟨.data, size, off⟩ ⟨.region, w.pMeta.qTotalSize.toNat, pos⟩ n)

def course1 : Course where
  stages :=
    [.check (¬ w.pMeta.headIndex < w.pMeta.tailIndex + headerSize),
      headerCopy w 0 w.pMeta.tailIndex.toNat 24,
      .check (¬ 0 = bodyLenAt w),
      .check (¬ w.pMeta.headIndex < w.pMeta.tailIndex + headerSize + bodyLenAt w),
      dataCopy w (bodyLenAt w).toNat 0 (w.pMeta.tailIndex + headerSize).toNat
        (bodyLenAt w).toNat]
  tail := w.pMeta.tailIndex + (headerSize + bodyLenAt w)

/-- Route 1 runs as its course says, for every content. -/
theorem readRoute1_ends : Ends w (course1 w) (readRoute1 ph w) := by
  unfold readRoute1 course1 headerCopy dataCopy
  refine .getMeta (.guard rfl (.copyToHeader rfl rfl rfl ?_))
  rw [bodyLen_headerOf]
  exact .guard rfl (.guard rfl (.deliver _ rfl))

def course2 (cs : UInt8) : Course where
  stages :=
    [headerCopy w 0 w.pMeta.tailIndex.toNat 24,
      .check (¬ 0 = bodyLenAt w),
      .check (¬ w.pMeta.qTotalSize < w.pMeta.tailIndex + headerSize + bodyLenAt w),
      dataCopy w (bodyLenAt w).toNat 0 (w.pMeta.tailIndex + headerSize).toNat
        (bodyLenAt w).toNat]
  tail := if cs = 1 then w.pMeta.tailIndex + (headerSize + bodyLenAt w) else 0

/-- Route 2 runs as its course says, for every content. -/
theorem readRoute2_ends (cs : UInt8) : Ends w (course2 w cs) (readRoute2 cs ph w) := by
  unfold readRoute2 course2 headerCopy dataCopy
  refine .getMeta (.copyToHeader rfl rfl rfl ?_)
  rw [bodyLen_headerOf]
  refine .guard rfl (.guard rfl ?_)
  split
  · exact .deliver _ rfl
  · exact .deliver _ rfl

def course3 : Course where
  stages :=
    [.touch (.sub w.pMeta.qTotalSize w.pMeta.tailIndex),
      .touch (.sub headerSize (w.pMeta.qTotalSize - w.pMeta.tailIndex)),
      headerCopy w 0 w.pMeta.tailIndex.toNat (w.pMeta.qTotalSize - w.pMeta.tailIndex).toNat,
      headerCopy w (w.pMeta.qTotalSize - w.pMeta.tailIndex).toNat 0
        (headerSize - (w.pMeta.qTotalSize - w.pMeta.tailIndex)).toNat,
      .check (¬ 0 = splitBodyLenAt w),
      .check (¬ w.pMeta.headIndex - 0 <
        headerSize - (w.pMeta.qTotalSize - w.pMeta.tailIndex) + splitBodyLenAt w),
      dataCopy w (splitBodyLenAt w).toNat 0
        (headerSize - (w.pMeta.qTotalSize - w.pMeta.tailIndex)).toNat
        (splitBodyLenAt w).toNat]
  tail := headerSize - (w.pMeta.qTotalSize - w.pMeta.tailIndex) + splitBodyLenAt w

/-- Route 3 runs as its course says, for every content. -/
theorem readRoute3_ends (htotal : 24 < w.pMeta.qTotalSize.toNat)
    (htail : w.pMeta.tailIndex.toNat < w.pMeta.qTotalSize.toNat) :
    Ends w (course3 w) (readRoute3 ph w) := by
  unfold readRoute3 course3 headerCopy dataCopy
  refine .getMeta (.sub (.sub (.copyToHeader rfl rfl rfl (.copyToHeader rfl rfl rfl ?_))))
  rw [bodyLen_headerOf_split ph w htotal htail]
  exact .guard rfl (.guard rfl (.deliver _ rfl))

def course4 : Course where
  stages :=
    [headerCopy w 0 w.pMeta.tailIndex.toNat 24,
      .check (¬ 0 = bodyLenAt w),
      .check (¬ w.pMeta.qTotalSize < w.pMeta.tailIndex + headerSize + 1),
      .touch (.sub w.pMeta.qTotalSize w.pMeta.tailIndex),
      .touch (.sub (w.pMeta.qTotalSize - w.pMeta.tailIndex) headerSize),
      .touch (.sub (bodyLenAt w) (w.pMeta.qTotalSize - w.pMeta.tailIndex - headerSize)),
      dataCopy w (bodyLenAt w).toNat 0 (w.pMeta.tailIndex + headerSize).toNat
        (w.pMeta.qTotalSize - w.pMeta.tailIndex - headerSize).toNat,
      dataCopy w (bodyLenAt w).toNat
        (w.pMeta.qTotalSize - w.pMeta.tailIndex - headerSize).toNat 0
        (bodyLenAt w - (w.pMeta.qTotalSize - w.pMeta.tailIndex - headerSize)).toNat]
  tail := bodyLenAt w - (w.pMeta.qTotalSize - w.pMeta.tailIndex - headerSize)

/-- Route 4 runs as its course says, for every content. -/
theorem readRoute4_ends : Ends w (course4 w) (readRoute4 ph w) := by
  unfold readRoute4 course4 headerCopy dataCopy
  refine .getMeta (.copyToHeader rfl rfl rfl ?_)
  rw [bodyLen_headerOf]
  exact .guard rfl (.guard rfl (.deliverSplit w.pMeta _))

def course5 : Course where
  stages :=
    [.check (¬ w.pMeta.qTotalSize ≠ w.pMeta.tailIndex + headerSize),
      headerCopy w 0 w.pMeta.tailIndex.toNat 24,
      .check (¬ 0 = bodyLenAt w),
      dataCopy w (bodyLenAt w).toNat 0 0 (bodyLenAt w).toNat]
  tail := bodyLenAt w

/-- Route 5 runs as its course says, for every content. -/
theorem readRoute5_ends : Ends w (course5 w) (readRoute5 ph w) := by
  unfold readRoute5 course5 headerCopy dataCopy
  refine .getMeta (.guard rfl (.copyToHeader rfl rfl rfl ?_))
  rw [bodyLen_headerOf]
  exact .guard rfl (.deliver _ rfl)

/-- A case byte that names no route is refused. -/
def courseNone : Course := ⟨[.check False], 0⟩

/-- The course of the route a case byte names. -/
def courseOf (cs : UInt8) : Course :=
  if cs = 1 ∨ cs = 2 then course2 w cs
  else if cs = 3 then course3 w
  else if cs = 4 then course4 w
  else if cs = 5 then course5 w
  else courseNone

/-- The route the case byte names runs behind the copy of that byte. -/
theorem readCase_ends (htotal : 24 < w.pMeta.qTotalSize.toNat)
    (htail : w.pMeta.tailIndex.toNat < w.pMeta.qTotalSize.toNat) {c : Course}
    (hc : courseOf w (w.pQueue w.pMeta.tailIndex.toNat) = c) :
    Ends w ⟨headerCopy w 0 w.pMeta.tailIndex.toNat 1 :: c.stages, c.tail⟩ (readCase ph w) := by
  subst hc
  rw [readCase_apply ph htail rfl]
  refine .touched ?_
  unfold courseOf
  split
  · exact readRoute2_ends _ { w with accesses := w.accesses ++ [_] } _
  split
  · exact readRoute3_ends _ { w with accesses := w.accesses ++ [_] } htotal htail
  split
  · exact readRoute4_ends _ { w with accesses := w.accesses ++ [_] }
  split
  · exact readRoute5_ends _ { w with accesses := w.accesses ++ [_] }
  · exact .refused id rfl

end Routes

/-! ## from routes to the read -/

/-- A read is guarded if its route stays inside its buffers as far as its
checks let it, and leaves the tail inside the region. -/
theorem guarded_iff_of_ends {w : Shm} {env : Environment} {scene : EQueueScene} {c : Course}
    (hhead : w.pMeta.headIndex.toNat < w.pMeta.qTotalSize.toNat)
    (hscene : queueScene w = .ok scene w)
    (hroute : Ends w c (readRoutes scene env.stack w)) :
    Guarded w env ↔ c.Fits w.pMeta.qTotalSize.toNat := by
  have hread : read env w = (readRoutes scene env.stack >>= fun n => finishRead n env) w := by
    rw [read, bind_of_ok hscene, bind_of_ok (checkHeadIndex_apply hhead)]
  cases hr : readRoutes scene env.stack w with
  | error e w' =>
      obtain ⟨he, hmeta, hqueue, hdata, as, has, hfits⟩ :=
        hroute.error hr w.pMeta.qTotalSize.toNat
      rw [bind_of_error hr] at hread
      rw [Course.Fits, hfits]
      constructor
      · rintro (⟨e', w'', bs, herr, -, -, -, -, hbs, hinside⟩ | ⟨w'', bs, hok, -⟩)
        · rw [hread] at herr
          cases herr
          rwa [← List.append_cancel_left (hbs.symm.trans has)]
        · rw [hread] at hok
          cases hok
      · exact fun hinside => .inl ⟨e, w', as, hread, he, hmeta, hqueue, hdata, has, hinside⟩
  | ok size w' =>
      obtain ⟨hmeta, as, has, hfits⟩ := hroute.ok hr w.pMeta.qTotalSize.toNat
      have hhead' : w'.pMeta.headIndex.toNat < w'.pMeta.qTotalSize.toNat := by
        rw [hmeta]; exact hhead
      rw [bind_of_ok hr, finishRead_apply hhead'] at hread
      rw [Course.Fits, hfits]
      constructor
      · rintro (⟨e, w'', bs, herr, -⟩ | ⟨w'', bs, hok, hbs, hinside, htail⟩)
        · rw [hread] at herr
          cases herr
        · rw [hread] at hok
          cases hok
          have hsame : bs = as ++ [.sub w'.pMeta.elementCount 1] := by
            rw [has, List.append_assoc] at hbs
            exact (List.append_cancel_left hbs).symm
          rw [hmeta] at htail
          exact ⟨fun a ha => hinside a (by rw [hsame]; exact List.mem_append_left _ ha), htail⟩
      · rintro ⟨hinside, htail⟩
        refine .inr ⟨_, as ++ [.sub w'.pMeta.elementCount 1], hread, ?_, ?_, ?_⟩
        · show w'.accesses ++ _ = _
          rw [has, List.append_assoc]
        · intro a ha
          obtain ha | ha := List.mem_append.mp ha
          · exact hinside a ha
          · rw [List.mem_singleton.mp ha]
            trivial
        · show w'.pMeta.tailIndex.toNat < w'.pMeta.qTotalSize.toNat
          rw [hmeta]
          exact htail

/-! ## where the checks do not hold -/

/-- Route 1: the sum with the header wraps; or both sums pass for no more
than `headIndex`, and the second one has wrapped. -/
def OverrunsRoute1 (w : Shm) : Prop :=
  let tail := w.pMeta.tailIndex.toNat
  let len := (bodyLenAt w).toNat
  2 ^ 64 ≤ tail + 24 ∨
    len ≠ 0 ∧ tail + 24 ≤ w.pMeta.headIndex.toNat ∧
      (tail + 24 + len) % 2 ^ 64 ≤ w.pMeta.headIndex.toNat ∧ 2 ^ 64 ≤ tail + 24 + len

/-- Route 2: the header is cut off by the end of the region; or the sum
passes for no more than `qTotalSize`, and has wrapped, or is `qTotalSize`
under `QUEUE_CASE1`, whose tail is not set to 0. -/
def OverrunsRoute2 (cs : UInt8) (w : Shm) : Prop :=
  let tail := w.pMeta.tailIndex.toNat
  let len := (bodyLenAt w).toNat
  w.pMeta.qTotalSize.toNat < tail + 24 ∨
    len ≠ 0 ∧ (tail + 24 + len) % 2 ^ 64 ≤ w.pMeta.qTotalSize.toNat ∧
      (2 ^ 64 ≤ tail + 24 + len ∨ cs = 1 ∧ tail + 24 + len = w.pMeta.qTotalSize.toNat)

/-- Route 3: the bytes up to the end of the region are more than a header;
or the sum passes for no more than `headIndex`, and has wrapped. -/
def OverrunsRoute3 (w : Shm) : Prop :=
  let size0 := w.pMeta.qTotalSize.toNat - w.pMeta.tailIndex.toNat
  let len := (splitBodyLenAt w).toNat
  24 < size0 ∨
    len ≠ 0 ∧ (24 - size0 + len) % 2 ^ 64 ≤ w.pMeta.headIndex.toNat ∧
      2 ^ 64 ≤ 24 - size0 + len

/-- Route 4: the header is cut off by the end of the region; or, as nothing
bounds the length, the body is shorter than the `size0` bytes up to that
end, or what is left of it behind them is as long as the region. -/
def OverrunsRoute4 (w : Shm) : Prop :=
  let tail := w.pMeta.tailIndex.toNat
  let size0 := w.pMeta.qTotalSize.toNat - tail - 24
  let len := (bodyLenAt w).toNat
  w.pMeta.qTotalSize.toNat < tail + 24 ∨
    len ≠ 0 ∧ (tail + 25) % 2 ^ 64 ≤ w.pMeta.qTotalSize.toNat ∧
      (len < size0 ∨ w.pMeta.qTotalSize.toNat ≤ len - size0)

/-- Route 5: nothing bounds the length. -/
def OverrunsRoute5 (w : Shm) : Prop :=
  w.pMeta.qTotalSize.toNat = w.pMeta.tailIndex.toNat + 24 ∧
    w.pMeta.qTotalSize.toNat ≤ (bodyLenAt w).toNat

/-- The routes a case byte chooses from. -/
def OverrunsCase (cs : UInt8) (w : Shm) : Prop :=
  if cs = 1 ∨ cs = 2 then OverrunsRoute2 cs w
  else if cs = 3 then OverrunsRoute3 w
  else if cs = 4 then OverrunsRoute4 w
  else if cs = 5 then OverrunsRoute5 w
  else False

/-- The element at the tail takes the read out of its buffers. -/
def Overruns (w : Shm) : Prop :=
  if w.pMeta.tailIndex < w.pMeta.headIndex then OverrunsRoute1 w
  else OverrunsCase (w.pQueue w.pMeta.tailIndex.toNat) w

theorem zero_eq_iff (x : UInt64) : 0 = x ↔ x.toNat = 0 := by
  rw [← UInt64.toNat_inj, UInt64.toNat_zero, eq_comm]

section Fits

variable {w : Shm}
variable (hhead : w.pMeta.headIndex.toNat < w.pMeta.qTotalSize.toNat)
variable (htail : w.pMeta.tailIndex.toNat < w.pMeta.qTotalSize.toNat)

include hhead htail

/-- When route 1 is guarded. -/
theorem course1_fits (hgt : w.pMeta.tailIndex.toNat < w.pMeta.headIndex.toNat) :
    (course1 w).Fits w.pMeta.qTotalSize.toNat ↔ ¬ OverrunsRoute1 w := by
  have hword := w.pMeta.qTotalSize.toNat_lt
  have hlen := (bodyLenAt w).toNat_lt
  simp only [Course.Fits, FitsFrom, course1, headerCopy, dataCopy, OverrunsRoute1,
    Access.staysInside_copy, UInt64.lt_iff_toNat_lt, UInt64.toNat_add, toNat_headerSize,
    zero_eq_iff]
  omega

/-- When route 2 is guarded. -/
theorem course2_fits (cs : UInt8) :
    (course2 w cs).Fits w.pMeta.qTotalSize.toNat ↔ ¬ OverrunsRoute2 cs w := by
  have hword := w.pMeta.qTotalSize.toNat_lt
  have hlen := (bodyLenAt w).toNat_lt
  simp only [Course.Fits, FitsFrom, course2, headerCopy, dataCopy, OverrunsRoute2,
    Access.staysInside_copy, UInt64.lt_iff_toNat_lt, UInt64.toNat_add, toNat_headerSize,
    zero_eq_iff]
  by_cases hcs : cs = 1
  · simp only [hcs, if_true, UInt64.toNat_add, toNat_headerSize, true_and]
    omega
  · simp only [hcs, if_false, UInt64.toNat_zero, false_and, or_false]
    omega

/-- When route 3 is guarded, its first copies before any check included. -/
theorem course3_fits (htotal : 24 < w.pMeta.qTotalSize.toNat) :
    (course3 w).Fits w.pMeta.qTotalSize.toNat ↔ ¬ OverrunsRoute3 w := by
  have hword := w.pMeta.qTotalSize.toNat_lt
  have hlen := (splitBodyLenAt w).toNat_lt
  have hsize0 := toNat_rest htail
  unfold course3
  generalize w.pMeta.qTotalSize - w.pMeta.tailIndex = size0 at hsize0 ⊢
  simp only [Course.Fits, FitsFrom, headerCopy, dataCopy, OverrunsRoute3,
    Access.staysInside_copy, Access.staysInside_sub, true_and, UInt64.lt_iff_toNat_lt,
    UInt64.toNat_add, UInt64.toNat_sub, toNat_headerSize, UInt64.sub_zero, zero_eq_iff]
  omega

/-- When route 4 is guarded. -/
theorem course4_fits : (course4 w).Fits w.pMeta.qTotalSize.toNat ↔ ¬ OverrunsRoute4 w := by
  have hword := w.pMeta.qTotalSize.toNat_lt
  have hlen := (bodyLenAt w).toNat_lt
  simp only [Course.Fits, FitsFrom, course4, headerCopy, dataCopy, OverrunsRoute4,
    Access.staysInside_copy, Access.staysInside_sub, true_and, UInt64.lt_iff_toNat_lt,
    UInt64.toNat_add, UInt64.toNat_sub, toNat_headerSize, UInt64.toNat_one, zero_eq_iff]
  omega

/-- When route 5 is guarded. -/
theorem course5_fits : (course5 w).Fits w.pMeta.qTotalSize.toNat ↔ ¬ OverrunsRoute5 w := by
  have hword := w.pMeta.qTotalSize.toNat_lt
  have hlen := (bodyLenAt w).toNat_lt
  simp only [Course.Fits, FitsFrom, course5, headerCopy, dataCopy, OverrunsRoute5,
    Access.staysInside_copy, ne_eq, Decidable.not_not, ← UInt64.toNat_inj, UInt64.toNat_add,
    UInt64.toNat_zero, toNat_headerSize]
  omega

/-- When the route that a case takes is guarded. -/
theorem courseOf_fits (htotal : 24 < w.pMeta.qTotalSize.toNat) (cs : UInt8) :
    (courseOf w cs).Fits w.pMeta.qTotalSize.toNat ↔ ¬ OverrunsCase cs w := by
  unfold courseOf OverrunsCase
  split
  · exact course2_fits hhead htail cs
  split
  · exact course3_fits hhead htail htotal
  split
  · exact course4_fits hhead htail
  split
  · exact course5_fits hhead htail
  · exact iff_of_true (fun h => h.elim) id

end Fits

/-- **What the checks of a read are worth.**  Whatever the region holds, a
read throws a `ValueError` and changes nothing, or returns with the tail
inside the region, and makes no copy outside its buffers on the way, if and
only if the element at the tail is not one that overruns the checks of its
route. -/
theorem guarded_iff_not_overruns {w : Shm} (env : Environment)
    (htotal : headerSize.toNat < w.pMeta.qTotalSize.toNat)
    (hhead : w.pMeta.headIndex.toNat < w.pMeta.qTotalSize.toNat)
    (htail : w.pMeta.tailIndex.toNat < w.pMeta.qTotalSize.toNat)
    (hcount : w.pMeta.elementCount ≠ 0) : Guarded w env ↔ ¬ Overruns w := by
  have hscene := queueScene_apply w
  unfold Overruns
  by_cases hgt : w.pMeta.tailIndex.toNat < w.pMeta.headIndex.toNat
  · rw [if_pos hgt] at hscene
    rw [if_pos (UInt64.lt_iff_toNat_lt.mpr hgt), ← course1_fits hhead htail hgt]
    exact guarded_iff_of_ends hhead hscene (readRoute1_ends env.stack w)
  · rw [if_neg hgt] at hscene
    rw [if_neg (fun h => hgt (UInt64.lt_iff_toNat_lt.mp h)), ← courseOf_fits hhead htail htotal]
    have hends := readCase_ends env.stack w htotal htail rfl
    -- the case byte itself lies inside the region
    have hfirst : (Access.copy ⟨.header, 24, 0⟩
        ⟨.region, w.pMeta.qTotalSize.toNat, w.pMeta.tailIndex.toNat⟩ 1).StaysInside
        w.pMeta.qTotalSize.toNat :=
      Access.staysInside_copy.mpr ⟨show 0 + 1 ≤ 24 by omega, .inr htail⟩
    have hfits : ∀ scene, queueScene w = .ok scene w →
        readRoutes scene env.stack = readCase env.stack →
        (Guarded w env ↔ (courseOf w (w.pQueue w.pMeta.tailIndex.toNat)).Fits
          w.pMeta.qTotalSize.toNat) := by
      intro scene hscene hroutes
      rw [guarded_iff_of_ends hhead hscene (hroutes ▸ hends)]
      exact and_iff_right hfirst
    split at hscene
    · exact hfits .scene2 hscene rfl
    · exact hfits .scene4 hscene rfl

/-- A queue of 100 bytes whose one element has its header flush with the end
of the region and claims a body of `len` bytes. -/
def flushHeader (len : UInt8) : Shm where
  pMeta := {
    magic := [48, 67, 70, 68], version := [48, 48, 48, 49]
    qTotalSize := 100, qLeftSize := 66, elementCount := 1, headIndex := 10, tailIndex := 76
    serialNO := 1, operationTime := 0, operationPid := 0, extention := [0, 0, 0, 0]
    status := .Q_NOMAL }
  pQueue := fun i => if i = 76 then 5 else if i = 84 then len else 0
  data := ⟨0, fun _ => 0⟩

theorem guarded_iff_not_overruns_flushHeader :
    Guarded (flushHeader 10) zeroEnvironment ↔ ¬ Overruns (flushHeader 10) :=
  guarded_iff_not_overruns zeroEnvironment (by decide) (by decide) (by decide) (by decide)

/-- A body of 101 bytes is copied out of a region of 100, and the tail ends
behind it. -/
theorem unguarded_read : ¬ ∀ (w : Shm) (env : Environment),
    headerSize.toNat < w.pMeta.qTotalSize.toNat →
    w.pMeta.headIndex.toNat < w.pMeta.qTotalSize.toNat →
    w.pMeta.tailIndex.toNat < w.pMeta.qTotalSize.toNat →
    w.pMeta.elementCount ≠ 0 → Guarded w env := by
  intro h
  have hguarded := h (flushHeader 101) zeroEnvironment (by decide) (by decide) (by decide)
    (by decide)
  have hread : ∃ w', read zeroEnvironment (flushHeader 101) = .ok () w' ∧
      ¬ w'.pMeta.tailIndex.toNat < w'.pMeta.qTotalSize.toNat := ⟨_, rfl, by decide⟩
  obtain ⟨w', hrun, hout⟩ := hread
  obtain ⟨e, w'', as, herr, -⟩ | ⟨w'', as, hok, -, -, htail⟩ := hguarded
  · rw [hrun] at herr
    cases herr
  · rw [hrun] at hok
    cases hok
    exact hout htail

end ElementOp

end CppFastDevelop
