import CppFastDevelop.Foundation.PathName
import CppFastDevelop.Lib.Machine
import Mathlib.Data.List.DropRight

/-!
# CppFastDevelop.Foundation.ExePath

The functions of `cf_utility_program.hpp` that ask the kernel where the
program is.  `readlink` does not end the text it stores, so what they read is
the link's text and whatever the caller's buffer holds behind it.

They answer right, in any order and as often as they are called on one
buffer, exactly when the buffer had a terminator behind the link's text to
begin with (`answers_right_iff`).  `GetExeName` does not look at the pointer
that `GetProgramFullName` returns, and where it is null there is no name
(`getExeName_of_null`).
-/

namespace CppFastDevelop

open CString Machine

namespace PathName

/-! ## the functions -/

/-- `GetProgramFullName`: whether a pointer is returned, `len`, and the
buffer.  A link that cannot be read leaves the buffer alone, a long one is
cut to it. -/
def getProgramFullName (link : Option (List UInt8)) (fullName : List UInt8) :
    Option (Bool × Int × List UInt8) :=
  match link with
  | none => some (false, -1, fullName)
  | some text => do
      let fullName ← store fullName 0 (text.take MAX_SIZE)
      let len := (text.take MAX_SIZE).length
      return (decide (len < MAX_SIZE), len, fullName)

def getExeAbsPath (link : Option (List UInt8)) (absPath : List UInt8) : Option (List UInt8) := do
  let (_, len, absPath) ← getProgramFullName link absPath
  let c ← absPath[0]?
  if 0 = c then return absPath
  else
    let absPathRes ← load absPath 0 MAX_SIZE
    getPathByPathNameExt absPathRes (Int32.ofInt len) absPath

def getExeName (link : Option (List UInt8)) (exeName : List UInt8) : Option (List UInt8) := do
  let (_, len, exeName) ← getProgramFullName link exeName
  let c ← exeName[0]?
  if 0 = c then return exeName
  else
    let exeNameRes ← load exeName 0 MAX_SIZE
    getNameByPathNameExt exeNameRes (UInt32.ofInt len) exeName

def getExeParentAbsPath (link : Option (List UInt8)) (parentAbsPath : List UInt8) :
    Option (List UInt8) := do
  let (_, _, parentAbsPath) ← getProgramFullName link parentAbsPath
  let c ← parentAbsPath[0]?
  if 0 = c then return parentAbsPath
  else
    let (last1, last2) ← getIndexByPathNameExt parentAbsPath
    if last1 ≤ 0 ∨ last2 ≤ 0 then store parentAbsPath 0 [0]
    else store parentAbsPath last2 [0]

/-! ## what they are for -/

/-- A text up to its last slash; nothing where it has none. -/
def directory (text : List UInt8) : List UInt8 := (text.rdropWhile (· ≠ slash)).dropLast

/-- A text behind its last slash. -/
def fileName (text : List UInt8) : List UInt8 := text.rtakeWhile (· ≠ slash)

/-- What `/proc/self/exe` points to. -/
structure ExeLink where
  text : List UInt8
  zero_notMem : 0 ∉ text
  length_lt : text.length < MAX_SIZE
  slash_mem : slash ∈ text
  fileName_ne_nil : fileName text ≠ []

inductive ExeCall
  | absPath
  | name
  | parentAbsPath
  deriving DecidableEq, Repr

def exeCall (link : Option (List UInt8)) (p : List UInt8) : ExeCall → Option (List UInt8)
  | .absPath => getExeAbsPath link p
  | .name => getExeName link p
  | .parentAbsPath => getExeParentAbsPath link p

/-- What a call is to return. -/
def ExeLink.answer (link : ExeLink) : ExeCall → List UInt8
  | .absPath => directory link.text
  | .name => fileName link.text
  | .parentAbsPath => directory (directory link.text)

/-- A caller that uses one buffer for all its calls: the string it is given,
and the buffer. -/
def serve (text : List UInt8) (p : Option (List UInt8)) (c : ExeCall) :
    Option (List UInt8) × Option (List UInt8) :=
  let q := p.bind fun p => exeCall (some text) p c
  (q.bind cstr, q)

section Cut

variable {path name : List UInt8}

theorem ne_slash_of_notMem (h : slash ∉ name) : ∀ c ∈ name.reverse, decide (c ≠ slash) = true :=
  fun _ hc => decide_eq_true fun hslash => h (hslash ▸ List.mem_reverse.mp hc)

theorem directory_append (h : slash ∉ name) (path : List UInt8) :
    directory (path ++ slash :: name) = path := by
  have hreverse : (path ++ slash :: name).reverse = name.reverse ++ slash :: path.reverse := by
    simp
  rw [directory, List.rdropWhile, hreverse, List.dropWhile_append_of_pos (ne_slash_of_notMem h),
    List.dropWhile_cons_of_neg (by simp)]
  simp

theorem directory_of_notMem (h : slash ∉ path) : directory path = [] := by
  have hall : path.rdropWhile (· ≠ slash) = [] :=
    List.rdropWhile_eq_nil_iff.mpr fun c hc =>
      ne_slash_of_notMem h c (List.mem_reverse.mpr hc)
  rw [directory, hall]
  rfl

theorem fileName_append (h : slash ∉ name) (path : List UInt8) :
    fileName (path ++ slash :: name) = name := by
  have hreverse : (path ++ slash :: name).reverse = name.reverse ++ slash :: path.reverse := by
    simp
  rw [fileName, List.rtakeWhile, hreverse, List.takeWhile_append_of_pos (ne_slash_of_notMem h),
    List.takeWhile_cons_of_neg (by simp)]
  simp

end Cut

/-- The link as a directory and a name. -/
theorem ExeLink.exists_cut (link : ExeLink) : ∃ path name,
    link.text = path ++ slash :: name ∧ slash ∉ name ∧ name ≠ [] := by
  obtain ⟨path, name, hcut, hname⟩ := exists_append_of_slash link.slash_mem
  refine ⟨path, name, hcut, hname, fun hnil => link.fileName_ne_nil ?_⟩
  rw [hcut, fileName_append hname, hnil]

/-! ## the last two slashes -/

/-- Characters that are not slashes are passed over at any point of the
scan. -/
theorem scan_passes (front : List UInt8) {name : List UInt8} (hname : slash ∉ name)
    (rest : List UInt8) (cnt : Nat) (last1 last2 : Int) :
    scan (front ++ (name ++ rest)) (front.length + name.length) cnt last1 last2 =
      scan (front ++ (name ++ rest)) front.length cnt last1 last2 := by
  induction name generalizing rest front with
  | nil => rfl
  | cons c cs ih =>
      have hc : slash ≠ c := fun hc => hname (hc ▸ List.mem_cons_self)
      have hskip := ih (front ++ [c]) (fun hcs => hname (List.mem_cons_of_mem c hcs)) rest
      simp only [List.append_assoc, List.singleton_append, List.length_append,
        List.length_singleton] at hskip
      have hlen : front.length + (c :: cs).length = front.length + 1 + cs.length := by
        simp [Nat.add_comm, Nat.add_left_comm]
      rw [List.cons_append, hlen, hskip, scan]
      simp [hc]

/-- With two slashes found the scan changes nothing any more. -/
theorem scan_done {pp : List UInt8} {i cnt : Nat} (hi : i ≤ pp.length) (hcnt : 2 ≤ cnt)
    (last1 last2 : Int) : scan pp i cnt last1 last2 = some (last1, last2) := by
  induction i with
  | zero => rfl
  | succ i ih =>
      have hread : pp[i]? = some pp[i] := List.getElem?_eq_getElem hi
      have hzero : ¬ 0 = cnt := by omega
      have hone : ¬ 1 = cnt := by omega
      simp only [scan, hread, Option.bind_eq_bind, Option.bind_some, if_neg hzero, if_neg hone]
      split
      · rfl
      · exact ih (by omega)

/-- Where a text has its last slash, -1 for nowhere. -/
def lastSlash (text : List UInt8) : Int :=
  if slash ∈ text then (directory text).length else -1

/-- Behind the last slash the scan looks for one more. -/
theorem scan_second (path rest : List UInt8) (last1 : Int) :
    scan (path ++ rest) path.length 1 last1 (-1) = some (last1, lastSlash path) := by
  by_cases hslash : slash ∈ path
  · obtain ⟨up, dir, rfl, hdir⟩ := exists_append_of_slash hslash
    have hskip := scan_passes (up ++ [slash]) hdir rest 1 last1 (-1)
    have hlen : (up ++ slash :: dir).length = (up ++ [slash]).length + dir.length := by
      simp [Nat.add_comm, Nat.add_left_comm]
    have hblock : up ++ slash :: dir ++ rest = up ++ [slash] ++ (dir ++ rest) := by simp
    have hinside : up.length ≤ (up ++ [slash] ++ (dir ++ rest)).length := by simp
    have hdone := scan_done hinside (Nat.le_refl 2) last1 up.length
    rw [lastSlash, if_pos hslash, directory_append hdir, hlen, hblock, hskip, List.length_append,
      List.length_singleton, scan]
    simpa using hdone
  · have hskip := scan_passes [] hslash rest 1 last1 (-1)
    rw [List.nil_append, List.length_nil, Nat.zero_add] at hskip
    rw [lastSlash, if_neg hslash, hskip, scan]

theorem getIndexByPathNameExt_cut {path name : List UInt8} (hname : slash ∉ name)
    (hzero : 0 ∉ path ++ slash :: name) (hlen : (path ++ slash :: name).length < MAX_SIZE)
    (rest : List UInt8) :
    getIndexByPathNameExt (path ++ slash :: name ++ 0 :: rest) =
      some ((path.length : Int), lastSlash path) := by
  have hskip := scan_passes (path ++ [slash]) hname (0 :: rest) 0 (-1) (-1)
  have hall : (path ++ slash :: name).length = (path ++ [slash]).length + name.length := by
    simp [Nat.add_comm, Nat.add_left_comm]
  have hblock : path ++ slash :: name ++ 0 :: rest = path ++ [slash] ++ (name ++ 0 :: rest) := by
    simp
  have hsecond := scan_second path (slash :: (name ++ 0 :: rest)) path.length
  rw [getIndexByPathNameExt_eq (strlen_append hzero rest) hlen, hall, hblock, hskip,
    List.length_append, List.length_singleton, scan]
  simpa using hsecond

/-! ## buffers -/

/-- A buffer with a terminator at a place. -/
def Ended (n : Nat) (p : List UInt8) : Prop := p.length = MAX_SIZE ∧ p[n]? = some 0

/-- A write keeps the terminator, if it has one for the place itself. -/
theorem Ended.store {n : Nat} {p q bytes : List UInt8} {off : Int} (h : Ended n p)
    (hstore : store p off bytes = some q)
    (hbytes : off ≤ n → n < off + bytes.length → bytes[n - off.toNat]? = some 0) : Ended n q := by
  refine ⟨(store_eq_some hstore).2.2.trans h.1, ?_⟩
  rw [getElem?_of_store hstore]
  split
  · next hin => exact hbytes hin.1 hin.2
  · exact h.2

theorem Ended.store_before {n : Nat} {p q bytes : List UInt8} {off : Int} (h : Ended n p)
    (hstore : CString.store p off bytes = some q) (hle : off + bytes.length ≤ n) : Ended n q :=
  h.store hstore fun _ hlt => absurd hlt (by omega)

theorem Ended.store_zeros {n k : Nat} {p q : List UInt8} {off : Int} (h : Ended n p)
    (hstore : CString.store p off (List.replicate k 0) = some q) : Ended n q := by
  refine h.store hstore fun hle hlt => ?_
  rw [List.length_replicate] at hlt
  rw [List.getElem?_replicate, if_pos (by omega)]

/-- Behind the last slash `GetPathByPathNameExt` writes zeros only. -/
theorem Ended.getPath {n : Nat} {p q pp : List UInt8} {ppLen : Int32} {last1 last2 : Int}
    (h : Ended n p) (hindex : getIndexByPathNameExt pp = some (last1, last2)) (hlt : last1 < n)
    (hn : n < MAX_SIZE) (hq : getPathByPathNameExt pp ppLen p = some q) : Ended n q := by
  simp only [getPathByPathNameExt, hindex, Option.bind_eq_bind, Option.bind_some] at hq
  split at hq
  · exact h.store_zeros (k := 1) hq
  · next hpos =>
      simp only [Option.bind_eq_some_iff] at hq
      obtain ⟨p₁, hp₁, bytes, hbytes, p₂, hp₂, hq⟩ := hq
      have hsize : asSize last1 = last1.toNat := by
        obtain ⟨m, rfl⟩ := Int.eq_ofNat_of_zero_le (Int.le_of_lt (Int.lt_of_not_ge hpos))
        exact asSize_natCast (by omega)
      have hlen := length_of_load hbytes
      have hended := (h.store_zeros hp₁).store_before hp₂ (by omega)
      exact hended.store_zeros (k := 1) hq

/-- `GetNameByPathNameExt` writes the terminator no further than where the
path ends. -/
theorem Ended.getName {p q pp : List UInt8} {ppLen : UInt32} {last1 last2 : Int}
    (h : Ended ppLen.toNat p) (hindex : getIndexByPathNameExt pp = some (last1, last2))
    (hpos : 0 ≤ last1) (hlt : last1 < ppLen.toNat) (hn : ppLen.toNat < MAX_SIZE)
    (hq : getNameByPathNameExt pp ppLen p = some q) : Ended ppLen.toNat q := by
  obtain ⟨k, hk⟩ : ∃ k : Nat, (ppLen.toNat : Int) - last1 = k :=
    Int.eq_ofNat_of_zero_le (by omega)
  have hcount : asUint32 (ppLen.toNat - last1) = k := by rw [hk, asUint32_natCast (by omega)]
  simp only [getNameByPathNameExt, hindex, Option.bind_eq_bind, Option.bind_some,
    if_neg (by omega : ¬ -1 = last1), hcount] at hq
  split at hq
  · exact h.store_zeros (k := 1) hq
  · simp only [Option.bind_eq_some_iff] at hq
    obtain ⟨p₁, hp₁, bytes, hbytes, p₂, hp₂, hq⟩ := hq
    have hsize : asSize (asInt k) = k := by
      obtain hk' | hk' := Nat.lt_or_ge k MAX_SIZE
      · rw [asInt_natCast hk', asSize_natCast (by omega)]
      · omega
    have hlen := length_of_load hbytes
    have hended := (h.store_zeros hp₁).store_before hp₂ (by omega)
    exact hended.store_zeros (k := 1) hq

/-! ## the calls -/

section Calls

variable (link : ExeLink) {p : List UInt8}

/-- The buffer that `readlink` leaves. -/
def ExeLink.laid (p : List UInt8) : List UInt8 := link.text ++ p.drop link.text.length

theorem ExeLink.length_laid (hp : p.length = MAX_SIZE) : (link.laid p).length = MAX_SIZE := by
  have hlt := link.length_lt
  rw [laid, List.length_append, List.length_drop]
  omega

theorem ExeLink.exists_head (p : List UInt8) : ∃ c, (link.laid p)[0]? = some c ∧ ¬ 0 = c := by
  have hpos : 0 < link.text.length := List.length_pos_of_mem link.slash_mem
  refine ⟨link.text[0], ?_, fun hzero => link.zero_notMem (hzero ▸ List.getElem_mem hpos)⟩
  rw [laid, List.getElem?_append_left hpos, List.getElem?_eq_getElem]

theorem getProgramFullName_link (hp : p.length = MAX_SIZE) :
    getProgramFullName (some link.text) p =
      some (true, (link.text.length : Int), link.laid p) := by
  have hlt := link.length_lt
  have htake : link.text.take MAX_SIZE = link.text := List.take_of_length_le (Nat.le_of_lt hlt)
  rw [getProgramFullName, htake, store_front (by omega)]
  simp [hlt, ExeLink.laid]

theorem load_laid (hp : p.length = MAX_SIZE) :
    load (link.laid p) 0 MAX_SIZE = some (link.laid p) := by
  have hlen := link.length_laid hp
  exact load_front.mpr ⟨Nat.le_of_eq hlen.symm, List.take_of_length_le (Nat.le_of_eq hlen)⟩

theorem getExeAbsPath_link (hp : p.length = MAX_SIZE) :
    getExeAbsPath (some link.text) p =
      getPathByPathNameExt (link.laid p) (Int32.ofInt link.text.length) (link.laid p) := by
  obtain ⟨c, hc, hzero⟩ := link.exists_head p
  simp only [getExeAbsPath, getProgramFullName_link link hp, Option.bind_eq_bind, Option.bind_some,
    hc, if_neg hzero, load_laid link hp]

theorem getExeName_link (hp : p.length = MAX_SIZE) :
    getExeName (some link.text) p =
      getNameByPathNameExt (link.laid p) (UInt32.ofInt link.text.length) (link.laid p) := by
  obtain ⟨c, hc, hzero⟩ := link.exists_head p
  simp only [getExeName, getProgramFullName_link link hp, Option.bind_eq_bind, Option.bind_some,
    hc, if_neg hzero, load_laid link hp]

theorem toNat_length : (UInt32.ofInt link.text.length).toNat = link.text.length := by
  have hlt := link.length_lt
  have hmax : MAX_SIZE = 4096 := rfl
  have hmod : ((link.text.length : Int) % 2 ^ 32).toNat = link.text.length := by omega
  rw [UInt32.ofInt, hmod]
  exact UInt32.toNat_ofNat_of_lt' (Nat.lt_trans hlt (by decide))

theorem toNat_length_lt : (UInt32.ofInt link.text.length).toNat < MAX_SIZE := by
  rw [toNat_length]
  exact link.length_lt

/-- A buffer that ends behind the link holds the link's text. -/
theorem laid_of_ended (h : Ended link.text.length p) :
    ∃ rest, link.laid p = link.text ++ 0 :: rest ∧ Ended link.text.length (link.laid p) := by
  obtain ⟨hlt, hzero⟩ := List.getElem?_eq_some_iff.mp h.2
  refine ⟨p.drop (link.text.length + 1), ?_, link.length_laid h.1, ?_⟩
  · rw [ExeLink.laid, ← hzero, List.getElem_cons_drop]
  · rw [ExeLink.laid, List.getElem?_append_right (Nat.le_refl _), Nat.sub_self,
      List.getElem?_drop, Nat.add_zero]
    exact h.2

theorem getExeParentAbsPath_link (hp : p.length = MAX_SIZE) :
    getExeParentAbsPath (some link.text) p =
      (getIndexByPathNameExt (link.laid p)).bind fun last =>
        if last.1 ≤ 0 ∨ last.2 ≤ 0 then store (link.laid p) 0 [0]
        else store (link.laid p) last.2 [0] := by
  obtain ⟨c, hc, hzero⟩ := link.exists_head p
  simp only [getExeParentAbsPath, getProgramFullName_link link hp, Option.bind_eq_bind,
    Option.bind_some, hc, if_neg hzero]

/-- The link's text is cut where a terminator is stored in it. -/
theorem cut_at {rest : List UInt8} (hended : Ended link.text.length (link.laid p))
    (hlaid : link.laid p = link.text ++ 0 :: rest) {m : Nat} (hm : m < link.text.length) :
    ∃ q, store (link.laid p) m [0] = some q ∧ cstr q = some (link.text.take m) ∧
      Ended link.text.length q := by
  have hlt := link.length_lt
  have hlen := hended.1
  obtain ⟨q, hq, -⟩ := exists_store (link.laid p) [0] m (by simp; omega)
  have htake := take_of_store hq
  rw [hlaid, List.take_append_of_le_length (Nat.le_of_lt hm), List.length_singleton] at htake
  have hfront : (link.text.take m).length = m := List.length_take_of_le (Nat.le_of_lt hm)
  refine ⟨q, hq, cstr_of_take ?_ (by rw [hfront, htake]), hended.store_zeros (k := 1) hq⟩
  exact fun hmem => link.zero_notMem (List.mem_of_mem_take hmem)

theorem directory_eq_nil {path : List UInt8}
    (h : (path.length : Int) ≤ 0 ∨ lastSlash path ≤ 0) : directory path = [] := by
  by_cases hslash : slash ∈ path
  · have hpos := List.length_pos_of_mem hslash
    rw [lastSlash, if_pos hslash] at h
    exact List.eq_nil_of_length_eq_zero (by omega)
  · exact directory_of_notMem hslash

theorem directory_of_inner {path : List UInt8}
    (h : ¬ ((path.length : Int) ≤ 0 ∨ lastSlash path ≤ 0)) :
    slash ∈ path ∧ directory path = path.take (directory path).length ∧
      (directory path).length ≤ path.length := by
  have hprefix : directory path <+: path :=
    (List.dropLast_prefix _).trans (List.rdropWhile_prefix _ path)
  refine ⟨?_, List.prefix_iff_eq_take.mp hprefix, hprefix.length_le⟩
  refine Classical.byContradiction fun hslash => h (.inr ?_)
  rw [lastSlash, if_neg hslash]
  decide

/-- From a buffer that ends behind the link each call answers right, and
leaves such a buffer. -/
theorem exeCall_of_ended (h : Ended link.text.length p) (c : ExeCall) :
    ∃ q, exeCall (some link.text) p c = some q ∧ cstr q = some (link.answer c) ∧
      Ended link.text.length q := by
  obtain ⟨path, name, hcut, hname, hnil⟩ := link.exists_cut
  obtain ⟨rest, hlaid, hended⟩ := laid_of_ended link h
  have hzero : 0 ∉ path ++ slash :: name := hcut ▸ link.zero_notMem
  have hlt : (path ++ slash :: name).length < MAX_SIZE := hcut ▸ link.length_lt
  have hindex := getIndexByPathNameExt_cut hname hzero hlt rest
  rw [← hcut, ← hlaid] at hindex
  have hlen : link.text.length = path.length + 1 + name.length := by
    rw [hcut]
    simp [Nat.add_comm, Nat.add_left_comm]
  cases c with
  | absPath =>
      obtain ⟨q, hq, hstring⟩ := getPathByPathNameExt_of_slash hname hzero hlt
        (Int32.ofInt link.text.length) hended.1 rest
      rw [← hcut, ← hlaid] at hq
      refine ⟨q, (getExeAbsPath_link link h.1).trans hq, ?_, ?_⟩
      · rw [hstring, ExeLink.answer, hcut, directory_append hname]
      · exact hended.getPath hindex (by omega) link.length_lt hq
  | name =>
      have hppLen := toNat_length link
      have hppLt := toNat_length_lt link
      obtain ⟨q, hq, hstring⟩ := getNameByPathNameExt_of_slash hname hzero
        (hppLen.trans (congrArg List.length hcut)) hppLt hended.1 rest
      rw [← hcut, ← hlaid] at hq
      refine ⟨q, (getExeName_link link h.1).trans hq, ?_, ?_⟩
      · rw [hstring, ExeLink.answer, hcut, fileName_append hname]
      · rw [← hppLen] at hended ⊢
        exact hended.getName hindex (by omega) (by omega) hppLt hq
  | parentAbsPath =>
      have hcall : exeCall (some link.text) p .parentAbsPath =
          if (path.length : Int) ≤ 0 ∨ lastSlash path ≤ 0 then store (link.laid p) 0 [0]
          else store (link.laid p) (lastSlash path) [0] := by
        rw [exeCall, getExeParentAbsPath_link link h.1, hindex, Option.bind_some]
      have hanswer : link.answer .parentAbsPath = directory path := by
        rw [ExeLink.answer, hcut, directory_append hname]
      rw [hcall, hanswer]
      split
      · next hroot =>
          rw [directory_eq_nil hroot]
          exact cut_at link hended hlaid (List.length_pos_of_mem link.slash_mem)
      · next hinner =>
          obtain ⟨hslash, htake, hle⟩ := directory_of_inner hinner
          have hprefix : directory path = link.text.take (directory path).length := by
            rw [hcut, List.take_append_of_le_length hle, ← htake]
          rw [lastSlash, if_pos hslash]
          obtain ⟨q, hq, hstring, hkept⟩ := cut_at link hended hlaid
            (m := (directory path).length) (by omega)
          exact ⟨q, hq, by rw [hstring, ← hprefix], hkept⟩

/-- `GetNameByPathNameExt` behind a slash that is not in the path it is given
the length of: it returns nothing, or an empty string. -/
theorem cstr_getName_of_beyond {pp q : List UInt8} {ppLen : UInt32} {last1 last2 : Int}
    (hp : p.length = MAX_SIZE) (hindex : getIndexByPathNameExt pp = some (last1, last2))
    (hle : ppLen.toNat ≤ last1) (hpos : 0 < ppLen.toNat) (hlt : last1 < MAX_SIZE)
    (hq : getNameByPathNameExt pp ppLen p = some q) : cstr q = some [] := by
  have hmax : MAX_SIZE = 4096 := rfl
  have hlast : asInt (asUint32 (ppLen.toNat - 1)) = (ppLen.toNat - 1 : Nat) := by
    have hsub : (ppLen.toNat : Int) - 1 = (ppLen.toNat - 1 : Nat) := by omega
    rw [hsub, asUint32_natCast (by omega), asInt_natCast (by omega)]
  simp only [getNameByPathNameExt, hindex, Option.bind_eq_bind, Option.bind_some,
    if_neg (by omega : ¬ -1 = last1), hlast,
    if_neg (by omega : ¬ ((ppLen.toNat - 1 : Nat) : Int) = last1), Option.bind_eq_some_iff] at hq
  obtain ⟨p₁, hp₁, bytes, -, p₂, hp₂, hq⟩ := hq
  -- the terminator is stored in the buffer only where the slash is the one behind the path
  have hzero : asUint32 (ppLen.toNat - last1) = (0 : Nat) := by
    obtain ⟨hoff, hin, -⟩ := store_eq_some hq
    have hlen := (store_eq_some hp₂).2.2.trans (store_eq_some hp₁).2.2
    unfold asUint32 at hoff hin ⊢
    omega
  rw [hzero] at hq
  exact cstr_of_take List.not_mem_nil (take_of_store hq)

/-- Where something else than a terminator follows the link's text, the
string is longer than the name. -/
theorem getElem?_getName {pp q : List UInt8} {ppLen : UInt32} {path name rest : List UInt8}
    {c : UInt8} {last2 : Int} (hpp : pp = path ++ slash :: name ++ c :: rest)
    (hindex : getIndexByPathNameExt pp = some ((path.length : Int), last2))
    (hppLen : ppLen.toNat = (path ++ slash :: name).length) (hlt : ppLen.toNat < MAX_SIZE)
    (hnil : name ≠ []) (hq : getNameByPathNameExt pp ppLen p = some q) :
    q[name.length]? = some c := by
  have hlen : ppLen.toNat = path.length + 1 + name.length := by
    rw [hppLen]
    simp [Nat.add_comm, Nat.add_left_comm]
  have hname : 0 < name.length := List.length_pos_of_ne_nil hnil
  have hlast : asInt (asUint32 (ppLen.toNat - 1)) = (path.length + name.length : Nat) := by
    have hsub : (ppLen.toNat : Int) - 1 = (path.length + name.length : Nat) := by omega
    rw [hsub, asUint32_natCast (by omega), asInt_natCast (by omega)]
  have hcount : asUint32 (ppLen.toNat - path.length) = (name.length + 1 : Nat) := by
    have hsub : (ppLen.toNat : Int) - path.length = (name.length + 1 : Nat) := by omega
    rw [hsub, asUint32_natCast (by omega)]
  have hsize : asSize (asInt (name.length + 1 : Nat)) = name.length + 1 := by
    rw [asInt_natCast (by omega), asSize_natCast (by omega)]
  have hload : load pp (path.length + 1) (name.length + 1) = some (name ++ [c]) := by
    have hread : load (path ++ [slash] ++ (name ++ [c] ++ rest)) (path.length + 1)
        (name ++ [c]).length = some (name ++ [c]) := load_of_append (by simp)
    rw [hpp]
    simpa using hread
  simp only [getNameByPathNameExt, hindex, Option.bind_eq_bind, Option.bind_some,
    if_neg (by omega : ¬ (-1 : Int) = path.length), hlast, hcount, hsize, hload,
    if_neg (by omega : ¬ ((path.length + name.length : Nat) : Int) = path.length),
    Option.bind_eq_some_iff] at hq
  obtain ⟨p₁, -, p₂, hp₂, hq⟩ := hq
  have hinside : (0 : Int) ≤ name.length ∧ (name.length : Int) < 0 + (name ++ [c]).length := by
    rw [List.length_append, List.length_singleton]
    omega
  rw [getElem?_of_store hq, if_neg (by omega), getElem?_of_store hp₂, if_pos hinside]
  simp

/-- What the buffer still holds behind the link's text, up to the terminator
that the scan starts from. -/
theorem exists_stale (hp : p.length = MAX_SIZE) (hzero : p[link.text.length]? ≠ some 0)
    {last : Int × Int} (hindex : getIndexByPathNameExt (link.laid p) = some last) :
    ∃ c stale rest, c ≠ 0 ∧ link.laid p = link.text ++ c :: stale ++ 0 :: rest ∧
      0 ∉ link.text ++ c :: stale ∧ (link.text ++ c :: stale).length < MAX_SIZE := by
  obtain ⟨m, hm, -⟩ := Option.bind_eq_some_iff.mp hindex
  obtain ⟨rest, hlaid, hnot, hlen⟩ := exists_of_strlen hm
  have hin : link.text.length < p.length := hp ▸ link.length_lt
  have hc : p[link.text.length] ≠ 0 := fun hc => hzero (List.getElem?_eq_some_iff.mpr ⟨hin, hc⟩)
  have hblock : link.laid p =
      link.text ++ p[link.text.length] :: p.drop (link.text.length + 1) := by
    rw [ExeLink.laid, ← List.drop_eq_getElem_cons hin]
  have hat : (link.laid p)[m]? = some 0 := by
    rw [hlaid, List.getElem?_append_right (Nat.le_of_eq hlen), hlen, Nat.sub_self]
    rfl
  have hlt : link.text.length < m := by
    refine Classical.byContradiction fun hge => ?_
    obtain hbefore | rfl := Nat.lt_or_eq_of_le (Nat.le_of_not_lt hge)
    · rw [ExeLink.laid, List.getElem?_append_left hbefore] at hat
      exact link.zero_notMem (List.mem_of_getElem? hat)
    · rw [hblock, List.getElem?_append_right (Nat.le_refl _), Nat.sub_self] at hat
      exact hc (Option.some.inj hat)
  obtain ⟨k, hk⟩ : ∃ k, m - link.text.length = k + 1 := ⟨m - link.text.length - 1, by omega⟩
  have htake : (link.laid p).take m =
      link.text ++ p[link.text.length] :: (p.drop (link.text.length + 1)).take k := by
    rw [hblock, List.take_append, List.take_of_length_le (Nat.le_of_lt hlt), hk,
      List.take_succ_cons]
  have hall := congrArg List.length hlaid
  rw [link.length_laid hp, List.length_append, hlen, List.length_cons] at hall
  rw [htake] at hlaid hnot hlen
  exact ⟨_, _, rest, hc, hlaid, hnot, by omega⟩

/-- `GetExeName` answers right only from a buffer that ends behind the
link. -/
theorem ended_of_name (hp : p.length = MAX_SIZE)
    (h : (getExeName (some link.text) p).bind cstr = some (fileName link.text)) :
    Ended link.text.length p := by
  obtain ⟨q, hq, hstring⟩ := Option.bind_eq_some_iff.mp h
  rw [getExeName_link link hp] at hq
  obtain ⟨last, hlast, -⟩ := Option.bind_eq_some_iff.mp hq
  refine ⟨hp, Classical.byContradiction fun hzero => ?_⟩
  obtain ⟨c, stale, rest, hc, hlaid, hnot, hlt⟩ := exists_stale link hp hzero hlast
  have hppLen := toNat_length link
  by_cases hslash : slash ∈ c :: stale
  · obtain ⟨front, back, hcut, hback⟩ := exists_append_of_slash hslash
    have hblock : link.text ++ c :: stale = link.text ++ front ++ slash :: back := by
      rw [hcut, List.append_assoc]
    rw [hblock] at hlaid hnot hlt
    have hindex := getIndexByPathNameExt_cut hback hnot hlt rest
    rw [← hlaid] at hindex
    rw [List.length_append, List.length_append] at hlt
    have hempty := cstr_getName_of_beyond (link.length_laid hp) hindex
      (by rw [hppLen, List.length_append]; omega)
      (by rw [hppLen]; exact List.length_pos_of_mem link.slash_mem)
      (by rw [List.length_append]; omega) hq
    exact link.fileName_ne_nil (Option.some.inj (hstring.symm.trans hempty))
  · obtain ⟨path, name, hcut, hname, hnil⟩ := link.exists_cut
    have hblock : link.text ++ c :: stale = path ++ slash :: (name ++ c :: stale) := by
      rw [hcut, List.append_assoc, List.cons_append]
    have hindex := getIndexByPathNameExt_cut
      (fun hmem => (List.mem_append.mp hmem).elim hname hslash) (hblock ▸ hnot) (hblock ▸ hlt) rest
    rw [← hblock, ← hlaid] at hindex
    have hpp : link.laid p = path ++ slash :: name ++ c :: (stale ++ 0 :: rest) := by
      rw [hlaid, hcut]
      simp
    have hafter := getElem?_getName hpp hindex (hppLen.trans (congrArg List.length hcut))
      (toNat_length_lt link) hnil hq
    have hend := getElem?_of_cstr hstring
    rw [hcut, fileName_append hname, hafter] at hend
    exact hc (Option.some.inj hend)

end Calls

/-! ## every sequence of calls -/

/-- **Exactly when the program finds itself.**  The strings that a caller with
one buffer is given, whichever functions it calls and in whichever order, are
the directory of the program, its name and the directory above, if and only
if the buffer began with a terminator behind the link's text. -/
theorem answers_right_iff (link : ExeLink) {p : List UInt8} (hp : p.length = MAX_SIZE) :
    (∀ calls : List ExeCall, answers (serve link.text) (some p) calls =
        calls.map fun c => some (link.answer c)) ↔
      p[link.text.length]? = some 0 := by
  constructor
  · intro h
    have hname := h [.name]
    simp only [answers, List.map_cons, List.map_nil, List.cons.injEq, and_true] at hname
    exact (ended_of_name link hp hname).2
  · intro hzero calls
    refine answers_eq_map (I := fun o => ∃ p, o = some p ∧ Ended link.text.length p) ?_
      ⟨p, rfl, hp, hzero⟩ calls
    rintro _ c ⟨p, rfl, hended⟩
    obtain ⟨q, hq, hstring, hkept⟩ := exeCall_of_ended link hended c
    simp only [serve, Option.bind_some, hq]
    exact ⟨hstring, q, rfl, hkept⟩

/-- A program in a directory of the root's. -/
def binCat : ExeLink where
  text := ofString "/bin/cat"
  zero_notMem := by decide +kernel
  length_lt := by decide +kernel
  slash_mem := by decide +kernel
  fileName_ne_nil := by decide +kernel

theorem answers_right_iff_binCat :
    (∀ calls : List ExeCall,
        answers (serve binCat.text) (some (List.replicate MAX_SIZE 0)) calls =
          calls.map fun c => some (binCat.answer c)) ↔
      (List.replicate MAX_SIZE 0)[binCat.text.length]? = some (0 : UInt8) :=
  answers_right_iff binCat (length_buffer 0)

/-- In a buffer that held a longer text the name goes on with one character
of it. -/
example : (serve binCat.text (some (ofString "/usr/lib64" ++ List.replicate 4086 0)) .name).1 =
    some (ofString "cat6") := by decide +kernel

/-! ## a link that is not read -/

/-- The last slash is in the block. -/
theorem last1_bounds {pp : List UInt8} (hpp : pp.length ≤ MAX_SIZE) {last1 last2 : Int}
    (h : getIndexByPathNameExt pp = some (last1, last2)) : -1 ≤ last1 ∧ last1 < pp.length := by
  obtain ⟨m, hm, -⟩ := Option.bind_eq_some_iff.mp h
  obtain ⟨rest, hblock, hnot, hlen⟩ := exists_of_strlen hm
  have hall := congrArg List.length hblock
  rw [List.length_append, List.length_cons, hlen] at hall
  rw [hblock] at h
  by_cases hslash : slash ∈ pp.take m
  · obtain ⟨path, name, hcut, hname⟩ := exists_append_of_slash hslash
    rw [hcut] at h hnot hlen
    rw [getIndexByPathNameExt_cut hname hnot (by omega)] at h
    cases h
    rw [List.length_append] at hlen
    omega
  · rw [getIndexByPathNameExt_of_no_slash hslash hnot (by omega)] at h
    cases h
    omega

/-- Where `GetProgramFullName` returns a null pointer `GetExeName` goes on
all the same, and copies more than any buffer has. -/
theorem getExeName_of_null {link : Option (List UInt8)} (hlink : ∀ text ∈ link, 0 ∉ text)
    {p q : List UInt8} {len : Int} (hp : p.length = MAX_SIZE)
    (hnull : getProgramFullName link p = some (false, len, q)) (hq : q[0]? ≠ some 0) :
    getExeName link p = none := by
  have hmax : MAX_SIZE = 4096 := rfl
  refine Option.eq_none_iff_forall_ne_some.mpr fun r hr => ?_
  simp only [getExeName, hnull, Option.bind_eq_bind, Option.bind_some,
    Option.bind_eq_some_iff] at hr
  obtain ⟨c, hc, hr⟩ := hr
  have hzero : ¬ 0 = c := fun hzero => hq (hzero ▸ hc)
  rw [if_neg hzero, Option.bind_eq_some_iff] at hr
  obtain ⟨res, hres, hr⟩ := hr
  obtain ⟨⟨last1, last2⟩, hindex, hr⟩ := Option.bind_eq_some_iff.mp hr
  cases link with
  | none =>
      obtain ⟨rfl, rfl⟩ : len = -1 ∧ q = p := by
        cases hnull
        exact ⟨rfl, rfl⟩
      have hppLen : (UInt32.ofInt (-1)).toNat = 4294967295 := by decide
      have hlen := length_of_load hres
      obtain ⟨hlow, hhigh⟩ := last1_bounds (Nat.le_of_eq hlen) hindex
      have hlast : asInt (asUint32 ((4294967295 : Nat) - 1)) = -2 := by decide
      simp only [hppLen, hlast, if_neg (by omega : ¬ (-2 : Int) = last1)] at hr
      split at hr
      · obtain ⟨bytes, hbytes, hr⟩ := Option.bind_eq_some_iff.mp hr
        have hcount := length_of_load hbytes
        have hin := (store_eq_some hr).2.1
        omega
      · simp only [Option.bind_eq_bind, Option.bind_eq_some_iff] at hr
        obtain ⟨p₁, hp₁, bytes, -, p₂, hp₂, hr⟩ := hr
        have hin := (store_eq_some hr).2.1
        have hlen₂ := (store_eq_some hp₂).2.2.trans (store_eq_some hp₁).2.2
        unfold asUint32 at hin
        omega
  | some text =>
      -- the link fills the buffer, and nothing ends it
      simp only [getProgramFullName, Option.bind_eq_bind, Option.bind_eq_some_iff] at hnull
      obtain ⟨p₁, hp₁, hnull⟩ := hnull
      obtain ⟨hfull, -, rfl⟩ : ¬ (text.take MAX_SIZE).length < MAX_SIZE ∧ _ ∧ p₁ = q := by
        simpa using hnull
      have htake := take_of_store hp₁
      have hlen := (store_eq_some hp₁).2.2
      rw [Nat.zero_add, List.take_of_length_le (by omega), List.take_zero, List.nil_append] at htake
      obtain ⟨m, hm, -⟩ := Option.bind_eq_some_iff.mp hindex
      obtain ⟨rest, hblock, -, -⟩ := exists_of_strlen hm
      have hmem : 0 ∈ p₁ := by
        refine List.mem_of_mem_take (i := MAX_SIZE) ?_
        rw [(load_front.mp hres).2, hblock]
        simp
      rw [htake] at hmem
      exact hlink text rfl (List.mem_of_mem_take hmem)

end PathName

end CppFastDevelop
