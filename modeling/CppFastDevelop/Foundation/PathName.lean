import CppFastDevelop.Lib.CString
import Mathlib.Algebra.Group.Int.Defs

/-!
# CppFastDevelop.Foundation.PathName

The functions of `cf_utility_program.hpp` that cut a path at its last slash.
They scan the path from its end and build their results in a buffer of the
caller.  Where the path has a slash, directory and name are what the path is
put together from again (`path_append_name`), whatever was in the buffers.
Where it has none, `GetNameByPathNameExt` copies the path without a
terminator, and the string that is returned goes on with what was in the
buffer before (`sameStrings_iff_slash`).
-/

namespace CppFastDevelop

open CString

def MAX_SIZE : Nat := 4096

/-- `sizeof(p)`: the parameter is a pointer, whatever bound its declaration
has. -/
def sizeofPointer : Nat := 8

/-- A value as a 32-bit `int`. -/
def asInt (n : Int) : Int := n.bmod (2 ^ 32)

/-- A value as a `size_t`. -/
def asSize (n : Int) : Nat := (n % 2 ^ 64).toNat

/-- A value as a 32-bit unsigned. -/
def asUint32 (n : Int) : Int := n % 2 ^ 32

def slash : UInt8 := '/'.toUInt8

namespace PathName

/-! ## the functions -/

/-- `for(int i=len-1; i>=0; i--)`, with `i + 1` as argument. -/
def scan (pp : List UInt8) : Nat → Nat → Int → Int → Option (Int × Int)
  | 0, _, last1, last2 => some (last1, last2)
  | i + 1, cnt, last1, last2 => do
      let c ← pp[i]?
      if slash = c then
        if 0 = cnt then scan pp i (cnt + 1) i last2
        else if 1 = cnt then scan pp i (cnt + 1) last1 i
        else some (last1, last2)
      else scan pp i cnt last1 last2

/-- The places of the last two slashes, -1 for none. -/
def getIndexByPathNameExt (pp : List UInt8) : Option (Int × Int) := do
  let n ← strlen pp
  scan pp (asInt n).toNat 0 (-1) (-1)

/-- The buffer as it is returned. -/
def getNameByPathNameExt (pp : List UInt8) (ppLen : UInt32) (p : List UInt8) :
    Option (List UInt8) := do
  let (last1, _) ← getIndexByPathNameExt pp
  if -1 = last1 then
    -- no terminator is copied
    let bytes ← load pp 0 ppLen.toNat
    store p 0 bytes
  else if asInt (asUint32 (ppLen.toNat - 1)) = last1 then
    store p 0 [0]
  else
    let p ← store p 0 (List.replicate sizeofPointer 0)
    let bytes ← load pp (last1 + 1) (asSize (asInt (asUint32 (ppLen.toNat - last1))))
    let p ← store p 0 bytes
    store p (asUint32 (ppLen.toNat - last1)) [0]

/-- The length is not used. -/
def getPathByPathNameExt (pp : List UInt8) (_ppLen : Int32) (p : List UInt8) :
    Option (List UInt8) := do
  let (last1, _) ← getIndexByPathNameExt pp
  if last1 ≤ 0 then
    store p 0 [0]
  else
    let p ← store p 0 (List.replicate sizeofPointer 0)
    let bytes ← load pp 0 (asSize last1)
    let p ← store p 0 bytes
    store p last1 [0]

/-! ## the scan -/

/-- Once a slash has been found the last one stays. -/
theorem scan_of_pos {pp : List UInt8} {i cnt : Nat} (hi : i ≤ pp.length) (hcnt : 0 < cnt)
    (last1 last2 : Int) : ∃ last2', scan pp i cnt last1 last2 = some (last1, last2') := by
  induction i generalizing cnt last2 with
  | zero => exact ⟨last2, rfl⟩
  | succ i ih =>
      have hread : pp[i]? = some pp[i] := List.getElem?_eq_getElem hi
      have hzero : ¬ 0 = cnt := Nat.ne_of_lt hcnt
      simp only [scan, hread, Option.bind_eq_bind, Option.bind_some, if_neg hzero]
      split
      · split
        · exact ih (by omega) (Nat.succ_pos cnt) _
        · exact ⟨last2, rfl⟩
      · exact ih (by omega) hcnt _

/-- Characters that are not slashes are passed over. -/
theorem scan_append (front : List UInt8) {name : List UInt8} (hname : slash ∉ name)
    (rest : List UInt8) :
    scan (front ++ (name ++ rest)) (front.length + name.length) 0 (-1) (-1) =
      scan (front ++ (name ++ rest)) front.length 0 (-1) (-1) := by
  induction name generalizing rest front with
  | nil => rfl
  | cons c cs ih =>
      have hc : slash ≠ c := fun hc => hname (hc ▸ List.mem_cons_self)
      have hcs : slash ∉ cs := fun hcs => hname (List.mem_cons_of_mem c hcs)
      have hskip := ih (front ++ [c]) hcs rest
      simp only [List.append_assoc, List.singleton_append, List.length_append,
        List.length_singleton] at hskip
      have hlen : front.length + (c :: cs).length = front.length + 1 + cs.length := by
        simp [Nat.add_comm, Nat.add_left_comm]
      rw [List.cons_append, hlen, hskip, scan]
      simp [hc]

/-! ## lengths -/

theorem asInt_natCast {n : Nat} (h : n < MAX_SIZE) : asInt n = n := by
  have hmax : MAX_SIZE = 4096 := rfl
  exact Int.bmod_eq_of_le (by omega) (by omega)

theorem asSize_natCast {n : Nat} (h : n ≤ MAX_SIZE) : asSize n = n := by
  have hmax : MAX_SIZE = 4096 := rfl
  unfold asSize
  omega

theorem asUint32_natCast {n : Nat} (h : n ≤ MAX_SIZE) : asUint32 n = n := by
  have hmax : MAX_SIZE = 4096 := rfl
  unfold asUint32
  omega

theorem getIndexByPathNameExt_eq {pp : List UInt8} {n : Nat} (h : strlen pp = some n)
    (hn : n < MAX_SIZE) : getIndexByPathNameExt pp = scan pp n 0 (-1) (-1) := by
  rw [getIndexByPathNameExt, h, Option.bind_eq_bind, Option.bind_some, asInt_natCast hn,
    Int.toNat_natCast]

theorem getIndexByPathNameExt_of_slash {path name : List UInt8} (hname : slash ∉ name)
    (hzero : 0 ∉ path ++ slash :: name) (hlen : (path ++ slash :: name).length < MAX_SIZE)
    (rest : List UInt8) :
    ∃ last2, getIndexByPathNameExt (path ++ slash :: name ++ 0 :: rest) =
      some ((path.length : Int), last2) := by
  have hskip := scan_append (path ++ [slash]) hname (0 :: rest)
  have hfront : (path ++ [slash]).length = path.length + 1 := by simp
  have hall : path.length + 1 + name.length = (path ++ slash :: name).length := by
    simp [Nat.add_comm, Nat.add_left_comm]
  have hblock : path ++ [slash] ++ (name ++ 0 :: rest) = path ++ slash :: name ++ 0 :: rest := by
    simp
  rw [hfront, hall, hblock] at hskip
  have hin : path.length ≤ (path ++ slash :: name ++ 0 :: rest).length := Nat.le_of_lt (by simp)
  obtain ⟨last2, hrest⟩ := scan_of_pos hin Nat.one_pos path.length (-1)
  refine ⟨last2, ?_⟩
  rw [getIndexByPathNameExt_eq (strlen_append hzero rest) hlen, hskip]
  simpa [scan] using hrest

theorem getIndexByPathNameExt_of_no_slash {name : List UInt8} (hname : slash ∉ name)
    (hzero : 0 ∉ name) (hlen : name.length < MAX_SIZE) (rest : List UInt8) :
    getIndexByPathNameExt (name ++ 0 :: rest) = some (-1, -1) := by
  have hskip := scan_append [] hname (0 :: rest)
  simp only [List.nil_append, List.length_nil, Nat.zero_add] at hskip
  rw [getIndexByPathNameExt_eq (strlen_append hzero rest) hlen, hskip, scan]

/-! ## the results -/

section Results

variable {path name p : List UInt8} {ppLen : UInt32}

/-- A text and its terminator, stored at the front of a buffer. -/
theorem cstr_of_store {block chars : List UInt8} (h : 0 ∉ chars)
    (hstore : store p 0 (chars ++ [0]) = some block) : cstr block = some chars := by
  have htake : block.take (0 + (chars ++ [0]).length) = p.take 0 ++ (chars ++ [0]) :=
    take_of_store hstore
  rw [List.take_zero, Nat.zero_add, List.nil_append, List.length_append] at htake
  exact cstr_of_take h htake

/-- The buffer of an empty result. -/
theorem exists_emptied (hp : p.length = MAX_SIZE) :
    ∃ q, store p 0 [0] = some q ∧ cstr q = some [] := by
  have hmax : MAX_SIZE = 4096 := rfl
  obtain ⟨q, hq, -⟩ := exists_store p [0] 0 (by simp; omega)
  exact ⟨q, hq, cstr_of_store List.not_mem_nil hq⟩

/-- Bytes copied to the front of the buffer, and a terminator behind them. -/
theorem exists_copied (bytes : List UInt8) {chars : List UInt8} (hp : p.length = MAX_SIZE)
    (hfit : bytes.length < MAX_SIZE) (hzero : 0 ∉ chars)
    (hchars : (bytes ++ [0]).take (chars.length + 1) = chars ++ [0]) :
    ∃ p₁ p₂ q, store p 0 (List.replicate sizeofPointer 0) = some p₁ ∧
      store p₁ 0 bytes = some p₂ ∧ store p₂ bytes.length [0] = some q ∧ cstr q = some chars := by
  have hmax : MAX_SIZE = 4096 := rfl
  obtain ⟨p₁, hp₁, hlen₁⟩ := exists_store p (List.replicate sizeofPointer 0) 0
    (by rw [List.length_replicate, hp]; decide)
  obtain ⟨p₂, hp₂, hlen₂⟩ := exists_store p₁ bytes 0 (by omega)
  obtain ⟨q, hq, -⟩ := exists_store p₂ [0] bytes.length (by simp; omega)
  refine ⟨p₁, p₂, q, hp₁, hp₂, hq, cstr_of_take hzero ?_⟩
  have hcopied : p₂.take (0 + bytes.length) = p₁.take 0 ++ bytes := take_of_store hp₂
  rw [List.take_zero, Nat.zero_add, List.nil_append] at hcopied
  have hended := take_of_store hq
  rw [hcopied, List.length_singleton] at hended
  have hle : chars.length + 1 ≤ bytes.length + 1 := by
    have hlen := congrArg List.length hchars
    simp only [List.length_take, List.length_append, List.length_singleton] at hlen
    omega
  have htake := congrArg (List.take (chars.length + 1)) hended
  rwa [List.take_take, Nat.min_eq_left hle, hchars] at htake

theorem load_of_append {xs ys zs : List UInt8} {off : Int} (hoff : off = xs.length) :
    load (xs ++ (ys ++ zs)) off ys.length = some ys := by
  subst hoff
  rw [load, if_pos ⟨by omega, by simp⟩]
  simp

/-- The name is what follows the last slash. -/
theorem getNameByPathNameExt_of_slash (hname : slash ∉ name) (hzero : 0 ∉ path ++ slash :: name)
    (hppLen : ppLen.toNat = (path ++ slash :: name).length) (hlt : ppLen.toNat < MAX_SIZE)
    (hp : p.length = MAX_SIZE) (rest : List UInt8) :
    ∃ q, getNameByPathNameExt (path ++ slash :: name ++ 0 :: rest) ppLen p = some q ∧
      cstr q = some name := by
  obtain ⟨last2, hindex⟩ := getIndexByPathNameExt_of_slash hname hzero (hppLen ▸ hlt) rest
  have hmax : MAX_SIZE = 4096 := rfl
  have hlen : ppLen.toNat = path.length + 1 + name.length := by
    rw [hppLen]
    simp [Nat.add_comm, Nat.add_left_comm]
  have hzeroName : 0 ∉ name := by
    intro h
    exact hzero (by simp [h])
  have hlast : asInt (asUint32 (ppLen.toNat - 1)) = path.length + name.length := by
    have hsub : (ppLen.toNat : Int) - 1 = (path.length + name.length : Nat) := by omega
    rw [hsub, asUint32_natCast (by omega), asInt_natCast (by omega), Int.natCast_add]
  have hcount : asUint32 (ppLen.toNat - path.length) = (name.length + 1 : Nat) := by
    have hsub : (ppLen.toNat : Int) - path.length = (name.length + 1 : Nat) := by omega
    rw [hsub, asUint32_natCast (by omega)]
  have hsize : asSize (asInt (name.length + 1 : Nat)) = name.length + 1 := by
    rw [asInt_natCast (by omega), asSize_natCast (by omega)]
  have hsome : ¬ (-1 : Int) = path.length := by omega
  simp only [getNameByPathNameExt, hindex, Option.bind_eq_bind, Option.bind_some, if_neg hsome,
    hlast, hcount, hsize]
  split
  · -- the path ends with the slash
    have hnil : name = [] := List.eq_nil_of_length_eq_zero (by omega)
    rw [hnil]
    exact exists_emptied hp
  · have hlenCopied : (name ++ [0]).length = name.length + 1 := List.length_append
    obtain ⟨p₁, p₂, q, hp₁, hp₂, hq, hname'⟩ := exists_copied (name ++ [0]) hp
      (by omega) hzeroName (by rw [List.take_left' hlenCopied])
    have hload : load (path ++ slash :: name ++ 0 :: rest) (path.length + 1) (name.length + 1) =
        some (name ++ [0]) := by
      have hread : load (path ++ [slash] ++ (name ++ [0] ++ rest)) (path.length + 1)
          (name ++ [0]).length = some (name ++ [0]) := load_of_append (by simp)
      simpa using hread
    rw [hlenCopied] at hq
    refine ⟨q, ?_, hname'⟩
    simp only [Option.bind_eq_some_iff]
    exact ⟨p₁, hp₁, _, hload, p₂, hp₂, hq⟩

/-- The path is what comes before the last slash. -/
theorem getPathByPathNameExt_of_slash (hname : slash ∉ name) (hzero : 0 ∉ path ++ slash :: name)
    (hlt : (path ++ slash :: name).length < MAX_SIZE) (ppLen : Int32)
    (hp : p.length = MAX_SIZE) (rest : List UInt8) :
    ∃ q, getPathByPathNameExt (path ++ slash :: name ++ 0 :: rest) ppLen p = some q ∧
      cstr q = some path := by
  obtain ⟨last2, hindex⟩ := getIndexByPathNameExt_of_slash hname hzero hlt rest
  have hmax : MAX_SIZE = 4096 := rfl
  have hlen : path.length < MAX_SIZE := by
    rw [List.length_append] at hlt
    omega
  have hzeroPath : 0 ∉ path := by
    intro h
    exact hzero (by simp [h])
  have hsize : asSize path.length = path.length := asSize_natCast (Nat.le_of_lt hlen)
  simp only [getPathByPathNameExt, hindex, Option.bind_eq_bind, Option.bind_some, hsize]
  split
  · -- the slash is at the root
    have hnil : path = [] := List.eq_nil_of_length_eq_zero (by omega)
    rw [hnil]
    exact exists_emptied hp
  · obtain ⟨p₁, p₂, q, hp₁, hp₂, hq, hpath⟩ := exists_copied path hp hlen hzeroPath
      (List.take_of_length_le (by simp))
    have hload : load (path ++ slash :: name ++ 0 :: rest) 0 path.length = some path := by
      have hread : load ([] ++ (path ++ (slash :: name ++ 0 :: rest))) 0 path.length =
          some path := load_of_append rfl
      simpa using hread
    refine ⟨q, ?_, hpath⟩
    simp only [Option.bind_eq_some_iff]
    exact ⟨p₁, hp₁, _, hload, p₂, hp₂, hq⟩

/-- Without a slash there is no path. -/
theorem getPathByPathNameExt_of_no_slash (hname : slash ∉ name) (hzero : 0 ∉ name)
    (hlt : name.length < MAX_SIZE) (ppLen : Int32) (hp : p.length = MAX_SIZE)
    (rest : List UInt8) :
    ∃ q, getPathByPathNameExt (name ++ 0 :: rest) ppLen p = some q ∧ cstr q = some [] := by
  have hindex := getIndexByPathNameExt_of_no_slash hname hzero hlt rest
  obtain ⟨q, hq, hempty⟩ := exists_emptied hp
  refine ⟨q, ?_, hempty⟩
  rw [getPathByPathNameExt, hindex]
  exact hq

/-- Without a slash the name is laid over the buffer. -/
theorem getNameByPathNameExt_of_no_slash (hname : slash ∉ name) (hzero : 0 ∉ name)
    (hppLen : ppLen.toNat = name.length) (hlt : ppLen.toNat < MAX_SIZE)
    (hp : p.length = MAX_SIZE) (rest : List UInt8) :
    getNameByPathNameExt (name ++ 0 :: rest) ppLen p = some (name ++ p.drop name.length) := by
  have hindex := getIndexByPathNameExt_of_no_slash hname hzero (hppLen ▸ hlt) rest
  have hload : load (name ++ 0 :: rest) 0 ppLen.toNat = some name := by
    have hread : load ([] ++ (name ++ 0 :: rest)) 0 name.length = some name := load_of_append rfl
    rwa [List.nil_append, ← hppLen] at hread
  have hstore : store p 0 name = some (name ++ p.drop name.length) := store_front (by omega)
  rw [getNameByPathNameExt, hindex, Option.bind_eq_bind, Option.bind_some]
  exact Option.bind_eq_some_iff.mpr ⟨name, hload, hstore⟩

end Results

/-! ## paths and buffers -/

/-- The string that `GetNameByPathNameExt` returns in a buffer. -/
def nameString (pp : List UInt8) (ppLen : UInt32) (p : List UInt8) : Option (List UInt8) :=
  (getNameByPathNameExt pp ppLen p).bind cstr

/-- The string that `GetPathByPathNameExt` returns in a buffer. -/
def pathString (pp : List UInt8) (ppLen : UInt32) (p : List UInt8) : Option (List UInt8) :=
  (getPathByPathNameExt pp ppLen.toInt32 p).bind cstr

section Paths

variable {pp : List UInt8} {ppLen : UInt32} (hstrlen : strlen pp = some ppLen.toNat)
  (hlt : ppLen.toNat < MAX_SIZE)

/-- A path cut at its last slash. -/
theorem exists_append_of_slash {chars : List UInt8} (h : slash ∈ chars) :
    ∃ path name, chars = path ++ slash :: name ∧ slash ∉ name := by
  obtain ⟨front, back, hreverse, hfront⟩ := List.eq_append_cons_of_mem (List.mem_reverse.mpr h)
  refine ⟨back.reverse, front.reverse, ?_, by simpa using hfront⟩
  simpa using congrArg List.reverse hreverse

include hstrlen hlt

/-- With a slash both strings are determined by the path. -/
theorem exists_strings_of_slash (hslash : slash ∈ pp.take ppLen.toNat) :
    ∃ path name, path ++ [slash] ++ name = pp.take ppLen.toNat ∧ slash ∉ name ∧
      ∀ p : List UInt8, p.length = MAX_SIZE →
        pathString pp ppLen p = some path ∧ nameString pp ppLen p = some name := by
  obtain ⟨rest, hpp, hzero, hlen⟩ := exists_of_strlen hstrlen
  obtain ⟨path, name, hcut, hname⟩ := exists_append_of_slash hslash
  rw [hcut] at hpp hzero hlen
  refine ⟨path, name, by simp [hcut], hname, fun p hp => ?_⟩
  obtain ⟨q, hq, hpath⟩ :=
    getPathByPathNameExt_of_slash hname hzero (hlen ▸ hlt) ppLen.toInt32 hp rest
  obtain ⟨q', hq', hname'⟩ := getNameByPathNameExt_of_slash hname hzero hlen.symm hlt hp rest
  rw [pathString, nameString, hpp, hq, hq']
  exact ⟨hpath, hname'⟩

/-- Without a slash the buffer decides where the name ends. -/
theorem nameString_of_no_slash (hslash : slash ∉ pp.take ppLen.toNat) {p : List UInt8}
    (hp : p.length = MAX_SIZE) :
    nameString pp ppLen p = cstr (pp.take ppLen.toNat ++ p.drop ppLen.toNat) := by
  obtain ⟨rest, hpp, hzero, hlen⟩ := exists_of_strlen hstrlen
  have hq := getNameByPathNameExt_of_no_slash hslash hzero hlen.symm hlt hp rest
  rw [← hpp, hlen] at hq
  rw [nameString, hq, Option.bind_some]

end Paths

/-- The strings are the same whatever was in the buffer before. -/
def SameStrings (pp : List UInt8) (ppLen : UInt32) : Prop :=
  ∀ p p' : List UInt8, p.length = MAX_SIZE → p'.length = MAX_SIZE →
    nameString pp ppLen p = nameString pp ppLen p' ∧
      pathString pp ppLen p = pathString pp ppLen p'

/-- **A path is put together from its parts.**  For every path with a slash
and whatever was in both buffers, the strings returned are the path up to its
last slash and the name behind it. -/
theorem path_append_name {pp : List UInt8} {ppLen : UInt32}
    (hstrlen : strlen pp = some ppLen.toNat) (hlt : ppLen.toNat < MAX_SIZE)
    (hslash : slash ∈ pp.take ppLen.toNat) {p p' : List UInt8} (hp : p.length = MAX_SIZE)
    (hp' : p'.length = MAX_SIZE) :
    ∃ path name, pathString pp ppLen p = some path ∧ nameString pp ppLen p' = some name ∧
      path ++ [slash] ++ name = pp.take ppLen.toNat ∧ slash ∉ name := by
  obtain ⟨path, name, happend, hname, hstrings⟩ := exists_strings_of_slash hstrlen hlt hslash
  exact ⟨path, name, (hstrings p hp).1, (hstrings p' hp').2, happend, hname⟩

theorem length_buffer (c : UInt8) : (List.replicate MAX_SIZE c).length = MAX_SIZE :=
  List.length_replicate

theorem path_append_name_file : ∃ path name,
    pathString (ofString "/1/3/56.8" ++ [0]) 9 (List.replicate MAX_SIZE 65) = some path ∧
      nameString (ofString "/1/3/56.8" ++ [0]) 9 (List.replicate MAX_SIZE 66) = some name ∧
      path ++ [slash] ++ name = (ofString "/1/3/56.8" ++ [0]).take 9 ∧ slash ∉ name :=
  path_append_name (by decide +kernel) (by decide) (by decide +kernel) (length_buffer 65)
    (length_buffer 66)

/-- **Exactly when the buffer does not matter.** -/
theorem sameStrings_iff_slash {pp : List UInt8} {ppLen : UInt32}
    (hstrlen : strlen pp = some ppLen.toNat) (hlt : ppLen.toNat < MAX_SIZE) :
    SameStrings pp ppLen ↔ slash ∈ pp.take ppLen.toNat := by
  constructor
  · intro h
    refine Classical.byContradiction fun hslash => ?_
    have hmax : MAX_SIZE = 4096 := rfl
    obtain ⟨rest, -, hzero, hlen⟩ := exists_of_strlen hstrlen
    have hsame := (h _ _ (length_buffer 0) (length_buffer 65)).1
    rw [nameString_of_no_slash hstrlen hlt hslash (length_buffer 0),
      nameString_of_no_slash hstrlen hlt hslash (length_buffer 65)] at hsame
    have hends : cstr (pp.take ppLen.toNat ++ (List.replicate MAX_SIZE 0).drop ppLen.toNat) =
        some (pp.take ppLen.toNat) := by
      obtain ⟨k, hk⟩ : ∃ k, MAX_SIZE - ppLen.toNat = k + 1 := ⟨MAX_SIZE - ppLen.toNat - 1, by omega⟩
      rw [List.drop_replicate, hk, List.replicate_succ]
      exact cstr_append hzero _
    -- a buffer full of letters never ends the name
    have hgoes : cstr (pp.take ppLen.toNat ++ (List.replicate MAX_SIZE 65).drop ppLen.toNat) =
        none := by
      apply cstr_eq_none
      rw [List.mem_append, List.drop_replicate, List.mem_replicate]
      exact not_or.mpr ⟨hzero, fun h => absurd h.2 (by decide)⟩
    rw [hends, hgoes] at hsame
    cases hsame
  · intro hslash p p' hp hp'
    obtain ⟨path, name, -, -, hstrings⟩ := exists_strings_of_slash hstrlen hlt hslash
    rw [(hstrings p hp).1, (hstrings p' hp').1, (hstrings p hp).2, (hstrings p' hp').2]
    exact ⟨rfl, rfl⟩

theorem sameStrings_iff_slash_file : SameStrings (ofString "/1/3/56.8" ++ [0]) 9 ↔
    slash ∈ (ofString "/1/3/56.8" ++ [0]).take 9 :=
  sameStrings_iff_slash (by decide +kernel) (by decide)

/-- After a longer name the next one without a path still shows the end of
it. -/
theorem not_sameStrings : ¬ ∀ (pp : List UInt8) (ppLen : UInt32),
    strlen pp = some ppLen.toNat → ppLen.toNat < MAX_SIZE → SameStrings pp ppLen := by
  intro h
  have hsame := h (ofString "abc" ++ [0]) 3 (by decide +kernel) (by decide)
    (List.replicate MAX_SIZE 0) (ofString "xxxxx" ++ List.replicate 4091 0)
    (length_buffer 0) (by rw [List.length_append, List.length_replicate]; rfl)
  have hfresh : nameString (ofString "abc" ++ [0]) 3 (List.replicate MAX_SIZE 0) =
      some (ofString "abc") := by decide +kernel
  have hused : nameString (ofString "abc" ++ [0]) 3
      (ofString "xxxxx" ++ List.replicate 4091 0) = some (ofString "abcxx") := by decide +kernel
  have hequal := hsame.1
  rw [hfresh, hused] at hequal
  revert hequal
  decide +kernel

end PathName

end CppFastDevelop
