import CppFastDevelop.Exception
import CppFastDevelop.Lib.Decimal
import CppFastDevelop.Lib.Machine
import Mathlib.Algebra.Group.Int.Defs
import Mathlib.Algebra.GroupWithZero.Nat

/-!
# CppFastDevelop.Foundation.PidFileWriter

Objects that share a pid file.  `Set` writes the number of its process into the
file and `Get` reads it; the destructor removes the file, whatever its object
was used for.  So the file is there for as long as the object that last called
`Set` lives, and a reader leaves it alone, exactly in the runs that destroy no
other object while there is a file (`inForce_iff_ownerDestroyed`).
-/

namespace CppFastDevelop

open CString Machine

/-! ## one object -/

/-- What is at the path: its directory, and the file. -/
structure PidPath where
  directory : Bool
  file : Option (List UInt8)

/-- What the system calls of one function return: `mkdir`, `cf_open`, and
`cf_write` or `cf_read`. -/
structure SystemCalls where
  mkdir : Int
  cfOpen : Int
  transferred : Int

/-- The descriptor is not initialised by the constructor. -/
structure PidFileWriter where
  fd : Option Int := none

namespace PidFileWriter

/-- `Set`: the directory is made if it is not there, and the file truncated.
Of the number no more than seven digits have room in the buffer. -/
def writePid (w : PidFileWriter) (pid : Nat) (calls : SystemCalls) (path : PidPath) :
    Option (Except BaseException Unit × PidFileWriter × PidPath) :=
  if path.directory = false ∧ calls.mkdir = -1 then
    some (.error ⟨.syscallExecuteError, "Failed to execute mkdir !", []⟩, w, path)
  else if calls.cfOpen = -1 then
    some (.error ⟨.syscallExecuteError, "Failed to execute cf_open !", []⟩,
      { w with fd := some calls.cfOpen }, { path with directory := true })
  else do
    let buf ← store (List.replicate 8 0) 0 (snprintf 8 (unsigned pid))
    let n := (unsigned pid).length
    let bytes ← load buf 0 n
    let result : Except BaseException Unit :=
      if calls.transferred ≠ n then
        .error ⟨.valueError, "nw\x7b%d\x7d!=n\x7b%d\x7d !", [calls.transferred, n]⟩
      else .ok ()
    return (result, { w with fd := some calls.cfOpen },
      ⟨true, some (bytes.take calls.transferred.toNat)⟩)

/-- `Get`: up to eight bytes are read, and `atoi` looks for what ends the
number among them. -/
def readPid (w : PidFileWriter) (calls : SystemCalls) (path : PidPath) :
    Option (Except BaseException Nat × PidFileWriter) :=
  if path.directory = false then
    some (.error ⟨.runtimeWarning, "Failed access file %s !", []⟩, w)
  else
    match path.file with
    | none => some (.error ⟨.syscallExecuteError, "Failed to execute cf_open !", []⟩,
        { w with fd := some (-1) })
    | some content =>
        if calls.cfOpen = -1 then
          some (.error ⟨.syscallExecuteError, "Failed to execute cf_open !", []⟩,
            { w with fd := some calls.cfOpen })
        else do
          let buf ← store (List.replicate 8 0) 0 ((content.take 8).take calls.transferred.toNat)
          if calls.transferred ≤ 0 then
            return (.error ⟨.valueError, "Failed cf_read ! nr=%d ", [calls.transferred]⟩,
              { w with fd := some calls.cfOpen })
          else
            let n ← atoi buf
            return (.ok (n % 2 ^ 32).toNat, { w with fd := some calls.cfOpen })

/-- The destructor removes the file.  It closes `_fd` as well, which is not set
before the first `Set` or `Get`: what closing that number does elsewhere is
left alone. -/
def destruct (path : PidPath) : PidPath := { path with file := none }

/-- All calls succeed and transfer what they were asked for. -/
def succeeding (fd n : Nat) : SystemCalls := ⟨0, fd, n⟩

/-! ## all objects -/

inductive Object
  | unborn
  | alive (w : PidFileWriter)
  | destroyed

/-- The objects on one path. -/
structure System where
  path : PidPath
  objects : Nat → Object

def System.setObject (s : System) (i : Nat) (o : Object) : System :=
  { s with objects := fun j => if j = i then o else s.objects j }

/-- A call made on an object; `fd` is the descriptor that is opened. -/
inductive Use
  | construct (i : Nat)
  | set (i pid fd : Nat)
  | get (i fd : Nat)
  | destroy (i : Nat)

/-- What `Get` returns. -/
def System.get (s : System) (w : PidFileWriter) (fd : Nat) :
    Option (Except BaseException Nat × PidFileWriter) :=
  w.readPid (succeeding fd (min 8 (s.path.file.getD []).length)) s.path

/-- Calls on objects that are alive. -/
def step (s : System) : Use → Option System
  | .construct i =>
      match s.objects i with
      | .unborn => some (s.setObject i (.alive {}))
      | _ => none
  | .set i pid fd =>
      match s.objects i with
      | .alive w => (w.writePid pid (succeeding fd (unsigned pid).length) s.path).map
          fun (_, w', path) => { s with path := path }.setObject i (.alive w')
      | _ => none
  | .get i fd =>
      match s.objects i with
      | .alive w => (s.get w fd).map fun (_, w') => s.setObject i (.alive w')
      | _ => none
  | .destroy i =>
      match s.objects i with
      | .alive _ => some ({ s with path := destruct s.path }.setObject i .destroyed)
      | _ => none

/-! ## calls that succeed -/

section Calls

variable {pid : Nat} (hpid : pid < 10 ^ 7)

include hpid

/-- A buffer of eight bytes has room for the number and a terminator. -/
theorem store_unsigned : store (List.replicate 8 0) 0 (unsigned pid) =
    some (unsigned pid ++ 0 :: List.replicate (7 - (unsigned pid).length) 0) := by
  have hlen : (unsigned pid).length ≤ 7 := length_unsigned_le hpid (by decide)
  have hrest : 8 - (unsigned pid).length = 7 - (unsigned pid).length + 1 := by omega
  rw [store_front (by rw [List.length_replicate]; omega), List.drop_replicate, hrest,
    List.replicate_succ]

theorem writePid_eq (w : PidFileWriter) (fd : Nat) (path : PidPath) :
    w.writePid pid (succeeding fd (unsigned pid).length) path =
      some (.ok (), ⟨some fd⟩, ⟨true, some (unsigned pid)⟩) := by
  have hlen : (unsigned pid).length ≤ 7 := length_unsigned_le hpid (by decide)
  have hbuf : store (List.replicate 8 0) 0 (snprintf 8 (unsigned pid)) =
      some (unsigned pid ++ ([0] ++ List.replicate (7 - (unsigned pid).length) 0)) := by
    have hrest : 8 - ((unsigned pid).length + 1) = 7 - (unsigned pid).length := by omega
    rw [snprintf_of_lt (by omega), store_front (by simp; omega), List.drop_replicate,
      List.length_append, List.length_singleton, List.append_assoc, hrest]
  have hload : load (unsigned pid ++ ([0] ++ List.replicate (7 - (unsigned pid).length) 0)) 0
      (unsigned pid).length = some (unsigned pid) := by
    simp [load]
  have hmkdir : ¬ (path.directory = false ∧ (succeeding fd (unsigned pid).length).mkdir = -1) :=
    fun h => Int.noConfusion (h.2 : (0 : Int) = -1)
  have hopen : ¬ (succeeding fd (unsigned pid).length).cfOpen = -1 := by
    show ¬ (fd : Int) = -1
    omega
  rw [writePid, if_neg hmkdir, if_neg hopen]
  simp only [hbuf, hload, succeeding, Option.bind_eq_bind, Option.bind_some, Int.toNat_natCast,
    List.take_length, ne_eq, not_true_eq_false, if_false]
  rfl

theorem readPid_eq (w : PidFileWriter) (fd : Nat) :
    w.readPid (succeeding fd (min 8 (unsigned pid).length)) ⟨true, some (unsigned pid)⟩ =
      some (.ok pid, ⟨some fd⟩) := by
  have hlen : (unsigned pid).length ≤ 7 := length_unsigned_le hpid (by decide)
  have hpos := length_unsigned_pos pid
  have hmin : min 8 (unsigned pid).length = (unsigned pid).length := by omega
  have htake : ((unsigned pid).take 8).take (unsigned pid).length = unsigned pid := by
    rw [List.take_take, Nat.min_eq_left (by omega), List.take_length]
  have hword : ((pid : Int) % 2 ^ 32).toNat = pid := by omega
  have hopen : ¬ (fd : Int) = -1 := by omega
  have hread : ¬ ((unsigned pid).length : Int) ≤ 0 := by omega
  rw [hmin]
  simp only [readPid, succeeding, if_neg hopen, if_neg hread, Int.toNat_natCast, htake,
    store_unsigned hpid, atoi_unsigned, Option.bind_eq_bind, Option.bind_some, hword]
  rfl

end Calls

/-! ## what runs keep -/

/-- What has happened so far: the object that last called `Set`, and with which
number, if it is still there; all objects that have called it; and whether an
object that never has, has changed the file. -/
structure Notes where
  owner : Option (Nat × Nat) := none
  setters : List Nat := []
  strayed : Bool := false

def note (k : Notes) (s : System) (u : Use) (s' : System) : Notes :=
  match u with
  | .set i pid _ => { k with owner := some (i, pid), setters := i :: k.setters }
  | .destroy i =>
      { k with
        owner := if k.owner.map Prod.fst = some i then none else k.owner
        strayed := k.strayed || (decide (i ∉ k.setters) && decide (s'.path.file ≠ s.path.file)) }
  | .construct i | .get i _ =>
      { k with
        strayed := k.strayed || (decide (i ∉ k.setters) && decide (s'.path.file ≠ s.path.file)) }

/-- `pid`s are printed with at most seven digits. -/
def Use.InRange : Use → Prop
  | .set _ pid _ => pid < 10 ^ 7
  | _ => True

/-- From a `Set` until its object is destroyed the file exists and every `Get`
returns the number that was set; and no object that has not called `Set` has
changed the file. -/
def InForce (s : System × Notes) : Prop :=
  (∀ i pid, s.2.owner = some (i, pid) → s.1.path.file.isSome = true ∧
    ∀ w fd, (s.1.get w fd).map Prod.fst = some (.ok pid)) ∧
  s.2.strayed = false

/-- An object is destroyed while there is no file, or it is the one that last
called `Set`. -/
def OwnerDestroyed (s : System × Notes) : Use → Prop
  | .destroy i => s.1.path.file = none ∨ ∃ pid, s.2.owner = some (i, pid)
  | _ => True

/-- What runs keep that destroy no object but owners while there is a file. -/
structure Kept (s : System × Notes) : Prop where
  owned : ∀ i pid, s.2.owner = some (i, pid) →
    pid < 10 ^ 7 ∧ s.1.path = ⟨true, some (unsigned pid)⟩ ∧ i ∈ s.2.setters
  free : s.2.owner = none → s.2.setters = [] ∨ s.1.path.file = none
  strayed : s.2.strayed = false

theorem Kept.inForce {s : System × Notes} (h : Kept s) : InForce s := by
  refine ⟨fun i pid howner => ?_, h.strayed⟩
  obtain ⟨hpid, hpath, -⟩ := h.owned i pid howner
  refine ⟨by rw [hpath]; rfl, fun w fd => ?_⟩
  rw [System.get, hpath]
  show (w.readPid (succeeding fd (min 8 (unsigned pid).length)) _).map Prod.fst = _
  rw [readPid_eq hpid]
  rfl

/-- A step that leaves the path and the notes alone. -/
theorem Kept.of_eq {s s' : System × Notes} (h : Kept s) (hpath : s'.1.path = s.1.path)
    (hnotes : s'.2 = s.2) : Kept s' := by
  refine ⟨?_, ?_, ?_⟩
  · rw [hpath, hnotes]; exact h.owned
  · rw [hpath, hnotes]; exact h.free
  · rw [hnotes]; exact h.strayed

section Steps

variable {s s' : System × Notes} {u : Use}

/-- What one use does to the path and to the notes. -/
theorem recorded_step_cases (hu : u.InRange) (h : recorded step note s u = some s') :
    (∃ i pid fd, u = .set i pid fd ∧ s'.1.path = ⟨true, some (unsigned pid)⟩ ∧
      s'.2 = { s.2 with owner := some (i, pid), setters := i :: s.2.setters }) ∨
    (∃ i, u = .destroy i ∧ s'.1.path = destruct s.1.path ∧ s'.2 = note s.2 s.1 u s'.1) ∨
    ((∀ i, u ≠ .destroy i) ∧ s'.1.path = s.1.path ∧ s'.2 = s.2) := by
  obtain ⟨hstep, hnote⟩ := recorded_eq_some.mp h
  cases u with
  | construct i =>
      simp only [step] at hstep
      split at hstep
      · have hsame : s'.1.path = s.1.path := by rw [← Option.some.inj hstep]; rfl
        refine Or.inr (Or.inr ⟨nofun, hsame, ?_⟩)
        rw [hnote, note, hsame]
        simp
      · cases hstep
  | set i pid fd =>
      simp only [step] at hstep
      split at hstep
      · next w hw =>
          rw [writePid_eq hu, Option.map_some, Option.some.injEq] at hstep
          exact Or.inl ⟨i, pid, fd, rfl, by rw [← hstep]; rfl, hnote⟩
      · cases hstep
  | get i fd =>
      simp only [step] at hstep
      split at hstep
      · obtain ⟨r, -, hs'⟩ := Option.map_eq_some_iff.mp hstep
        have hsame : s'.1.path = s.1.path := by rw [← hs']; rfl
        refine Or.inr (Or.inr ⟨nofun, hsame, ?_⟩)
        rw [hnote, note, hsame]
        simp
      · cases hstep
  | destroy i =>
      simp only [step] at hstep
      split at hstep
      · exact Or.inr (Or.inl ⟨i, rfl, by rw [← Option.some.inj hstep]; rfl, hnote⟩)
      · cases hstep

/-- One use. -/
theorem kept_step (hu : u.InRange) (h : recorded step note s u = some s')
    (howner : OwnerDestroyed s u) (hs : Kept s) : Kept s' := by
  obtain ⟨i, pid, fd, rfl, hpath, hnotes⟩ | ⟨i, rfl, hpath, hnotes⟩ | ⟨-, hpath, hnotes⟩ :=
    recorded_step_cases hu h
  · refine ⟨fun j p hj => ?_, fun hnone => ?_, ?_⟩
    · rw [hnotes] at hj ⊢
      cases hj
      exact ⟨hu, hpath, List.mem_cons_self⟩
    · rw [hnotes] at hnone
      cases hnone
    · rw [hnotes]
      exact hs.strayed
  · -- there is nothing to remove and nobody is the owner, or the owner goes
    have hleft : s'.2.owner = none ∧ s'.2.strayed = false := by
      rcases howner with hfile | ⟨pid, howner⟩
      · have hnone : s.2.owner = none := by
          cases howner : s.2.owner with
          | none => rfl
          | some p =>
              rw [(hs.owned p.1 p.2 howner).2.1] at hfile
              cases hfile
        rw [hnotes]
        simp [note, hnone, hs.strayed, hpath, destruct, hfile]
      · have hsetter := (hs.owned i pid howner).2.2
        rw [hnotes]
        simp [note, howner, hsetter, hs.strayed]
    refine ⟨fun j p hj => ?_, fun _ => Or.inr (by rw [hpath, destruct]), hleft.2⟩
    rw [hleft.1] at hj
    cases hj
  · exact hs.of_eq hpath hnotes

/-- An object that takes the file with it, though it is not the owner, is
noticed. -/
theorem ownerDestroyed_of_inForce (hu : u.InRange) (h : recorded step note s u = some s')
    (hs : Kept s) (hs' : InForce s') : OwnerDestroyed s u := by
  obtain ⟨i, pid, fd, rfl, -, -⟩ | ⟨i, rfl, hpath, hnotes⟩ | ⟨hnot, -, -⟩ :=
    recorded_step_cases hu h
  · trivial
  · have hgone : s'.1.path.file = none := by rw [hpath, destruct]
    cases hfile : s.1.path.file with
    | none => exact Or.inl hfile
    | some content =>
        cases howner : s.2.owner with
        | some p =>
            obtain ⟨j, pid⟩ := p
            by_cases hj : j = i
            · exact Or.inr ⟨pid, by rw [howner, hj]⟩
            · have hstill : s'.2.owner = some (j, pid) := by
                rw [hnotes]
                simp [note, howner, hj]
              have hexists := (hs'.1 j pid hstill).1
              rw [hgone] at hexists
              cases hexists
        | none =>
            rcases hs.free howner with hsetters | hnone
            · have hstrayed : s'.2.strayed = true := by
                rw [hnotes]
                simp [note, hsetters, hfile, hgone]
              rw [hs'.2] at hstrayed
              cases hstrayed
            · rw [hfile] at hnone
              cases hnone
  · cases u with
    | destroy i => exact absurd rfl (hnot i)
    | _ => trivial

end Steps

/-- No object has been constructed, and whatever is at the path. -/
def System.start (path : PidPath) : System := ⟨path, fun _ => .unborn⟩

theorem kept_start (path : PidPath) : Kept (System.start path, {}) :=
  ⟨nofun, fun _ => Or.inl rfl, rfl⟩

/-- **Exactly when the file is in force.**  In every state of a run the file
exists, and is read as it was set, from a `Set` until its object is destroyed,
and objects that only read have not changed it, if and only if every object
the run destroys is the last to have called `Set`, or there is no file. -/
theorem inForce_iff_ownerDestroyed (path : PidPath) {us : List Use} (hus : ∀ u ∈ us, u.InRange) :
    (∀ ks, ks <+: us → ∀ t, run (recorded step note) (System.start path, {}) ks = some t →
      InForce t) ↔
    Along (recorded step note) OwnerDestroyed (System.start path, {}) us :=
  forall_reached_iff_along_of_valid (fun _ => Kept.inForce)
    (fun _ _ _ hu hstep howner hs => kept_step hu hstep howner hs)
    (fun _ _ _ hu hstep hs hs' => ownerDestroyed_of_inForce hu hstep hs hs') hus (kept_start path)

theorem inForce_iff_ownerDestroyed_writer :
    (∀ ks, ks <+: [.construct 0, .set 0 42 3, .destroy 0] → ∀ t,
      run (recorded step note) (System.start ⟨true, none⟩, {}) ks = some t → InForce t) ↔
    Along (recorded step note) OwnerDestroyed (System.start ⟨true, none⟩, {})
      [.construct 0, .set 0 42 3, .destroy 0] :=
  inForce_iff_ownerDestroyed ⟨true, none⟩ (by simp [Use.InRange])

/-- A reader comes and goes while the writer lives: the file goes with it. -/
theorem not_inForce : ¬ ∀ (path : PidPath) (us : List Use) (t : System × Notes),
    (∀ u ∈ us, u.InRange) → run (recorded step note) (System.start path, {}) us = some t →
      InForce t := by
  intro h
  have hall : ∀ t, run (recorded step note) (System.start ⟨true, none⟩, {})
      [.construct 0, .set 0 42 3, .construct 1, .get 1 4, .destroy 1] = some t → InForce t :=
    fun t => h _ _ t (by simp [Use.InRange])
  have hrun : ∃ t, run (recorded step note) (System.start ⟨true, none⟩, {})
      [.construct 0, .set 0 42 3, .construct 1, .get 1 4, .destroy 1] = some t ∧
      t.1.path.file = none ∧ t.2.owner = some (0, 42) := ⟨_, rfl, rfl, rfl⟩
  obtain ⟨t, ht, hfile, howner⟩ := hrun
  have hexists := ((hall t ht).1 0 42 howner).1
  rw [hfile] at hexists
  cases hexists

end PidFileWriter

end CppFastDevelop
