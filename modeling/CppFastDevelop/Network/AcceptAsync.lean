import CppFastDevelop.Exception
import CppFastDevelop.Lib.Machine

/-!
# CppFastDevelop.Network.AcceptAsync

Taking connections from a listening socket (`cf_network.cpp`):
`AcceptAsync`, with the descriptors of the process.  When the process is
out of descriptors the function closes `nullfd`, a descriptor of
`/dev/null` kept in reserve, takes one connection into its place, closes
that and opens the reserve again.  A step is one system call, labelled with
its result.  Every connection taken is handed on or closed, but an error of
the second `accept` loses the reserve (`reserve_iff`).
-/

namespace CppFastDevelop

open Machine

/-! ## the process and the kernel -/

/-- What a descriptor refers to. -/
inductive File
  | devNull
  | connection (c : Nat)
  deriving DecidableEq, Repr

/-- The values of `errno` that `AcceptAsync` tells apart. -/
inductive Errno
  | eagain
  | ewouldblock
  | econnaborted
  | emfile
  | enfile
  | enobufs
  | enomem
  | other (code : Nat)
  deriving DecidableEq, Repr

/-- `CF_NETWORK_ACCEPT_BREAK`. -/
def Errno.acceptBreak : Errno → Bool
  | .eagain | .ewouldblock | .econnaborted => true
  | _ => false

/-- `CF_NETWORK_NULLFD`. -/
def Errno.nullfd : Errno → Bool
  | .emfile | .enfile | .enobufs | .enomem => true
  | _ => false

/-- What `accept` answers: a descriptor for the next connection and the
address of its peer, or an error. -/
inductive AcceptResult
  | accepted (fd c : Nat) (ip : UInt32) (sinPort : UInt16)
  | failed (e : Errno)
  deriving DecidableEq, Repr

/-- The `Socket` made for a connection. -/
structure AcceptedSocket where
  fd : Nat
  ip : UInt32
  port : UInt16
  c : Nat
  deriving DecidableEq, Repr

/-- `htons` on a little-endian machine. -/
def htons (x : UInt16) : UInt16 := (x <<< 8) ||| (x >>> 8)

/-- Where a call is: outside, or before one of its system calls.  `rt` is the
local of that name; after the reserve is open again the loop goes on
(`again`) or ends. -/
inductive AcceptPc
  | idle
  | accepting (rt : Bool)
  | replacing (rt : Bool)
  | reopening (rt again : Bool)
  deriving DecidableEq, Repr

/-- How a call ended. -/
inductive AcceptOutcome
  | returned (rt : Bool)
  | threw (e : BaseException)
  deriving DecidableEq, Repr

/-- The static `nullfd` (none is -1), the descriptors of the process, the
connections taken from the kernel and those in `clients`, whether the last
`open` of `/dev/null` failed, and the call under way. -/
structure AcceptState where
  nullfd : Option Nat
  file : Nat → Option File
  taken : List Nat
  clients : List AcceptedSocket
  openFailed : Bool
  pc : AcceptPc
  outcome : Option AcceptOutcome

namespace AcceptState

/-- The reserve is open, and nothing was accepted yet. -/
def start (nullfd : Nat) : AcceptState where
  nullfd := some nullfd
  file := fun fd => if fd = nullfd then some .devNull else none
  taken := []
  clients := []
  openFailed := false
  pc := .idle
  outcome := none

/-- A free descriptor is opened. -/
def openFd (s : AcceptState) (fd : Nat) (f : File) : AcceptState :=
  { s with file := fun k => if k = fd then some f else s.file k }

/-- `cf_close`; -1 is not a descriptor. -/
def close (s : AcceptState) : Option Nat → AcceptState
  | none => s
  | some fd => { s with file := fun k => if k = fd then none else s.file k }

/-- The call ends. -/
def finish (s : AcceptState) (outcome : AcceptOutcome) : AcceptState :=
  { s with pc := .idle, outcome := some outcome }

end AcceptState

/-! ## the function -/

def acceptFailed : BaseException :=
  { className := .syscallExecuteError, format := "Failed to execute accept !" }

def cfAcceptFailed : BaseException :=
  { className := .syscallExecuteError, format := "Failed to execute cf_accept !" }

def cfOpenFailed : BaseException :=
  { className := .syscallExecuteError, format := "Failed to execute cf_open !" }

/-- A call begins, one of its system calls answers, or code elsewhere closes
a descriptor of its own. -/
inductive AcceptEvent
  | call
  | accept (r : AcceptResult)
  | opened (fd : Option Nat)
  | closed (fd : Nat)
  deriving DecidableEq, Repr

/-- One step.  The kernel gives only descriptors that are free, and every
connection once. -/
def acceptStep (s : AcceptState) : AcceptEvent → Option AcceptState
  | .call =>
    match s.pc with
    | .idle => some { s with pc := .accepting false }
    | _ => none
  | .accept (.accepted fd c ip sinPort) =>
    if s.file fd = none ∧ c ∉ s.taken then
      let s := { s.openFd fd (.connection c) with taken := c :: s.taken }
      match s.pc with
      | .accepting _ =>
        some { s with clients := s.clients ++ [⟨fd, ip, htons sinPort, c⟩], pc := .accepting true }
      | .replacing rt =>
        some { s.close (some fd) with nullfd := some fd, pc := .reopening rt true }
      | _ => none
    else none
  | .accept (.failed e) =>
    match s.pc with
    | .accepting rt =>
      if e.acceptBreak then some (s.finish (.returned rt))
      else if e.nullfd then some { s.close s.nullfd with pc := .replacing rt }
      else some (s.finish (.threw acceptFailed))
    | .replacing rt =>
      let s := { s with nullfd := none }
      if e.acceptBreak then some { s with pc := .reopening rt false }
      else some (s.finish (.threw cfAcceptFailed))
    | _ => none
  | .opened none =>
    match s.pc with
    | .reopening _ _ =>
      some ({ s with nullfd := none, openFailed := true }.finish (.threw cfOpenFailed))
    | _ => none
  | .opened (some fd) =>
    if s.file fd = none then
      match s.pc with
      | .reopening rt again =>
        let s := { s.openFd fd .devNull with nullfd := some fd, openFailed := false }
        if again then some { s with pc := .accepting rt } else some (s.finish (.returned rt))
      | _ => none
    else none
  | .closed fd => if s.nullfd = some fd then none else some (s.close (some fd))

/-! ## what a step does -/

namespace AcceptState

/-- The connection is handed on. -/
def handOn (s : AcceptState) (fd c : Nat) (ip : UInt32) (sinPort : UInt16) : AcceptState :=
  { s.openFd fd (.connection c) with
    taken := c :: s.taken
    clients := s.clients ++ [⟨fd, ip, htons sinPort, c⟩]
    pc := .accepting true }

/-- The connection is taken into the place of the reserve and closed. -/
def drop (s : AcceptState) (fd c : Nat) (rt : Bool) : AcceptState :=
  { (s.openFd fd (.connection c)).close (some fd) with
    taken := c :: s.taken
    nullfd := some fd
    pc := .reopening rt true }

/-- The reserve is open again. -/
def restore (s : AcceptState) (fd : Nat) : AcceptState :=
  { s.openFd fd .devNull with nullfd := some fd, openFailed := false }

end AcceptState

/-- The steps. -/
inductive AcceptMove (s : AcceptState) : AcceptEvent → AcceptState → Prop
  | call (hpc : s.pc = .idle) : AcceptMove s .call { s with pc := .accepting false }
  | handOn {fd c ip sinPort rt} (hpc : s.pc = .accepting rt) (hfree : s.file fd = none)
      (hnew : c ∉ s.taken) :
      AcceptMove s (.accept (.accepted fd c ip sinPort)) (s.handOn fd c ip sinPort)
  | drop {fd c ip sinPort rt} (hpc : s.pc = .replacing rt) (hfree : s.file fd = none)
      (hnew : c ∉ s.taken) :
      AcceptMove s (.accept (.accepted fd c ip sinPort)) (s.drop fd c rt)
  | finish {e rt} (outcome : AcceptOutcome) (hpc : s.pc = .accepting rt) :
      AcceptMove s (.accept (.failed e)) (s.finish outcome)
  | exhausted {e rt} (hpc : s.pc = .accepting rt) :
      AcceptMove s (.accept (.failed e)) { s.close s.nullfd with pc := .replacing rt }
  | nothing {e rt} (hpc : s.pc = .replacing rt) (he : e.acceptBreak = true) :
      AcceptMove s (.accept (.failed e)) { s with nullfd := none, pc := .reopening rt false }
  | lost {e rt} (hpc : s.pc = .replacing rt) (he : ¬ e.acceptBreak = true) :
      AcceptMove s (.accept (.failed e)) ({ s with nullfd := none }.finish (.threw cfAcceptFailed))
  | openFailed {rt again} (hpc : s.pc = .reopening rt again) :
      AcceptMove s (.opened none)
        ({ s with nullfd := none, openFailed := true }.finish (.threw cfOpenFailed))
  | restoreAgain {fd rt} (hpc : s.pc = .reopening rt true) (hfree : s.file fd = none) :
      AcceptMove s (.opened (some fd)) { s.restore fd with pc := .accepting rt }
  | restoreLast {fd rt} (hpc : s.pc = .reopening rt false) (hfree : s.file fd = none) :
      AcceptMove s (.opened (some fd)) ((s.restore fd).finish (.returned rt))
  | closed {fd} (hother : s.nullfd ≠ some fd) : AcceptMove s (.closed fd) (s.close (some fd))

theorem acceptMove_of_accepted {s t : AcceptState} {fd c : Nat} {ip : UInt32} {sinPort : UInt16}
    (h : acceptStep s (.accept (.accepted fd c ip sinPort)) = some t) :
    AcceptMove s (.accept (.accepted fd c ip sinPort)) t := by
  simp only [acceptStep] at h
  split at h
  · next hif =>
      obtain ⟨hfree, hnew⟩ := hif
      split at h
      · next rt hpc => cases h; exact .handOn hpc hfree hnew
      · next rt hpc => cases h; exact .drop hpc hfree hnew
      · cases h
  · cases h

theorem acceptMove_of_failed {s t : AcceptState} {e : Errno}
    (h : acceptStep s (.accept (.failed e)) = some t) : AcceptMove s (.accept (.failed e)) t := by
  simp only [acceptStep] at h
  split at h
  · next rt hpc =>
      split at h
      · cases h; exact .finish _ hpc
      · split at h
        · cases h; exact .exhausted hpc
        · cases h; exact .finish _ hpc
  · next rt hpc =>
      split at h
      · next he => cases h; exact .nothing hpc he
      · next he => cases h; exact .lost hpc he
  · cases h

theorem acceptMove_of_opened {s t : AcceptState} {fd : Option Nat}
    (h : acceptStep s (.opened fd) = some t) : AcceptMove s (.opened fd) t := by
  cases fd with
  | none =>
      simp only [acceptStep] at h
      split at h
      · next rt again hpc => cases h; exact .openFailed hpc
      · cases h
  | some fd =>
      simp only [acceptStep] at h
      split at h
      · next hfree =>
          split at h
          · next rt again hpc =>
              cases again with
              | true => cases h; exact .restoreAgain hpc hfree
              | false => cases h; exact .restoreLast hpc hfree
          · cases h
      · cases h

theorem acceptMove_of_step {s t : AcceptState} {l : AcceptEvent} (h : acceptStep s l = some t) :
    AcceptMove s l t := by
  cases l with
  | call =>
      simp only [acceptStep] at h
      split at h
      · next hpc => cases h; exact .call hpc
      · cases h
  | accept r =>
      cases r with
      | accepted fd c ip sinPort => exact acceptMove_of_accepted h
      | failed e => exact acceptMove_of_failed h
  | opened fd => exact acceptMove_of_opened h
  | closed fd =>
      simp only [acceptStep] at h
      split at h
      · cases h
      · next hother => cases h; exact .closed hother

/-! ## the reserve -/

/-- `nullfd` is a descriptor of `/dev/null`. -/
def AcceptState.ReserveOpen (s : AcceptState) : Prop :=
  ∃ fd, s.nullfd = some fd ∧ s.file fd = some .devNull

/-- Between calls the reserve is open, unless `/dev/null` could not be
opened. -/
def AcceptState.Reserved (s : AcceptState) : Prop :=
  s.pc = .idle → s.openFailed = true ∨ s.ReserveOpen

/-- The second `accept` finds a connection or none to take; or the reserve is
gone anyway. -/
def AcceptEvent.KeepsReserve (s : AcceptState) : AcceptEvent → Prop
  | .accept (.failed e) =>
    ∀ rt, s.pc = .replacing rt → e.acceptBreak = true ∨ s.openFailed = true
  | _ => True

/-- Wherever the loop may end or start over the reserve is open, unless
`/dev/null` could not be opened. -/
def AcceptState.ReservedInLoop (s : AcceptState) : Prop :=
  match s.pc with
  | .idle | .accepting _ => s.openFailed = true ∨ s.ReserveOpen
  | _ => True

/-- No step outside the call touches the reserve. -/
theorem reserveOpen_of_file {s t : AcceptState} (hnull : t.nullfd = s.nullfd)
    (hfile : ∀ fd, s.nullfd = some fd → s.file fd = some .devNull → t.file fd = s.file fd)
    (h : s.ReserveOpen) : t.ReserveOpen := by
  obtain ⟨fd, hfd, hopen⟩ := h
  exact ⟨fd, hnull.trans hfd, (hfile fd hfd hopen).trans hopen⟩

theorem not_reserveOpen_of_none {s : AcceptState} (h : s.nullfd = none) : ¬ s.ReserveOpen := by
  rintro ⟨fd, hfd, -⟩
  rw [h] at hfd
  cases hfd

theorem reserveOpen_restore (s : AcceptState) (fd : Nat) : (s.restore fd).ReserveOpen :=
  ⟨fd, rfl, by simp [AcceptState.restore, AcceptState.openFd]⟩

/-- A step that keeps the reserve leaves it open wherever the loop goes on or
ends. -/
theorem reservedInLoop_step {s t : AcceptState} {l : AcceptEvent} (h : AcceptMove s l t)
    (hkeeps : l.KeepsReserve s) (hs : s.ReservedInLoop) : t.ReservedInLoop := by
  cases h with
  | call hpc =>
      simp only [AcceptState.ReservedInLoop, hpc] at hs ⊢
      exact hs
  | @handOn fd c ip sinPort rt hpc hfree hnew =>
      simp only [AcceptState.ReservedInLoop, hpc] at hs
      have hfile (k : Nat) (hopen : s.file k = some .devNull) :
          (s.handOn fd c ip sinPort).file k = s.file k := by
        have hne : k ≠ fd := by
          rintro rfl
          rw [hfree] at hopen
          cases hopen
        simp [AcceptState.handOn, AcceptState.openFd, hne]
      have hopen : s.ReserveOpen → (s.handOn fd c ip sinPort).ReserveOpen :=
        reserveOpen_of_file rfl fun k _ hopen => hfile k hopen
      exact hs.imp_right hopen
  | drop hpc hfree hnew => trivial
  | finish outcome hpc =>
      simp only [AcceptState.ReservedInLoop, hpc] at hs
      exact hs
  | exhausted hpc => trivial
  | nothing hpc he => trivial
  | lost hpc he => exact Or.inl ((hkeeps _ hpc).resolve_left he)
  | openFailed hpc => exact Or.inl rfl
  | restoreAgain hpc hfree => exact Or.inr (reserveOpen_restore s _)
  | restoreLast hpc hfree => exact Or.inr (reserveOpen_restore s _)
  | @closed fd hother =>
      have hfile (k : Nat) (hk : s.nullfd = some k) : (s.close (some fd)).file k = s.file k := by
        have hne : k ≠ fd := by
          rintro rfl
          exact hother hk
        simp [AcceptState.close, hne]
      have hopen : s.ReserveOpen → (s.close (some fd)).ReserveOpen :=
        reserveOpen_of_file rfl fun k hk _ => hfile k hk
      unfold AcceptState.ReservedInLoop at *
      change match s.pc with
        | .idle | .accepting _ => s.openFailed = true ∨ (s.close (some fd)).ReserveOpen
        | _ => True
      split
      · next hpc => rw [hpc] at hs; exact hs.imp_right hopen
      · next hpc => rw [hpc] at hs; exact hs.imp_right hopen
      · trivial

/-- A step after which the reserve is as it should be was one that keeps it. -/
theorem keepsReserve_of_reserved {s t : AcceptState} {l : AcceptEvent} (h : AcceptMove s l t)
    (ht : t.Reserved) : l.KeepsReserve s := by
  cases h with
  | finish outcome hpc => intro rt hrt; rw [hpc] at hrt; cases hrt
  | exhausted hpc => intro rt hrt; rw [hpc] at hrt; cases hrt
  | nothing hpc he => exact fun _ _ => Or.inl he
  | lost hpc he => exact fun _ _ => Or.inr ((ht rfl).resolve_right (not_reserveOpen_of_none rfl))
  | _ => trivial

/-! ## the connections -/

/-- Every connection taken from the kernel was appended to `clients` once, or
is closed. -/
def AcceptState.Accounted (s : AcceptState) : Prop :=
  ∀ c ∈ s.taken, (s.clients.map (·.c)).count c = 1 ∨
    c ∉ s.clients.map (·.c) ∧ ∀ fd, s.file fd ≠ some (.connection c)

/-- `clients` holds no connection twice and only connections taken, and every
open connection is in it. -/
structure AcceptState.Consistent (s : AcceptState) : Prop where
  nodup : (s.clients.map (·.c)).Nodup
  taken : ∀ c ∈ s.clients.map (·.c), c ∈ s.taken
  listed : ∀ fd c, s.file fd = some (.connection c) → c ∈ s.clients.map (·.c)

theorem AcceptState.Consistent.accounted {s : AcceptState} (h : s.Consistent) : s.Accounted := by
  intro c _
  by_cases hc : c ∈ s.clients.map (·.c)
  · exact Or.inl (by rw [h.nodup.count, if_pos hc])
  · exact Or.inr ⟨hc, fun fd hfd => hc (h.listed fd c hfd)⟩

/-- Consistency does not depend on the reserve, and closing keeps it. -/
theorem AcceptState.Consistent.of_file {s t : AcceptState} (h : s.Consistent)
    (hclients : t.clients = s.clients) (htaken : ∀ c ∈ s.taken, c ∈ t.taken)
    (hfile : ∀ fd c, t.file fd = some (.connection c) → s.file fd = some (.connection c)) :
    t.Consistent where
  nodup := hclients ▸ h.nodup
  taken c hc := htaken c (h.taken c (hclients ▸ hc))
  listed fd c hfd := hclients ▸ h.listed fd c (hfile fd c hfd)

theorem file_close {s : AcceptState} {k : Option Nat} {fd : Nat} {f : File}
    (h : (s.close k).file fd = some f) : s.file fd = some f := by
  cases k with
  | none => exact h
  | some k =>
      simp only [AcceptState.close] at h
      split at h
      · cases h
      · exact h

theorem clients_close (s : AcceptState) (k : Option Nat) : (s.close k).clients = s.clients := by
  cases k <;> rfl

theorem taken_close (s : AcceptState) (k : Option Nat) : (s.close k).taken = s.taken := by
  cases k <;> rfl

theorem file_restore {s : AcceptState} {k fd c : Nat}
    (h : (s.restore k).file fd = some (.connection c)) : s.file fd = some (.connection c) := by
  simp only [AcceptState.restore, AcceptState.openFd] at h
  split at h
  · cases h
  · exact h

theorem AcceptState.Consistent.handOn {s : AcceptState} (h : s.Consistent) {fd c : Nat}
    (ip : UInt32) (sinPort : UInt16) (hnew : c ∉ s.taken) :
    (s.handOn fd c ip sinPort).Consistent where
  nodup := by
    have hlisted : c ∉ s.clients.map (·.c) := fun hc => hnew (h.taken c hc)
    simp only [AcceptState.handOn, List.map_append, List.map_cons, List.map_nil]
    rw [List.nodup_append]
    refine ⟨h.nodup, by simp, ?_⟩
    rintro a ha b hb rfl
    rw [List.mem_singleton] at hb
    exact hlisted (hb ▸ ha)
  taken d hd := by
    simp only [AcceptState.handOn, List.map_append, List.map_cons, List.map_nil,
      List.mem_append, List.mem_singleton] at hd
    simp only [AcceptState.handOn, List.mem_cons]
    exact hd.symm.imp_right (h.taken d)
  listed k d hk := by
    simp only [AcceptState.handOn, AcceptState.openFd] at hk
    simp only [AcceptState.handOn, List.map_append, List.map_cons, List.map_nil,
      List.mem_append, List.mem_singleton]
    split at hk
    · cases hk; exact Or.inr rfl
    · exact Or.inl (h.listed k d hk)

theorem AcceptState.Consistent.drop {s : AcceptState} (h : s.Consistent) (fd c : Nat)
    (rt : Bool) : (s.drop fd c rt).Consistent := by
  refine h.of_file rfl (fun d hd => List.mem_cons_of_mem c hd) fun k d hk => ?_
  simp only [AcceptState.drop, AcceptState.close, AcceptState.openFd] at hk
  split at hk
  · cases hk
  · exact hk

theorem consistent_step {s t : AcceptState} {l : AcceptEvent} (h : AcceptMove s l t)
    (hs : s.Consistent) : t.Consistent := by
  cases h with
  | handOn hpc hfree hnew => exact hs.handOn _ _ hnew
  | drop hpc hfree hnew => exact hs.drop _ _ _
  | exhausted hpc =>
      refine hs.of_file (clients_close s _) (fun c hc => ?_) fun _ _ => file_close
      exact (taken_close s s.nullfd).symm ▸ hc
  | restoreAgain hpc hfree => exact hs.of_file rfl (fun _ hc => hc) fun _ _ => file_restore
  | restoreLast hpc hfree => exact hs.of_file rfl (fun _ hc => hc) fun _ _ => file_restore
  | closed hother => exact hs.of_file rfl (fun _ hc => hc) fun _ _ => file_close
  | call hpc => exact hs.of_file rfl (fun _ hc => hc) fun _ _ hk => hk
  | finish outcome hpc => exact hs.of_file rfl (fun _ hc => hc) fun _ _ hk => hk
  | nothing hpc he => exact hs.of_file rfl (fun _ hc => hc) fun _ _ hk => hk
  | lost hpc he => exact hs.of_file rfl (fun _ hc => hc) fun _ _ hk => hk
  | openFailed hpc => exact hs.of_file rfl (fun _ hc => hc) fun _ _ hk => hk

/-! ## every run of calls -/

theorem consistent_start (nullfd : Nat) : (AcceptState.start nullfd).Consistent where
  nodup := List.nodup_nil
  taken c hc := by cases hc
  listed fd c hfd := by
    simp only [AcceptState.start] at hfd
    split at hfd <;> cases hfd

theorem reservedInLoop_start (nullfd : Nat) : (AcceptState.start nullfd).ReservedInLoop :=
  Or.inr ⟨nullfd, rfl, by simp [AcceptState.start]⟩

/-- However the system calls answer, every connection taken is handed on once
or closed; and the reserve is open at the end of every call, or `/dev/null`
could not be opened, exactly if the second `accept` never fails for another
reason than that there is nothing to take. -/
theorem reserve_iff (nullfd : Nat) (ls : List AcceptEvent) :
    (∀ ks, ks <+: ls → ∀ s, run acceptStep (.start nullfd) ks = some s →
        s.Accounted ∧ s.Reserved) ↔
      Along acceptStep (fun s l => l.KeepsReserve s) (.start nullfd) ls := by
  apply forall_reached_iff_along_of_invariant (I := fun s => s.Consistent ∧ s.ReservedInLoop)
  · rintro s ⟨hconsistent, hreserved⟩
    refine ⟨hconsistent.accounted, fun hpc => ?_⟩
    simpa only [AcceptState.ReservedInLoop, hpc] using hreserved
  · rintro s l t hstep hkeeps ⟨hconsistent, hreserved⟩
    have hmove := acceptMove_of_step hstep
    exact ⟨consistent_step hmove hconsistent, reservedInLoop_step hmove hkeeps hreserved⟩
  · exact fun s l t hstep _ ht => keepsReserve_of_reserved (acceptMove_of_step hstep) ht.2
  · exact ⟨consistent_start nullfd, reservedInLoop_start nullfd⟩

/-- Out of descriptors, and the descriptor given up is taken by another: the
second `accept` fails like the first, and the reserve is lost. -/
theorem not_reserved_emfile :
    ∃ s, run acceptStep (.start 3) [.call, .accept (.failed .emfile), .accept (.failed .emfile)] =
        some s ∧
      s.outcome = some (.threw cfAcceptFailed) ∧ s.nullfd = none ∧ ¬ s.Reserved := by
  refine ⟨_, rfl, rfl, rfl, fun hreserved => ?_⟩
  rcases hreserved rfl with hfailed | hopen
  · cases hfailed
  · exact not_reserveOpen_of_none rfl hopen

end CppFastDevelop
