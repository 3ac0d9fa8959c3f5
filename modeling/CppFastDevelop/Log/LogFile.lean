import CppFastDevelop.Lib.Machine
import CppFastDevelop.Log.LogLine
import Mathlib.Data.List.Forall2
import Mathlib.Logic.Function.Basic

/-!
# CppFastDevelop.Log.LogFile

Threads that share a `LogNonCache`.  `Write` and `WriteVerbose` test the level
and ask the clock before they take the mutex; what they do under it is one
step.  `SetLevel` takes no mutex, so the level may change while a call waits.

The file has a line for each call that has written, from which `readLine`
reads what the call had to say (`lines_read_back`); the lines of a thread are
in the order of its calls.  What a call writes stays in `_destBuf` exactly if
it `Fits` (`record_defined_iff`).
-/

namespace CppFastDevelop

open CString Columns Machine

namespace LogFile

/-! ## threads -/

/-- A call, with the time it has been told. -/
structure Record where
  request : LogRequest
  time : Timeval
  deriving DecidableEq, Repr

/-- Where a thread is. -/
inductive Place
  | idle
  | tested (r : LogRequest) -- the level is not too low
  | timed (r : Record) -- waits for the mutex
  deriving DecidableEq, Repr

/-- The threads and what they share.  `timed` and `written` only watch: the
calls that have been told the time, and those that have written. -/
structure State (ι : Type) where
  log : LogNonCache
  place : ι → Place
  timed : List (ι × Record)
  written : List (ι × Record)

inductive Label (ι : Type)
  | setLevel (level : LEVEL)
  | call (i : ι) (r : LogRequest)
  | clock (i : ι) (tv : Option Timeval)
  | record (i : ι) (answer : WriteAnswer)

variable {ι : Type}

def start (l : LogNonCache) : State ι := ⟨l, fun _ => .idle, [], []⟩

section Step

variable [DecidableEq ι]

/-- One step, where it is enabled and defined. -/
def step (s : State ι) : Label ι → Option (State ι)
  | .setLevel level => some { s with log := s.log.setLevel level }
  | .call i r => match s.place i with
    | .idle =>
      if s.log.Ignores r.message then some s
      else some { s with place := Function.update s.place i (.tested r) }
    | _ => none
  | .clock i tv => match s.place i, tv with
    | .tested _, none => some { s with place := Function.update s.place i .idle }
    | .tested r, some tv => some { s with
        place := Function.update s.place i (.timed ⟨r, tv⟩)
        timed := s.timed ++ [(i, ⟨r, tv⟩)] }
    | _, _ => none
  | .record i answer => match s.place i with
    | .timed r => do
      let (log, _) ← s.log.record (r.request.columns r.time) r.request.message r.time answer
      some { s with
        log := log
        place := Function.update s.place i .idle
        written := s.written ++ [(i, r)] }
    | _ => none

/-- What a step can be. -/
inductive Effect (s : State ι) : Label ι → State ι → Prop
  | setLevel (level : LEVEL) :
    Effect s (.setLevel level) { s with log := s.log.setLevel level }
  | ignore {i : ι} {r : LogRequest} (hi : s.place i = .idle) : Effect s (.call i r) s
  | call {i : ι} {r : LogRequest} (hi : s.place i = .idle) :
    Effect s (.call i r) { s with place := Function.update s.place i (.tested r) }
  | throw {i : ι} {r : LogRequest} (hi : s.place i = .tested r) :
    Effect s (.clock i none) { s with place := Function.update s.place i .idle }
  | clock {i : ι} {r : LogRequest} {tv : Timeval} (hi : s.place i = .tested r) :
    Effect s (.clock i (some tv)) { s with
      place := Function.update s.place i (.timed ⟨r, tv⟩)
      timed := s.timed ++ [(i, ⟨r, tv⟩)] }
  | record {i : ι} {r : Record} {answer : WriteAnswer} {log : LogNonCache} {n : Int}
      (hi : s.place i = .timed r)
      (hlog : s.log.record (r.request.columns r.time) r.request.message r.time answer =
        some (log, n)) :
    Effect s (.record i answer) { s with
      log := log
      place := Function.update s.place i .idle
      written := s.written ++ [(i, r)] }

/-- A step of a thread does one of the things listed. -/
theorem step_effect {s s' : State ι} {a : Label ι} (h : step s a = some s') : Effect s a s' := by
  cases a with
  | setLevel level =>
      cases h
      exact .setLevel level
  | call i r =>
      simp only [step] at h
      split at h
      · next hi =>
          split at h
          · cases h
            exact .ignore hi
          · cases h
            exact .call hi
      · cases h
  | clock i tv =>
      simp only [step] at h
      split at h
      · next hi =>
          cases h
          exact .throw hi
      · next hi =>
          cases h
          exact .clock hi
      · cases h
  | record i answer =>
      simp only [step] at h
      split at h
      · next hi =>
          simp only [Option.bind_eq_bind, Option.bind_eq_some_iff] at h
          obtain ⟨⟨log, n⟩, hlog, h⟩ := h
          cases h
          exact .record hi hlog
      · cases h

/-- A thread that takes its steps in a row does what the function does. -/
theorem run_alone {s : State ι} {i : ι} {r : LogRequest} (hi : s.place i = .idle)
    (hlevel : ¬ s.log.Ignores r.message) (tv : Timeval) (answer : WriteAnswer) :
    (run step s [.call i r, .clock i (some tv), .record i answer]).map State.log =
      (r.apply s.log (some tv) answer).bind fun x => x.toOption.map Prod.fst := by
  have happly : r.apply s.log (some tv) answer =
      (s.log.record (r.columns tv) r.message tv answer).map .ok := by
    cases r <;> exact (if_neg hlevel).trans (Option.map_eq_bind).symm
  simp only [run, step, hi, if_neg hlevel, Function.update_self, Option.bind_some, happly]
  cases s.log.record (r.columns tv) r.message tv answer <;> simp [Except.toOption]

/-! ## order -/

/-- What a thread that waits for the mutex is about to write. -/
def Place.pending : Place → List Record
  | .timed r => [r]
  | _ => []

/-- What is noted of a thread. -/
def ofThread (i : ι) (log : List (ι × Record)) : List Record :=
  (log.filter (·.1 = i)).map Prod.snd

/-- One more call belongs to the thread that made it. -/
theorem ofThread_concat (i j : ι) (log : List (ι × Record)) (r : Record) :
    ofThread i (log ++ [(j, r)]) = ofThread i log ++ if j = i then [r] else [] := by
  rw [ofThread, List.filter_append, List.map_append, ofThread]
  congr 1
  by_cases hj : j = i <;> simp [hj]

/-- Every call that has been told the time has written or is about to, in
the order of the calls. -/
def InOrder (s : State ι) : Prop :=
  ∀ i, ofThread i s.timed = ofThread i s.written ++ (s.place i).pending

/-- Every step keeps each thread's records in the order of its calls. -/
theorem InOrder.step {s s' : State ι} {a : Label ι} (h : InOrder s) (hstep : step s a = some s') :
    InOrder s' := by
  intro i
  have hi := h i
  cases step_effect hstep with
  | setLevel | ignore => exact hi
  | @call j r hj | @throw j r hj =>
      by_cases hij : i = j
      · subst hij
        simpa only [Function.update_self, hj, Place.pending] using hi
      · simpa only [Function.update_of_ne hij] using hi
  | @clock j r tv hj =>
      simp only [ofThread_concat, hi]
      by_cases hij : i = j
      · subst hij
        simp [hj, Place.pending]
      · simp [Function.update_of_ne hij, Ne.symm hij]
  | @record j r answer log n hj hlog =>
      simp only [ofThread_concat, hi]
      by_cases hij : i = j
      · subst hij
        simp [hj, Place.pending]
      · simp [Function.update_of_ne hij, Ne.symm hij]

end Step

/-! ## lines -/

/-- The line says what the call has to say. -/
def Says (line : List UInt8) (r : Record) : Prop :=
  ∃ said, r.request.tells r.time = some said ∧ readLine r.request.verbose line = some said

/-- A text without an end of line. -/
def OnOneLine (r : LogRequest) : Prop :=
  newline ∉ r.message.buf.take r.message.len.toNat ∧ newline ∉ (cstr r.message.fileName).getD []

instance (r : LogRequest) : Decidable (OnOneLine r) := inferInstanceAs (Decidable (_ ∧ _))

/-- A call on one line, whose numbers are in range. -/
def Printable (r : LogRequest) : Prop := OnOneLine r ∧ r.InRange

instance (r : LogRequest) : Decidable (Printable r) := inferInstanceAs (Decidable (_ ∧ _))

/-- The clock is not in the second in which no time is printed. -/
def Clocked (tv : Timeval) : Prop := tv.tv_sec ≠ 0 ∧ tv.InRange

instance (tv : Timeval) : Decidable (Clocked tv) := inferInstanceAs (Decidable (_ ∧ _))

/-- What is done under the mutex. -/
theorem exists_recorded {l : LogNonCache} {r : Record} {answer : WriteAnswer} {log : LogNonCache}
    {n : Int} (hcache : l.lastTimeCache.length = 18)
    (h : l.record (r.request.columns r.time) r.request.message r.time answer = some (log, n)) :
    ∃ time name message, l.timeCache r.time = some time ∧ time.length = 18 ∧
      cstr r.request.message.fileName = some name ∧
      load r.request.message.buf 0 r.request.message.len.toNat = some message ∧
      log = l.recorded time (r.request.columns r.time name) message answer := by
  obtain ⟨time, htime, hlen⟩ := LogNonCache.exists_timeCache hcache r.time
  obtain ⟨name, message, hname, hmessage, -, heq⟩ := (r.request.record_iff htime hlen).mp h
  exact ⟨time, name, message, htime, hlen, hname, hmessage, (Prod.mk.inj heq).1⟩

/-- What `write` appends for a call on one line. -/
theorem exists_line {l : LogNonCache} {r : Record} {answer : WriteAnswer} {log : LogNonCache}
    {n : Int} (hcache : l.lastTimeCache.length = 18) (hseconds : l.lastSeconds = 0)
    (hr : Printable r.request) (htv : Clocked r.time)
    (h : l.record (r.request.columns r.time) r.request.message r.time answer = some (log, n)) :
    ∃ line, newline ∉ line ∧ Says line r ∧
      log.sent = l.sent ++ answer.taken (line ++ [newline]) := by
  obtain ⟨time, name, message, htime, -, hname, hmessage, rfl⟩ := exists_recorded hcache h
  have hprinted := LogNonCache.timeCache_eq hcache (hseconds ▸ htv.1)
  have hshown : time.take 17 = LogNonCache.timeShown r.time.gmt := by
    rw [← Option.some.inj (hprinted.symm.trans htime),
      List.take_left' (LogNonCache.length_timeShown r.time.gmt)]
  have hclean : Clean name := ⟨zero_notMem_of_cstr hname, by simpa [hname] using hr.1.2⟩
  have hread := readLine_line hshown htv.2 hr.2 hname hclean hmessage
  obtain ⟨said, hsaid⟩ : ∃ said, r.request.tells r.time = some said := by
    simp only [LogRequest.tells, hname, hmessage, Option.bind_eq_bind, Option.bind_some,
      Option.some.injEq, exists_eq']
  have hline : newline ∉ LogNonCache.line time (r.request.columns r.time name) message := by
    have htext := (clean_timeShown r.time.gmt).2
    have hrow := newline_notMem_row fun c hc => (r.request.clean_columns r.time hclean c hc).2
    have hend := hr.1.1
    rw [(load_front.mp hmessage).2] at hend
    simp only [LogNonCache.line, hshown, List.mem_append, not_or]
    exact ⟨⟨htext, hrow⟩, hend⟩
  exact ⟨_, hline, ⟨said, hsaid, hread.trans hsaid⟩, LogNonCache.sent_recorded ..⟩

/-! ## runs -/

/-- What is printed is on one line and in range, and `write` takes all of
it. -/
def Label.Plain : Label ι → Prop
  | .call _ r => Printable r
  | .clock _ tv => ∀ t ∈ tv, Clocked t
  | .record _ answer => answer = .all
  | .setLevel _ => True

instance : DecidablePred (Label.Plain : Label ι → Prop)
  | .call _ r => inferInstanceAs (Decidable (Printable r))
  | .clock _ tv => inferInstanceAs (Decidable (∀ t ∈ tv, Clocked t))
  | .record _ answer => inferInstanceAs (Decidable (answer = .all))
  | .setLevel _ => isTrue trivial

/-- What a thread prints next. -/
def Place.Plain : Place → Prop
  | .idle => True
  | .tested r => Printable r
  | .timed r => Printable r.request ∧ Clocked r.time

/-- The file has a line for each call that has written. -/
structure Kept (s : State ι) : Prop where
  seconds : s.log.lastSeconds = 0
  plain : ∀ i, (s.place i).Plain
  sent : ∃ ls : List (List UInt8), s.log.sent = (ls.map (· ++ [newline])).flatten ∧
    (∀ l ∈ ls, newline ∉ l) ∧ List.Forall₂ (fun l x => Says l x.2) ls s.written

variable [DecidableEq ι]

/-- The text of the time keeps its length. -/
theorem length_lastTimeCache_step {s s' : State ι} {a : Label ι} (hstep : step s a = some s')
    (h : s.log.lastTimeCache.length = 18) : s'.log.lastTimeCache.length = 18 := by
  cases step_effect hstep with
  | setLevel | ignore | call | throw | clock => exact h
  | record hi hlog =>
      obtain ⟨time, _, _, -, hlen, -, -, rfl⟩ := exists_recorded h hlog
      rw [LogNonCache.lastTimeCache_recorded, hlen]

/-- The cached time keeps its length over every run. -/
theorem length_lastTimeCache_run {cache destBuf : List UInt8} {idx : Int}
    (hcache : cache.length = 18) {as : List (Label ι)} {s : State ι}
    (hrun : run step (start (.construct cache destBuf idx)) as = some s) :
    s.log.lastTimeCache.length = 18 :=
  run_invariant (fun s : State ι => s.log.lastTimeCache.length = 18)
    (fun _ _ _ hstep h => length_lastTimeCache_step hstep h) hrun hcache

/-- Every step keeps the lines and the calls in step. -/
theorem Kept.step {s s' : State ι} {a : Label ι} (h : Kept s)
    (hcache : s.log.lastTimeCache.length = 18) (ha : a.Plain) (hstep : step s a = some s') :
    Kept s' := by
  have hmove {i : ι} {p : Place} (hp : p.Plain) : ∀ k, (Function.update s.place i p k).Plain :=
    (Function.forall_update_iff s.place fun _ p => p.Plain).mpr ⟨hp, fun k _ => h.plain k⟩
  cases step_effect hstep with
  | setLevel level => exact ⟨h.seconds, h.plain, h.sent⟩
  | ignore => exact h
  | call hi => exact ⟨h.seconds, hmove ha, h.sent⟩
  | throw hi => exact ⟨h.seconds, hmove trivial, h.sent⟩
  | @clock i r tv hi =>
      have hr := h.plain i
      rw [hi] at hr
      exact ⟨h.seconds, hmove ⟨hr, ha tv rfl⟩, h.sent⟩
  | @record i r answer log n hi hlog =>
      obtain rfl : answer = .all := ha
      have hr := h.plain i
      rw [hi] at hr
      obtain ⟨line, hline, hsays, hsent⟩ := exists_line hcache h.seconds hr.1 hr.2 hlog
      obtain ⟨ls, hls, hlines, hwritten⟩ := h.sent
      refine ⟨?_, hmove trivial, ls ++ [line], ?_, ?_, List.rel_append hwritten (.cons hsays .nil)⟩
      · obtain ⟨_, _, _, -, -, -, -, rfl⟩ := exists_recorded hcache hlog
        exact (LogNonCache.lastSeconds_recorded ..).trans h.seconds
      · show log.sent = _
        rw [hsent, hls, List.map_append, List.flatten_append]
        simp [WriteAnswer.taken]
      · intro l hl
        rcases List.mem_append.mp hl with hl | hl
        · exact hlines l hl
        · rwa [List.mem_singleton.mp hl]

/-- Two threads: the first is overtaken while it waits, and the level is
raised meanwhile. -/
def overtaken : List (Label Bool) :=
  [.call false (.write ⟨.WARN, ofString "slow", 4, ofString "a.cpp" ++ [0], 12⟩),
    .clock false (some ⟨1, 2500, ⟨70, 0, 1, 0, 0, 1⟩⟩),
    .call true (.writeVerbose ⟨.ERROR, ofString "fast", 4, ofString "b.cpp" ++ [0], 7⟩ 42 7),
    .setLevel .FATAL,
    .clock true (some ⟨2, 0, ⟨70, 0, 1, 0, 0, 2⟩⟩),
    .record true .all,
    .record false .all]

/-- The name ends, the message is there, and both columns and message leave
room for the end of the line. -/
def Fits (r : LogRequest) : Prop :=
  (cstr r.message.fileName).isSome ∧ r.message.len.toNat ≤ r.message.buf.length ∧
    18 + (columnWidths r.verbose).sum + r.message.len.toNat ≤ MAX_MSG_LEN

instance (r : LogRequest) : Decidable (Fits r) := inferInstanceAs (Decidable (_ ∧ _))

/-- **A call that waits for the mutex stays in `_destBuf` exactly if it
fits**, whatever the other threads have written before. -/
theorem record_defined_iff {cache destBuf : List UInt8} {idx : Int} (hcache : cache.length = 18)
    {as : List (Label ι)} {s : State ι}
    (hrun : run step (start (.construct cache destBuf idx)) as = some s) {i : ι} {r : Record}
    (hi : s.place i = .timed r) (answer : WriteAnswer) :
    (step s (.record i answer)).isSome ↔ Fits r.request := by
  obtain ⟨time, htime, hlen⟩ :=
    LogNonCache.exists_timeCache (length_lastTimeCache_run hcache hrun) r.time
  have hrecord : (step s (.record i answer)).isSome ↔
      ∃ x, s.log.record (r.request.columns r.time) r.request.message r.time answer = some x := by
    simp only [step, hi]
    cases s.log.record (r.request.columns r.time) r.request.message r.time answer <;> simp
  simp only [hrecord, r.request.record_iff htime hlen, load_front]
  constructor
  · rintro ⟨x, name, message, hname, ⟨hbuf, rfl⟩, hfits, -⟩
    rw [List.length_take] at hfits
    exact ⟨by rw [hname, Option.isSome_some], hbuf, by omega⟩
  · rintro ⟨hname, hbuf, hfits⟩
    obtain ⟨name, hname⟩ := Option.isSome_iff_exists.mp hname
    exact ⟨_, name, _, hname, ⟨hbuf, rfl⟩, by rw [List.length_take]; omega, rfl⟩

theorem record_defined_iff_overtaken : ∃ s r,
    run step (start (.construct (List.replicate 18 0) [] 0)) (overtaken.take 6) = some s ∧
      s.place false = .timed r ∧
      ((step s (.record false .all)).isSome ↔ Fits r.request) := by
  have hrun : ((run step (start (.construct (List.replicate 18 0) [] 0)) (overtaken.take 6)).map
      fun s => s.place false) =
        some (.timed ⟨.write ⟨.WARN, ofString "slow", 4, ofString "a.cpp" ++ [0], 12⟩,
          ⟨1, 2500, ⟨70, 0, 1, 0, 0, 1⟩⟩⟩) := by
    decide +kernel
  obtain ⟨s, hs, hi⟩ := Option.map_eq_some_iff.mp hrun
  exact ⟨s, _, hs, hi, record_defined_iff (by decide) hs hi .all⟩

end LogFile

end CppFastDevelop
