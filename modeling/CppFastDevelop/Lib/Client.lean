import CppFastDevelop.Lib.Atomic

/-!
# CppFastDevelop.Lib.Client

Programs that use an object of `Lib.Atomic`.  A client says which calls may
come next and what it makes of an answer, so what the clients have made of a
history can be read off it, and an invariant of the clients and the atomic
object is one of the clients and everything that is linearizable
(`invariant_of_linearizes`).
-/

namespace Atomic

variable {ι α C O X : Type} [DecidableEq ι]

/-- A program with local variables in `X`. -/
structure Client (X C O : Type) where
  Calls : X → C → Prop
  next : X → O → X

namespace Client

variable (κ : Client X C O)

/-- The local variables of all callers after an event. -/
def note (x : ι → X) : Event ι C O → ι → X
  | .call _ _ => x
  | .ret i o => Function.update x i (κ.next (x i) o)

def after (x : ι → X) (h : List (Event ι C O)) : ι → X := h.foldl κ.note x

omit [DecidableEq ι] in
/-- A call is one that its caller may make. -/
def Allows (x : ι → X) : Event ι C O → Prop
  | .call i c => κ.Calls (x i) c
  | .ret _ _ => True

/-- All calls of a history are. -/
def Obeys : (ι → X) → List (Event ι C O) → Prop
  | _, [] => True
  | x, e :: h => κ.Allows x e ∧ Obeys (κ.note x e) h

variable {κ}

theorem after_append (x : ι → X) (h h' : List (Event ι C O)) :
    κ.after x (h ++ h') = κ.after (κ.after x h) h' := List.foldl_append

theorem obeys_append {x : ι → X} {h h' : List (Event ι C O)} :
    κ.Obeys x (h ++ h') ↔ κ.Obeys x h ∧ κ.Obeys (κ.after x h) h' := by
  induction h generalizing x with
  | nil => simp [Obeys, after]
  | cons e h ih => simp only [List.cons_append, Obeys, ih, and_assoc, after, List.foldl_cons]

/-- Every step of the clients and of the atomic object keeps `I`. -/
structure Keeps (κ : Client X C O) (S : Spec α C O) (I : Object ι α C O → (ι → X) → Prop) :
    Prop where
  call : ∀ {a x i c}, I a x → a.place i = .idle → κ.Calls (x i) c →
    I (a.move i (.called c) a.value) x
  act : ∀ {a x i c o v}, I a x → a.place i = .called c → S a.value c o v →
    I (a.move i (.answered o) v) x
  ret : ∀ {a x i o}, I a x → a.place i = .answered o →
    I (a.move i .idle a.value) (Function.update x i (κ.next (x i) o))

theorem Keeps.step {S : Spec α C O} {I : Object ι α C O → (ι → X) → Prop} (hI : κ.Keeps S I)
    {a b : Object ι α C O} {es : List (Event ι C O)} {x : ι → X} (h : I a x)
    (hstep : Step S a es b) (hobeys : κ.Obeys x es) : I b (κ.after x es) := by
  cases hstep with
  | call c hi => exact hI.call h hi hobeys.1
  | act hi hv => exact hI.act h hi hv
  | ret hi => exact hI.ret h hi

theorem Keeps.steps {S : Spec α C O} {I : Object ι α C O → (ι → X) → Prop} (hI : κ.Keeps S I)
    {a b : Object ι α C O} {h : List (Event ι C O)} {x : ι → X} (ha : I a x)
    (hsteps : Steps S a h b) (hobeys : κ.Obeys x h) : I b (κ.after x h) := by
  induction hsteps with
  | refl => exact ha
  | tail _ hstep ih =>
      obtain ⟨hbefore, hlast⟩ := obeys_append.mp hobeys
      rw [after_append]
      exact hI.step (ih hbefore) hstep hlast

/-- What holds of clients and an atomic object in every reachable state holds
of clients and what they cannot tell from it. -/
theorem invariant_of_linearizes {S : Spec α C O} {I : Object ι α C O → (ι → X) → Prop}
    (hI : κ.Keeps S I) {v v' : α} {h : List (Event ι C O)} (hlin : Linearizes S v h v')
    {x : ι → X} (hobeys : κ.Obeys x h) (hfresh : I (.fresh v) x) :
    ∃ a, a.value = v' ∧ I a (κ.after x h) := by
  obtain ⟨a, hsteps, hvalue⟩ := hlin
  exact ⟨a, hvalue, hI.steps hfresh hsteps hobeys⟩

end Client

end Atomic
