import Mathlib.Logic.Function.Basic
import Mathlib.Order.RelClasses

/-!
# CppFastDevelop.Lib.StrictWeak

Lists that are ordered by a strict weak order.  Elements that do not compare
are equivalent, not equal, so an ordered list may repeat them.  Not to be less
is transitive as well (`isOrderConnected`), which is what searching such a
list rests on: a target compares the same way with all elements on one side.
-/

namespace StrictWeak

variable {α : Type}

/-- Neither is less. -/
def Equivalent (lt : α → α → Prop) (x y : α) : Prop := ¬ lt x y ∧ ¬ lt y x

/-- No element is less than one before it. -/
def Ordered (lt : α → α → Prop) (xs : List α) : Prop := xs.Pairwise fun x y => ¬ lt y x

variable {lt : α → α → Prop}

/-- What is between two elements is more than the first or less than the
second. -/
instance isOrderConnected [IsStrictWeakOrder α lt] : IsOrderConnected α lt where
  conn x y z hxz := by
    by_cases hxy : lt x y
    · exact Or.inl hxy
    · by_cases hyz : lt y z
      · exact Or.inr hyz
      · have hyx : ¬ lt y x := fun hyx => hyz (trans_of lt hyx hxz)
        have hzy : ¬ lt z y := fun hzy => hxy (trans_of lt hxz hzy)
        have hequiv : ¬ lt x z ∧ ¬ lt z x :=
          IsStrictWeakOrder.incomp_trans x y z ⟨hxy, hyx⟩ ⟨hyz, hzy⟩
        exact absurd hxz hequiv.1

section Order

variable [IsStrictWeakOrder α lt] {x y z : α}

theorem lt_of_not_lt_of_lt (hxy : ¬ lt y x) (hyz : lt y z) : lt x z :=
  (IsOrderConnected.conn y x z hyz).resolve_left hxy

theorem lt_of_lt_of_not_lt (hxy : lt x y) (hyz : ¬ lt z y) : lt x z :=
  (IsOrderConnected.conn x z y hxy).resolve_right hyz

omit [IsStrictWeakOrder α lt] in
/-- An element between the parts of an ordered list. -/
theorem Ordered.insert {us vs : List α} {t : α} (h : Ordered lt (us ++ vs))
    (hus : ∀ u ∈ us, ¬ lt t u) (hvs : ∀ v ∈ vs, ¬ lt v t) : Ordered lt (us ++ t :: vs) := by
  obtain ⟨husOrdered, hvsOrdered, hacross⟩ := List.pairwise_append.mp h
  refine List.pairwise_append.mpr ⟨husOrdered, List.pairwise_cons.mpr ⟨hvs, hvsOrdered⟩, ?_⟩
  intro u hu v hv
  rcases List.mem_cons.mp hv with rfl | hv
  · exact hus u hu
  · exact hacross u hu v hv

end Order

end StrictWeak
