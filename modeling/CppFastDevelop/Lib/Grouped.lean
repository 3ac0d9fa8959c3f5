/-!
# CppFastDevelop.Lib.Grouped

Lists that are put together group by group: every element of a list is
expanded into a group, and what is in a group can be told by its key.  Where
no key occurs twice, a group is what has its key, and the whole is the groups
in the order of their keys.

This module depends only on the Lean 4 core library.
-/

namespace Grouped

variable {β γ κ : Type} [DecidableEq κ] {keyOf : β → κ} {key : γ → κ} {f : β → List γ} {l : List β}

/-- What has the key of an element is its group. -/
theorem filter_flatMap_of_nodup (hnodup : (l.map keyOf).Nodup)
    (hkey : ∀ b ∈ l, ∀ x ∈ f b, key x = keyOf b) {b : β} (hb : b ∈ l) :
    (l.flatMap f).filter (fun x => key x = keyOf b) = f b := by
  induction l with
  | nil => simp at hb
  | cons c l ih =>
      obtain ⟨hc, hnodup⟩ := List.nodup_cons.mp hnodup
      have hkey' : ∀ b ∈ l, ∀ x ∈ f b, key x = keyOf b := fun b hb => hkey b (by simp [hb])
      rw [List.flatMap_cons, List.filter_append]
      rcases List.mem_cons.mp hb with rfl | hb
      · have hfirst : (f b).filter (fun x => key x = keyOf b) = f b :=
          List.filter_eq_self.mpr fun x hx => by simpa using hkey b (by simp) x hx
        have hrest : (l.flatMap f).filter (fun x => key x = keyOf b) = [] := by
          refine List.filter_eq_nil_iff.mpr fun x hx => ?_
          obtain ⟨c, hc', hx⟩ := List.mem_flatMap.mp hx
          simp only [decide_eq_true_eq, hkey' c hc' x hx]
          exact fun heq => hc (heq ▸ List.mem_map_of_mem hc')
        rw [hfirst, hrest, List.append_nil]
      · have hfirst : (f c).filter (fun x => key x = keyOf b) = [] := by
          refine List.filter_eq_nil_iff.mpr fun x hx => ?_
          simp only [decide_eq_true_eq, hkey c (by simp) x hx]
          exact fun heq => hc (heq ▸ List.mem_map_of_mem hb)
        rw [hfirst, List.nil_append, ih hnodup hkey' hb]

/-- The whole is the groups, in the order of their keys. -/
theorem flatMap_eq_flatMap_filter (hnodup : (l.map keyOf).Nodup)
    (hkey : ∀ b ∈ l, ∀ x ∈ f b, key x = keyOf b) :
    l.flatMap f = (l.map keyOf).flatMap fun k => (l.flatMap f).filter fun x => key x = k := by
  have hgroups : l.map f = l.map fun b => (l.flatMap f).filter fun x => key x = keyOf b :=
    List.map_congr_left fun b hb => (filter_flatMap_of_nodup hnodup hkey hb).symm
  rw [List.flatMap_map]
  exact congrArg List.flatten hgroups

end Grouped
