import Mathlib.Data.List.Induction
import Mathlib.Data.List.Nodup
import Mathlib.Data.List.Perm.Subperm
/-!
Lists without the repetitions of their elements, lists that are read off other ones, and lists of
places that stand close together.
-/

namespace TypedQuery

/-! ## Repetitions -/

section Repetitions

variable {α : Type} [DecidableEq α]

theorem eraseDups_concat (l : List α) (a : α) :
    (l ++ [a]).eraseDups = if a ∈ l then l.eraseDups else l.eraseDups ++ [a] := by
  rw [List.eraseDups_append, List.removeAll]
  by_cases h : a ∈ l
  · rw [if_pos h]
    simp [h]
  · rw [if_neg h]
    simp [h, List.eraseDups_cons]

theorem eraseDups_append_of_subset {l more : List α} (h : more ⊆ l) :
    (l ++ more).eraseDups = l.eraseDups := by
  have hnone : more.removeAll l = [] := by
    rw [List.removeAll, List.filter_eq_nil_iff]
    intro a ha
    simpa using h ha
  rw [List.eraseDups_append, hnone, List.eraseDups_nil, List.append_nil]

theorem nodup_eraseDups (l : List α) : l.eraseDups.Nodup := by
  induction l using List.reverseRecOn with
  | nil => exact List.nodup_nil
  | append_singleton l a ih =>
    rw [eraseDups_concat]
    split
    · exact ih
    · next hnew =>
      rw [← List.mem_eraseDups] at hnew
      exact List.nodup_append_comm.1 (List.nodup_cons.2 ⟨hnew, ih⟩)

theorem eraseDups_of_nodup {l : List α} (h : l.Nodup) : l.eraseDups = l := by
  induction l using List.reverseRecOn with
  | nil => rfl
  | append_singleton l a ih =>
    have hcons : (a :: l).Nodup := List.nodup_append_comm.1 h
    obtain ⟨hnew, hl⟩ := List.nodup_cons.1 hcons
    rw [eraseDups_concat, if_neg hnew, ih hl]

end Repetitions

/-! ## Reading -/

section Reading

variable {α β γ : Type} {l : List α} {m : List β} {read : β → Option α}

/-- When each element of a list is read off one of another list, so are their values. -/
theorem map_eq_filterMap_read (h : l.map some = m.map read) (f : α → γ) :
    l.map f = m.filterMap fun b => (read b).map f := by
  have hread : (fun b => (read b).map f) = Option.map f ∘ read := rfl
  rw [hread, ← List.filterMap_map, ← h, List.filterMap_map]
  exact (congrFun List.filterMap_eq_map' l).symm

theorem map_some_filter_read [DecidableEq γ] (h : l.map some = m.map read) (f : α → γ) (c : γ) :
    (l.filter fun a => f a = c).map some =
      (m.filter fun b => (read b).map f = some c).map read := by
  have hsome : (fun a => decide (f a = c)) = (fun a => decide (a.map f = some c)) ∘ some := by
    funext a
    exact decide_eq_decide.2 Option.some_inj.symm
  rw [hsome, ← List.filter_map, h, List.filter_map]
  rfl

end Reading

/-! ## Places -/

/-- Places of which no two are `limit` or more apart are no more than that. -/
theorem length_le_of_close {places : List Nat} (hnodup : places.Nodup) {limit : Nat}
    (h : ∀ i ∈ places, ∀ j ∈ places, i < j + limit) : places.length ≤ limit := by
  cases hmax : places.max? with
  | none =>
    rw [List.max?_eq_none_iff.1 hmax]
    exact Nat.zero_le _
  | some last =>
    obtain ⟨hlast, hle⟩ := List.max?_eq_some_iff.1 hmax
    have hsub : places ⊆ List.range' (last + 1 - limit) limit := by
      intro i hi
      have := h last hlast i hi
      have := hle i hi
      rw [List.mem_range'_1]
      omega
    have hlength := (hnodup.subperm hsub).length_le
    rwa [List.length_range'] at hlength

end TypedQuery
