import TypedQuery.Proofs.Validation.Walks
import TypedQuery.Validation.Usage
/-!
What the two walks over fragments come to, apart from the order in which they go.  The fragments
that are reached from a definition are those that its spreads lead to (`Survey.mem_reachable`), and
no cycle is reported just when no fragment leads on for ever (`Survey.cycleDiagnostics_eq_nil_iff`).
-/

namespace TypedQuery
namespace Survey

variable {survey : Survey}

/-! ## Names that are not yet known -/

theorem mem_fresh {known names : List String} {name : String} :
    name ∈ fresh known names ↔ name ∈ names ∧ name ∉ known := by
  induction names generalizing known with
  | nil => simp [fresh]
  | cons first rest ih =>
    rw [fresh]
    by_cases hknown : first ∈ known
    · have hcontains : known.contains first = true := List.contains_iff_mem.2 hknown
      rw [if_pos hcontains, ih, List.mem_cons]
      constructor
      · exact fun h => ⟨.inr h.1, h.2⟩
      · rintro ⟨rfl | hrest, hname⟩
        · exact absurd hknown hname
        · exact ⟨hrest, hname⟩
    · have hcontains : ¬ known.contains first = true :=
        fun h => hknown (List.contains_iff_mem.1 h)
      rw [if_neg hcontains, List.mem_cons, ih, List.mem_cons, List.mem_cons]
      constructor
      · rintro (rfl | ⟨hrest, hname⟩)
        · exact ⟨.inl rfl, hknown⟩
        · exact ⟨.inr hrest, fun h => hname (.inr h)⟩
      · rintro ⟨rfl | hrest, hname⟩
        · exact .inl rfl
        · by_cases he : name = first
          · exact .inl he
          · exact .inr ⟨hrest, fun h => h.elim he hname⟩

theorem nodup_fresh (known names : List String) : (fresh known names).Nodup := by
  induction names generalizing known with
  | nil => exact List.nodup_nil
  | cons first rest ih =>
    rw [fresh]
    split
    · exact ih known
    · refine List.nodup_cons.2 ⟨fun h => ?_, ih (first :: known)⟩
      exact (mem_fresh.1 h).2 List.mem_cons_self

/-! ## Following spreads -/

theorem isDefined_of_mem_targets {findings : Findings} {name : String}
    (h : name ∈ survey.targets findings) : survey.isDefined name = true :=
  (List.mem_filter.1 h).2

theorem subset_follow (rounds : Nat) (pending reached : List String) :
    reached ⊆ survey.follow rounds pending reached := by
  induction rounds generalizing pending reached with
  | zero => exact List.Subset.refl _
  | succ rounds ih =>
    cases pending with
    | nil => exact List.Subset.refl _
    | cons name pending => exact fun other h => ih _ _ (List.mem_append_left _ h)

/-- What is reached is led to from where the walk stood. -/
theorem leads_of_mem_follow {rounds : Nat} {pending reached : List String}
    (hpending : pending ⊆ reached) {name : String}
    (h : name ∈ survey.follow rounds pending reached) :
    ∃ start ∈ reached, Relation.ReflTransGen survey.Leads start name := by
  induction rounds generalizing pending reached with
  | zero => exact ⟨name, h, .refl⟩
  | succ rounds ih =>
    cases pending with
    | nil => exact ⟨name, h, .refl⟩
    | cons first rest =>
      have hrest : rest ++ fresh reached (survey.targets (survey.fragmentFindings first)) ⊆
          reached ++ fresh reached (survey.targets (survey.fragmentFindings first)) := by
        intro other hother
        rcases List.mem_append.1 hother with hother | hother
        · exact List.mem_append_left _ (hpending (List.mem_cons_of_mem _ hother))
        · exact List.mem_append_right _ hother
      obtain ⟨start, hstart, hleads⟩ := ih hrest h
      rcases List.mem_append.1 hstart with hstart | hstart
      · exact ⟨start, hstart, hleads⟩
      · have hstep : survey.Leads first start := (mem_fresh.1 hstart).1
        exact ⟨first, hpending List.mem_cons_self, .head hstep hleads⟩

/-- How far the walk has come: all that was reached and followed leads to what was reached, and
the rounds that are left are enough for what is pending and what may still be found. -/
structure Progress (survey : Survey) (rounds : Nat) (pending reached : List String) : Prop where
  nodup : reached.Nodup
  defined : reached ⊆ survey.scope.fragments.map (·.name)
  closed : ∀ name ∈ reached, name ∉ pending → ∀ next, survey.Leads name next → next ∈ reached
  rounds : survey.scope.fragments.length + pending.length ≤ rounds + reached.length

theorem Progress.length_le {rounds : Nat} {pending reached : List String}
    (h : survey.Progress rounds pending reached) :
    reached.length ≤ survey.scope.fragments.length := by
  have hlength := (List.subperm_of_subset h.nodup h.defined).length_le
  rwa [List.length_map] at hlength

theorem Progress.step {rounds : Nat} {name : String} {pending reached : List String}
    (h : survey.Progress (rounds + 1) (name :: pending) reached) :
    let found := fresh reached (survey.targets (survey.fragmentFindings name))
    survey.Progress rounds (pending ++ found) (reached ++ found) := by
  intro found
  have hfound : found ⊆ survey.scope.fragments.map (·.name) := by
    intro next hnext
    exact isDefined_iff.1 (isDefined_of_mem_targets (mem_fresh.1 hnext).1)
  refine ⟨?_, List.append_subset.2 ⟨h.defined, hfound⟩, ?_, ?_⟩
  · refine List.nodup_append.2 ⟨h.nodup, nodup_fresh _ _, fun a ha b hb he => ?_⟩
    exact (mem_fresh.1 hb).2 (he ▸ ha)
  · intro other hother hout next hleads
    rw [List.mem_append, not_or] at hout
    have hreached : other ∈ reached := (List.mem_append.1 hother).resolve_right hout.2
    by_cases hname : other = name
    · subst hname
      by_cases hnext : next ∈ reached
      · exact List.mem_append_left _ hnext
      · exact List.mem_append_right _ (mem_fresh.2 ⟨hleads, hnext⟩)
    · have hpending : other ∉ name :: pending := by
        rw [List.mem_cons, not_or]
        exact ⟨hname, hout.1⟩
      exact List.mem_append_left _ (h.closed other hreached hpending next hleads)
  · have hrounds := h.rounds
    rw [List.length_cons] at hrounds
    rw [List.length_append, List.length_append]
    omega

/-- As many were followed as there are fragments, so none is left. -/
theorem Progress.pending_eq_nil {pending reached : List String}
    (h : survey.Progress 0 pending reached) : pending = [] := by
  have hlength := h.length_le
  have hrounds := h.rounds
  exact List.eq_nil_of_length_eq_zero (by omega)

/-- When the walk is over, nothing that was reached leads elsewhere. -/
theorem Progress.closed_follow {rounds : Nat} {pending reached : List String}
    (h : survey.Progress rounds pending reached) {name next : String}
    (hname : name ∈ survey.follow rounds pending reached) (hleads : survey.Leads name next) :
    next ∈ survey.follow rounds pending reached := by
  induction rounds generalizing pending reached with
  | zero =>
    obtain rfl := h.pending_eq_nil
    exact h.closed name hname List.not_mem_nil next hleads
  | succ rounds ih =>
    cases pending with
    | nil => exact h.closed name hname List.not_mem_nil next hleads
    | cons first rest => exact ih h.step hname

theorem Progress.nodup_follow {rounds : Nat} {pending reached : List String}
    (h : survey.Progress rounds pending reached) :
    (survey.follow rounds pending reached).Nodup := by
  induction rounds generalizing pending reached with
  | zero => exact h.nodup
  | succ rounds ih =>
    cases pending with
    | nil => exact h.nodup
    | cons first rest => exact ih h.step

theorem Progress.start (findings : Findings) :
    survey.Progress survey.scope.fragments.length (fresh [] (survey.targets findings))
      (fresh [] (survey.targets findings)) where
  nodup := nodup_fresh _ _
  defined := fun _ h => isDefined_iff.1 (isDefined_of_mem_targets (mem_fresh.1 h).1)
  closed := fun _ h hout => absurd h hout
  rounds := Nat.le_refl _

theorem nodup_reachable (findings : Findings) : (survey.reachable findings).Nodup :=
  (Progress.start findings).nodup_follow

/-- The fragments that are reached from a definition are those that its spreads lead to. -/
theorem mem_reachable {findings : Findings} {name : String} :
    name ∈ survey.reachable findings ↔
      ∃ target ∈ survey.targets findings, Relation.ReflTransGen survey.Leads target name := by
  constructor
  · intro h
    obtain ⟨target, htarget, hleads⟩ := leads_of_mem_follow (List.Subset.refl _) h
    exact ⟨target, (mem_fresh.1 htarget).1, hleads⟩
  · rintro ⟨target, htarget, hleads⟩
    induction hleads with
    | refl => exact subset_follow _ _ _ (mem_fresh.2 ⟨htarget, List.not_mem_nil⟩)
    | tail _ hstep ih => exact (Progress.start findings).closed_follow ih hstep

/-! ## Documents without cycles -/

/-- No cycle is reported just when no fragment leads on for ever. -/
theorem cycleDiagnostics_eq_nil_iff :
    survey.cycleDiagnostics = [] ↔
      ∀ name, survey.isDefined name = true → Acc survey.Follows name := by
  refine ⟨fun h name hdefined => acc_of_cycleDiagnostics h hdefined, fun hacc => ?_⟩
  by_contra hne
  obtain ⟨diagnostic, hmem⟩ := List.exists_mem_of_ne_nil _ hne
  obtain ⟨name, walk, hwalk, hdefined, hcloses, -⟩ := closes_of_mem_cycleDiagnostics hmem
  exact not_leads_self (hacc name hdefined) (hcloses.transGen hwalk)

end Survey
end TypedQuery
