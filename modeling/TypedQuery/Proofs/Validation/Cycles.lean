import Mathlib.Data.List.Nodup
import Mathlib.Logic.Relation
import TypedQuery.Proofs.Validation.Mentioned
/-!
The search for cycles finds every cycle: when it reports nothing, no fragment leads back to itself
(`Document.acyclicSpreads`).
-/

namespace TypedQuery

/-- What is accessible does not lead to itself. -/
theorem not_self_of_acc {α : Type} {r : α → α → Prop} {a : α} (h : Acc r a) : ¬ r a a := by
  induction h with
  | intro x _ ih => exact fun hx => ih x hx hx

namespace Survey

/-- The second fragment spreads the first. -/
def Follows (survey : Survey) (next name : String) : Prop :=
  next ∈ survey.targets (survey.fragmentFindings name)

variable {survey : Survey}

/-! ## One step of the search -/

/-- What the search does with a spread inside of some fragments. -/
def followSpread (survey : Survey) (depth : Nat) (inside : List String) (walk : List Spread)
    (state : CycleSearch) (spread : Spread) : CycleSearch :=
  match inside.idxOf? spread.fragment with
  | some start =>
    { state with
      diagnostics :=
        state.diagnostics ++ [cycleDiagnostic spread.fragment (walk.drop start ++ [spread])] }
  | none =>
    if survey.isDefined spread.fragment then
      survey.searchCycles depth inside (walk ++ [spread]) spread.fragment state
    else state

theorem searchCycles_succ (depth : Nat) (inside : List String) (walk : List Spread)
    (name : String) (state : CycleSearch) :
    survey.searchCycles (depth + 1) inside walk name state =
      if state.entered.contains name then state
      else
        (survey.fragmentFindings name).spreads.foldl
          (survey.followSpread depth (inside ++ [name]) walk)
          { state with entered := name :: state.entered } := by
  rfl

/-! ## Reports -/

section Reports

variable {depth : Nat}
  (h : ∀ inside walk name state,
    state.diagnostics <+: (survey.searchCycles depth inside walk name state).diagnostics)

include h

theorem diagnostics_followSpread (inside : List String) (walk : List Spread) (state : CycleSearch)
    (spread : Spread) :
    state.diagnostics <+: (survey.followSpread depth inside walk state spread).diagnostics := by
  unfold followSpread
  cases inside.idxOf? spread.fragment with
  | some start => exact List.prefix_append _ _
  | none =>
    dsimp only
    split
    · exact h _ _ _ state
    · exact List.prefix_refl _

theorem diagnostics_foldl (inside : List String) (walk : List Spread) (spreads : List Spread)
    (state : CycleSearch) :
    state.diagnostics <+:
      (spreads.foldl (survey.followSpread depth inside walk) state).diagnostics := by
  induction spreads generalizing state with
  | nil => exact List.prefix_refl _
  | cons first rest ih => exact (diagnostics_followSpread h inside walk state first).trans (ih _)

end Reports

/-- The search takes back no report. -/
theorem diagnostics_searchCycles (depth : Nat) (inside : List String) (walk : List Spread)
    (name : String) (state : CycleSearch) :
    state.diagnostics <+: (survey.searchCycles depth inside walk name state).diagnostics := by
  induction depth generalizing inside walk name state with
  | zero => exact List.prefix_refl _
  | succ depth ih =>
    rw [searchCycles_succ]
    split
    · exact List.prefix_refl _
    · have hfold := diagnostics_foldl ih (inside ++ [name]) walk
        (survey.fragmentFindings name).spreads { state with entered := name :: state.entered }
      exact hfold

/-! ## Soundness -/

/-- Fragments that were entered and left again lead to no cycle. -/
def Sound (survey : Survey) (inside : List String) (state : CycleSearch) : Prop :=
  ∀ name ∈ state.entered, name ∈ inside ∨ Acc survey.Follows name

/-- The fragments around a spread are different ones of the document, and the search goes as deep as
the others may lead. -/
structure Nested (survey : Survey) (depth : Nat) (inside : List String) : Prop where
  nodup : inside.Nodup
  defined : inside ⊆ survey.scope.fragments.map (·.name)
  depth : depth + inside.length = survey.scope.fragments.length

theorem isDefined_iff {name : String} :
    survey.isDefined name = true ↔ name ∈ survey.scope.fragments.map (·.name) := by
  unfold isDefined Scope.fragment?
  rw [List.find?_isSome, List.mem_map]
  simp only [beq_iff_eq]

/-- There is no way to go deeper than there are fragments. -/
theorem Nested.depth_pos {depth : Nat} {inside : List String} (h : survey.Nested depth inside)
    {name : String} (hname : name ∉ inside) (hdefined : survey.isDefined name = true) :
    ∃ less, depth = less + 1 ∧ survey.Nested less (inside ++ [name]) := by
  have hnodup : (inside ++ [name]).Nodup :=
    List.nodup_append.2 ⟨h.nodup, List.nodup_singleton name, fun a ha b hb => by
      obtain rfl := List.mem_singleton.1 hb
      exact fun he => hname (he ▸ ha)⟩
  have hsub : inside ++ [name] ⊆ survey.scope.fragments.map (·.name) :=
    List.append_subset.2 ⟨h.defined, List.cons_subset.2
      ⟨isDefined_iff.1 hdefined, List.nil_subset _⟩⟩
  have hlength := (List.subperm_of_subset hnodup hsub).length_le
  have hdepth := h.depth
  rw [List.length_append, List.length_singleton, List.length_map] at hlength
  refine ⟨depth - 1, by omega, hnodup, hsub, ?_⟩
  rw [List.length_append, List.length_singleton]
  omega

section Search

variable {depth : Nat}
  (h : ∀ inside walk name state, survey.Nested depth inside → name ∉ inside →
    survey.isDefined name = true → survey.Sound inside state →
    (survey.searchCycles depth inside walk name state).diagnostics = [] →
      Acc survey.Follows name ∧
        survey.Sound inside (survey.searchCycles depth inside walk name state))

include h

/-- A spread that is followed without a report leads to no cycle. -/
theorem acc_followSpread {inside : List String} (hnested : survey.Nested depth inside)
    (walk : List Spread) {state : CycleSearch} (hsound : survey.Sound inside state)
    {spread : Spread}
    (hclean : (survey.followSpread depth inside walk state spread).diagnostics = []) :
    (survey.isDefined spread.fragment = true → Acc survey.Follows spread.fragment) ∧
      survey.Sound inside (survey.followSpread depth inside walk state spread) := by
  unfold followSpread at hclean ⊢
  cases hin : inside.idxOf? spread.fragment with
  | some start =>
    rw [hin] at hclean
    exact absurd hclean (List.append_ne_nil_of_right_ne_nil _ (List.cons_ne_nil _ _))
  | none =>
    rw [hin] at hclean
    dsimp only at hclean ⊢
    have hout : spread.fragment ∉ inside := List.idxOf?_eq_none_iff.1 hin
    by_cases hdefined : survey.isDefined spread.fragment = true
    · rw [if_pos hdefined] at hclean ⊢
      obtain ⟨hacc, hstate⟩ :=
        h inside (walk ++ [spread]) spread.fragment state hnested hout hdefined hsound hclean
      exact ⟨fun _ => hacc, hstate⟩
    · rw [if_neg hdefined]
      exact ⟨fun hd => absurd hd hdefined, hsound⟩

theorem acc_foldl {inside : List String} (hnested : survey.Nested depth inside)
    (walk : List Spread) (spreads : List Spread) {state : CycleSearch}
    (hsound : survey.Sound inside state)
    (hclean : (spreads.foldl (survey.followSpread depth inside walk) state).diagnostics = []) :
    (∀ spread ∈ spreads,
      survey.isDefined spread.fragment = true → Acc survey.Follows spread.fragment) ∧
      survey.Sound inside (spreads.foldl (survey.followSpread depth inside walk) state) := by
  induction spreads generalizing state with
  | nil => exact ⟨fun _ hs => absurd hs List.not_mem_nil, hsound⟩
  | cons first rest ih =>
    rw [List.foldl_cons] at hclean ⊢
    have hkept : (survey.followSpread depth inside walk state first).diagnostics <+: [] := by
      rw [← hclean]
      exact diagnostics_foldl (diagnostics_searchCycles depth) inside walk rest _
    obtain ⟨hfirst, hstate⟩ := acc_followSpread h hnested walk hsound (List.prefix_nil.1 hkept)
    obtain ⟨hrest, hend⟩ := ih hstate hclean
    exact ⟨List.forall_mem_cons.2 ⟨hfirst, hrest⟩, hend⟩

end Search

/-- A fragment that is searched without a report leads to no cycle. -/
theorem acc_searchCycles (depth : Nat) (inside : List String) (walk : List Spread) (name : String)
    (state : CycleSearch) (hnested : survey.Nested depth inside) (hout : name ∉ inside)
    (hdefined : survey.isDefined name = true) (hsound : survey.Sound inside state)
    (hclean : (survey.searchCycles depth inside walk name state).diagnostics = []) :
    Acc survey.Follows name ∧
      survey.Sound inside (survey.searchCycles depth inside walk name state) := by
  induction depth generalizing inside walk name state with
  | zero =>
    obtain ⟨less, hless, -⟩ := hnested.depth_pos hout hdefined
    cases hless
  | succ depth ih =>
    obtain ⟨less, hless, hdeeper⟩ := hnested.depth_pos hout hdefined
    obtain rfl : depth = less := Nat.succ.inj hless
    rw [searchCycles_succ] at hclean ⊢
    by_cases hentered : state.entered.contains name = true
    · rw [if_pos hentered]
      exact ⟨(hsound name (List.contains_iff_mem.1 hentered)).resolve_left hout, hsound⟩
    · rw [if_neg hentered] at hclean ⊢
      have hstart : survey.Sound (inside ++ [name])
          { state with entered := name :: state.entered } := by
        intro other hother
        rcases List.mem_cons.1 hother with rfl | hother
        · exact .inl (List.mem_append_right _ List.mem_cons_self)
        · exact (hsound other hother).imp (List.mem_append_left _) id
      obtain ⟨hspreads, hend⟩ := acc_foldl ih hdeeper walk _ hstart hclean
      have hacc : Acc survey.Follows name := by
        constructor
        intro next hnext
        obtain ⟨htarget, hnextDefined⟩ := List.mem_filter.1 hnext
        obtain ⟨spread, hspread, rfl⟩ := List.mem_map.1 htarget
        exact hspreads spread hspread hnextDefined
      refine ⟨hacc, fun other hother => ?_⟩
      rcases hend other hother with hin | hother
      · rcases List.mem_append.1 hin with hin | hin
        · exact .inl hin
        · exact .inr (List.mem_singleton.1 hin ▸ hacc)
      · exact .inr hother

theorem acc_of_cycleDiagnostics (h : survey.cycleDiagnostics = []) {name : String}
    (hdefined : survey.isDefined name = true) : Acc survey.Follows name := by
  have hnested : survey.Nested survey.scope.fragments.length [] :=
    { nodup := List.nodup_nil
      defined := List.nil_subset _
      depth := Nat.add_zero _ }
  let search := fun state (frag : Fragment) =>
    survey.searchCycles survey.scope.fragments.length [] [] frag.name state
  have hkept (frags : List Fragment) (state : CycleSearch) :
      state.diagnostics <+: (frags.foldl search state).diagnostics := by
    induction frags generalizing state with
    | nil => exact List.prefix_refl _
    | cons first rest ih => exact (diagnostics_searchCycles _ _ _ _ state).trans (ih _)
  have hfold : ∀ (frags : List Fragment) (state : CycleSearch),
      frags ⊆ survey.scope.fragments → survey.Sound [] state →
      (frags.foldl search state).diagnostics = [] →
        ∀ frag ∈ frags, Acc survey.Follows frag.name := by
    intro frags
    induction frags with
    | nil => exact fun _ _ _ _ frag hfrag => absurd hfrag List.not_mem_nil
    | cons first rest ih =>
      intro state hsub hsound hclean
      rw [List.foldl_cons] at hclean
      have hfirst : survey.isDefined first.name = true :=
        isDefined_iff.2 (List.mem_map_of_mem (hsub List.mem_cons_self))
      have hone := hkept rest (search state first)
      rw [hclean] at hone
      obtain ⟨hacc, hstate⟩ := acc_searchCycles _ [] [] first.name state hnested
        List.not_mem_nil hfirst hsound (List.prefix_nil.1 hone)
      exact List.forall_mem_cons.2
        ⟨hacc, ih _ (List.subset_of_cons_subset hsub) hstate hclean⟩
  obtain ⟨frag, hfrag, rfl⟩ := List.mem_map.1 (isDefined_iff.1 hdefined)
  exact hfold survey.scope.fragments { entered := [], diagnostics := [] }
    (List.Subset.refl _) (fun _ hm => absurd hm List.not_mem_nil) h frag hfrag

end Survey

namespace Document

variable {doc : Document} {schema : Schema}

theorem follows_of_mentions (h : doc.diagnostics schema = []) {frag : Fragment}
    (hfrag : frag ∈ doc.fragments) {name : String} (hm : Mentions name frag.selections)
    (hdefined : (Survey.ofDocument schema doc).isDefined name = true) :
    (Survey.ofDocument schema doc).Follows name frag.name := by
  have hwhole : ∀ entry ∈ (Survey.ofDocument schema doc).visited, entry.2.Whole :=
    fun entry hentry => ((diagnostics_eq_nil h).1 entry hentry).whole
  have hname : name ∈ frag.mentioned.fragments := by
    rw [Fragment.mentioned, Mentioned.fragments_append]
    exact List.mem_append_right _ ((mentions_iff frag.selections).1 hm)
  refine List.mem_filter.2 ⟨?_, hdefined⟩
  exact (mem_fragments_fragmentFindings hwhole).2 ⟨frag, hfrag, rfl, hname⟩

/-- In a document without diagnostics no fragment leads back to itself. -/
theorem acyclicSpreads (h : doc.diagnostics schema = []) : AcyclicSpreads doc.fragments := by
  let survey := Survey.ofDocument schema doc
  have hacc {name : String} (hdefined : survey.isDefined name = true) :
      Acc survey.Follows name :=
    Survey.acc_of_cycleDiagnostics (diagnostics_eq_nil h).2 hdefined
  have hdefined {name : String} {frag : Fragment}
      (hfrag : fragmentOf? doc.fragments name = some frag) : survey.isDefined name = true :=
    Survey.isDefined_iff.2 (List.mem_map.2 ⟨frag, fragmentOf?_mem hfrag⟩)
  -- each step along mentions is one that the search may follow
  have hreach {name : String} (hname : survey.isDefined name = true)
      {selections : List Selection} (hreaches : Reaches doc.fragments name selections) :
      ∀ frag ∈ doc.fragments, frag.selections = selections →
        Relation.TransGen survey.Follows name frag.name := by
    induction hreaches with
    | here hm =>
      rintro frag hfrag rfl
      exact .single (follows_of_mentions h hfrag hm hname)
    | @through selections between inner hm hinner _ ih =>
      rintro frag hfrag rfl
      obtain ⟨hmem, hnamed⟩ := fragmentOf?_mem hinner
      have hnext := ih inner hmem rfl
      rw [hnamed] at hnext
      exact .tail hnext (follows_of_mentions h hfrag hm (hdefined hinner))
  intro name frag hfrag hreaches
  obtain ⟨hmem, rfl⟩ := fragmentOf?_mem hfrag
  exact not_self_of_acc (hacc (hdefined hfrag)).transGen
    (hreach (hdefined hfrag) hreaches frag hmem rfl)

end Document
end TypedQuery
