import TypedQuery.Proofs.Validation.Cycles
/-!
The search for cycles as it goes, spread by spread, with no bound on its depth.  Such a search
ends for every document, and what it comes to is what the bounded one finds
(`Survey.exists_searchedAll`).  Each of its reports describes a walk along spreads that were
recorded, which ends where it starts, and there is a report just when some fragment leads back to
itself: `cycles_reported`.
-/

namespace TypedQuery
namespace Survey

variable {survey : Survey}

/-- The first fragment spreads the second. -/
def Leads (survey : Survey) (name next : String) : Prop := survey.Follows next name

/-- What is accessible does not lead back to itself. -/
theorem not_leads_self {name : String} (h : Acc survey.Follows name) :
    ¬ Relation.TransGen survey.Leads name name := by
  intro hleads
  exact not_self_of_acc h.transGen (Relation.transGen_swap.1 hleads)

/-! ## The search without a bound -/

/-- A fragment was entered. -/
def CycleSearch.enter (state : CycleSearch) (name : String) : CycleSearch :=
  { state with entered := name :: state.entered }

def CycleSearch.report (state : CycleSearch) (diagnostic : Diagnostic) : CycleSearch :=
  { state with diagnostics := state.diagnostics ++ [diagnostic] }

/-- The search follows the spreads of the innermost of some fragments, one after another, and comes
from the one state to the other. -/
inductive Searched (survey : Survey) :
    List String → List Spread → List Spread → CycleSearch → CycleSearch → Prop
  | nil {inside : List String} {walk : List Spread} {state : CycleSearch} :
      Searched survey inside walk [] state state
  | back {inside : List String} {walk rest : List Spread} {spread : Spread} {start : Nat}
      {state last : CycleSearch} (hin : inside.idxOf? spread.fragment = some start)
      (hrest : Searched survey inside walk rest
        (state.report (cycleDiagnostic spread.fragment (walk.drop start ++ [spread]))) last) :
      Searched survey inside walk (spread :: rest) state last
  | skip {inside : List String} {walk rest : List Spread} {spread : Spread}
      {state last : CycleSearch} (hout : inside.idxOf? spread.fragment = none)
      (hskip : survey.isDefined spread.fragment = true → spread.fragment ∈ state.entered)
      (hrest : Searched survey inside walk rest state last) :
      Searched survey inside walk (spread :: rest) state last
  | enter {inside : List String} {walk rest : List Spread} {spread : Spread}
      {state between last : CycleSearch} (hout : inside.idxOf? spread.fragment = none)
      (hdefined : survey.isDefined spread.fragment = true)
      (hnew : spread.fragment ∉ state.entered)
      (hinner : Searched survey (inside ++ [spread.fragment]) (walk ++ [spread])
        (survey.fragmentFindings spread.fragment).spreads (state.enter spread.fragment) between)
      (hrest : Searched survey inside walk rest between last) :
      Searched survey inside walk (spread :: rest) state last

/-- The search starts from each of the fragments that it has not entered by then. -/
inductive SearchedAll (survey : Survey) : List Fragment → CycleSearch → CycleSearch → Prop
  | nil {state : CycleSearch} : SearchedAll survey [] state state
  | skip {frag : Fragment} {rest : List Fragment} {state last : CycleSearch}
      (hentered : frag.name ∈ state.entered) (hrest : SearchedAll survey rest state last) :
      SearchedAll survey (frag :: rest) state last
  | enter {frag : Fragment} {rest : List Fragment} {state between last : CycleSearch}
      (hnew : frag.name ∉ state.entered)
      (hinner : Searched survey [frag.name] [] (survey.fragmentFindings frag.name).spreads
        (state.enter frag.name) between)
      (hrest : SearchedAll survey rest between last) :
      SearchedAll survey (frag :: rest) state last

/-- A search comes to one end only. -/
theorem Searched.unique {inside : List String} {walk spreads : List Spread}
    {state last other : CycleSearch} (h : survey.Searched inside walk spreads state last)
    (hother : survey.Searched inside walk spreads state other) : other = last := by
  induction h generalizing other with
  | nil =>
    cases hother
    rfl
  | back hin _ ih =>
    cases hother with
    | back hin' hrest' =>
      rw [hin] at hin'
      obtain rfl := Option.some.inj hin'
      exact ih hrest'
    | skip hout' =>
      rw [hin] at hout'
      cases hout'
    | enter hout' =>
      rw [hin] at hout'
      cases hout'
  | skip hout hskip _ ih =>
    cases hother with
    | back hin' =>
      rw [hout] at hin'
      cases hin'
    | skip _ _ hrest' => exact ih hrest'
    | enter _ hdefined' hnew' => exact absurd (hskip hdefined') hnew'
  | enter hout hdefined hnew _ _ ihinner ih =>
    cases hother with
    | back hin' =>
      rw [hout] at hin'
      cases hin'
    | skip _ hskip' => exact absurd (hskip' hdefined) hnew
    | enter _ _ _ hinner' hrest' =>
      obtain rfl := ihinner hinner'
      exact ih hrest'

theorem SearchedAll.unique {fragments : List Fragment} {state last other : CycleSearch}
    (h : survey.SearchedAll fragments state last)
    (hother : survey.SearchedAll fragments state other) : other = last := by
  induction h generalizing other with
  | nil =>
    cases hother
    rfl
  | skip hentered _ ih =>
    cases hother with
    | skip _ hrest' => exact ih hrest'
    | enter hnew' => exact absurd hentered hnew'
  | enter hnew hinner _ ih =>
    cases hother with
    | skip hentered' => exact absurd hentered' hnew
    | enter _ hinner' hrest' =>
      obtain rfl := hinner.unique hinner'
      exact ih hrest'

/-! ## The bound is never reached -/

theorem searchCycles_of_entered {name : String} {state : CycleSearch}
    (h : name ∈ state.entered) (depth : Nat) (inside : List String) (walk : List Spread) :
    survey.searchCycles depth inside walk name state = state := by
  cases depth with
  | zero => rfl
  | succ depth =>
    rw [searchCycles_succ]
    exact if_pos (List.contains_iff_mem.2 h)

section Bound

variable {depth : Nat}
  (h : ∀ inside walk name state, survey.Nested depth inside → name ∉ inside →
    survey.isDefined name = true → name ∉ state.entered →
    survey.Searched (inside ++ [name]) walk (survey.fragmentFindings name).spreads
      (state.enter name) (survey.searchCycles depth inside walk name state))

include h

theorem searched_foldl {inside : List String} (hnested : survey.Nested depth inside)
    (walk spreads : List Spread) (state : CycleSearch) :
    survey.Searched inside walk spreads state
      (spreads.foldl (survey.followSpread depth inside walk) state) := by
  induction spreads generalizing state with
  | nil => exact .nil
  | cons spread rest ih =>
    rw [List.foldl_cons]
    have hrest := ih (survey.followSpread depth inside walk state spread)
    unfold followSpread at hrest ⊢
    cases hin : inside.idxOf? spread.fragment with
    | some start =>
      rw [hin] at hrest
      exact .back hin hrest
    | none =>
      rw [hin] at hrest
      dsimp only at hrest ⊢
      by_cases hdefined : survey.isDefined spread.fragment = true
      · rw [if_pos hdefined] at hrest ⊢
        by_cases hentered : spread.fragment ∈ state.entered
        · rw [searchCycles_of_entered hentered] at hrest ⊢
          exact .skip hin (fun _ => hentered) hrest
        · have hout := List.idxOf?_eq_none_iff.1 hin
          exact .enter hin hdefined hentered (h _ _ _ _ hnested hout hdefined hentered) hrest
      · rw [if_neg hdefined] at hrest ⊢
        exact .skip hin (fun hd => absurd hd hdefined) hrest

end Bound

/-- The search that is bounded by the number of fragments goes as the one without a bound. -/
theorem searched_searchCycles (depth : Nat) (inside : List String) (walk : List Spread)
    (name : String) (state : CycleSearch) (hnested : survey.Nested depth inside)
    (hout : name ∉ inside) (hdefined : survey.isDefined name = true)
    (hnew : name ∉ state.entered) :
    survey.Searched (inside ++ [name]) walk (survey.fragmentFindings name).spreads
      (state.enter name) (survey.searchCycles depth inside walk name state) := by
  induction depth generalizing inside walk name state with
  | zero =>
    obtain ⟨less, hless, -⟩ := hnested.depth_pos hout hdefined
    cases hless
  | succ depth ih =>
    obtain ⟨less, hless, hdeeper⟩ := hnested.depth_pos hout hdefined
    obtain rfl : depth = less := Nat.succ.inj hless
    rw [searchCycles_succ, if_neg fun hentered => hnew (List.contains_iff_mem.1 hentered)]
    exact searched_foldl ih hdeeper walk _ _

/-- Nothing was entered, and nothing was found. -/
def CycleSearch.start : CycleSearch := { entered := [], diagnostics := [] }

/-- The search of all fragments ends, and its reports are those of the bounded one. -/
theorem exists_searchedAll (survey : Survey) :
    ∃ last, survey.SearchedAll survey.scope.fragments .start last ∧
      last.diagnostics = survey.cycleDiagnostics := by
  have hnested : survey.Nested survey.scope.fragments.length [] :=
    { nodup := List.nodup_nil
      defined := List.nil_subset _
      depth := Nat.add_zero _ }
  let search := fun state (frag : Fragment) =>
    survey.searchCycles survey.scope.fragments.length [] [] frag.name state
  have hfold (frags : List Fragment) (hsub : frags ⊆ survey.scope.fragments)
      (state : CycleSearch) : survey.SearchedAll frags state (frags.foldl search state) := by
    induction frags generalizing state with
    | nil => exact .nil
    | cons frag rest ih =>
      have hrest := ih (List.subset_of_cons_subset hsub) (search state frag)
      rw [List.foldl_cons]
      by_cases hentered : frag.name ∈ state.entered
      · have hsame : search state frag = state := searchCycles_of_entered hentered _ _ _
        rw [hsame] at hrest ⊢
        exact .skip hentered hrest
      · have hdefined : survey.isDefined frag.name = true :=
          isDefined_iff.2 (List.mem_map_of_mem (hsub List.mem_cons_self))
        exact .enter hentered
          (searched_searchCycles _ [] [] _ state hnested List.not_mem_nil hdefined hentered) hrest
  exact ⟨_, hfold _ (List.Subset.refl _) .start, rfl⟩

/-! ## Walks -/

/-- Each of the spreads stands in the fragment that the one before it spreads, and leads to a
fragment that is defined. -/
inductive Walk (survey : Survey) : String → List Spread → String → Prop
  | nil {name : String} : Walk survey name [] name
  | cons {name last : String} {spread : Spread} {rest : List Spread}
      (hspread : spread ∈ (survey.fragmentFindings name).spreads)
      (hdefined : survey.isDefined spread.fragment = true)
      (hrest : Walk survey spread.fragment rest last) : Walk survey name (spread :: rest) last

theorem Walk.concat {name last : String} {walk : List Spread} (h : survey.Walk name walk last)
    {spread : Spread} (hspread : spread ∈ (survey.fragmentFindings last).spreads)
    (hdefined : survey.isDefined spread.fragment = true) :
    survey.Walk name (walk ++ [spread]) spread.fragment := by
  induction h with
  | nil => exact .cons hspread hdefined .nil
  | cons hfirst hnext _ ih => exact .cons hfirst hnext (ih hspread)

/-- A walk goes on from each of its fragments. -/
theorem Walk.drop {first last : String} {walk : List Spread} (h : survey.Walk first walk last)
    (hfirst : survey.isDefined first = true) {start : Nat} {name : String}
    (hname : (first :: walk.map Spread.fragment)[start]? = some name) :
    survey.isDefined name = true ∧ survey.Walk name (walk.drop start) last := by
  induction h generalizing start with
  | nil =>
    cases start with
    | zero =>
      obtain rfl := Option.some.inj hname
      exact ⟨hfirst, .nil⟩
    | succ start => cases hname
  | cons hspread hdefined hrest ih =>
    cases start with
    | zero =>
      obtain rfl := Option.some.inj hname
      exact ⟨hfirst, .cons hspread hdefined hrest⟩
    | succ start => exact ih hdefined hname

theorem Walk.transGen {name last : String} {walk : List Spread} (h : survey.Walk name walk last)
    (hne : walk ≠ []) : Relation.TransGen survey.Leads name last := by
  induction h with
  | nil => exact absurd rfl hne
  | @cons name last spread rest hspread hdefined hrest ih =>
    have hleads : survey.Leads name spread.fragment :=
      List.mem_filter.2 ⟨List.mem_map_of_mem hspread, hdefined⟩
    by_cases hnil : rest = []
    · subst hnil
      cases hrest
      exact .single hleads
    · exact .head hleads (ih hnil)

/-! ## Reports -/

/-- What is reported is a walk that ends where it starts: its fragments after the first, and its
spreads where they stand. -/
def Closes (survey : Survey) (diagnostic : Diagnostic) : Prop :=
  ∃ name walk, walk ≠ [] ∧ survey.isDefined name = true ∧ survey.Walk name walk name ∧
    diagnostic.fault = .cycle name (walk.dropLast.map Spread.fragment) ∧
    diagnostic.locations = walk.map Spread.location

/-- How the search came to where it stands: from the first of the fragments around by the spreads
that it walked. -/
structure Trail (survey : Survey) (first : String) (inside : List String) (walk : List Spread)
    (name : String) : Prop where
  defined : survey.isDefined first = true
  inside : inside = first :: walk.map Spread.fragment
  walk : survey.Walk first walk name

theorem Trail.start {name : String} (hdefined : survey.isDefined name = true) :
    survey.Trail name [name] [] name :=
  { defined := hdefined, inside := rfl, walk := .nil }

section Trail

variable {first name : String} {inside : List String} {walk : List Spread}
  (h : survey.Trail first inside walk name) {spread : Spread}
  (hspread : spread ∈ (survey.fragmentFindings name).spreads)

include h hspread

theorem Trail.enter (hdefined : survey.isDefined spread.fragment = true) :
    survey.Trail first (inside ++ [spread.fragment]) (walk ++ [spread]) spread.fragment where
  defined := h.defined
  inside := by
    rw [h.inside, List.map_append]
    rfl
  walk := h.walk.concat hspread hdefined

/-- A spread back to a fragment around it closes the walk from there. -/
theorem Trail.closes {start : Nat} (hin : inside.idxOf? spread.fragment = some start) :
    survey.Closes (cycleDiagnostic spread.fragment (walk.drop start ++ [spread])) := by
  obtain ⟨hlt, hfound, -⟩ := List.idxOf?_eq_some_iff.1 hin
  have hname : (first :: walk.map Spread.fragment)[start]? = some spread.fragment := by
    rw [← h.inside, List.getElem?_eq_getElem hlt, hfound]
  obtain ⟨hdefined, hwalk⟩ := h.walk.drop h.defined hname
  exact ⟨spread.fragment, walk.drop start ++ [spread], List.concat_ne_nil _ _, hdefined,
    hwalk.concat hspread hdefined, rfl, rfl⟩

end Trail

/-- What the search reports from the innermost fragment on closes a walk. -/
theorem Searched.closes {inside : List String} {walk spreads : List Spread}
    {state last : CycleSearch} (h : survey.Searched inside walk spreads state last)
    {first name : String} (htrail : survey.Trail first inside walk name)
    (hspreads : spreads ⊆ (survey.fragmentFindings name).spreads)
    (hstate : ∀ diagnostic ∈ state.diagnostics, survey.Closes diagnostic) :
    ∀ diagnostic ∈ last.diagnostics, survey.Closes diagnostic := by
  induction h generalizing name with
  | nil => exact hstate
  | back hin _ ih =>
    have hclosed := htrail.closes (hspreads List.mem_cons_self) hin
    refine ih htrail (List.subset_of_cons_subset hspreads) ?_
    exact List.forall_mem_append.2 ⟨hstate, List.forall_mem_singleton.2 hclosed⟩
  | skip _ _ _ ih => exact ih htrail (List.subset_of_cons_subset hspreads) hstate
  | enter _ hdefined _ _ _ ihinner ih =>
    have hdeeper := htrail.enter (hspreads List.mem_cons_self) hdefined
    have hbetween := ihinner hdeeper (List.Subset.refl _) hstate
    exact ih htrail (List.subset_of_cons_subset hspreads) hbetween

theorem SearchedAll.closes {fragments : List Fragment} {state last : CycleSearch}
    (h : survey.SearchedAll fragments state last) (hsub : fragments ⊆ survey.scope.fragments)
    (hstate : ∀ diagnostic ∈ state.diagnostics, survey.Closes diagnostic) :
    ∀ diagnostic ∈ last.diagnostics, survey.Closes diagnostic := by
  induction h with
  | nil => exact hstate
  | skip _ _ ih => exact ih (List.subset_of_cons_subset hsub) hstate
  | @enter frag _ _ _ _ _ hinner _ ih =>
    have hdefined : survey.isDefined frag.name = true :=
      isDefined_iff.2 (List.mem_map_of_mem (hsub List.mem_cons_self))
    have hbetween := hinner.closes (.start hdefined) (List.Subset.refl _) hstate
    exact ih (List.subset_of_cons_subset hsub) hbetween

theorem closes_of_mem_cycleDiagnostics {diagnostic : Diagnostic}
    (h : diagnostic ∈ survey.cycleDiagnostics) : survey.Closes diagnostic := by
  obtain ⟨last, hsearched, hlast⟩ := exists_searchedAll survey
  rw [← hlast] at h
  exact hsearched.closes (List.Subset.refl _) (fun _ hmem => absurd hmem List.not_mem_nil) _ h

/-- There is a report just when some fragment leads back to itself. -/
theorem cycleDiagnostics_ne_nil_iff :
    survey.cycleDiagnostics ≠ [] ↔ ∃ name, Relation.TransGen survey.Leads name name := by
  constructor
  · intro h
    obtain ⟨diagnostic, hmem⟩ := List.exists_mem_of_ne_nil _ h
    obtain ⟨name, walk, hne, -, hwalk, -⟩ := closes_of_mem_cycleDiagnostics hmem
    exact ⟨name, hwalk.transGen hne⟩
  · rintro ⟨name, hleads⟩ h
    obtain ⟨between, -, hlast⟩ := Relation.TransGen.tail'_iff.1 hleads
    have hdefined : survey.isDefined name = true := (List.mem_filter.1 hlast).2
    exact not_leads_self (acc_of_cycleDiagnostics h hdefined) hleads

end Survey

/-- The search for cycles ends for every document, with no bound on its depth, and it comes to one
end only, which is what is reported.  Something is reported just when some fragment leads back to
itself along the spreads that were recorded, and each report is about a walk that does so: it
names the fragment where the walk starts, the fragments in between in order, and the places of its
spreads. -/
theorem cycles_reported (schema : Schema) (doc : Document) :
    let survey := Survey.ofDocument schema doc
    (∃ last, survey.SearchedAll doc.fragments .start last ∧
      (∀ other, survey.SearchedAll doc.fragments .start other → other = last) ∧
      last.diagnostics = survey.cycleDiagnostics) ∧
    (survey.cycleDiagnostics ≠ [] ↔ ∃ name, Relation.TransGen survey.Leads name name) ∧
    ∀ diagnostic ∈ survey.cycleDiagnostics, ∃ name walk, walk ≠ [] ∧
      name ∈ doc.fragments.map (·.name) ∧ survey.Walk name walk name ∧
      diagnostic.fault = .cycle name (walk.dropLast.map Spread.fragment) ∧
      diagnostic.locations = walk.map Spread.location := by
  intro survey
  refine ⟨?_, Survey.cycleDiagnostics_ne_nil_iff, fun diagnostic hmem => ?_⟩
  · obtain ⟨last, hsearched, hlast⟩ := Survey.exists_searchedAll survey
    exact ⟨last, hsearched, fun other hother => hsearched.unique hother, hlast⟩
  · obtain ⟨name, walk, hne, hdefined, hcloses⟩ := Survey.closes_of_mem_cycleDiagnostics hmem
    exact ⟨name, walk, hne, Survey.isDefined_iff.1 hdefined, hcloses⟩

end TypedQuery
