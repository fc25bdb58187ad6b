import TypedQuery.Proofs.Execution.Repetition
import TypedQuery.Proofs.Execution.Spots
/-!
Collecting fields as it goes, selection by selection, with no bound on how deep fragments nest.
Such a run comes to one end only (`Selector.CollectsAll.unique`) and enters no fragment twice
(`Selector.CollectsAll.fresh`).  It ends for every document, also when fragments spread themselves,
and what it comes to is what is collected with the bound: `Selector.exists_collectsAll`.
-/

namespace TypedQuery

/-! ## Steps -/

def Collected.empty : Collected := { fields := [], met := [] }

def Collected.take (state : Collected) (node : FieldNode) : Collected :=
  { state with fields := state.fields ++ [node] }

def Collected.meet (state : Collected) (name : String) : Collected :=
  { state with met := name :: state.met }

/-- What is done with a selection. -/
inductive Choice where
  | pass
  | take (node : FieldNode)
  /-- There is no such fragment, or it does not apply. -/
  | mark (name : String)
  | enter (name : String) (frag : Fragment)
  | descend (selections : List Selection)

namespace Selector

/-- What is done with a selection when the fragments of some names were met. -/
def choose (s : Selector) (object : String) (met : List String) : Selection → Choice
  | .field head inner =>
    if isIncluded s.bindings head.directives then .take { head with selections := inner } else .pass
  | .spread _ name directives =>
    if !isIncluded s.bindings directives || met.contains name then .pass
    else
      match s.fragment? name with
      | some frag => if s.schema.applies frag.condition object then .enter name frag else .mark name
      | none => .mark name
  | .inline _ condition directives inner =>
    if isIncluded s.bindings directives &&
        condition.all fun type => s.schema.applies type object then
      .descend inner
    else .pass

variable {s : Selector} {object : String} {met : List String} {selection : Selection}

theorem collectSelection_choose (enter : Fragment → Collected → Collected) (selection : Selection)
    (state : Collected) :
    s.collectSelection enter object selection state =
      match s.choose object state.met selection with
      | .pass => state
      | .take node => state.take node
      | .mark name => state.meet name
      | .enter name frag => enter frag (state.meet name)
      | .descend inner => s.collectWith enter object inner state := by
  cases selection with
  | field head inner =>
    rw [collectSelection, choose]
    by_cases hincluded : isIncluded s.bindings head.directives = true
    · rw [if_pos hincluded, if_pos hincluded]; rfl
    · rw [if_neg hincluded, if_neg hincluded]
  | spread location name directives =>
    rw [collectSelection, choose]
    by_cases hpass : (!isIncluded s.bindings directives || state.met.contains name) = true
    · rw [if_pos hpass, if_pos hpass]
    · rw [if_neg hpass, if_neg hpass]
      cases s.fragment? name with
      | none => rfl
      | some frag =>
        dsimp only
        by_cases happlies : s.schema.applies frag.condition object = true
        · rw [if_pos happlies, if_pos happlies]; rfl
        · rw [if_neg happlies, if_neg happlies]; rfl
  | inline location condition directives inner =>
    rw [collectSelection_inline, choose]
    split <;> rfl

theorem of_choose_take {node : FieldNode} (h : s.choose object met selection = .take node) :
    ∃ head inner, selection = .field head inner ∧ isIncluded s.bindings head.directives = true ∧
      node = { head with selections := inner } := by
  cases selection with
  | field head inner =>
    rw [choose] at h
    split at h
    · next hincluded => cases h; exact ⟨head, inner, rfl, hincluded, rfl⟩
    · cases h
  | spread location name directives =>
    rw [choose] at h
    repeat' split at h
    all_goals cases h
  | inline location condition directives inner =>
    rw [choose] at h
    split at h <;> cases h

theorem of_choose_descend {inner : List Selection}
    (h : s.choose object met selection = .descend inner) :
    ∃ location condition directives, selection = .inline location condition directives inner ∧
      (isIncluded s.bindings directives &&
        condition.all fun type => s.schema.applies type object) = true := by
  cases selection with
  | field head inner =>
    rw [choose] at h
    split at h <;> cases h
  | spread location name directives =>
    rw [choose] at h
    repeat' split at h
    all_goals cases h
  | inline location condition directives inner =>
    rw [choose] at h
    split at h
    · next hboth => cases h; exact ⟨location, condition, directives, rfl, hboth⟩
    · cases h

/-- A fragment is met by its first spread that is included. -/
def Meeting (s : Selector) (met : List String) (name : String) (selection : Selection) : Prop :=
  ∃ location directives, selection = .spread location name directives ∧
    isIncluded s.bindings directives = true ∧ name ∉ met

theorem Meeting.not_mem {name : String} (h : s.Meeting met name selection) : name ∉ met := by
  obtain ⟨_, _, _, _, hnew⟩ := h
  exact hnew

theorem of_choose_enter {name : String} {frag : Fragment}
    (h : s.choose object met selection = .enter name frag) :
    s.Meeting met name selection ∧ s.fragment? name = some frag ∧
      s.schema.applies frag.condition object = true := by
  cases selection with
  | field head inner =>
    rw [choose] at h
    split at h <;> cases h
  | spread location other directives =>
    rw [choose] at h
    split at h
    · cases h
    · next hnew =>
      rw [Bool.or_eq_true, not_or, Bool.not_eq_true', Bool.not_eq_false,
        List.contains_iff_mem] at hnew
      split at h
      · next hfrag =>
        split at h
        · next happlies => cases h; exact ⟨⟨location, directives, rfl, hnew⟩, hfrag, happlies⟩
        · cases h
      · cases h
  | inline location condition directives inner =>
    rw [choose] at h
    split at h <;> cases h

theorem of_choose_mark {name : String} (h : s.choose object met selection = .mark name) :
    s.Meeting met name selection ∧
      ∀ frag, s.fragment? name = some frag → s.schema.applies frag.condition object ≠ true := by
  cases selection with
  | field head inner =>
    rw [choose] at h
    split at h <;> cases h
  | spread location other directives =>
    rw [choose] at h
    split at h
    · cases h
    · next hnew =>
      rw [Bool.or_eq_true, not_or, Bool.not_eq_true', Bool.not_eq_false,
        List.contains_iff_mem] at hnew
      split at h
      · next found hfound =>
        split at h
        · cases h
        · next hfails =>
          cases h
          refine ⟨⟨location, directives, rfl, hnew⟩, fun frag hfrag => ?_⟩
          obtain rfl := Option.some.inj (hfound.symm.trans hfrag)
          exact hfails
      · next hnone =>
        cases h
        refine ⟨⟨location, directives, rfl, hnew⟩, fun frag hfrag => ?_⟩
        rw [hnone] at hfrag
        cases hfrag
  | inline location condition directives inner =>
    rw [choose] at h
    split at h <;> cases h

/-! ## Runs -/

/-- Collecting comes from the one state to the other, and enters fragments of the given names on the
way. -/
inductive Collects (s : Selector) (object : String) :
    List Selection → Collected → List String → Collected → Prop
  | nil {state : Collected} : Collects s object [] state [] state
  | pass {first : Selection} {rest : List Selection} {names : List String} {state last : Collected}
      (h : s.choose object state.met first = .pass)
      (hrest : Collects s object rest state names last) :
      Collects s object (first :: rest) state names last
  | take {first : Selection} {rest : List Selection} {node : FieldNode} {names : List String}
      {state last : Collected} (h : s.choose object state.met first = .take node)
      (hrest : Collects s object rest (state.take node) names last) :
      Collects s object (first :: rest) state names last
  | mark {first : Selection} {rest : List Selection} {name : String} {names : List String}
      {state last : Collected} (h : s.choose object state.met first = .mark name)
      (hrest : Collects s object rest (state.meet name) names last) :
      Collects s object (first :: rest) state names last
  | enter {first : Selection} {rest : List Selection} {name : String} {frag : Fragment}
      {inside names : List String} {state between last : Collected}
      (h : s.choose object state.met first = .enter name frag)
      (hinner : Collects s object frag.selections (state.meet name) inside between)
      (hrest : Collects s object rest between names last) :
      Collects s object (first :: rest) state (name :: inside ++ names) last
  | descend {first : Selection} {rest inner : List Selection} {inside names : List String}
      {state between last : Collected} (h : s.choose object state.met first = .descend inner)
      (hinner : Collects s object inner state inside between)
      (hrest : Collects s object rest between names last) :
      Collects s object (first :: rest) state (inside ++ names) last

/-- Collecting goes through several sets of selections, one after the other. -/
inductive CollectsAll (s : Selector) (object : String) :
    List (List Selection) → Collected → List String → Collected → Prop
  | nil {state : Collected} : CollectsAll s object [] state [] state
  | cons {set : List Selection} {rest : List (List Selection)} {names more : List String}
      {state between last : Collected} (hset : s.Collects object set state names between)
      (hrest : CollectsAll s object rest between more last) :
      CollectsAll s object (set :: rest) state (names ++ more) last

variable {selections : List Selection} {state last : Collected} {names : List String}

/-- Collecting comes to one end only. -/
theorem Collects.unique (h : s.Collects object selections state names last) {names' : List String}
    {last' : Collected} (h' : s.Collects object selections state names' last') :
    names' = names ∧ last' = last := by
  induction h generalizing names' last' with
  | nil => cases h'; exact ⟨rfl, rfl⟩
  | pass h _ ih =>
    cases h' with
    | pass _ hrest' => exact ih hrest'
    | take h' => rw [h] at h'; cases h'
    | mark h' => rw [h] at h'; cases h'
    | enter h' => rw [h] at h'; cases h'
    | descend h' => rw [h] at h'; cases h'
  | take h _ ih =>
    cases h' with
    | take h' hrest' => rw [h] at h'; cases h'; exact ih hrest'
    | pass h' => rw [h] at h'; cases h'
    | mark h' => rw [h] at h'; cases h'
    | enter h' => rw [h] at h'; cases h'
    | descend h' => rw [h] at h'; cases h'
  | mark h _ ih =>
    cases h' with
    | mark h' hrest' => rw [h] at h'; cases h'; exact ih hrest'
    | pass h' => rw [h] at h'; cases h'
    | take h' => rw [h] at h'; cases h'
    | enter h' => rw [h] at h'; cases h'
    | descend h' => rw [h] at h'; cases h'
  | enter h _ _ ihinner ih =>
    cases h' with
    | enter h' hinner' hrest' =>
      rw [h] at h'
      cases h'
      obtain ⟨rfl, rfl⟩ := ihinner hinner'
      obtain ⟨rfl, rfl⟩ := ih hrest'
      exact ⟨rfl, rfl⟩
    | pass h' => rw [h] at h'; cases h'
    | take h' => rw [h] at h'; cases h'
    | mark h' => rw [h] at h'; cases h'
    | descend h' => rw [h] at h'; cases h'
  | descend h _ _ ihinner ih =>
    cases h' with
    | descend h' hinner' hrest' =>
      rw [h] at h'
      cases h'
      obtain ⟨rfl, rfl⟩ := ihinner hinner'
      obtain ⟨rfl, rfl⟩ := ih hrest'
      exact ⟨rfl, rfl⟩
    | pass h' => rw [h] at h'; cases h'
    | take h' => rw [h] at h'; cases h'
    | mark h' => rw [h] at h'; cases h'
    | enter h' => rw [h] at h'; cases h'

theorem CollectsAll.unique {sets : List (List Selection)}
    (h : s.CollectsAll object sets state names last) {names' : List String} {last' : Collected}
    (h' : s.CollectsAll object sets state names' last') : names' = names ∧ last' = last := by
  induction h generalizing names' last' with
  | nil => cases h'; exact ⟨rfl, rfl⟩
  | cons hset _ ih =>
    cases h' with
    | cons hset' hrest' =>
      obtain ⟨rfl, rfl⟩ := hset.unique hset'
      obtain ⟨rfl, rfl⟩ := ih hrest'
      exact ⟨rfl, rfl⟩

/-- The fragments that a run enters are different ones, which were not met before it and are met
after it. -/
structure Fresh (before names after : List String) : Prop where
  grows : before ⊆ after
  nodup : names.Nodup
  new : ∀ name ∈ names, name ∉ before
  met : names ⊆ after

namespace Fresh

theorem refl (before : List String) : Fresh before [] before where
  grows := List.Subset.refl before
  nodup := .nil
  new := nofun
  met := List.nil_subset before

theorem trans {before inside between names after : List String} (h : Fresh before inside between)
    (h' : Fresh between names after) : Fresh before (inside ++ names) after where
  grows := List.Subset.trans h.grows h'.grows
  nodup := by
    refine h.nodup.append h'.nodup fun name hinside hnames => ?_
    exact h'.new name hnames (h.met hinside)
  new name hname hbefore := by
    rcases List.mem_append.1 hname with hname | hname
    · exact h.new name hname hbefore
    · exact h'.new name hname (h.grows hbefore)
  met := List.append_subset.2 ⟨List.Subset.trans h.met h'.grows, h'.met⟩

theorem meet {before : List String} {name : String} (h : name ∉ before) :
    Fresh before [name] (name :: before) where
  grows := List.subset_cons_self name before
  nodup := List.nodup_singleton name
  new other hother := by rwa [List.mem_singleton.1 hother]
  met := List.cons_subset_cons name (List.nil_subset before)

end Fresh

theorem Collects.fresh (h : s.Collects object selections state names last) :
    Fresh state.met names last.met := by
  induction h with
  | nil => exact Fresh.refl _
  | pass _ _ ih => exact ih
  | take _ _ ih => exact ih
  | mark _ _ ih => exact { ih with
      grows := List.Subset.trans (List.subset_cons_self _ _) ih.grows
      new := fun name hname hin => ih.new name hname (List.mem_cons_of_mem _ hin) }
  | enter h _ _ ihinner ih =>
    obtain ⟨hmeeting, -⟩ := of_choose_enter h
    exact ((Fresh.meet hmeeting.not_mem).trans ihinner).trans ih
  | descend _ _ _ ihinner ih => exact ihinner.trans ih

theorem CollectsAll.fresh {sets : List (List Selection)}
    (h : s.CollectsAll object sets state names last) : Fresh state.met names last.met := by
  induction h with
  | nil => exact Fresh.refl _
  | cons hset _ ih => exact hset.fresh.trans ih

/-! ## Every run ends -/

theorem Collects.cons {first : Selection} {rest : List Selection} {between : Collected}
    {more : List String} (h : s.Collects object [first] state names between)
    (hrest : s.Collects object rest between more last) :
    s.Collects object (first :: rest) state (names ++ more) last := by
  cases h with
  | pass h hnil => cases hnil; exact .pass h hrest
  | take h hnil => cases hnil; exact .take h hrest
  | mark h hnil => cases hnil; exact .mark h hrest
  | enter h hinner hnil =>
    cases hnil
    rw [List.append_nil]
    exact .enter h hinner hrest
  | descend h hinner hnil =>
    cases hnil
    rw [List.append_nil]
    exact .descend h hinner hrest

section Bound

variable {depth : Nat} {enter : Fragment → Collected → Collected}

/-- Entering a fragment runs through it when few enough fragments are left. -/
def RunsThrough (s : Selector) (object : String) (depth : Nat)
    (enter : Fragment → Collected → Collected) : Prop :=
  ∀ frag state, s.unmet state.met < depth →
    ∃ names, s.Collects object frag.selections state names (enter frag state)

theorem exists_collects_one (henter : s.RunsThrough object depth enter) {selection : Selection}
    {state : Collected} (hle : s.unmet state.met ≤ depth)
    (hdescend : ∀ inner, s.choose object state.met selection = .descend inner →
      ∃ names, s.Collects object inner state names (s.collectWith enter object inner state)) :
    ∃ names, s.Collects object [selection] state names
      (s.collectSelection enter object selection state) := by
  rw [collectSelection_choose]
  cases h : s.choose object state.met selection with
  | pass => exact ⟨_, .pass h .nil⟩
  | take node => exact ⟨_, .take h .nil⟩
  | mark name => exact ⟨_, .mark h .nil⟩
  | enter name frag =>
    obtain ⟨hmeeting, hfrag, -⟩ := of_choose_enter h
    obtain ⟨inside, hinner⟩ := henter frag (state.meet name)
      (Nat.lt_of_lt_of_le (unmet_cons_lt hmeeting.not_mem hfrag) hle)
    exact ⟨_, .enter h hinner .nil⟩
  | descend inner =>
    obtain ⟨inside, hinner⟩ := hdescend inner h
    exact ⟨_, .descend h hinner .nil⟩

mutual

theorem exists_collects_selection (henter : s.RunsThrough object depth enter) :
    ∀ (selection : Selection) (state : Collected), s.unmet state.met ≤ depth →
      ∃ names, s.Collects object [selection] state names
        (s.collectSelection enter object selection state)
  | .field head inner, state, hle => by
    refine exists_collects_one henter hle fun inside h => ?_
    obtain ⟨_, _, _, hsame, -⟩ := of_choose_descend h
    cases hsame
  | .spread location name directives, state, hle => by
    refine exists_collects_one henter hle fun inside h => ?_
    obtain ⟨_, _, _, hsame, -⟩ := of_choose_descend h
    cases hsame
  | .inline location condition directives inner, state, hle => by
    refine exists_collects_one henter hle fun inside h => ?_
    obtain ⟨_, _, _, hsame, -⟩ := of_choose_descend h
    cases hsame
    exact exists_collects_with henter inner state hle

theorem exists_collects_with (henter : s.RunsThrough object depth enter) :
    ∀ (selections : List Selection) (state : Collected), s.unmet state.met ≤ depth →
      ∃ names, s.Collects object selections state names
        (s.collectWith enter object selections state)
  | [], state, _ => by
    rw [collectWith]
    exact ⟨[], .nil⟩
  | first :: rest, state, hle => by
    rw [collectWith]
    obtain ⟨names, hfirst⟩ := exists_collects_selection henter first state hle
    obtain ⟨more, hrest⟩ := exists_collects_with henter rest _
      (Nat.le_trans (unmet_mono hfirst.fresh.grows) hle)
    exact ⟨names ++ more, hfirst.cons hrest⟩

end

theorem exists_collects_deep (s : Selector) (object : String) (depth : Nat)
    (selections : List Selection) (state : Collected) (hle : s.unmet state.met ≤ depth) :
    ∃ names, s.Collects object selections state names
      (s.collectDeep object depth selections state) := by
  induction depth generalizing selections state with
  | zero => exact exists_collects_with (fun _ _ hlt => absurd hlt (Nat.not_lt_zero _)) _ _ hle
  | succ depth ih =>
    exact exists_collects_with
      (fun frag state hlt => ih frag.selections state (Nat.le_of_lt_succ hlt)) selections state hle

end Bound

/-- The bound on the depth is never reached. -/
theorem exists_collectsAll (s : Selector) (object : String) (sets : List (List Selection))
    (state : Collected) :
    ∃ names, s.CollectsAll object sets state names
      (sets.foldl (fun state set => s.collectDeep object s.fragments.length set state) state) := by
  induction sets generalizing state with
  | nil => exact ⟨[], .nil⟩
  | cons set rest ih =>
    obtain ⟨names, hset⟩ :=
      s.exists_collects_deep object s.fragments.length set state (unmet_le state.met)
    obtain ⟨more, hrest⟩ := ih (s.collectDeep object s.fragments.length set state)
    exact ⟨names ++ more, .cons hset hrest⟩

end Selector
end TypedQuery
