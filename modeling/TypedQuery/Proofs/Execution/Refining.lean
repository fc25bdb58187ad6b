import TypedQuery.Proofs.Execution.Repetition
import TypedQuery.Proofs.Execution.Rewriting
/-!
Fields in the place of others.  Where each field of one list has become some fields of another list
that ask for the same, the groups of the two lists match: `FieldGroup.matches_ofNodes`.  Collecting
from rewritten selections gives such lists once it does so selection by selection:
`Selector.refines_collect`.
-/

namespace TypedQuery

/-! ## Refined lists -/

/-- Each element of the first list has become some elements of the second, in the same order. -/
inductive Refines {α β : Type} (step : α → List β → Prop) : List α → List β → Prop
  | nil : Refines step [] []
  | concat {l : List α} {m more : List β} {a : α} (h : Refines step l m) (ha : step a more) :
      Refines step (l ++ [a]) (m ++ more)

namespace Refines

variable {α β γ δ : Type} {step : α → List β → Prop} {l : List α} {m : List β}

theorem singleton {a : α} {more : List β} (h : step a more) : Refines step [a] more :=
  .concat .nil h

theorem imp {step' : α → List β → Prop} (hstep : ∀ {a more}, step a more → step' a more)
    (h : Refines step l m) : Refines step' l m := by
  induction h with
  | nil => exact .nil
  | concat _ ha ih => exact ih.concat (hstep ha)

theorem refl {step : α → List α → Prop} (hstep : ∀ a, step a [a]) (l : List α) :
    Refines step l l := by
  induction l using List.reverseRecOn with
  | nil => exact .nil
  | append_singleton l a ih => exact ih.concat (hstep a)

theorem map {step' : γ → List δ → Prop} {f : α → γ} {g : β → δ}
    (hstep : ∀ {a more}, step a more → step' (f a) (more.map g)) (h : Refines step l m) :
    Refines step' (l.map f) (m.map g) := by
  induction h with
  | nil => exact .nil
  | concat _ ha ih =>
    rw [List.map_append, List.map_append]
    exact ih.concat (hstep ha)

theorem eq_flatMap {f : α → List β} (h : Refines (fun a more => more = f a) l m) :
    m = l.flatMap f := by
  induction h with
  | nil => rfl
  | concat _ ha ih => rw [ih, ha, List.flatMap_append, List.flatMap_singleton]

end Refines

/-! ## Groups -/

/-- The fields ask together for what the one field asks for. -/
structure FieldNode.StandFor (node : FieldNode) (more : List FieldNode) : Prop where
  nonempty : more ≠ []
  key : ∀ other ∈ more, other.responseKey = node.responseKey
  name : ∀ other ∈ more, other.name = node.name
  arguments : ∀ other ∈ more, other.arguments = node.arguments

namespace FieldGroup

theorem foldl_insert_of_key {group : FieldGroup} {more : List FieldNode}
    (hkey : ∀ node ∈ more, node.responseKey = group.key) (rest : List FieldGroup) :
    more.foldl (fun groups node => insert node groups) (group :: rest) =
      { group with others := group.others ++ more } :: rest := by
  induction more generalizing group with
  | nil => rw [List.foldl_nil, List.append_nil]
  | cons node more ih =>
    have hnode : group.key = node.responseKey := (hkey node List.mem_cons_self).symm
    rw [List.foldl_cons, insert, if_pos hnode, List.append_cons group.others node more]
    exact ih fun other hother => hkey other (List.mem_cons_of_mem node hother)

theorem foldl_insert_of_ne {group : FieldGroup} {more : List FieldNode}
    (hkey : ∀ node ∈ more, group.key ≠ node.responseKey) (rest : List FieldGroup) :
    more.foldl (fun groups node => insert node groups) (group :: rest) =
      group :: more.foldl (fun groups node => insert node groups) rest := by
  induction more generalizing rest with
  | nil => rfl
  | cons node more ih =>
    rw [List.foldl_cons, List.foldl_cons, insert, if_neg (hkey node List.mem_cons_self),
      ih fun other hother => hkey other (List.mem_cons_of_mem node hother)]

variable {step : FieldNode → List FieldNode → Prop}

/-- Fields that stand for a new one join the group that matches its group. -/
theorem matches_insert {groups groups' : List FieldGroup}
    (h : List.Forall₂ (Matches (Refines step)) groups groups') {node : FieldNode}
    {more : List FieldNode} (hnode : step node more) (hstands : node.StandFor more) :
    List.Forall₂ (Matches (Refines step)) (insert node groups)
      (more.foldl (fun groups node => insert node groups) groups') := by
  induction h with
  | nil =>
    obtain ⟨first, others, rfl⟩ := List.exists_cons_of_ne_nil hstands.nonempty
    have hfirst := hstands.key first List.mem_cons_self
    have hothers : others.foldl (fun groups node => insert node groups) (insert first []) = _ :=
      foldl_insert_of_key (fun other hother =>
        (hstands.key other (List.mem_cons_of_mem first hother)).trans hfirst.symm) []
    rw [List.foldl_cons, hothers]
    exact .cons
      { key := hfirst
        name := hstands.name first List.mem_cons_self
        arguments := hstands.arguments first List.mem_cons_self
        nodes := .singleton hnode } .nil
  | @cons group group' rest rest' hgroup hrest ih =>
    rw [insert]
    by_cases hkey : group.key = node.responseKey
    · rw [if_pos hkey, foldl_insert_of_key fun other hother =>
        (hstands.key other hother).trans (hkey.symm.trans hgroup.key.symm)]
      exact .cons { hgroup with nodes := hgroup.nodes.concat hnode } hrest
    · rw [if_neg hkey, foldl_insert_of_ne fun other hother hsame =>
        hkey (hgroup.key.symm.trans (hsame.trans (hstands.key other hother)))]
      exact .cons hgroup ih

/-- Groups match when their fields ask together for the same. -/
theorem matches_ofNodes (hstands : ∀ {node more}, step node more → node.StandFor more)
    {nodes nodes' : List FieldNode} (h : Refines step nodes nodes') :
    List.Forall₂ (Matches (Refines step)) (ofNodes nodes) (ofNodes nodes') := by
  induction h with
  | nil => exact .nil
  | @concat nodes nodes' more _ _ hnode ih =>
    have happend : ofNodes (nodes' ++ more) =
        more.foldl (fun groups node => insert node groups) (ofNodes nodes') := List.foldl_append
    rw [ofNodes_concat, happend]
    exact matches_insert ih hnode (hstands hnode)

end FieldGroup

/-! ## Collecting -/

/-- Fields have become others, and the same fragments were met. -/
structure Collected.Refines (step : FieldNode → List FieldNode → Prop)
    (state state' : Collected) : Prop where
  fields : TypedQuery.Refines step state.fields state'.fields
  met : state'.met = state.met

namespace Selector

variable {s : Selector} {fragments : List Fragment} {object : String}
  {S : List Selection → List Selection → Prop} {step : FieldNode → List FieldNode → Prop}
  {enter enter' : Fragment → Collected → Collected} {state state' : Collected}

theorem collectWith_append (s : Selector) (enter : Fragment → Collected → Collected)
    (object : String) (first rest : List Selection) (state : Collected) :
    s.collectWith enter object (first ++ rest) state =
      s.collectWith enter object rest (s.collectWith enter object first state) := by
  induction first generalizing state with
  | nil => rw [List.nil_append, collectWith]
  | cons selection first ih => rw [List.cons_append, collectWith, collectWith, ih]

theorem collectWith_singleton (s : Selector) (enter : Fragment → Collected → Collected)
    (object : String) (selection : Selection) (state : Collected) :
    s.collectWith enter object [selection] state =
      s.collectSelection enter object selection state := by
  rw [collectWith, collectWith]

/-- Entering a fragment and the rewritten one keeps up the relation. -/
def EntersAlike (S : List Selection → List Selection → Prop)
    (step : FieldNode → List FieldNode → Prop) (enter enter' : Fragment → Collected → Collected) :
    Prop :=
  ∀ {frag frag' : Fragment} {state state' : Collected}, frag.Rewritten S frag' →
    state.Refines step state' → (enter frag state).Refines step (enter' frag' state')

theorem refines_spread (hfragments : List.Forall₂ (Fragment.Rewritten S) s.fragments fragments)
    (henter : EntersAlike S step enter enter') (location : Location) (name : String)
    {directives directives' : List Directive}
    (hincluded : isIncluded s.bindings directives' = isIncluded s.bindings directives)
    (h : state.Refines step state') :
    (s.collectSelection enter object (.spread location name directives) state).Refines step
      ((s.withFragments fragments).collectSelection enter' object
        (.spread location name directives') state') := by
  have hrel := rel_fragmentOf? hfragments name
  have hmet : Collected.Refines step { state with met := name :: state.met }
      { state' with met := name :: state'.met } :=
    { fields := h.fields, met := congrArg (name :: ·) h.met }
  have hbindings : (s.withFragments fragments).bindings = s.bindings := rfl
  rw [collectSelection, collectSelection, hbindings, hincluded, h.met]
  rw [h.met] at hmet
  split
  · exact h
  · have hfound : (s.withFragments fragments).fragment? name = fragmentOf? fragments name := rfl
    have hfound' : s.fragment? name = fragmentOf? s.fragments name := rfl
    rw [hfound, hfound']
    generalize fragmentOf? s.fragments name = found at hrel ⊢
    generalize fragmentOf? fragments name = found' at hrel ⊢
    cases hrel with
    | none => exact hmet
    | @some frag frag' hfrag =>
      have hcondition : frag'.condition = frag.condition := by rw [hfrag.1]
      have hschema : (s.withFragments fragments).schema = s.schema := rfl
      dsimp only
      rw [hcondition, hschema]
      split
      · exact henter hfrag hmet
      · exact hmet

/-- Collecting from related selections keeps up the relation, if entering fragments does. -/
def CollectsAlike (s : Selector) (fragments : List Fragment) (object : String)
    (S : List Selection → List Selection → Prop)
    (step : FieldNode → List FieldNode → Prop) : Prop :=
  ∀ {enter enter' : Fragment → Collected → Collected}, EntersAlike S step enter enter' →
    ∀ {selections selections' : List Selection}, S selections selections' →
      ∀ {state state' : Collected}, state.Refines step state' →
        (s.collectWith enter object selections state).Refines step
          ((s.withFragments fragments).collectWith enter' object selections' state')

theorem refines_collectDeep (halike : s.CollectsAlike fragments object S step) (depth : Nat)
    {selections selections' : List Selection} (hselections : S selections selections')
    (h : state.Refines step state') :
    (s.collectDeep object depth selections state).Refines step
      ((s.withFragments fragments).collectDeep object depth selections' state') := by
  induction depth generalizing selections selections' state state' with
  | zero => exact halike (fun _ h => h) hselections h
  | succ depth ih => exact halike (fun hfrag h => ih hfrag.2 h) hselections h

/-- Sets that have become others give fields that have become others. -/
theorem refines_collect {setStep : List Selection → List (List Selection) → Prop}
    (hlength : fragments.length = s.fragments.length)
    (hset : ∀ {set more}, setStep set more → ∀ depth {state state'}, state.Refines step state' →
      (s.collectDeep object depth set state).Refines step
        (more.foldl (fun state set => (s.withFragments fragments).collectDeep object depth set state)
          state'))
    {sets sets' : List (List Selection)} (h : Refines setStep sets sets') :
    Refines step (s.collect object sets) ((s.withFragments fragments).collect object sets') := by
  have hsame : (s.withFragments fragments).fragments.length = s.fragments.length := hlength
  unfold collect
  rw [hsame]
  refine Collected.Refines.fields ?_
  induction h with
  | nil => exact { fields := .nil, met := rfl }
  | concat _ hstep ih =>
    rw [List.foldl_append, List.foldl_append]
    exact hset hstep _ ih

end Selector
end TypedQuery
