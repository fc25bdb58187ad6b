import Mathlib.Data.List.Nodup
import TypedQuery.Execution.Collection
/-!
What collecting gives: only fields that are picked from the selections
(`Selector.picks_of_mem_collect`), in groups of different keys (`FieldGroup.nodup_keys`).
-/

namespace TypedQuery

/-- The fragment that a name stands for, the last of several. -/
def fragmentOf? (fragments : List Fragment) (name : String) : Option Fragment :=
  fragments.reverse.find? fun frag => frag.name == name

/-- The selections hold the field, outside of other fields, once their fragments are entered. -/
inductive Offers (fragments : List Fragment) (node : FieldNode) : List Selection → Prop
  | field {selections inner : List Selection} {head : FieldHead}
      (h : .field head inner ∈ selections) (hnode : node = { head with selections := inner }) :
      Offers fragments node selections
  | spread {selections : List Selection} {location : Location} {name : String}
      {directives : List Directive} {frag : Fragment}
      (h : .spread location name directives ∈ selections)
      (hfrag : fragmentOf? fragments name = some frag)
      (hin : Offers fragments node frag.selections) : Offers fragments node selections
  | inline {selections inner : List Selection} {location : Location} {condition : Option String}
      {directives : List Directive} (h : .inline location condition directives inner ∈ selections)
      (hin : Offers fragments node inner) : Offers fragments node selections

theorem fragmentOf?_mem {fragments : List Fragment} {name : String} {frag : Fragment}
    (h : fragmentOf? fragments name = some frag) : frag ∈ fragments ∧ frag.name = name := by
  refine ⟨List.mem_reverse.1 (List.mem_of_find?_eq_some h), ?_⟩
  simpa using List.find?_some h

/-! ## Collecting -/

namespace Selector

/-- The selections hold the field, outside of other fields: it is included, and so are the fragments
that are entered for it, which apply to the object type. -/
inductive Picks (s : Selector) (object : String) (node : FieldNode) : List Selection → Prop
  | field {selections inner : List Selection} {head : FieldHead}
      (h : .field head inner ∈ selections) (hnode : node = { head with selections := inner })
      (hincluded : isIncluded s.bindings head.directives = true) : Picks s object node selections
  | spread {selections : List Selection} {location : Location} {name : String}
      {directives : List Directive} {frag : Fragment}
      (h : .spread location name directives ∈ selections)
      (hincluded : isIncluded s.bindings directives = true)
      (hfrag : fragmentOf? s.fragments name = some frag)
      (happlies : s.schema.applies frag.condition object = true)
      (hin : Picks s object node frag.selections) : Picks s object node selections
  | inline {selections inner : List Selection} {location : Location} {condition : Option String}
      {directives : List Directive} (h : .inline location condition directives inner ∈ selections)
      (hincluded : isIncluded s.bindings directives = true)
      (happlies : ∀ type, condition = some type → s.schema.applies type object = true)
      (hin : Picks s object node inner) : Picks s object node selections

theorem Picks.mono {s : Selector} {object : String} {node : FieldNode}
    {selections more : List Selection} (h : s.Picks object node selections)
    (hsub : selections ⊆ more) : s.Picks object node more := by
  cases h with
  | field h hnode hincluded => exact .field (hsub h) hnode hincluded
  | spread h hincluded hfrag happlies hin => exact .spread (hsub h) hincluded hfrag happlies hin
  | inline h hincluded happlies hin => exact .inline (hsub h) hincluded happlies hin

theorem Picks.offers {s : Selector} {object : String} {node : FieldNode}
    {selections : List Selection} (h : s.Picks object node selections) :
    Offers s.fragments node selections := by
  induction h with
  | field h hnode _ => exact .field h hnode
  | spread h _ hfrag _ _ ih => exact .spread h hfrag ih
  | inline h _ _ _ ih => exact .inline h ih

/-- Entering a fragment adds only fields with the property, when all that are picked from it have
it. -/
def Keeps (s : Selector) (object : String) (P : FieldNode → Prop)
    (enter : Fragment → Collected → Collected) : Prop :=
  ∀ frag state, (∀ node, s.Picks object node frag.selections → P node) →
    (∀ node ∈ state.fields, P node) → ∀ node ∈ (enter frag state).fields, P node

variable (s : Selector) {P : FieldNode → Prop} {enter : Fragment → Collected → Collected}
  (object : String)

mutual

theorem collectSelection_fields (henter : s.Keeps object P enter) :
    ∀ (selection : Selection) (state : Collected),
    (∀ node, s.Picks object node [selection] → P node) →
    (∀ node ∈ state.fields, P node) →
      ∀ node ∈ (s.collectSelection enter object selection state).fields, P node
  | .field head inner, state, hsel, hstate => by
    rw [collectSelection]
    split
    · next hincluded =>
      intro node hnode
      rcases List.mem_append.1 hnode with hnode | hnode
      · exact hstate node hnode
      · obtain rfl := List.mem_singleton.1 hnode
        exact hsel _ (.field List.mem_cons_self rfl hincluded)
    · exact hstate
  | .spread location name directives, state, hsel, hstate => by
    rw [collectSelection]
    split
    · exact hstate
    · next hmet =>
      rw [Bool.or_eq_true, not_or, Bool.not_eq_true', Bool.not_eq_false] at hmet
      obtain ⟨hincluded, -⟩ := hmet
      dsimp only
      cases hfrag : s.fragment? name with
      | none => exact hstate
      | some frag =>
        dsimp only
        split
        · next happlies =>
          refine henter frag _ (fun node hnode => hsel node ?_) hstate
          exact .spread List.mem_cons_self hincluded hfrag happlies hnode
        · exact hstate
  | .inline location condition directives inner, state, hsel, hstate => by
    cases condition with
    | none =>
      rw [collectSelection]
      split
      · exact hstate
      · next hincluded =>
        refine collectWith_fields henter inner state (fun node hnode => hsel node ?_) hstate
        exact .inline List.mem_cons_self (by simpa using hincluded) nofun hnode
    | some condition =>
      rw [collectSelection]
      split
      · exact hstate
      · next hincluded =>
        split
        · next happlies =>
          have hcondition : ∀ type, some condition = some type →
              s.schema.applies type object = true := by
            intro type htype
            rw [← Option.some.inj htype]
            exact happlies
          refine collectWith_fields henter inner state (fun node hnode => hsel node ?_) hstate
          exact .inline List.mem_cons_self (by simpa using hincluded) hcondition hnode
        · exact hstate

theorem collectWith_fields (henter : s.Keeps object P enter) :
    ∀ (selections : List Selection) (state : Collected),
    (∀ node, s.Picks object node selections → P node) →
    (∀ node ∈ state.fields, P node) →
      ∀ node ∈ (s.collectWith enter object selections state).fields, P node
  | [], state, _, hstate => by
    rw [collectWith]
    exact hstate
  | first :: rest, state, hsel, hstate => by
    rw [collectWith]
    refine collectWith_fields henter rest _ (fun node hnode => hsel node (hnode.mono ?_)) ?_
    · exact List.subset_cons_self first rest
    · refine collectSelection_fields henter first state
        (fun node hnode => hsel node (hnode.mono ?_)) hstate
      exact List.cons_subset_cons first (List.nil_subset rest)

end

theorem collectDeep_fields (depth : Nat) (selections : List Selection) (state : Collected)
    (hsel : ∀ node, s.Picks object node selections → P node)
    (hstate : ∀ node ∈ state.fields, P node) :
    ∀ node ∈ (s.collectDeep object depth selections state).fields, P node := by
  induction depth generalizing selections state with
  | zero => exact s.collectWith_fields object (fun _ _ _ h => h) selections state hsel hstate
  | succ depth ih =>
    exact s.collectWith_fields object
      (fun frag state hsel h => ih frag.selections state hsel h) selections state hsel hstate

/-- A collected field is picked from one of the selections. -/
theorem picks_of_mem_collect {sets : List (List Selection)} {node : FieldNode}
    (h : node ∈ s.collect object sets) : ∃ set ∈ sets, s.Picks object node set := by
  have hfold : ∀ (rest : List (List Selection)) (state : Collected), rest ⊆ sets →
      (∀ node ∈ state.fields, ∃ set ∈ sets, s.Picks object node set) →
      ∀ node ∈ (rest.foldl (fun state set => s.collectDeep object s.fragments.length set state)
        state).fields, ∃ set ∈ sets, s.Picks object node set := by
    intro rest
    induction rest with
    | nil => exact fun state _ hstate => hstate
    | cons set rest ih =>
      intro state hsub hstate
      have hset : set ∈ sets := hsub List.mem_cons_self
      exact ih _ (List.subset_of_cons_subset hsub)
        (s.collectDeep_fields object _ set state (fun node hnode => ⟨set, hset, hnode⟩) hstate)
  exact hfold sets _ (List.Subset.refl sets) (fun _ h => by cases h) node h

/-- A collected field is one that some of the selections offer. -/
theorem offers_of_mem_collect {sets : List (List Selection)} {node : FieldNode}
    (h : node ∈ s.collect object sets) : ∃ set ∈ sets, Offers s.fragments node set := by
  obtain ⟨set, hset, hpicks⟩ := s.picks_of_mem_collect object h
  exact ⟨set, hset, hpicks.offers⟩

end Selector

/-! ## Grouping -/

namespace FieldGroup

theorem keys_insert (node : FieldNode) (groups : List FieldGroup) :
    (insert node groups).map (·.key) =
      if node.responseKey ∈ groups.map (·.key) then groups.map (·.key)
      else groups.map (·.key) ++ [node.responseKey] := by
  induction groups with
  | nil => rfl
  | cons group rest ih =>
    rw [insert]
    by_cases h : group.key = node.responseKey
    · simp [h]
    · rw [if_neg h, List.map_cons, ih, List.map_cons]
      by_cases hr : node.responseKey ∈ rest.map (·.key)
      · rw [if_pos hr, if_pos (List.mem_cons_of_mem _ hr)]
      · have hn : node.responseKey ∉ group.key :: rest.map (·.key) := by
          rw [List.mem_cons, not_or]
          exact ⟨Ne.symm h, hr⟩
        rw [if_neg hr, if_neg hn, List.cons_append]

theorem mem_insert {node : FieldNode} {groups : List FieldGroup} {group : FieldGroup}
    (h : group ∈ insert node groups) {member : FieldNode} (hm : member ∈ group.nodes) :
    member = node ∨ ∃ old ∈ groups, member ∈ old.nodes := by
  induction groups with
  | nil =>
    obtain rfl := List.mem_singleton.1 h
    exact .inl (List.mem_singleton.1 hm)
  | cons first rest ih =>
    rw [insert] at h
    split at h
    · rcases List.mem_cons.1 h with rfl | h
      · rcases List.mem_append.1 (show member ∈ first.nodes ++ [node] from hm) with hm | hm
        · exact .inr ⟨first, List.mem_cons_self, hm⟩
        · exact .inl (List.mem_singleton.1 hm)
      · exact .inr ⟨group, List.mem_cons_of_mem _ h, hm⟩
    · rcases List.mem_cons.1 h with rfl | h
      · exact .inr ⟨group, List.mem_cons_self, hm⟩
      · rcases ih h with hm | ⟨old, hold, hm⟩
        · exact .inl hm
        · exact .inr ⟨old, List.mem_cons_of_mem _ hold, hm⟩

/-- The groups of some nodes have different keys. -/
theorem nodup_keys (nodes : List FieldNode) : ((ofNodes nodes).map (·.key)).Nodup := by
  have hfold : ∀ (rest : List FieldNode) (groups : List FieldGroup),
      (groups.map (·.key)).Nodup →
        ((rest.foldl (fun groups node => insert node groups) groups).map (·.key)).Nodup := by
    intro rest
    induction rest with
    | nil => exact fun _ h => h
    | cons node rest ih =>
      intro groups h
      refine ih _ ?_
      rw [keys_insert]
      split
      · exact h
      · next hn => exact List.nodup_append_comm.1 (List.nodup_cons.2 ⟨hn, h⟩)
  exact hfold nodes [] List.nodup_nil

theorem mem_of_mem_ofNodes {nodes : List FieldNode} {group : FieldGroup} (h : group ∈ ofNodes nodes)
    {node : FieldNode} (hn : node ∈ group.nodes) : node ∈ nodes := by
  have hfold : ∀ (rest : List FieldNode) (groups : List FieldGroup), rest ⊆ nodes →
      (∀ group ∈ groups, ∀ node ∈ group.nodes, node ∈ nodes) →
      ∀ group ∈ rest.foldl (fun groups node => insert node groups) groups,
        ∀ node ∈ group.nodes, node ∈ nodes := by
    intro rest
    induction rest with
    | nil => exact fun _ _ h => h
    | cons next rest ih =>
      intro groups hsub hg
      refine ih _ (List.subset_of_cons_subset hsub) fun group hgroup node hnode => ?_
      rcases mem_insert hgroup hnode with rfl | ⟨old, hold, hnode⟩
      · exact hsub List.mem_cons_self
      · exact hg old hold node hnode
  exact hfold nodes [] (List.Subset.refl nodes) (fun _ h => by cases h) group h node hn

end FieldGroup
end TypedQuery
