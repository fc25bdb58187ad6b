import TypedQuery.Proofs.Execution.Inlining
import TypedQuery.Proofs.Lists
/-!
Fragments entered once and fragments entered every time.  Collecting enters each fragment once for
all the selections of an object.  With the fragments inlined it meets some fields again, but none
before its first time: `Selector.repeats_collect`.  So the groups are the same but for nodes that
they have twice: `FieldGroup.repeats_ofNodes`.
-/

namespace TypedQuery

/-! ## Lists with repetitions -/

/-- The second list is the image of the first, in which some of the elements come again later. -/
inductive Repeats {α β : Type} (f : α → β) : List α → List β → Prop
  | nil : Repeats f [] []
  | next {l : List α} {m : List β} (h : Repeats f l m) (a : α) : Repeats f (l ++ [a]) (m ++ [f a])
  | again {l : List α} {m : List β} (h : Repeats f l m) {b : β} (hb : b ∈ m) :
      Repeats f l (m ++ [b])

namespace Repeats

variable {α β γ : Type} {f : α → β} {l : List α} {m : List β}

theorem append (h : Repeats f l m) {more : List β} (hsub : more ⊆ m) : Repeats f l (m ++ more) := by
  induction more generalizing m with
  | nil => rwa [List.append_nil]
  | cons b rest ih =>
    rw [List.append_cons]
    refine ih (h.again (hsub List.mem_cons_self)) ?_
    exact List.Subset.trans (List.subset_of_cons_subset hsub) (List.subset_append_left _ _)

theorem mem_map (h : Repeats f l m) {b : β} : b ∈ m ↔ b ∈ l.map f := by
  induction h with
  | nil => exact Iff.rfl
  | next h a ih => rw [List.mem_append, ih, List.map_append, List.mem_append]; rfl
  | again h hb ih =>
    rw [List.mem_append, ← ih]
    refine ⟨fun hm => hm.elim id fun hm => ?_, .inl⟩
    rw [List.mem_singleton.1 hm]
    exact hb

theorem image (h : Repeats f l m) (g : β → γ) : Repeats (g ∘ f) l (m.map g) := by
  induction h with
  | nil => exact .nil
  | next h a ih => rw [List.map_append]; exact ih.next a
  | again h hb ih => rw [List.map_append]; exact ih.again (List.mem_map_of_mem hb)

/-- Only the first occurrences count when duplicates are removed. -/
theorem eraseDups_eq [DecidableEq β] (h : Repeats f l m) :
    m.eraseDups = (l.map f).eraseDups := by
  induction h with
  | nil => rfl
  | next h a ih =>
    rw [List.map_append, List.map_singleton, eraseDups_concat, eraseDups_concat, ih]
    exact if_congr h.mem_map rfl rfl
  | again h hb ih => rw [eraseDups_concat, if_pos hb, ih]

theorem of_comp {g : γ → α} {l : List γ} (h : Repeats (f ∘ g) l m) : Repeats f (l.map g) m := by
  induction h with
  | nil => exact .nil
  | next h c ih => rw [List.map_append]; exact ih.next (g c)
  | again h hb ih => exact ih.again hb

end Repeats

/-! ## Fields without spreads -/

mutual

/-- The fields that a selection comes to on an object type, those of its spreads left out. -/
def Selection.fieldsOn (schema : Schema) (bindings : Json.Fields) (object : String) :
    Selection → List FieldNode
  | .field head selections =>
    if isIncluded bindings head.directives then [{ head with selections := selections }] else []
  | .spread _ _ _ => []
  | .inline _ condition directives selections =>
    if isIncluded bindings directives && condition.all fun type => schema.applies type object then
      fieldsOn schema bindings object selections
    else []

def fieldsOn (schema : Schema) (bindings : Json.Fields) (object : String) :
    List Selection → List FieldNode
  | [] => []
  | first :: rest =>
    first.fieldsOn schema bindings object ++ fieldsOn schema bindings object rest

end

theorem fieldsOn_singleton (schema : Schema) (bindings : Json.Fields) (object : String)
    (selection : Selection) :
    fieldsOn schema bindings object [selection] = selection.fieldsOn schema bindings object := by
  rw [fieldsOn, fieldsOn, List.append_nil]

theorem fieldsOn_append (schema : Schema) (bindings : Json.Fields) (object : String)
    (first rest : List Selection) :
    fieldsOn schema bindings object (first ++ rest) =
      fieldsOn schema bindings object first ++ fieldsOn schema bindings object rest := by
  induction first with
  | nil => rfl
  | cons selection more ih => rw [List.cons_append, fieldsOn, fieldsOn, ih, List.append_assoc]

namespace Selector

variable (s : Selector) (object : String)

/-- The fields of selections that have no spreads. -/
def fields (selections : List Selection) : List FieldNode :=
  fieldsOn s.schema s.bindings object selections

variable (enter : Fragment → Collected → Collected)

theorem collectSelection_inline (location : Location) (condition : Option String)
    (directives : List Directive) (inner : List Selection) (state : Collected) :
    s.collectSelection enter object (.inline location condition directives inner) state =
      if isIncluded s.bindings directives &&
          condition.all fun type => s.schema.applies type object then
        s.collectWith enter object inner state
      else state := by
  cases condition with
  | none =>
    rw [collectSelection, Option.all_none, Bool.and_true]
    cases isIncluded s.bindings directives <;> rfl
  | some type =>
    rw [collectSelection, Option.all_some]
    cases isIncluded s.bindings directives <;> rfl

section Spreadless

mutual

theorem collectSelection_of_spreadless : ∀ (selection : Selection) (state : Collected),
    (∀ name, ¬ Mentions name [selection]) →
      s.collectSelection enter object selection state =
        { state with
          fields := state.fields ++ selection.fieldsOn s.schema s.bindings object }
  | .field head inner, state, _ => by
    rw [collectSelection, Selection.fieldsOn]
    split
    · rfl
    · rw [List.append_nil]
  | .spread location name directives, state, h => absurd (.spread List.mem_cons_self) (h name)
  | .inline location condition directives inner, state, h => by
    have hinner := collectWith_of_spreadless inner state fun name hm =>
      h name (mentions_inline.2 hm)
    rw [collectSelection_inline, Selection.fieldsOn, hinner]
    split
    · rfl
    · rw [List.append_nil]

/-- Without spreads, collecting enters no fragments. -/
theorem collectWith_of_spreadless : ∀ (selections : List Selection) (state : Collected),
    (∀ name, ¬ Mentions name selections) →
      s.collectWith enter object selections state =
        { state with fields := state.fields ++ s.fields object selections }
  | [], state, _ => by
    rw [collectWith, fields, fieldsOn, List.append_nil]
  | first :: rest, state, h => by
    have hfirst := collectSelection_of_spreadless first state fun name hm =>
      h name (mentions_cons.2 (.inl hm))
    have hrest := fun state => collectWith_of_spreadless rest state fun name hm =>
      h name (mentions_cons.2 (.inr hm))
    rw [collectWith, hfirst, hrest, fields, fields, fieldsOn, List.append_assoc]

end

end Spreadless

theorem collectDeep_of_spreadless (depth : Nat) {selections : List Selection} (state : Collected)
    (h : ∀ name, ¬ Mentions name selections) :
    s.collectDeep object depth selections state =
      { state with fields := state.fields ++ s.fields object selections } := by
  cases depth with
  | zero => exact s.collectWith_of_spreadless object _ selections state h
  | succ depth => exact s.collectWith_of_spreadless object _ selections state h

theorem collect_of_spreadless {sets : List (List Selection)}
    (h : ∀ set ∈ sets, ∀ name, ¬ Mentions name set) :
    s.collect object sets = sets.flatMap (s.fields object) := by
  have hfold (state : Collected) :
      (sets.foldl (fun state set => s.collectDeep object s.fragments.length set state)
        state).fields = state.fields ++ sets.flatMap (s.fields object) := by
    induction sets generalizing state with
    | nil => exact (List.append_nil _).symm
    | cons set rest ih =>
      rw [List.foldl_cons, s.collectDeep_of_spreadless object _ state (h set List.mem_cons_self),
        ih fun other hother => h other (List.mem_cons_of_mem _ hother), List.flatMap_cons,
        List.append_assoc]
  exact hfold { fields := [], met := [] }

/-! ## Fragments that were met -/

/-- The fields that a spread of the name stands for, once spreads are inlined. -/
def spreadFields (name : String) : List FieldNode :=
  match fragmentOf? s.fragments name with
  | some frag =>
    if s.schema.applies frag.condition object then
      s.fields object (inlined s.fragments frag.selections)
    else []
  | none => []

theorem fields_spread (location : Location) (name : String) (directives : List Directive) :
    s.fields object ((Selection.spread location name directives).inlineSpreads s.fragments
        fun frag => inlined s.fragments frag.selections) =
      if isIncluded s.bindings directives then s.spreadFields object name else [] := by
  rw [Selection.inlineSpreads, spreadFields, fields]
  cases fragmentOf? s.fragments name with
  | none => exact (ite_self []).symm
  | some frag =>
    dsimp only
    rw [fieldsOn_singleton, Selection.fieldsOn, Option.all_some]
    cases isIncluded s.bindings directives <;> rfl

end Selector

/-- The field with its selections inlined. -/
def FieldNode.inlined (fragments : List Fragment) (node : FieldNode) : FieldNode :=
  { node with selections := TypedQuery.inlined fragments node.selections }

namespace Selector

/-- The fields that were collected are the given ones, but for repetitions.  Of the fragments that
were met, some are still being entered, and of all others the fields are among the given ones. -/
structure Gathers (s : Selector) (object : String) (opened : String → Prop) (state : Collected)
    (fields : List FieldNode) : Prop where
  repeats : Repeats (FieldNode.inlined s.fragments) state.fields fields
  met : ∀ name ∈ state.met, opened name ∨ s.spreadFields object name ⊆ fields

variable {s : Selector} {object : String} {opened : String → Prop} {state : Collected}
  {fields : List FieldNode}

/-- Fields that are there already may come again. -/
theorem Gathers.append (h : s.Gathers object opened state fields) {more : List FieldNode}
    (hsub : more ⊆ fields) : s.Gathers object opened state (fields ++ more) where
  repeats := h.repeats.append hsub
  met name hname := (h.met name hname).imp_right fun hin =>
    List.Subset.trans hin (List.subset_append_left _ _)

theorem Gathers.field (h : s.Gathers object opened state fields) (node : FieldNode) :
    s.Gathers object opened { state with fields := state.fields ++ [node] }
      (fields ++ [node.inlined s.fragments]) where
  repeats := h.repeats.next node
  met name hname := (h.met name hname).imp_right fun hin =>
    List.Subset.trans hin (List.subset_append_left _ _)

/-- A fragment is met, and entered. -/
theorem Gathers.opening (h : s.Gathers object opened state fields) (name : String) :
    s.Gathers object (fun other => opened other ∨ other = name)
      { state with met := name :: state.met } fields where
  repeats := h.repeats
  met other hother := by
    rcases List.mem_cons.1 hother with rfl | hother
    · exact .inl (.inr rfl)
    · exact (h.met other hother).imp_left .inl

/-- A fragment that was entered is done when its fields are there. -/
theorem Gathers.close {name : String}
    (h : s.Gathers object (fun other => opened other ∨ other = name) state fields)
    (hsub : s.spreadFields object name ⊆ fields) : s.Gathers object opened state fields where
  repeats := h.repeats
  met other hother := by
    rcases h.met other hother with (hopened | rfl) | hin
    · exact .inl hopened
    · exact .inr hsub
    · exact .inr hin

/-- Entering a fragment gathers its fields, unless it leads to one that is being entered. -/
def Enters (s : Selector) (object : String) (depth : Nat)
    (enter : Fragment → Collected → Collected) : Prop :=
  ∀ frag opened state fields, reached s.fragments frag.selections < depth →
    (∀ name, opened name → ¬ Reaches s.fragments name frag.selections) →
    s.Gathers object opened state fields →
      s.Gathers object opened (enter frag state)
        (fields ++ s.fields object (inlined s.fragments frag.selections))

section Gathering

variable {depth : Nat} {enter : Fragment → Collected → Collected}

/-- A fragment that is met for the first time gathers the fields of its spread. -/
theorem gathers_fragment (hac : AcyclicSpreads s.fragments) (henter : s.Enters object depth enter)
    {selections : List Selection} {name : String} (hmentions : Mentions name selections)
    (hdepth : reached s.fragments selections ≤ depth)
    (hopened : ∀ other, opened other → ¬ Reaches s.fragments other selections)
    (h : s.Gathers object opened state fields) :
    let met : Collected := { state with met := name :: state.met }
    s.Gathers object opened
      (match s.fragment? name with
      | some frag => if s.schema.applies frag.condition object then enter frag met else met
      | none => met)
      (fields ++ s.spreadFields object name) := by
  intro met
  have hopen := h.opening name
  have hpassed (hnone : s.spreadFields object name = []) :
      s.Gathers object opened met (fields ++ s.spreadFields object name) := by
    rw [hnone, List.append_nil]
    exact hopen.close (hnone ▸ List.nil_subset _)
  cases hfrag : s.fragment? name with
  | none =>
    have hfrag : fragmentOf? s.fragments name = none := hfrag
    exact hpassed (by rw [spreadFields, hfrag])
  | some frag =>
    have hfrag : fragmentOf? s.fragments name = some frag := hfrag
    dsimp only
    by_cases happlies : s.schema.applies frag.condition object = true
    · have hfields : s.spreadFields object name =
          s.fields object (inlined s.fragments frag.selections) := by
        rw [spreadFields, hfrag]
        exact if_pos happlies
      rw [if_pos happlies, hfields]
      have hlt := reached_fragment_lt hac hfrag hmentions
      refine (henter frag _ _ _ (by omega) ?_ hopen).close ?_
      · -- what is being entered is not led to from the fragment, nor is the fragment itself
        rintro other (hother | rfl) hreaches
        · exact hopened other hother (.through hmentions hfrag hreaches)
        · exact hac other frag hfrag hreaches
      · rw [hfields]
        exact List.subset_append_right _ _
    · rw [if_neg happlies]
      refine hpassed ?_
      rw [spreadFields, hfrag]
      exact if_neg happlies

/-- A spread is passed by when its fragment was met, and no fields are missed. -/
theorem gathers_spread (hac : AcyclicSpreads s.fragments) (henter : s.Enters object depth enter)
    {location : Location} {name : String} {directives : List Directive}
    (hdepth : reached s.fragments [.spread location name directives] ≤ depth)
    (hopened : ∀ other, opened other →
      ¬ Reaches s.fragments other [.spread location name directives])
    (h : s.Gathers object opened state fields) :
    s.Gathers object opened
      (s.collectSelection enter object (.spread location name directives) state)
      (fields ++ if isIncluded s.bindings directives then s.spreadFields object name else []) := by
  have hmentions : Mentions name [.spread location name directives] := .spread List.mem_cons_self
  rw [collectSelection]
  by_cases hincluded : isIncluded s.bindings directives = true
  · rw [hincluded, if_pos rfl, Bool.not_true, Bool.false_or]
    by_cases hmet : name ∈ state.met
    · rw [if_pos (List.contains_iff_mem.2 hmet)]
      have hin := (h.met name hmet).resolve_left fun hopen => hopened name hopen (.here hmentions)
      exact h.append hin
    · rw [if_neg (mt List.contains_iff_mem.1 hmet)]
      exact gathers_fragment hac henter hmentions hdepth hopened h
  · rw [Bool.not_eq_true] at hincluded
    rw [hincluded, if_neg Bool.false_ne_true, List.append_nil]
    exact h

mutual

theorem gathers_selection (hac : AcyclicSpreads s.fragments)
    (henter : s.Enters object depth enter) :
    ∀ (selection : Selection) {state : Collected} {fields : List FieldNode},
    reached s.fragments [selection] ≤ depth →
    (∀ other, opened other → ¬ Reaches s.fragments other [selection]) →
    s.Gathers object opened state fields →
      s.Gathers object opened (s.collectSelection enter object selection state)
        (fields ++ s.fields object (selection.inlineSpreads s.fragments
          fun frag => inlined s.fragments frag.selections))
  | .field head inner, state, fields, _, _, h => by
    rw [Selection.inlineSpreads, ← inlined_eq hac, Selector.fields, fieldsOn_singleton,
      Selection.fieldsOn, collectSelection]
    split
    · exact h.field { head with selections := inner }
    · rw [List.append_nil]
      exact h
  | .spread location name directives, state, fields, hdepth, hopened, h => by
    rw [fields_spread]
    exact gathers_spread hac henter hdepth hopened h
  | .inline location condition directives inner, state, fields, hdepth, hopened, h => by
    rw [Selection.inlineSpreads, ← inlined_eq hac, Selector.fields, fieldsOn_singleton,
      Selection.fieldsOn, collectSelection_inline]
    have hmentions (name : String) (hm : Mentions name inner) :
        Mentions name [.inline location condition directives inner] := mentions_inline.2 hm
    split
    · exact gathers_selections hac henter inner (Nat.le_trans (reached_mono hmentions) hdepth)
        (fun other hother hreaches => hopened other hother (hreaches.of_mentions hmentions)) h
    · rw [List.append_nil]
      exact h

theorem gathers_selections (hac : AcyclicSpreads s.fragments)
    (henter : s.Enters object depth enter) :
    ∀ (selections : List Selection) {state : Collected} {fields : List FieldNode},
    reached s.fragments selections ≤ depth →
    (∀ other, opened other → ¬ Reaches s.fragments other selections) →
    s.Gathers object opened state fields →
      s.Gathers object opened (s.collectWith enter object selections state)
        (fields ++ s.fields object (inlined s.fragments selections))
  | [], state, fields, _, _, h => by
    rw [inlined_eq hac, inlineSpreads, Selector.fields, fieldsOn, List.append_nil]
    exact h
  | first :: rest, state, fields, hdepth, hopened, h => by
    have hmfirst (name : String) (hm : Mentions name [first]) : Mentions name (first :: rest) :=
      mentions_cons.2 (.inl hm)
    have hmrest (name : String) (hm : Mentions name rest) : Mentions name (first :: rest) :=
      mentions_cons.2 (.inr hm)
    have hfirst := gathers_selection hac henter first
      (Nat.le_trans (reached_mono hmfirst) hdepth)
      (fun other hother hreaches => hopened other hother (hreaches.of_mentions hmfirst)) h
    have hrest := gathers_selections hac henter rest
      (Nat.le_trans (reached_mono hmrest) hdepth)
      (fun other hother hreaches => hopened other hother (hreaches.of_mentions hmrest)) hfirst
    rw [inlined_eq hac, inlineSpreads, ← inlined_eq hac, Selector.fields, fieldsOn_append,
      ← List.append_assoc]
    exact hrest

end

end Gathering

theorem gathers_deep (hac : AcyclicSpreads s.fragments) {depth : Nat} {selections : List Selection}
    (hdepth : reached s.fragments selections ≤ depth)
    (hopened : ∀ other, opened other → ¬ Reaches s.fragments other selections)
    (h : s.Gathers object opened state fields) :
    s.Gathers object opened (s.collectDeep object depth selections state)
      (fields ++ s.fields object (inlined s.fragments selections)) := by
  induction depth generalizing selections state fields opened with
  | zero =>
    have henter : s.Enters object 0 fun _ state => state :=
      fun _ _ _ _ hlt => absurd hlt (Nat.not_lt_zero _)
    exact gathers_selections hac henter selections hdepth hopened h
  | succ depth ih =>
    have henter : s.Enters object (depth + 1) fun frag state =>
        s.collectDeep object depth frag.selections state :=
      fun _ _ _ _ hlt => ih (Nat.le_of_lt_succ hlt)
    exact gathers_selections hac henter selections hdepth hopened h

/-- What is collected from some sets is what comes from them once they are inlined, without the
fields that come again. -/
theorem repeats_collect (hac : AcyclicSpreads s.fragments) {sets sets' : List (List Selection)}
    (h : Repeats (inlined s.fragments) sets sets') :
    Repeats (FieldNode.inlined s.fragments) (s.collect object sets)
      (sets'.flatMap (s.fields object)) := by
  have hgathers : s.Gathers object (fun _ => False)
      (sets.foldl (fun state set => s.collectDeep object s.fragments.length set state)
        { fields := [], met := [] }) (sets'.flatMap (s.fields object)) := by
    induction h with
    | nil => exact ⟨.nil, fun name hname => by cases hname⟩
    | next h set ih =>
      rw [List.foldl_append, List.flatMap_append, List.flatMap_singleton]
      exact gathers_deep hac (reached_le s.fragments set) (fun _ hopen => hopen.elim) ih
    | again h hset ih =>
      rw [List.flatMap_append, List.flatMap_singleton]
      exact ih.append fun _ hnode => List.mem_flatMap.2 ⟨_, hset, hnode⟩
  exact hgathers.repeats

end Selector

/-! ## Groups with repetitions -/

namespace FieldGroup

/-- The second group has the nodes of the first one inlined, some of them more than once. -/
structure Redone (fragments : List Fragment) (group group' : FieldGroup) : Prop where
  key : group'.key = group.key
  first : group'.first = group.first.inlined fragments
  nodes : Repeats (FieldNode.inlined fragments) group.nodes group'.nodes

theorem ofNodes_concat (nodes : List FieldNode) (node : FieldNode) :
    ofNodes (nodes ++ [node]) = insert node (ofNodes nodes) :=
  List.foldl_append

theorem exists_group_insert (node : FieldNode) (groups : List FieldGroup) :
    ∃ group ∈ insert node groups, group.key = node.responseKey ∧ node ∈ group.nodes := by
  induction groups with
  | nil => exact ⟨_, List.mem_cons_self, rfl, List.mem_cons_self⟩
  | cons group rest ih =>
    rw [insert]
    split
    · next hkey =>
      exact ⟨_, List.mem_cons_self, hkey, List.mem_append_right group.nodes List.mem_cons_self⟩
    · obtain ⟨found, hfound, h⟩ := ih
      exact ⟨found, List.mem_cons_of_mem _ hfound, h⟩

/-- Groups only grow when a field is added. -/
theorem exists_grown (node : FieldNode) {groups : List FieldGroup} {group : FieldGroup}
    (h : group ∈ groups) :
    ∃ grown ∈ insert node groups, grown.key = group.key ∧ group.nodes ⊆ grown.nodes := by
  induction groups with
  | nil => cases h
  | cons first rest ih =>
    rw [insert]
    rcases List.mem_cons.1 h with rfl | h
    · split
      · exact ⟨_, List.mem_cons_self, rfl, List.subset_append_left group.nodes [node]⟩
      · exact ⟨group, List.mem_cons_self, rfl, List.Subset.refl _⟩
    · split
      · exact ⟨group, List.mem_cons_of_mem _ h, rfl, List.Subset.refl _⟩
      · obtain ⟨grown, hgrown, hsame⟩ := ih h
        exact ⟨grown, List.mem_cons_of_mem _ hgrown, hsame⟩

/-- Every node is in a group of its key. -/
theorem exists_group {nodes : List FieldNode} {node : FieldNode} (h : node ∈ nodes) :
    ∃ group ∈ ofNodes nodes, group.key = node.responseKey ∧ node ∈ group.nodes := by
  induction nodes using List.reverseRecOn with
  | nil => cases h
  | append_singleton nodes last ih =>
    rw [ofNodes_concat]
    rcases List.mem_append.1 h with h | h
    · obtain ⟨group, hgroup, hkey, hnode⟩ := ih h
      obtain ⟨grown, hgrown, hsame, hsub⟩ := exists_grown last hgroup
      exact ⟨grown, hgrown, hsame.trans hkey, hsub hnode⟩
    · rw [List.mem_singleton.1 h]
      exact exists_group_insert last _

variable {fragments : List Fragment} {groups groups' : List FieldGroup}

theorem redone_insert (h : List.Forall₂ (Redone fragments) groups groups') (node : FieldNode) :
    List.Forall₂ (Redone fragments) (insert node groups)
      (insert (node.inlined fragments) groups') := by
  induction h with
  | nil => exact .cons ⟨rfl, rfl, Repeats.nil.next node⟩ .nil
  | @cons group group' rest rest' hgroup hrest ih =>
    have hkey : group'.key = (node.inlined fragments).responseKey ↔
        group.key = node.responseKey := by rw [hgroup.key]; rfl
    rw [insert, insert]
    by_cases hsame : group.key = node.responseKey
    · rw [if_pos hsame, if_pos (hkey.2 hsame)]
      exact .cons ⟨hgroup.key, hgroup.first, hgroup.nodes.next node⟩ hrest
    · rw [if_neg hsame, if_neg (mt hkey.1 hsame)]
      exact .cons hgroup ih

/-- A node that is in its group already only comes there once more. -/
theorem redone_insert_again (h : List.Forall₂ (Redone fragments) groups groups')
    (hnodup : (groups'.map (·.key)).Nodup) {node : FieldNode}
    (hnode : ∃ group ∈ groups', group.key = node.responseKey ∧ node ∈ group.nodes) :
    List.Forall₂ (Redone fragments) groups (insert node groups') := by
  induction h with
  | nil =>
    obtain ⟨_, hgroup, -⟩ := hnode
    cases hgroup
  | @cons group group' rest rest' hgroup hrest ih =>
    obtain ⟨hfirst, hnodup⟩ := List.nodup_cons.1 hnodup
    obtain ⟨found, hfound, hkey, hin⟩ := hnode
    rw [insert]
    rcases List.mem_cons.1 hfound with rfl | hfound
    · rw [if_pos hkey]
      exact .cons ⟨hgroup.key, hgroup.first, hgroup.nodes.again hin⟩ hrest
    · have hother : group'.key ≠ node.responseKey := by
        rw [← hkey]
        exact fun hsame => hfirst (List.mem_map.2 ⟨found, hfound, hsame.symm⟩)
      rw [if_neg hother]
      exact .cons hgroup (ih hnodup ⟨found, hfound, hkey, hin⟩)

theorem repeats_ofNodes {nodes nodes' : List FieldNode}
    (h : Repeats (FieldNode.inlined fragments) nodes nodes') :
    List.Forall₂ (Redone fragments) (ofNodes nodes) (ofNodes nodes') := by
  induction h with
  | nil => exact .nil
  | next h node ih =>
    rw [ofNodes_concat, ofNodes_concat]
    exact redone_insert ih node
  | again h hnode ih =>
    rw [ofNodes_concat]
    exact redone_insert_again ih (nodup_keys _) (exists_group hnode)

end FieldGroup
end TypedQuery
