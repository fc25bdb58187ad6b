import Mathlib.Algebra.BigOperators.Group.List.Basic
import Mathlib.Algebra.Order.BigOperators.Group.List
import Mathlib.Algebra.Order.Ring.Nat
import TypedQuery.Proofs.Execution.Collecting
import TypedQuery.Proofs.Execution.Descent
/-!
How deep objects nest.  Selections weigh as many fields as they hold together with all fragments that
they reach.  While no fragment reaches itself, the selections of a collected field weigh less than
the selections it was collected from, so an execution never comes to the limit on its depth:
`Run.outline_stable`.
-/

namespace TypedQuery

/-! ## Spreads -/

/-- A spread of the name stands somewhere in the selections, also inside of fields. -/
inductive Mentions (name : String) : List Selection → Prop
  | spread {selections : List Selection} {location : Location} {directives : List Directive}
      (h : .spread location name directives ∈ selections) : Mentions name selections
  | field {selections inner : List Selection} {head : FieldHead}
      (h : .field head inner ∈ selections) (hin : Mentions name inner) : Mentions name selections
  | inline {selections inner : List Selection} {location : Location} {condition : Option String}
      {directives : List Directive} (h : .inline location condition directives inner ∈ selections)
      (hin : Mentions name inner) : Mentions name selections

theorem Mentions.mono {name : String} {selections more : List Selection}
    (h : Mentions name selections) (hsub : selections ⊆ more) : Mentions name more := by
  cases h with
  | spread h => exact .spread (hsub h)
  | field h hin => exact .field (hsub h) hin
  | inline h hin => exact .inline (hsub h) hin

theorem not_mentions_nil (name : String) : ¬ Mentions name [] := by
  rintro (h | ⟨h, -⟩ | ⟨h, -⟩) <;> cases h

theorem mentions_append {name : String} {first rest : List Selection} :
    Mentions name (first ++ rest) ↔ Mentions name first ∨ Mentions name rest := by
  constructor
  · intro h
    cases h with
    | spread h => exact (List.mem_append.1 h).imp .spread .spread
    | field h hin => exact (List.mem_append.1 h).imp (.field · hin) (.field · hin)
    | inline h hin => exact (List.mem_append.1 h).imp (.inline · hin) (.inline · hin)
  · rintro (h | h)
    · exact h.mono (List.subset_append_left first rest)
    · exact h.mono (List.subset_append_right first rest)

theorem mentions_cons {name : String} {first : Selection} {rest : List Selection} :
    Mentions name (first :: rest) ↔ Mentions name [first] ∨ Mentions name rest :=
  @mentions_append name [first] rest

theorem mentions_field {name : String} {head : FieldHead} {inner : List Selection} :
    Mentions name [.field head inner] ↔ Mentions name inner := by
  refine ⟨fun h => ?_, .field List.mem_cons_self⟩
  cases h with
  | spread h => cases List.mem_singleton.1 h
  | field h hin =>
    obtain ⟨-, rfl⟩ := Selection.field.inj (List.mem_singleton.1 h)
    exact hin
  | inline h hin => cases List.mem_singleton.1 h

theorem mentions_inline {name : String} {location : Location} {condition : Option String}
    {directives : List Directive} {inner : List Selection} :
    Mentions name [.inline location condition directives inner] ↔ Mentions name inner := by
  refine ⟨fun h => ?_, .inline List.mem_cons_self⟩
  cases h with
  | spread h => cases List.mem_singleton.1 h
  | field h hin => cases List.mem_singleton.1 h
  | inline h hin =>
    obtain ⟨-, -, -, rfl⟩ := Selection.inline.inj (List.mem_singleton.1 h)
    exact hin

theorem mentions_spread {name other : String} {location : Location}
    {directives : List Directive} :
    Mentions name [.spread location other directives] ↔ other = name := by
  refine ⟨fun h => ?_, fun h => h ▸ .spread List.mem_cons_self⟩
  cases h with
  | spread h => exact (Selection.spread.inj (List.mem_singleton.1 h)).2.1.symm
  | field h hin => cases List.mem_singleton.1 h
  | inline h hin => cases List.mem_singleton.1 h

/-! ## What spreads lead to -/

/-- Following spreads from the selections leads to the name. -/
inductive Reaches (fragments : List Fragment) (name : String) : List Selection → Prop
  | here {selections : List Selection} (h : Mentions name selections) :
      Reaches fragments name selections
  | through {selections : List Selection} {between : String} {frag : Fragment}
      (h : Mentions between selections) (hfrag : fragmentOf? fragments between = some frag)
      (hin : Reaches fragments name frag.selections) : Reaches fragments name selections

/-- No fragment leads back to itself. -/
def AcyclicSpreads (fragments : List Fragment) : Prop :=
  ∀ name frag, fragmentOf? fragments name = some frag → ¬ Reaches fragments name frag.selections

theorem Reaches.of_mentions {fragments : List Fragment} {name : String}
    {inner outer : List Selection} (h : ∀ name, Mentions name inner → Mentions name outer)
    (hin : Reaches fragments name inner) : Reaches fragments name outer := by
  cases hin with
  | here hm => exact .here (h _ hm)
  | through hm hfrag hin => exact .through (h _ hm) hfrag hin

/-! ## Weight -/

open Classical in
/-- What a fragment costs some selections: nothing unless they reach it. -/
noncomputable def share (cost : Fragment → Nat) (fragments : List Fragment)
    (selections : List Selection) (frag : Fragment) : Nat :=
  if Reaches fragments frag.name selections then cost frag else 0

/-- What all fragments cost some selections. -/
noncomputable def shares (cost : Fragment → Nat) (fragments : List Fragment)
    (selections : List Selection) : Nat :=
  (fragments.map (share cost fragments selections)).sum

def Fragment.fieldCount (frag : Fragment) : Nat := fieldCounts frag.selections

/-- The fields of some selections and of all fragments that are reached from them. -/
noncomputable def weight (fragments : List Fragment) (selections : List Selection) : Nat :=
  fieldCounts selections + shares Fragment.fieldCount fragments selections

theorem fieldCount_le {selection : Selection} {selections : List Selection}
    (h : selection ∈ selections) : selection.fieldCount ≤ fieldCounts selections := by
  induction selections with
  | nil => cases h
  | cons first rest ih =>
    rw [fieldCounts]
    rcases List.mem_cons.1 h with rfl | h
    · exact Nat.le_add_right _ _
    · exact Nat.le_trans (ih h) (Nat.le_add_left _ _)

theorem share_mono {cost : Fragment → Nat} {fragments : List Fragment}
    {inner outer : List Selection} {frag : Fragment}
    (h : Reaches fragments frag.name inner → Reaches fragments frag.name outer) :
    share cost fragments inner frag ≤ share cost fragments outer frag := by
  unfold share
  by_cases hi : Reaches fragments frag.name inner
  · rw [if_pos hi, if_pos (h hi)]
  · rw [if_neg hi]
    exact Nat.zero_le _

theorem shares_mono (cost : Fragment → Nat) {fragments : List Fragment}
    {inner outer : List Selection}
    (h : ∀ {name}, Reaches fragments name inner → Reaches fragments name outer) :
    shares cost fragments inner ≤ shares cost fragments outer :=
  List.sum_le_sum fun _ _ => share_mono h

/-- Shares that only grow, and one of them from nothing. -/
theorem sum_share_add_le {fragments : List Fragment} {f g : Fragment → Nat}
    (h : ∀ frag ∈ fragments, f frag ≤ g frag) {one : Fragment} (hone : one ∈ fragments)
    (hf : f one = 0) : (fragments.map f).sum + g one ≤ (fragments.map g).sum := by
  induction fragments with
  | nil => cases hone
  | cons first rest ih =>
    rw [List.map_cons, List.map_cons, List.sum_cons, List.sum_cons]
    have hfirst := h first List.mem_cons_self
    have hrest : (rest.map f).sum ≤ (rest.map g).sum :=
      List.sum_le_sum fun frag hfrag => h frag (List.mem_cons_of_mem _ hfrag)
    rcases List.mem_cons.1 hone with rfl | hone
    · omega
    · have := ih (fun frag hfrag => h frag (List.mem_cons_of_mem _ hfrag)) hone
      omega

/-- A fragment that does not reach itself is dearer to selections that spread it than to its own. -/
theorem shares_fragment_add_le (cost : Fragment → Nat) {fragments : List Fragment}
    (hac : AcyclicSpreads fragments) {name : String} {frag : Fragment}
    (hfrag : fragmentOf? fragments name = some frag) {selections : List Selection}
    (h : Mentions name selections) :
    shares cost fragments frag.selections + cost frag ≤ shares cost fragments selections := by
  obtain ⟨hmem, rfl⟩ := fragmentOf?_mem hfrag
  have hzero : share cost fragments frag.selections frag = 0 := if_neg (hac _ _ hfrag)
  have hshare : share cost fragments selections frag = cost frag := if_pos (.here h)
  have hle (other : Fragment) (_ : other ∈ fragments) :
      share cost fragments frag.selections other ≤ share cost fragments selections other :=
    share_mono (.through h hfrag)
  rw [← hshare]
  exact sum_share_add_le hle hmem hzero

theorem shares_le (cost : Fragment → Nat) (fragments : List Fragment)
    (selections : List Selection) :
    shares cost fragments selections ≤ (fragments.map cost).sum := by
  refine List.sum_le_sum fun frag _ => ?_
  unfold share
  split
  · exact Nat.le_refl _
  · exact Nat.zero_le _

theorem weight_mono {fragments : List Fragment} {inner outer : List Selection}
    (h : ∀ name, Mentions name inner → Mentions name outer) {extra : Nat}
    (hc : fieldCounts inner + extra ≤ fieldCounts outer) :
    weight fragments inner + extra ≤ weight fragments outer := by
  have hs : shares Fragment.fieldCount fragments inner ≤ shares Fragment.fieldCount fragments outer :=
    shares_mono _ (Reaches.of_mentions h)
  unfold weight
  omega

/-- A fragment that does not reach itself weighs no more than selections that spread it. -/
theorem weight_fragment {fragments : List Fragment} (hac : AcyclicSpreads fragments)
    {name : String} {frag : Fragment} (hfrag : fragmentOf? fragments name = some frag)
    {selections : List Selection} (h : Mentions name selections) :
    weight fragments frag.selections ≤ weight fragments selections := by
  have hshares := shares_fragment_add_le Fragment.fieldCount hac hfrag h
  unfold weight
  show frag.fieldCount + _ ≤ _
  omega

/-- Going down into a field loses weight. -/
theorem weight_lt_of_offers {fragments : List Fragment} (hac : AcyclicSpreads fragments)
    {node : FieldNode} {selections : List Selection} (h : Offers fragments node selections) :
    weight fragments node.selections < weight fragments selections := by
  induction h with
  | @field selections inner head h hnode =>
    have hc : fieldCounts inner + 1 ≤ fieldCounts selections := fieldCount_le h
    rw [hnode]
    exact weight_mono (fun _ => .field h) hc
  | spread h hfrag _ ih => exact Nat.lt_of_lt_of_le ih (weight_fragment hac hfrag (.spread h))
  | @inline selections inner location condition directives h _ ih =>
    have hc : fieldCounts inner + 0 ≤ fieldCounts selections := fieldCount_le h
    exact Nat.lt_of_lt_of_le ih (weight_mono (fun _ => .inline h) hc)

theorem weight_le (fragments : List Fragment) (selections : List Selection) :
    weight fragments selections ≤
      fieldCounts selections + (fragments.map Fragment.fieldCount).sum :=
  Nat.add_le_add_left (shares_le _ fragments selections) _

namespace Document

theorem fieldCount_eq (doc : Document) :
    doc.fieldCount = (doc.operations.map fun op => fieldCounts op.selections).sum +
      (doc.fragments.map Fragment.fieldCount).sum := by
  have hfold (sets : List (List Selection)) :
      sets.foldr (fun selections count => fieldCounts selections + count) 0 =
        (sets.map fieldCounts).sum := by
    rw [List.sum_eq_foldr, List.foldr_map]
  rw [fieldCount, hfold, List.map_append, List.sum_append, List.map_map, List.map_map]
  rfl

/-- The whole document is no lighter than one operation with what it reaches. -/
theorem weight_operation_lt {doc : Document} {op : Operation} (h : op ∈ doc.operations) :
    weight doc.fragments op.selections < doc.depthLimit := by
  have hop : fieldCounts op.selections ≤
      (doc.operations.map fun op => fieldCounts op.selections).sum :=
    List.single_le_sum (fun _ _ => Nat.zero_le _) _ (List.mem_map_of_mem h)
  have hw := weight_le doc.fragments op.selections
  have hc := doc.fieldCount_eq
  unfold depthLimit recurrences
  omega

end Document

/-! ## Descent -/

/-- The nodes ask for objects that nest at most `depth` deep. -/
def Light (fragments : List Fragment) (depth : Nat) (nodes : List FieldNode) : Prop :=
  nodes ≠ [] ∧ ∀ node ∈ nodes, weight fragments node.selections < depth

namespace Execution

variable (exec : Execution)

theorem light_groups (hac : AcyclicSpreads exec.selector.fragments) {depth : Nat} {type : String}
    {sets : List (List Selection)}
    (hw : ∀ set ∈ sets, weight exec.selector.fragments set ≤ depth) {group : FieldGroup}
    (h : group ∈ exec.groups type sets) : Light exec.selector.fragments depth group.nodes := by
  refine ⟨List.cons_ne_nil _ _, fun node hnode => ?_⟩
  obtain ⟨set, hset, hoffers⟩ :=
    exec.selector.offers_of_mem_collect type (FieldGroup.mem_of_mem_ofNodes h hnode)
  exact Nat.lt_of_lt_of_le (weight_lt_of_offers hac hoffers) (hw set hset)

/-! ### The limit on the depth makes no difference -/

theorem outlineFields_congr {object object' : String → List FieldNode → Path → Json → Outline}
    {groups : List FieldGroup}
    (h : ∀ group ∈ groups, ∀ type, object type group.nodes = object' type group.nodes)
    (parentType : String) (parent : Json) (path : Path) :
    exec.outlineFields object parentType parent path groups =
      exec.outlineFields object' parentType parent path groups := by
  refine List.filterMap_congr fun group hgroup => ?_
  have ho : (fun type => object type group.nodes) = fun type => object' type group.nodes :=
    funext (h group hgroup)
  unfold outlineGroup outlineField
  rw [ho]

theorem outlineObject_stable (hac : AcyclicSpreads exec.selector.fragments) {depth more : Nat}
    (hd : depth ≤ more) {nodes : List FieldNode} (h : Light exec.selector.fragments depth nodes)
    (type : String) : exec.outlineObject more type nodes = exec.outlineObject depth type nodes := by
  induction depth generalizing more nodes type with
  | zero =>
    obtain ⟨node, hnode⟩ := List.exists_mem_of_ne_nil nodes h.1
    exact absurd (h.2 node hnode) (Nat.not_lt_zero _)
  | succ depth ih =>
    obtain ⟨more, rfl⟩ : ∃ n, more = n + 1 := ⟨more - 1, by omega⟩
    have hsets : ∀ set ∈ nodes.map (·.selections), weight exec.selector.fragments set ≤ depth := by
      intro set hset
      obtain ⟨node, hnode, rfl⟩ := List.mem_map.1 hset
      exact Nat.le_of_lt_succ (h.2 node hnode)
    funext path value
    rw [outlineObject, outlineObject]
    rw [exec.outlineFields_congr fun group hgroup type =>
      ih (Nat.le_of_succ_le_succ hd) (exec.light_groups hac hsets hgroup) type]

/-! ### What holds of whole outlines -/

/-- The property holds of sets once it holds of their members, and of all else that an execution
comes to before the limit on its depth. -/
structure Pervasive (Q : Outline → Prop) : Prop where
  leaf : ∀ data, Q (.leaf data)
  failed : ∀ failure, Q (.failed failure)
  set : ∀ kind members, (∀ member ∈ members, Q member.2) → Q (.set kind members)
  placer : ∀ name type placer value message, exec.schema.type? name = some type →
    type.placer? = some placer → placer value exec.context = .panicked message →
      Q (.escaped (.panicked message))
  resolver : ∀ type name field call message, exec.schema.field? type name = some field →
    exec.outcome call.info.path (field.resolve call) = .panicked message →
      exec.config.catchPanics = true ∨ Q (.escaped (.panicked message))

section Pervasive

variable {exec} {Q : Outline → Prop} (h : exec.Pervasive Q)

include h

theorem Pervasive.carries (nodes : List FieldNode) : exec.Carries nodes fun _ => Q := by
  refine ⟨fun _ => h.leaf, fun _ => h.failed, fun _ => h.placer, ?_⟩
  intro path type items outline hitems
  refine h.set .items _ fun member hmember => ?_
  obtain ⟨entry, hentry, rfl⟩ := List.mem_map.1 hmember
  exact hitems entry hentry

theorem Pervasive.outlineFields {object : String → List FieldNode → Path → Json → Outline}
    {groups : List FieldGroup}
    (hobject : ∀ group ∈ groups, ∀ type path value, Q (object type group.nodes path value))
    (parentType : String) (parent : Json) (path : Path) :
    Q (.set (.fields parentType) (exec.outlineFields object parentType parent path groups)) := by
  refine h.set _ _ fun member hmember => ?_
  obtain ⟨group, hgroup, hm⟩ := List.mem_filterMap.1 hmember
  unfold outlineGroup at hm
  split at hm
  · obtain rfl := Option.some.inj hm
    exact h.leaf _
  · obtain ⟨field, hfield, rfl⟩ := Option.map_eq_some_iff.1 hm
    exact (h.carries group.nodes).outlineField (hobject group hgroup)
      (fun call message => h.resolver _ _ field call message hfield) parentType parent

theorem Pervasive.outlineObject (hac : AcyclicSpreads exec.selector.fragments) {depth : Nat}
    {nodes : List FieldNode} (hlight : Light exec.selector.fragments depth nodes) (type : String)
    (path : Path) (value : Json) : Q (exec.outlineObject depth type nodes path value) := by
  induction depth generalizing nodes type path value with
  | zero =>
    obtain ⟨node, hnode⟩ := List.exists_mem_of_ne_nil nodes hlight.1
    exact absurd (hlight.2 node hnode) (Nat.not_lt_zero _)
  | succ depth ih =>
    have hsets : ∀ set ∈ nodes.map (·.selections), weight exec.selector.fragments set ≤ depth := by
      intro set hset
      obtain ⟨node, hnode, rfl⟩ := List.mem_map.1 hset
      exact Nat.le_of_lt_succ (hlight.2 node hnode)
    exact h.outlineFields (fun group hgroup => ih (exec.light_groups hac hsets hgroup)) type value
      path

end Pervasive

/-- Nothing ends the execution from within when nothing panics, or what panics is caught. -/
theorem pervasive_not_escapes {exec : Execution} (hcalm : exec.schema.CalmPlacers)
    (hcatch : exec.config.catchPanics = true ∨ exec.schema.CalmResolvers) :
    exec.Pervasive fun o => o.escapes = false where
  leaf _ := rfl
  failed _ := rfl
  set _ _ hmembers := Outline.anyEscapes_eq_false.2 hmembers
  placer name type placer value message htype hplacer hpanicked :=
    absurd hpanicked (hcalm name type placer htype hplacer value exec.context message)
  resolver _ _ _ call message hfield hpanicked :=
    hcatch.imp_right fun hquiet => absurd hpanicked (hquiet _ _ _ hfield call _ message)

end Execution

namespace Run

/-- A run of an acyclic document comes to the same outline however deep objects may nest. -/
theorem outline_stable {run : Run} (hac : AcyclicSpreads run.selector.fragments) {depth more : Nat}
    (hw : weight run.selector.fragments run.selections ≤ depth) (hd : depth ≤ more)
    (log : CallLog) :
    run.outline more log = run.outline depth log := by
  have hsets : ∀ set ∈ [run.selections], weight run.selector.fragments set ≤ depth := by
    intro set hset
    obtain rfl := List.mem_singleton.1 hset
    exact hw
  unfold outline
  dsimp only
  rw [(run.execution log).outlineFields_congr fun group hgroup type =>
    (run.execution log).outlineObject_stable hac hd
      ((run.execution log).light_groups hac hsets hgroup) type]

/-- What holds of all that an acyclic document can come to holds of the outline of a run. -/
theorem outline_of_pervasive {run : Run} (hac : AcyclicSpreads run.selector.fragments)
    {log : CallLog} {Q : Outline → Prop} (h : (run.execution log).Pervasive Q) {depth : Nat}
    (hw : weight run.selector.fragments run.selections ≤ depth) : Q (run.outline depth log) := by
  have hsets : ∀ set ∈ [run.selections], weight run.selector.fragments set ≤ depth := by
    intro set hset
    obtain rfl := List.mem_singleton.1 hset
    exact hw
  refine h.outlineFields (fun group hgroup type path value => ?_) run.rootType run.root Path.root
  exact h.outlineObject hac ((run.execution log).light_groups hac hsets hgroup) type path value

theorem escapes_outline {run : Run} (hac : AcyclicSpreads run.selector.fragments)
    (hcalm : run.selector.schema.CalmPlacers)
    (hcatch : run.config.catchPanics = true ∨ run.selector.schema.CalmResolvers) {depth : Nat}
    (hw : weight run.selector.fragments run.selections ≤ depth) (log : CallLog) :
    (run.outline depth log).escapes = false :=
  outline_of_pervasive hac (Execution.pervasive_not_escapes hcalm hcatch) hw

end Run
end TypedQuery
