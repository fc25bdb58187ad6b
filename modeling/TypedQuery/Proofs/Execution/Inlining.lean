import TypedQuery.Proofs.Execution.Nesting
/-!
Inlining.  A spread stands for an inline fragment with the type condition of its fragment, its own
directives, and the selections of the fragment, in which spreads stand for inline fragments again.
While no fragment reaches itself this comes to an end: `inlined_eq`.
-/

namespace TypedQuery

/-! ## Selections without spreads -/

mutual

/-- Replaces the spreads in a selection, also inside of fields, by inline fragments with the given
bodies.  Spreads of unknown fragments are left out. -/
def Selection.inlineSpreads (fragments : List Fragment) (body : Fragment → List Selection) :
    Selection → List Selection
  | .field head selections => [.field head (inlineSpreads fragments body selections)]
  | .spread location name directives =>
    match fragmentOf? fragments name with
    | some frag => [.inline location (some frag.condition) directives (body frag)]
    | none => []
  | .inline location condition directives selections =>
    [.inline location condition directives (inlineSpreads fragments body selections)]

def inlineSpreads (fragments : List Fragment) (body : Fragment → List Selection) :
    List Selection → List Selection
  | [] => []
  | first :: rest => first.inlineSpreads fragments body ++ inlineSpreads fragments body rest

end

/-- Replaces spreads by inline fragments up to `depth` deep. -/
def inlineDeep (fragments : List Fragment) : Nat → List Selection → List Selection
  | 0 => inlineSpreads fragments fun _ => []
  | depth + 1 => inlineSpreads fragments fun frag => inlineDeep fragments depth frag.selections

/-- The selections without spreads.  A fragment inside a fragment is another one than those around
it, so fragments nest no deeper than there are fragments. -/
def inlined (fragments : List Fragment) (selections : List Selection) : List Selection :=
  inlineDeep fragments fragments.length selections

theorem inlineSpreads_eq_flatMap (fragments : List Fragment) (body : Fragment → List Selection)
    (selections : List Selection) :
    inlineSpreads fragments body selections =
      selections.flatMap (Selection.inlineSpreads fragments body) := by
  induction selections with
  | nil => rfl
  | cons first rest ih => rw [inlineSpreads, ih, List.flatMap_cons]

/-! ## Bodies -/

section Congr

variable {fragments : List Fragment} {body body' : Fragment → List Selection}

mutual

theorem Selection.inlineSpreads_congr : ∀ selection : Selection,
    (∀ name frag, Mentions name [selection] → fragmentOf? fragments name = some frag →
      body frag = body' frag) →
      selection.inlineSpreads fragments body = selection.inlineSpreads fragments body'
  | .field head inner, h => by
    have hinner := inlineSpreads_congr inner fun name frag hm =>
      h name frag (.field List.mem_cons_self hm)
    rw [Selection.inlineSpreads, Selection.inlineSpreads, hinner]
  | .spread location name directives, h => by
    rw [Selection.inlineSpreads, Selection.inlineSpreads]
    cases hfrag : fragmentOf? fragments name with
    | none => rfl
    | some frag =>
      dsimp only
      rw [h name frag (.spread List.mem_cons_self) hfrag]
  | .inline location condition directives inner, h => by
    have hinner := inlineSpreads_congr inner fun name frag hm =>
      h name frag (.inline List.mem_cons_self hm)
    rw [Selection.inlineSpreads, Selection.inlineSpreads, hinner]

/-- The bodies of fragments that are not mentioned make no difference. -/
theorem inlineSpreads_congr : ∀ selections : List Selection,
    (∀ name frag, Mentions name selections → fragmentOf? fragments name = some frag →
      body frag = body' frag) →
      inlineSpreads fragments body selections = inlineSpreads fragments body' selections
  | [], _ => rfl
  | first :: rest, h => by
    have hfirst := Selection.inlineSpreads_congr first fun name frag hm =>
      h name frag (mentions_cons.2 (.inl hm))
    have hrest := inlineSpreads_congr rest fun name frag hm =>
      h name frag (mentions_cons.2 (.inr hm))
    rw [inlineSpreads, inlineSpreads, hfirst, hrest]

end

end Congr

/-! ## Bounded nesting -/

/-- How many fragments are reached from some selections. -/
noncomputable def reached (fragments : List Fragment) (selections : List Selection) : Nat :=
  shares (fun _ => 1) fragments selections

theorem reached_le (fragments : List Fragment) (selections : List Selection) :
    reached fragments selections ≤ fragments.length := by
  have h := shares_le (fun _ => 1) fragments selections
  rwa [List.map_const', List.sum_replicate_nat, Nat.mul_one] at h

theorem reached_mono {fragments : List Fragment} {inner outer : List Selection}
    (h : ∀ name, Mentions name inner → Mentions name outer) :
    reached fragments inner ≤ reached fragments outer :=
  shares_mono _ (Reaches.of_mentions h)

/-- A fragment reaches fewer fragments than selections that spread it. -/
theorem reached_fragment_lt {fragments : List Fragment} (hac : AcyclicSpreads fragments)
    {name : String} {frag : Fragment} (hfrag : fragmentOf? fragments name = some frag)
    {selections : List Selection} (h : Mentions name selections) :
    reached fragments frag.selections < reached fragments selections :=
  shares_fragment_add_le (fun _ => 1) hac hfrag h

theorem inlineDeep_stable {fragments : List Fragment} (hac : AcyclicSpreads fragments) {depth : Nat}
    {selections : List Selection} (h : reached fragments selections ≤ depth) :
    inlineDeep fragments (depth + 1) selections = inlineDeep fragments depth selections := by
  induction depth generalizing selections with
  | zero =>
    refine inlineSpreads_congr selections fun name frag hm hfrag => ?_
    have hlt := reached_fragment_lt hac hfrag hm
    omega
  | succ depth ih =>
    refine inlineSpreads_congr selections fun name frag hm hfrag => ih ?_
    have hlt := reached_fragment_lt hac hfrag hm
    omega

/-- Inlined selections have the inlined selections of fragments in the place of their spreads. -/
theorem inlined_eq {fragments : List Fragment} (hac : AcyclicSpreads fragments)
    (selections : List Selection) :
    inlined fragments selections =
      inlineSpreads fragments (fun frag => inlined fragments frag.selections) selections :=
  (inlineDeep_stable hac (reached_le fragments selections)).symm

/-! ## No spreads are left -/

section Unmentioned

variable {fragments : List Fragment} {body : Fragment → List Selection} {name : String}

mutual

theorem Selection.not_mentions_inlineSpreads (h : ∀ frag, ¬ Mentions name (body frag)) :
    ∀ selection : Selection, ¬ Mentions name (selection.inlineSpreads fragments body)
  | .field head inner => by
    rw [Selection.inlineSpreads, mentions_field]
    exact not_mentions_inlineSpreads h inner
  | .spread location spread directives => by
    rw [Selection.inlineSpreads]
    cases fragmentOf? fragments spread with
    | none => exact not_mentions_nil name
    | some frag =>
      dsimp only
      rw [mentions_inline]
      exact h frag
  | .inline location condition directives inner => by
    rw [Selection.inlineSpreads, mentions_inline]
    exact not_mentions_inlineSpreads h inner

theorem not_mentions_inlineSpreads (h : ∀ frag, ¬ Mentions name (body frag)) :
    ∀ selections : List Selection, ¬ Mentions name (inlineSpreads fragments body selections)
  | [] => not_mentions_nil name
  | first :: rest => by
    rw [inlineSpreads, mentions_append, not_or]
    exact ⟨Selection.not_mentions_inlineSpreads h first, not_mentions_inlineSpreads h rest⟩

end

end Unmentioned

theorem not_mentions_inlined (fragments : List Fragment) (name : String)
    (selections : List Selection) : ¬ Mentions name (inlined fragments selections) := by
  have hdeep (depth : Nat) (selections : List Selection) :
      ¬ Mentions name (inlineDeep fragments depth selections) := by
    induction depth generalizing selections with
    | zero => exact not_mentions_inlineSpreads (fun _ => not_mentions_nil name) selections
    | succ depth ih => exact not_mentions_inlineSpreads (fun frag => ih frag.selections) selections
  exact hdeep fragments.length selections

/-! ## Nesting depth -/

mutual

/-- How many fields nest in a selection, spreads not counted. -/
def Selection.fieldDepth : Selection → Nat
  | .field _ selections => fieldDepths selections + 1
  | .spread _ _ _ => 0
  | .inline _ _ _ selections => fieldDepths selections

def fieldDepths : List Selection → Nat
  | [] => 0
  | first :: rest => max first.fieldDepth (fieldDepths rest)

end

theorem fieldDepth_le {selection : Selection} {selections : List Selection}
    (h : selection ∈ selections) : selection.fieldDepth ≤ fieldDepths selections := by
  induction selections with
  | nil => cases h
  | cons first rest ih =>
    rw [fieldDepths]
    rcases List.mem_cons.1 h with rfl | h
    · exact Nat.le_max_left _ _
    · exact Nat.le_trans (ih h) (Nat.le_max_right _ _)

/-- What a selection is inlined to. -/
theorem inlined_subset {fragments : List Fragment} (hac : AcyclicSpreads fragments)
    {selection : Selection} {selections : List Selection} (h : selection ∈ selections) :
    selection.inlineSpreads fragments (fun frag => inlined fragments frag.selections) ⊆
      inlined fragments selections := by
  rw [inlined_eq hac, inlineSpreads_eq_flatMap]
  exact fun _ hin => List.mem_flatMap.2 ⟨selection, h, hin⟩

/-- Going down into a field leaves at least one field less to nest, once fragments are inlined. -/
theorem fieldDepths_inlined_lt {fragments : List Fragment} (hac : AcyclicSpreads fragments)
    {node : FieldNode} {selections : List Selection} (h : Offers fragments node selections) :
    fieldDepths (inlined fragments node.selections) < fieldDepths (inlined fragments selections) := by
  induction h with
  | @field selections inner head h hnode =>
    have hmem := inlined_subset hac h
    rw [Selection.inlineSpreads, ← inlined_eq hac] at hmem
    rw [hnode]
    exact fieldDepth_le (hmem List.mem_cons_self)
  | @spread selections location name directives frag h hfrag _ ih =>
    have hmem := inlined_subset hac h
    rw [Selection.inlineSpreads, hfrag] at hmem
    exact Nat.lt_of_lt_of_le ih (fieldDepth_le (hmem List.mem_cons_self))
  | @inline selections inner location condition directives h _ ih =>
    have hmem := inlined_subset hac h
    rw [Selection.inlineSpreads, ← inlined_eq hac] at hmem
    exact Nat.lt_of_lt_of_le ih (fieldDepth_le (hmem List.mem_cons_self))

end TypedQuery
