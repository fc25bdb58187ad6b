import Mathlib.Data.Option.Basic
import TypedQuery.Proofs.Execution.Nesting
import TypedQuery.Proofs.Execution.Resemblance
/-!
Requests on rewritten documents, of which only selections differ.  The same operation is chosen, and
its variables come to the same: `Schema.prepare_rewritten`.  When what is collected matches, so do
the outlines of the runs, however deep objects may nest in either: `Run.matches_rewritten`.
-/

namespace TypedQuery

/-! ## Rewritten documents -/

section Rewritten

variable (S : List Selection → List Selection → Prop)

def Operation.Rewritten (op op' : Operation) : Prop :=
  op' = { op with selections := op'.selections } ∧ S op.selections op'.selections

def Fragment.Rewritten (frag frag' : Fragment) : Prop :=
  frag' = { frag with selections := frag'.selections } ∧ S frag.selections frag'.selections

inductive Definition.Rewritten : Definition → Definition → Prop
  | operation {op op' : Operation} (h : op.Rewritten S op') :
      Rewritten (.operation op) (.operation op')
  | fragment {frag frag' : Fragment} (h : frag.Rewritten S frag') :
      Rewritten (.fragment frag) (.fragment frag')

/-- The documents have the same definitions but for their selections, which are related. -/
def Document.Rewritten (doc doc' : Document) : Prop :=
  List.Forall₂ (Definition.Rewritten S) doc.definitions doc'.definitions

end Rewritten

variable {S : List Selection → List Selection → Prop}

namespace Document

variable {doc doc' : Document}

theorem Rewritten.operations (h : doc.Rewritten S doc') :
    List.Forall₂ (Operation.Rewritten S) doc.operations doc'.operations := by
  replace h : List.Forall₂ (Definition.Rewritten S) doc.definitions doc'.definitions := h
  unfold Document.operations
  generalize doc.definitions = definitions at h ⊢
  generalize doc'.definitions = definitions' at h ⊢
  induction h with
  | nil => exact .nil
  | cons hfirst _ ih =>
    cases hfirst with
    | operation h => exact .cons h ih
    | fragment h => exact ih

theorem Rewritten.fragments (h : doc.Rewritten S doc') :
    List.Forall₂ (Fragment.Rewritten S) doc.fragments doc'.fragments := by
  replace h : List.Forall₂ (Definition.Rewritten S) doc.definitions doc'.definitions := h
  unfold Document.fragments
  generalize doc.definitions = definitions at h ⊢
  generalize doc'.definitions = definitions' at h ⊢
  induction h with
  | nil => exact .nil
  | cons hfirst _ ih =>
    cases hfirst with
    | operation h => exact ih
    | fragment h => exact .cons h ih

end Document

/-- What is found in a list corresponds to what is found in the other one. -/
theorem rel_find? {α : Type} {T : α → α → Prop} {l l' : List α} (h : List.Forall₂ T l l')
    {p : α → Bool} (hp : ∀ {a a'}, T a a' → p a' = p a) : Option.Rel T (l.find? p) (l'.find? p) := by
  induction h with
  | nil => exact .none
  | @cons a a' l l' ha _ ih =>
    rw [List.find?_cons, List.find?_cons, hp ha]
    cases p a with
    | true => exact .some ha
    | false => exact ih

theorem rel_fragmentOf? {fragments fragments' : List Fragment}
    (h : List.Forall₂ (Fragment.Rewritten S) fragments fragments') (name : String) :
    Option.Rel (Fragment.Rewritten S) (fragmentOf? fragments name)
      (fragmentOf? fragments' name) := by
  refine rel_find? (List.rel_reverse h) fun {frag frag'} hfrag => ?_
  rw [hfrag.1]

/-- Rewriting that adds no spreads leads nowhere else. -/
theorem Reaches.of_rewritten
    (hmentions : ∀ {selections selections'}, S selections selections' →
      ∀ name, Mentions name selections' → Mentions name selections)
    {fragments fragments' : List Fragment}
    (h : List.Forall₂ (Fragment.Rewritten S) fragments fragments') {name : String}
    {selections selections' : List Selection} (hreaches : Reaches fragments' name selections')
    (hsame : S selections selections') : Reaches fragments name selections := by
  induction hreaches generalizing selections with
  | here hm => exact .here (hmentions hsame name hm)
  | @through _ between frag' hm hfrag' _ ih =>
    have hrel := rel_fragmentOf? h between
    rw [hfrag'] at hrel
    cases hfrag : fragmentOf? fragments between with
    | none => rw [hfrag] at hrel; cases hrel
    | some frag =>
      rw [hfrag] at hrel
      cases hrel with
      | some hfrags => exact .through (hmentions hsame between hm) hfrag (ih hfrags.2)

theorem AcyclicSpreads.rewritten
    (hmentions : ∀ {selections selections'}, S selections selections' →
      ∀ name, Mentions name selections' → Mentions name selections)
    {fragments fragments' : List Fragment}
    (h : List.Forall₂ (Fragment.Rewritten S) fragments fragments')
    (hac : AcyclicSpreads fragments) : AcyclicSpreads fragments' := by
  intro name frag' hfrag' hreaches
  have hrel := rel_fragmentOf? h name
  rw [hfrag'] at hrel
  cases hfrag : fragmentOf? fragments name with
  | none => rw [hfrag] at hrel; cases hrel
  | some frag =>
    rw [hfrag] at hrel
    cases hrel with
    | some hfrags => exact hac name frag hfrag (hreaches.of_rewritten hmentions h hfrags.2)

/-! ## Requests -/

namespace Document

/-- The operation that is chosen is the same, or the same one is missing. -/
theorem Rewritten.select {doc doc' : Document} (h : doc.Rewritten S doc') (name : Option String) :
    (∃ problem, doc.select name = .error problem ∧ doc'.select name = .error problem) ∨
      ∃ op op', doc.select name = .ok op ∧ doc'.select name = .ok op' ∧ op.Rewritten S op' := by
  have hoperations := h.operations
  unfold Document.select
  generalize doc.operations = operations at hoperations
  generalize doc'.operations = operations' at hoperations
  cases name with
  | some name =>
    have hname {op op' : Operation} (hop : op.Rewritten S op') :
        (op'.name == some name) = (op.name == some name) := by rw [hop.1]
    have hrel := rel_find? hoperations hname
    dsimp only
    generalize operations.find? (·.name == some name) = found at hrel ⊢
    generalize operations'.find? (·.name == some name) = found' at hrel ⊢
    cases hrel with
    | none => exact .inl ⟨_, rfl, rfl⟩
    | some hop => exact .inr ⟨_, _, rfl, rfl, hop⟩
  | none =>
    cases hoperations with
    | nil => exact .inl ⟨_, rfl, rfl⟩
    | cons hfirst hrest =>
      cases hrest with
      | nil => exact .inr ⟨_, _, rfl, rfl, hfirst⟩
      | cons => exact .inl ⟨_, rfl, rfl⟩

end Document

/-- Requests on the two documents are turned down alike, or the run of the one is that of the other
on the rewritten selections. -/
theorem Schema.prepare_rewritten (schema : Schema) (config : Config) (context : Context)
    (request : Request) {doc : Document} (h : request.document.Rewritten S doc) :
    (∃ response, schema.prepare config context request = .error response ∧
      schema.prepare config context { request with document := doc } = .error response) ∨
      ∃ run selections, schema.prepare config context request = .ok run ∧
        schema.prepare config context { request with document := doc } =
          .ok (run.rewritten doc.fragments selections doc.depthLimit) ∧
        run.selector.fragments = request.document.fragments ∧
        S run.selections selections ∧
        weight request.document.fragments run.selections ≤ run.depth ∧
        weight doc.fragments selections ≤ doc.depthLimit := by
  have hselect := h.select request.operation
  rw [prepare_eq, prepare_eq]
  dsimp only
  rcases hselect with ⟨problem, hown, hother⟩ | ⟨op, op', hown, hother, hsame, hselections⟩
  · rw [hown, hother]
    exact .inl ⟨_, rfl, rfl⟩
  · have hweight := Document.weight_operation_lt (Document.mem_of_select hown)
    have hweight' := Document.weight_operation_lt (Document.mem_of_select hother)
    rw [hown, hother, hsame]
    dsimp only
    cases schema.rootType? op.kind with
    | none => exact .inl ⟨_, rfl, rfl⟩
    | some rootType =>
      dsimp only
      cases schema.coerceVariables op.variableDefs request.inputs with
      | error errors => exact .inl ⟨_, rfl, rfl⟩
      | ok bindings =>
        exact .inr ⟨_, op'.selections, rfl, rfl, rfl, hselections, Nat.le_of_lt hweight,
          Nat.le_of_lt hweight'⟩

/-- Runs match when what they collect does, also when objects may nest less deep in one of them. -/
theorem Run.matches_rewritten {R : List FieldNode → List FieldNode → Prop}
    {S : List (List Selection) → List (List Selection) → Prop} {run : Run}
    {fragments : List Fragment} {selections : List Selection} {limit : Nat}
    (hac : AcyclicSpreads run.selector.fragments) (hac' : AcyclicSpreads fragments)
    (hw : weight run.selector.fragments run.selections ≤ run.depth)
    (hw' : weight fragments selections ≤ limit)
    (hsets : ∀ {nodes nodes'}, R nodes nodes' →
      S (nodes.map (·.selections)) (nodes'.map (·.selections)))
    (hgroups : ∀ {sets sets'}, S sets sets' → ∀ type, List.Forall₂ (FieldGroup.Matches R)
      (FieldGroup.ofNodes (run.selector.collect type sets))
      (FieldGroup.ofNodes ((run.selector.withFragments fragments).collect type sets')))
    (hroot : S [run.selections] [selections]) (log : CallLog) :
    (run.outline run.depth log).Matches R
      ((run.rewritten fragments selections limit).outline limit log) := by
  have hdeep := outline_stable hac hw (Nat.le_max_left run.depth limit) log
  have hdeep' : (run.rewritten fragments selections limit).outline (max run.depth limit) log =
      (run.rewritten fragments selections limit).outline limit log :=
    outline_stable hac' hw' (Nat.le_max_right run.depth limit) log
  rw [← hdeep, ← hdeep']
  exact matches_outline hsets hgroups hroot limit (max run.depth limit) log

end TypedQuery
