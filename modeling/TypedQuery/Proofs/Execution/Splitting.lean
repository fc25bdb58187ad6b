import TypedQuery.Proofs.Execution.Isolation
import TypedQuery.Proofs.Execution.Refining
import TypedQuery.Proofs.Validation.Cycles
/-!
Fields split in two.  A field may ask for its selections in two parts, by two fields in a row that
are the same but for their selections and locations.  The two join one group, so all that a request
comes to is the same, but that errors of the field have one location more: `executeValidated_split`.
-/

namespace TypedQuery

/-! ## Split selections -/

/-- Some fields of the head are split in two, anywhere in the selections, and the second halves have
the location `extra`.  The other fields have locations with the property. -/
inductive Splits (P : Location → Prop) (head : FieldHead) (extra : Location) :
    List Selection → List Selection → Prop
  | nil : Splits P head extra [] []
  | field {other : FieldHead} {inner inner' rest rest' : List Selection} (hother : P other.location)
      (hinner : Splits P head extra inner inner') (hrest : Splits P head extra rest rest') :
      Splits P head extra (.field other inner :: rest) (.field other inner' :: rest')
  | spread {location : Location} {name : String} {directives : List Directive}
      {rest rest' : List Selection} (hrest : Splits P head extra rest rest') :
      Splits P head extra (.spread location name directives :: rest)
        (.spread location name directives :: rest')
  | inline {location : Location} {condition : Option String} {directives : List Directive}
      {inner inner' rest rest' : List Selection} (hinner : Splits P head extra inner inner')
      (hrest : Splits P head extra rest rest') :
      Splits P head extra (.inline location condition directives inner :: rest)
        (.inline location condition directives inner' :: rest')
  | halves {first second first' second' rest rest' : List Selection}
      (hfirst : Splits P head extra first first') (hsecond : Splits P head extra second second')
      (hrest : Splits P head extra rest rest') :
      Splits P head extra (.field head (first ++ second) :: rest)
        (.field head first' :: .field { head with location := extra } second' :: rest')

mutual

/-- The locations of the fields in a selection. -/
def Selection.fieldLocations : Selection → List Location
  | .field head selections => head.location :: fieldLocations selections
  | .spread _ _ _ => []
  | .inline _ _ _ selections => fieldLocations selections

def fieldLocations : List Selection → List Location
  | [] => []
  | first :: rest => first.fieldLocations ++ fieldLocations rest

end

theorem fieldLocations_append (first rest : List Selection) :
    fieldLocations (first ++ rest) = fieldLocations first ++ fieldLocations rest := by
  induction first with
  | nil => rfl
  | cons selection more ih => rw [List.cons_append, fieldLocations, fieldLocations, ih,
      List.append_assoc]

namespace Splits

variable {P : Location → Prop} {head : FieldHead} {extra : Location}
  {selections selections' : List Selection}

mutual

theorem single : ∀ (selection : Selection) {rest rest' : List Selection},
    (∀ location ∈ selection.fieldLocations, P location) → Splits P head extra rest rest' →
      Splits P head extra (selection :: rest) (selection :: rest')
  | .field _ inner, _, _, h, hrest =>
    .field (h _ List.mem_cons_self)
      (refl inner fun location hin => h location (List.mem_cons_of_mem _ hin)) hrest
  | .spread _ _ _, _, _, _, hrest => .spread hrest
  | .inline _ _ _ inner, _, _, h, hrest =>
    .inline (refl inner h) hrest

/-- No field needs to be split. -/
theorem refl : ∀ selections : List Selection,
    (∀ location ∈ fieldLocations selections, P location) →
      Splits P head extra selections selections
  | [], _ => .nil
  | first :: rest, h =>
    single first (fun location hin => h location (List.mem_append_left _ hin))
      (refl rest fun location hin => h location (List.mem_append_right _ hin))

end

theorem mentions (h : Splits P head extra selections selections') (name : String)
    (hm : Mentions name selections') : Mentions name selections := by
  induction h with
  | nil => exact hm
  | field _ _ _ ihinner ih =>
    rw [mentions_cons, mentions_field] at hm ⊢
    exact hm.imp ihinner ih
  | spread _ ih =>
    rw [mentions_cons] at hm ⊢
    exact hm.imp_right ih
  | inline _ _ ihinner ih =>
    rw [mentions_cons, mentions_inline] at hm ⊢
    exact hm.imp ihinner ih
  | halves _ _ _ ihfirst ihsecond ih =>
    rw [mentions_cons, mentions_field, mentions_cons, mentions_field] at hm
    rw [mentions_cons, mentions_field, mentions_append]
    rcases hm with hm | hm | hm
    · exact .inl (.inl (ihfirst hm))
    · exact .inl (.inr (ihsecond hm))
    · exact .inr (ih hm)

end Splits

/-! ## Collecting from split selections -/

/-- A field has become one with split selections, or the two halves of it. -/
inductive FieldNode.Splits (P : Location → Prop) (head : FieldHead) (extra : Location) :
    FieldNode → List FieldNode → Prop
  | whole {node : FieldNode} {selections : List Selection} (hnode : P node.location)
      (h : TypedQuery.Splits P head extra node.selections selections) :
      Splits P head extra node [{ node with selections := selections }]
  | halves {first second first' second' : List Selection}
      (hfirst : TypedQuery.Splits P head extra first first')
      (hsecond : TypedQuery.Splits P head extra second second') :
      Splits P head extra { head with selections := first ++ second }
        [{ head with selections := first' },
          { head with location := extra, selections := second' }]

/-- A set of selections has become one with split fields, or two such sets. -/
inductive SplitSet (P : Location → Prop) (head : FieldHead) (extra : Location) :
    List Selection → List (List Selection) → Prop
  | whole {set set' : List Selection} (h : Splits P head extra set set') :
      SplitSet P head extra set [set']
  | halves {first second first' second' : List Selection} (hfirst : Splits P head extra first first')
      (hsecond : Splits P head extra second second') :
      SplitSet P head extra (first ++ second) [first', second']

/-- A location has the property and stays alone, or it is that of the head, and the extra one comes
after it. -/
inductive Location.Joined (P : Location → Prop) (head extra : Location) :
    Location → List Location → Prop
  | alone {location : Location} (h : P location) : Joined P head extra location [location]
  | both : Joined P head extra head [head, extra]

variable {P : Location → Prop} {head : FieldHead} {extra : Location}

namespace FieldNode.Splits

variable {node : FieldNode} {more : List FieldNode}

theorem standFor (h : node.Splits P head extra more) : node.StandFor more := by
  cases h with
  | whole hnode h =>
    exact
      { nonempty := List.cons_ne_nil _ _
        key := List.forall_mem_singleton.2 rfl
        name := List.forall_mem_singleton.2 rfl
        arguments := List.forall_mem_singleton.2 rfl }
  | halves hfirst hsecond =>
    exact
      { nonempty := List.cons_ne_nil _ _
        key := List.forall_mem_cons.2 ⟨rfl, List.forall_mem_singleton.2 rfl⟩
        name := List.forall_mem_cons.2 ⟨rfl, List.forall_mem_singleton.2 rfl⟩
        arguments := List.forall_mem_cons.2 ⟨rfl, List.forall_mem_singleton.2 rfl⟩ }

theorem splitSet (h : node.Splits P head extra more) :
    SplitSet P head extra node.selections (more.map (·.selections)) := by
  cases h with
  | whole _ h => exact .whole h
  | halves hfirst hsecond => exact .halves hfirst hsecond

theorem joined (h : node.Splits P head extra more) :
    Location.Joined P head.location extra node.location (more.map fun node => node.location) := by
  cases h with
  | whole hnode _ => exact .alone hnode
  | halves _ _ => exact .both

end FieldNode.Splits

namespace Selector

variable {s : Selector} {fragments : List Fragment} {object : String}

theorem collectsAlike_splits
    (hfragments : List.Forall₂ (Fragment.Rewritten (Splits P head extra)) s.fragments fragments) :
    s.CollectsAlike fragments object (Splits P head extra) (FieldNode.Splits P head extra) := by
  intro enter enter' henter selections selections' hsplits
  have hbindings : (s.withFragments fragments).bindings = s.bindings := rfl
  have hschema : (s.withFragments fragments).schema = s.schema := rfl
  induction hsplits with
  | nil =>
    intro state state' h
    rw [collectWith, collectWith]
    exact h
  | field hother hinner _ _ ih =>
    intro state state' h
    rw [collectWith, collectWith, collectSelection, collectSelection, hbindings]
    refine ih ?_
    split
    · exact { fields := h.fields.concat (.whole hother hinner), met := h.met }
    · exact h
  | spread _ ih =>
    intro state state' h
    rw [collectWith, collectWith]
    exact ih (refines_spread hfragments henter _ _ rfl h)
  | inline _ _ ihinner ih =>
    intro state state' h
    rw [collectWith, collectWith, collectSelection_inline, collectSelection_inline, hbindings,
      hschema]
    refine ih ?_
    split
    · exact ihinner h
    · exact h
  | halves hfirst hsecond _ _ _ ih =>
    intro state state' h
    rw [collectWith, collectWith, collectWith, collectSelection, collectSelection,
      collectSelection, hbindings]
    refine ih ?_
    split
    · have hfields := h.fields.concat (.halves hfirst hsecond)
      rw [List.append_cons state'.fields] at hfields
      exact { fields := hfields, met := h.met }
    · exact h

theorem collectDeep_append (s : Selector) (object : String) (depth : Nat)
    (first rest : List Selection) (state : Collected) :
    s.collectDeep object depth (first ++ rest) state =
      s.collectDeep object depth rest (s.collectDeep object depth first state) := by
  cases depth with
  | zero => exact s.collectWith_append _ object first rest state
  | succ depth => exact s.collectWith_append _ object first rest state

/-- The groups of split selections have the split fields. -/
theorem matches_groups_splits
    (hfragments : List.Forall₂ (Fragment.Rewritten (Splits P head extra)) s.fragments fragments)
    {sets sets' : List (List Selection)} (h : Refines (SplitSet P head extra) sets sets')
    (type : String) :
    List.Forall₂ (FieldGroup.Matches (Refines (FieldNode.Splits P head extra)))
      (FieldGroup.ofNodes (s.collect type sets))
      (FieldGroup.ofNodes ((s.withFragments fragments).collect type sets')) := by
  have halike : s.CollectsAlike fragments type _ _ := collectsAlike_splits hfragments
  refine FieldGroup.matches_ofNodes FieldNode.Splits.standFor ?_
  refine refines_collect hfragments.length_eq.symm (fun hstep depth state state' h => ?_) h
  cases hstep with
  | whole hsplits => exact refines_collectDeep halike depth hsplits h
  | halves hfirst hsecond =>
    rw [collectDeep_append]
    exact refines_collectDeep halike depth hsecond (refines_collectDeep halike depth hfirst h)

end Selector

/-! ## Responses with more locations -/

/-- The errors are the same but for their locations, which are related. -/
def ResponseError.Relocated (L : List Location → List Location → Prop) (e e' : ResponseError) :
    Prop :=
  e' = { e with locations := e'.locations } ∧ L e.locations e'.locations

/-- The endings are the same but for the locations of errors, which are related. -/
inductive Ending.Relocated (L : List Location → List Location → Prop) : Ending → Ending → Prop
  | response {r r' : Response} {log : CallLog} (hdata : r'.data = r.data)
      (herrors : List.Forall₂ (ResponseError.Relocated L) r.errors r'.errors) :
      Relocated L (.response r log) (.response r' log)
  | escaped {cause : Escape} : Relocated L (.escaped cause) (.escaped cause)
  | stalled : Relocated L .stalled .stalled

theorem Ending.Relocated.imp {L L' : List Location → List Location → Prop}
    (hL : ∀ {locations locations'}, L locations locations' → L' locations locations')
    {ending ending' : Ending} (h : ending.Relocated L ending') : ending.Relocated L' ending' := by
  cases h with
  | response hdata herrors =>
    exact .response hdata (herrors.imp fun _ _ he => ⟨he.1, hL he.2⟩)
  | escaped => exact .escaped
  | stalled => exact .stalled

theorem Ending.Relocated.of_response? {L : List Location → List Location → Prop} {ending : Ending}
    (h : ending.response? = none) : ending.Relocated L ending := by
  cases ending with
  | response r log => cases h
  | escaped cause => exact .escaped
  | stalled => exact .stalled

theorem FieldFailure.Relocated.report {L : List Location → List Location → Prop}
    {f f' : FieldFailure} (h : f.Relocated L f') : f.report.Relocated L f'.report := by
  obtain ⟨failure, locations, path⟩ := f
  obtain ⟨failure', locations', path'⟩ := f'
  obtain ⟨hfailure, hpath, hlocations⟩ := h
  obtain rfl : failure' = failure := hfailure
  obtain rfl : path' = path := hpath
  exact ⟨rfl, hlocations⟩

/-- A run and a rewritten one that matches it end the same but for locations. -/
theorem Run.relocated_rewritten {R : List FieldNode → List FieldNode → Prop}
    {L : List Location → List Location → Prop} {run : Run} {fragments : List Fragment}
    {selections : List Selection} {limit : Nat}
    (hL : ∀ {nodes nodes'}, R nodes nodes' →
      L (nodes.map fun node => node.location) (nodes'.map fun node => node.location))
    (h : ∀ log, (run.outline run.depth log).Matches R
      ((run.rewritten fragments selections limit).outline limit log)) :
    run.ending.Relocated L (run.rewritten fragments selections limit).ending := by
  rcases (resembles_rewritten h).ending_cases with ⟨hend, hend'⟩ | ⟨hnone, hend⟩
  · have hmatches := h run.callLog
    rw [hend, hend']
    refine .response (congrArg some hmatches.data_eq) ?_
    refine List.forall₂_map_left_iff.2 (List.forall₂_map_right_iff.2 ?_)
    exact (hmatches.marks hL Path.root).imp fun _ _ => FieldFailure.Relocated.report
  · rw [hend]
    exact .of_response? hnone

/-! ## Splitting one field -/

/-- One field of the selections is split in two, next to each other; it stands anywhere, also inside
of others. -/
inductive SplitsOne (head : FieldHead) (first second : List Selection) (extra : Location) :
    List Selection → List Selection → Prop
  | here {before after : List Selection} :
      SplitsOne head first second extra (before ++ .field head (first ++ second) :: after)
        (before ++ .field head first :: .field { head with location := extra } second :: after)
  | field {before after inner inner' : List Selection} {other : FieldHead}
      (h : SplitsOne head first second extra inner inner') :
      SplitsOne head first second extra (before ++ .field other inner :: after)
        (before ++ .field other inner' :: after)
  | inline {before after inner inner' : List Selection} {location : Location}
      {condition : Option String} {directives : List Directive}
      (h : SplitsOne head first second extra inner inner') :
      SplitsOne head first second extra
        (before ++ .inline location condition directives inner :: after)
        (before ++ .inline location condition directives inner' :: after)

def Definition.fieldLocations : Definition → List Location
  | operation op => TypedQuery.fieldLocations op.selections
  | fragment frag => TypedQuery.fieldLocations frag.selections

/-- The locations of all fields of a document. -/
def Document.fieldLocations (doc : Document) : List Location :=
  doc.definitions.flatMap Definition.fieldLocations

/-- One field of the document, in an operation or a fragment, is split in two. -/
def Document.SplitsOne (head : FieldHead) (first second : List Selection) (extra : Location)
    (doc doc' : Document) : Prop :=
  ∃ before after definition definition',
    doc.definitions = before ++ definition :: after ∧
      doc'.definitions = before ++ definition' :: after ∧
      definition.Rewritten (TypedQuery.SplitsOne head first second extra) definition'

section SplitsOne

variable {first second : List Selection}

theorem Splits.append {selections selections' more more' : List Selection}
    (h : Splits P head extra selections selections') (hmore : Splits P head extra more more') :
    Splits P head extra (selections ++ more) (selections' ++ more') := by
  induction h with
  | nil => exact hmore
  | field hother hinner _ _ ih => exact .field hother hinner ih
  | spread _ ih => exact .spread ih
  | inline hinner _ _ ih => exact .inline hinner ih
  | halves hfirst hsecond _ _ _ ih => exact .halves hfirst hsecond ih

theorem perm_around {l others : List Location} {location : Location}
    (h : l.Perm (location :: others)) (before after : List Location) :
    (before ++ (l ++ after)).Perm (location :: (before ++ (others ++ after))) :=
  ((h.append_right after).append_left before).trans List.perm_middle

theorem perm_fieldLocations {selection : Selection} {others : List Location}
    {location : Location} (h : selection.fieldLocations.Perm (location :: others))
    (before after : List Selection) :
    (fieldLocations (before ++ selection :: after)).Perm
      (location :: (fieldLocations before ++ (others ++ fieldLocations after))) := by
  rw [fieldLocations_append, fieldLocations]
  exact perm_around h _ _

theorem forall_mem_around {P : Location → Prop} {before inner after : List Location} :
    (∀ location ∈ before ++ (inner ++ after), P location) ↔
      (∀ location ∈ before, P location) ∧ (∀ location ∈ inner, P location) ∧
        ∀ location ∈ after, P location := by
  rw [List.forall_mem_append, List.forall_mem_append]

/-- The field that is split is one of the fields, and of the others only the locations count. -/
theorem SplitsOne.splits {selections selections' : List Selection}
    (h : SplitsOne head first second extra selections selections') :
    ∃ others, (fieldLocations selections).Perm (head.location :: others) ∧
      ∀ P : Location → Prop, (∀ location ∈ others, P location) →
        Splits P head extra selections selections' := by
  induction h with
  | @here before after =>
    refine ⟨_, perm_fieldLocations (.refl _) before after, fun P hP => ?_⟩
    obtain ⟨hbefore, hinner, hafter⟩ := forall_mem_around.1 hP
    rw [fieldLocations_append, List.forall_mem_append] at hinner
    exact (Splits.refl before hbefore).append
      (.halves (.refl first hinner.1) (.refl second hinner.2) (.refl after hafter))
  | @field before after inner inner' other h ih =>
    obtain ⟨others, hperm, hsplits⟩ := ih
    have hperm : (Selection.field other inner).fieldLocations.Perm
        (head.location :: other.location :: others) :=
      (hperm.cons other.location).trans (.swap _ _ _)
    refine ⟨_, perm_fieldLocations hperm before after, fun P hP => ?_⟩
    obtain ⟨hbefore, hinner, hafter⟩ := forall_mem_around.1 hP
    rw [List.forall_mem_cons] at hinner
    exact (Splits.refl before hbefore).append
      (.field hinner.1 (hsplits P hinner.2) (.refl after hafter))
  | @inline before after inner inner' location condition directives h ih =>
    obtain ⟨others, hperm, hsplits⟩ := ih
    have hperm : (Selection.inline location condition directives inner).fieldLocations.Perm
        (head.location :: others) := hperm
    refine ⟨_, perm_fieldLocations hperm before after, fun P hP => ?_⟩
    obtain ⟨hbefore, hinner, hafter⟩ := forall_mem_around.1 hP
    exact (Splits.refl before hbefore).append
      (.inline (hsplits P hinner) (.refl after hafter))

theorem Definition.rewritten_refl {definition : Definition} {P : Location → Prop}
    (h : ∀ location ∈ definition.fieldLocations, P location) :
    definition.Rewritten (Splits P head extra) definition := by
  cases definition with
  | operation op => exact .operation ⟨rfl, .refl op.selections h⟩
  | fragment frag => exact .fragment ⟨rfl, .refl frag.selections h⟩

theorem Definition.rewritten_splits {definition definition' : Definition}
    (h : definition.Rewritten (TypedQuery.SplitsOne head first second extra) definition') :
    ∃ others, definition.fieldLocations.Perm (head.location :: others) ∧
      ∀ P : Location → Prop, (∀ location ∈ others, P location) →
        definition.Rewritten (Splits P head extra) definition' := by
  cases h with
  | operation h =>
    obtain ⟨others, hperm, hsplits⟩ := h.2.splits
    exact ⟨others, hperm, fun P hP => .operation ⟨h.1, hsplits P hP⟩⟩
  | fragment h =>
    obtain ⟨others, hperm, hsplits⟩ := h.2.splits
    exact ⟨others, hperm, fun P hP => .fragment ⟨h.1, hsplits P hP⟩⟩

theorem Document.SplitsOne.rewritten {doc doc' : Document}
    (h : doc.SplitsOne head first second extra doc') :
    ∃ others, doc.fieldLocations.Perm (head.location :: others) ∧
      ∀ P : Location → Prop, (∀ location ∈ others, P location) →
        doc.Rewritten (Splits P head extra) doc' := by
  obtain ⟨before, after, definition, definition', hdoc, hdoc', hone⟩ := h
  obtain ⟨others, hperm, hsplits⟩ := Definition.rewritten_splits hone
  have hlocations : doc.fieldLocations = before.flatMap Definition.fieldLocations ++
      (definition.fieldLocations ++ after.flatMap Definition.fieldLocations) := by
    rw [fieldLocations, hdoc, List.flatMap_append, List.flatMap_cons]
  refine ⟨_, hlocations ▸ perm_around hperm _ _, fun P hP => ?_⟩
  obtain ⟨hbefore, hinner, hafter⟩ := forall_mem_around.1 hP
  have hsame (definitions : List Definition)
      (h : ∀ location ∈ definitions.flatMap Definition.fieldLocations, P location) :
      List.Forall₂ (Definition.Rewritten (Splits P head extra)) definitions definitions := by
    refine List.forall₂_same.2 fun own hown => Definition.rewritten_refl fun location hin => ?_
    exact h location (List.mem_flatMap.2 ⟨own, hown, hin⟩)
  unfold Document.Rewritten
  rw [hdoc, hdoc']
  exact List.rel_append (hsame before hbefore) (.cons (hsplits P hinner) (hsame after hafter))

end SplitsOne

/-! ## Requests -/

namespace Run

/-- A run and the one on split selections attempt the same. -/
theorem matches_splits {run : Run} {fragments : List Fragment} {selections : List Selection}
    {limit : Nat} (hac : AcyclicSpreads run.selector.fragments)
    (hfragments : List.Forall₂ (Fragment.Rewritten (Splits P head extra)) run.selector.fragments
      fragments)
    (hselections : Splits P head extra run.selections selections)
    (hw : weight run.selector.fragments run.selections ≤ run.depth)
    (hw' : weight fragments selections ≤ limit) (log : CallLog) :
    (run.outline run.depth log).Matches (Refines (FieldNode.Splits P head extra))
      ((run.rewritten fragments selections limit).outline limit log) :=
  matches_rewritten hac (hac.rewritten (fun h name => h.mentions name) hfragments) hw hw'
    (fun h => h.map FieldNode.Splits.splitSet) (Selector.matches_groups_splits hfragments)
    (.singleton (.whole hselections)) log

end Run

theorem Schema.exists_split {schema : Schema} {request : Request} {doc : Document}
    (hrewritten : request.document.Rewritten (Splits P head extra) doc)
    (hac : AcyclicSpreads request.document.fragments) {config : Config} {context : Context}
    {run : Run} (hrun : schema.prepare config context request = .ok run) :
    ∃ run', schema.prepare config context { request with document := doc } = .ok run' ∧
      run'.Resembles .bare run ∧
      run.ending.Relocated (Refines (Location.Joined P head.location extra)) run'.ending := by
  obtain ⟨_, hfail, -⟩ | ⟨own, selections, hown, hsplit, hown', hselections, hw, hw'⟩ :=
    schema.prepare_rewritten config context request hrewritten
  · rw [hrun] at hfail
    cases hfail
  · rw [hrun] at hown
    obtain rfl := Except.ok.inj hown
    have hfragments := hrewritten.fragments
    rw [← hown'] at hac hfragments hw
    have hmatches := Run.matches_splits hac hfragments hselections hw hw'
    exact ⟨_, hsplit, Run.resembles_rewritten hmatches,
      Run.relocated_rewritten (fun h => h.map FieldNode.Splits.joined) hmatches⟩

/-- The location of the second half comes after that of the first, where no other field has it. -/
theorem joined_of_ne {locations locations' : List Location}
    (h : Refines (Location.Joined (· ≠ head.location) head.location extra) locations locations') :
    locations' = locations.flatMap fun location =>
      if location = head.location then [location, extra] else [location] := by
  refine Refines.eq_flatMap (h.imp fun hjoined => ?_)
  cases hjoined with
  | alone hne => exact (if_neg hne).symm
  | both => exact (if_pos rfl).symm

/-- Splitting the selections of a field in two, for two fields in a row, makes no difference but to
locations.  Where an error has the location of the field, that of the second half may come after
it, and it does when no other field has the location.  Data, log and calls are the same, and so are
the messages, the paths, the extensions and the order of the errors. -/
theorem executeValidated_split (schema : Schema) {request : Request}
    (hac : AcyclicSpreads request.document.fragments) {head : FieldHead}
    {first second : List Selection} {extra : Location} {doc : Document}
    (hsplit : request.document.SplitsOne head first second extra doc) (config : Config)
    (context : Context) :
    (schema.executeValidated config context request).Relocated
      (Refines (Location.Joined (fun _ => True) head.location extra))
      (schema.executeValidated config context { request with document := doc }) ∧
    ∀ run, schema.prepare config context request = .ok run →
      ∃ run', schema.prepare config context { request with document := doc } = .ok run' ∧
        run'.events = run.events ∧ (∀ path made, run'.Makes path made ↔ run.Makes path made) ∧
        (request.document.fieldLocations.count head.location = 1 →
          run.ending.Relocated (fun locations locations' => locations' = locations.flatMap
            fun location => if location = head.location then [location, extra] else [location])
            run'.ending) := by
  obtain ⟨others, hperm, hrewritten⟩ := hsplit.rewritten
  have hany := hrewritten (fun _ => True) fun _ _ => trivial
  refine ⟨?_, fun run hrun => ?_⟩
  · unfold Schema.executeValidated
    cases hrun : schema.prepare config context request with
    | error response =>
      obtain ⟨_, hfail, hfail'⟩ | ⟨_, _, hok, -⟩ :=
        schema.prepare_rewritten config context request hany
      · rw [hrun] at hfail
        obtain rfl := Except.error.inj hfail
        rw [hfail']
        exact .response rfl (List.forall₂_same.2 fun e _ => ⟨rfl, .refl (fun _ => .alone trivial) _⟩)
      · rw [hrun] at hok
        cases hok
    | ok run =>
      obtain ⟨run', hrun', -, hending⟩ := Schema.exists_split hany hac hrun
      rw [hrun']
      exact hending
  · obtain ⟨run', hrun', hsame, -⟩ := Schema.exists_split hany hac hrun
    refine ⟨run', hrun', hsame.events_eq, hsame.makes_iff, fun hunique => ?_⟩
    rw [hperm.count_eq, List.count_cons_self] at hunique
    have hothers : ∀ location ∈ others, location ≠ head.location := by
      rintro location hin rfl
      exact List.count_eq_zero.1 (Nat.succ.inj hunique) hin
    obtain ⟨_, hother, -, hending⟩ := Schema.exists_split (hrewritten _ hothers) hac hrun
    rw [hrun'] at hother
    obtain rfl := Except.ok.inj hother
    exact hending.imp joined_of_ne

namespace Sample

def ahead : Location := { line := 1, column := 3 }

def aside : Location := { line := 1, column := 2 }

def selfHead : FieldHead :=
  { location := ahead, aliasName := none, name := "self", arguments := [], directives := [] }

/-- A fragment that is spread at the root and on the object below it. -/
def spreading (selections : List Selection) : Document :=
  { definitions :=
      [.operation
          { location := place
            kind := .query
            name := none
            variableDefs := []
            directives := []
            selections :=
              [.spread place "Pair" [],
                .field { selfHead with location := place, aliasName := some "inner" }
                  [.spread place "Pair" []]] },
        .fragment
          { location := place
            name := "Pair"
            condition := "Query"
            directives := []
            selections := selections }] }

/-- The object below is asked for a number and for numbers, by one field. -/
def whole : Document := spreading [.field selfHead [select "number" [], select "numbers" []]]

/-- By two fields. -/
def halved : Document :=
  spreading
    [.field selfHead [select "number" []],
      .field { selfHead with location := aside } [select "numbers" []]]

def pairRequest (doc : Document) : Request :=
  { document := doc
    operation := none
    inputs := []
    root :=
      .obj [("self", .obj [("self", .obj [("number", .int 1), ("numbers", .arr [.int 2])])])] }

/-- The object below the root is not had for the fragment, and that below the object is. -/
def paired (locations : List Location) : Response :=
  { data := some (.obj
      [("self", .null),
        ("inner", .obj [("self", .obj [("number", .int 1), ("numbers", .arr [.int 2])])])])
    errors := [(Failure.raised (.plain "no self")).report locations (some [.key "self"])] }

theorem splitsOne_whole :
    whole.SplitsOne selfHead [select "number" []] [select "numbers" []] aside halved :=
  ⟨[_], [], _, _, rfl, rfl, .fragment ⟨rfl, @SplitsOne.here selfHead [_] [_] aside [] []⟩⟩

theorem acyclic_whole : AcyclicSpreads whole.fragments :=
  Document.acyclicSpreads (rfl : whole.diagnostics schema = [])

theorem response?_whole :
    ((schema.withResolvers failing).executeValidated .standard .empty
      (pairRequest whole)).response? = some (paired [ahead]) :=
  Run.response?_ending _

theorem response?_halved :
    ((schema.withResolvers failing).executeValidated .standard .empty
      (pairRequest halved)).response? = some (paired [ahead, aside]) :=
  Run.response?_ending _

end Sample

/-- Both halves are asked for where the object is had, and where it is not, the one failure is
reported at both. -/
theorem executeValidated_split_sample :
    ((Sample.schema.withResolvers Sample.failing).executeValidated .standard .empty
        (Sample.pairRequest Sample.whole)).response? = some (Sample.paired [Sample.ahead]) ∧
      ((Sample.schema.withResolvers Sample.failing).executeValidated .standard .empty
        (Sample.pairRequest Sample.halved)).response? =
          some (Sample.paired [Sample.ahead, Sample.aside]) ∧
      ((Sample.schema.withResolvers Sample.failing).executeValidated .standard .empty
        (Sample.pairRequest Sample.whole)).Relocated
          (Refines (Location.Joined (fun _ => True) Sample.ahead Sample.aside))
          ((Sample.schema.withResolvers Sample.failing).executeValidated .standard .empty
            (Sample.pairRequest Sample.halved)) ∧
      ∃ run run',
        (Sample.schema.withResolvers Sample.failing).prepare .standard .empty
          (Sample.pairRequest Sample.whole) = .ok run ∧
        (Sample.schema.withResolvers Sample.failing).prepare .standard .empty
          (Sample.pairRequest Sample.halved) = .ok run' ∧
        run'.events = run.events ∧
        run.ending.Relocated (fun locations locations' => locations' = locations.flatMap
          fun location => if location = Sample.ahead then [location, Sample.aside] else [location])
          run'.ending := by
  obtain ⟨hsame, hruns⟩ := @executeValidated_split (Sample.schema.withResolvers Sample.failing)
    (Sample.pairRequest Sample.whole) Sample.acyclic_whole _ _ _ _ _
    Sample.splitsOne_whole .standard .empty
  obtain ⟨run, hrun⟩ : ∃ run, (Sample.schema.withResolvers Sample.failing).prepare .standard
      .empty (Sample.pairRequest Sample.whole) = .ok run := ⟨_, rfl⟩
  have hcount : Sample.whole.fieldLocations.count Sample.ahead = 1 := rfl
  obtain ⟨run', hrun', hevents, -, hexact⟩ := hruns run hrun
  exact ⟨Sample.response?_whole, Sample.response?_halved, hsame, run, run', hrun, hrun', hevents,
    hexact hcount⟩

end TypedQuery
