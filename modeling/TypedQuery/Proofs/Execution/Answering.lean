import TypedQuery.Proofs.Execution.Admission
/-!
Which fields are answered.  A field is looked up twice: before the run on the type that the text
gives its parent, and in the run on the object type that the parent turned out to be of.  Where
object types have the fields of their interfaces (`Schema.Conforms`) and one response key stands for
one field (`Run.Merges`), the second look-up finds a field too: `fields_answered`.  Neither of the
two is checked beforehand, and without either a field can be left out: `Schema.LeavesOut`.
-/

namespace TypedQuery

theorem TypeExpr.base_bare (type : TypeExpr) : type.bare.base = type.base := by
  induction type with
  | named name => rfl
  | list item => rfl
  | nonNull inner ih => exact ih

theorem TypeExpr.base_of_bare {type bare : TypeExpr} (h : type.bare = bare) :
    bare.base = type.base := by
  rw [← h]
  exact type.base_bare

/-! ## Object types and their abstract types -/

namespace Schema

/-- The object type has the field, and its values are of no other object types there. -/
def Provides (schema : Schema) (object : String) (field : String × FieldDef) : Prop :=
  ∃ own ∈ schema.field? object field.1,
    schema.possibleTypes own.type.base ⊆ schema.possibleTypes field.2.type.base

instance (schema : Schema) (object : String) (field : String × FieldDef) :
    Decidable (schema.Provides object field) :=
  inferInstanceAs (Decidable (∃ own ∈ schema.field? object field.1,
    schema.possibleTypes own.type.base ⊆ schema.possibleTypes field.2.type.base))

/-- Object types have the fields of the types that their objects may stand for. -/
def Conforms (schema : Schema) : Prop :=
  ∀ entry ∈ schema.types, ∀ object ∈ schema.possibleTypes entry.1,
    ∀ field ∈ entry.2.fields?.getD [], schema.Provides object field

instance (schema : Schema) : Decidable schema.Conforms :=
  inferInstanceAs (Decidable (∀ entry ∈ schema.types, ∀ object ∈ schema.possibleTypes entry.1,
    ∀ field ∈ entry.2.fields?.getD [], schema.Provides object field))

variable {schema : Schema}

theorem Conforms.provides (h : schema.Conforms) {type object name : String} {field : FieldDef}
    (hobject : object ∈ schema.possibleTypes type) (hfield : schema.field? type name = some field) :
    schema.Provides object (name, field) := by
  obtain ⟨owner, fields, howner, hfields, hmem⟩ := mem_fields hfield
  have hin : (name, field) ∈ owner.fields?.getD [] := by
    rw [hfields]
    exact hmem
  exact h (type, owner) howner object hobject (name, field) hin

theorem mem_possibleTypes_self (hnames : ∀ name type, schema.object? name = some type →
    type.name = name) {object : String} (h : schema.IsObject object) :
    object ∈ schema.possibleTypes object := by
  obtain ⟨placed, type, hplaced, rfl⟩ := h
  have hname : type.name = placed := hnames placed type hplaced
  have htype : schema.type? type.name = some (.object type) := by
    rw [hname]
    exact object?_eq_some.1 hplaced
  unfold possibleTypes
  rw [htype]
  exact List.mem_cons_self

/-- A fragment that applies is on a type that the object may stand for. -/
theorem mem_possibleTypes_of_applies {condition object : String}
    (hself : object ∈ schema.possibleTypes object)
    (h : schema.applies condition object = true) : object ∈ schema.possibleTypes condition := by
  unfold applies at h
  rw [Bool.or_eq_true, beq_iff_eq] at h
  rcases h with rfl | h
  · exact hself
  · exact (isPossible_iff.1 h).2

end Schema

/-! ## From the text to the object types -/

/-- The selections were admitted on a type that the object may stand for. -/
def Scope.Suits (scope : Scope) (object : String) (selections : List Selection) : Prop :=
  ∃ type, object ∈ scope.schema.possibleTypes type ∧ scope.Admits type selections

namespace Document

variable {doc : Document} {schema : Schema} (hclean : doc.diagnostics schema = [])
  {bindings : Json.Fields} {object : String} (hself : object ∈ schema.possibleTypes object)

include hclean hself

/-- A field that is picked was visited on a type that the object may stand for. -/
theorem visited_of_picks {node : FieldNode} {selections : List Selection}
    (hpicks : (Selector.ofDocument schema doc bindings).Picks object node selections)
    (h : (doc.scope schema).Suits object selections) :
    ∃ type head inner, object ∈ schema.possibleTypes type ∧
      node = { head with selections := inner } ∧
      ((doc.scope schema).visitSelection (some type) (.field head inner)).Clean := by
  induction hpicks with
  | @field selections inner head hmem hnode hincluded =>
    obtain ⟨type, hobject, hadmits⟩ := h
    exact ⟨type, head, inner, hobject, hnode, Scope.clean_visitSelections.1 hadmits _ hmem⟩
  | spread hmem hincluded hfrag happlies hin ih =>
    -- the fragment was visited on its own condition, wherever it is spread
    apply ih
    obtain ⟨hdefined, -⟩ := fragmentOf?_mem hfrag
    obtain ⟨-, hadmits⟩ := Scope.clean_visitFragment (clean_fragment hclean hdefined)
    exact ⟨_, Schema.mem_possibleTypes_of_applies hself happlies, hadmits⟩
  | @inline selections inner location condition directives hmem hincluded happlies hin ih =>
    apply ih
    obtain ⟨type, hobject, hadmits⟩ := h
    have hinline := Scope.clean_visitSelections.1 hadmits _ hmem
    cases condition with
    | none => exact ⟨type, hobject, Scope.clean_inline hinline⟩
    | some condition =>
      obtain ⟨-, hinner⟩ := Scope.clean_inline_on hinline
      have happlies : schema.applies condition object = true := happlies condition rfl
      exact ⟨condition, Schema.mem_possibleTypes_of_applies hself happlies, hinner⟩

/-- A field that is picked is one of the object's type, and what it selects suits its values. -/
theorem provides_of_picks (hconforms : schema.Conforms) {node : FieldNode}
    {selections : List Selection}
    (hpicks : (Selector.ofDocument schema doc bindings).Picks object node selections)
    (h : (doc.scope schema).Suits object selections) :
    node.name = "__typename" ∨ ∃ own, schema.field? object node.name = some own ∧
      ∀ next ∈ schema.possibleTypes own.type.base,
        (doc.scope schema).Suits next node.selections := by
  obtain ⟨type, head, inner, hobject, rfl, hvisit⟩ := visited_of_picks hclean hself hpicks h
  rcases Scope.clean_field hvisit with ⟨hname, -⟩ | ⟨-, field, hfield, hadmits, -⟩
  · exact .inl hname
  · obtain ⟨own, hown, hsub⟩ := hconforms.provides hobject hfield
    refine .inr ⟨own, hown, ?_⟩
    intro next hnext
    exact ⟨field.type.base, hsub hnext, hadmits⟩

end Document

/-! ## What a run may ask for -/

namespace Run

/-- The groups of the fields that sets of selections come to on an object type. -/
def groups (run : Run) (object : String) (sets : List (List Selection)) : List FieldGroup :=
  FieldGroup.ofNodes (run.selector.collect object sets)

/-- Objects of the type may be asked for the fields of the sets, when resolvers return what the
declared types allow. -/
inductive Asks (run : Run) : String → List (List Selection) → Prop
  | root : Asks run run.rootType [run.selections]
  | field {object next : String} {sets : List (List Selection)} {group : FieldGroup}
      {field : FieldDef} (h : Asks run object sets) (hgroup : group ∈ run.groups object sets)
      (hname : group.first.name ≠ "__typename")
      (hfield : run.selector.schema.field? object group.first.name = some field)
      (hnext : next ∈ run.selector.schema.possibleTypes field.type.base)
      (hobject : run.selector.schema.IsObject next) :
      Asks run next (group.nodes.map (·.selections))

/-- Nodes of one response key are of one field. -/
def Merges (run : Run) : Prop :=
  ∀ object sets, run.Asks object sets → ∀ group ∈ run.groups object sets,
    ∀ node ∈ group.nodes, node.name = group.first.name

/-- The data is an object with a member for every group. -/
def Fills (run : Run) (object : String) (sets : List (List Selection)) (data : Json) : Prop :=
  ∃ fields : Json.Fields, data = .obj fields ∧
    fields.keys = (run.groups object sets).map (·.key)

/-- The run is of a document in order, whose root objects suit what the run selects. -/
structure Checked (run : Run) (doc : Document) (schema : Schema) : Prop where
  selector : ∃ bindings, run.selector = .ofDocument schema doc bindings
  clean : doc.diagnostics schema = []
  names : ∀ name type, schema.object? name = some type → type.name = name
  root : schema.IsObject run.rootType
  suits : (doc.scope schema).Suits run.rootType run.selections

section Checked

variable {run : Run} {doc : Document} {schema : Schema} (hrun : run.Checked doc schema)
  (hconforms : schema.Conforms)

include hrun

theorem Checked.schema_eq : run.selector.schema = schema := by
  obtain ⟨bindings, hselector⟩ := hrun.selector
  rw [hselector]
  rfl

theorem Checked.isObject {object : String} {sets : List (List Selection)}
    (h : run.Asks object sets) : schema.IsObject object := by
  cases h with
  | root => exact hrun.root
  | field _ _ _ _ _ hobject =>
    rw [hrun.schema_eq] at hobject
    exact hobject

include hconforms

/-- Every node of a group is of a field of the object's type. -/
theorem Checked.provides {object : String} {sets : List (List Selection)}
    (hobject : schema.IsObject object) (hsets : ∀ set ∈ sets, (doc.scope schema).Suits object set)
    {group : FieldGroup} (hgroup : group ∈ run.groups object sets) {node : FieldNode}
    (hnode : node ∈ group.nodes) :
    node.name = "__typename" ∨ ∃ own, schema.field? object node.name = some own ∧
      ∀ next ∈ schema.possibleTypes own.type.base,
        (doc.scope schema).Suits next node.selections := by
  obtain ⟨bindings, hselector⟩ := hrun.selector
  have hcollected : node ∈ run.selector.collect object sets :=
    FieldGroup.mem_of_mem_ofNodes hgroup hnode
  obtain ⟨set, hset, hpicks⟩ := run.selector.picks_of_mem_collect object hcollected
  rw [hselector] at hpicks
  have hself := Schema.mem_possibleTypes_self hrun.names hobject
  exact Document.provides_of_picks hrun.clean hself hconforms hpicks (hsets set hset)

/-- What objects are asked for suits them, by induction on how the run comes to ask for it. -/
theorem Checked.suits_of_asks (hmerges : run.Merges) {object : String}
    {sets : List (List Selection)} (h : run.Asks object sets) :
    ∀ set ∈ sets, (doc.scope schema).Suits object set := by
  induction h with
  | root =>
    intro set hset
    rw [List.mem_singleton.1 hset]
    exact hrun.suits
  | @field object next sets group field hasks hgroup hname hfield hnext _ ih =>
    intro set hset
    obtain ⟨node, hnode, rfl⟩ := List.mem_map.1 hset
    have hsame : node.name = group.first.name := hmerges object sets hasks group hgroup node hnode
    rcases hrun.provides hconforms (hrun.isObject hasks) ih hgroup hnode with
      htypename | ⟨own, hown, hsuits⟩
    · rw [hsame] at htypename
      exact absurd htypename hname
    · rw [hrun.schema_eq] at hfield hnext
      rw [hsame, hfield] at hown
      obtain rfl := Option.some.inj hown
      exact hsuits next hnext

/-- A group that is asked for has a meaning on the object's type. -/
theorem Checked.answers_of_asks (hmerges : run.Merges) {object : String}
    {sets : List (List Selection)} (h : run.Asks object sets) {group : FieldGroup}
    (hgroup : group ∈ run.groups object sets) :
    group.first.name = "__typename" ∨
      ∃ field, schema.field? object group.first.name = some field := by
  have hsuits := hrun.suits_of_asks hconforms hmerges h
  rcases hrun.provides hconforms (hrun.isObject h) hsuits hgroup List.mem_cons_self with
    htypename | ⟨own, hown, -⟩
  · exact .inl htypename
  · exact .inr ⟨own, hown⟩

end Checked

/-! ## What a run asks for -/

variable {run : Run}

/-- Values of the type may be asked for what the nodes select, when they are objects. -/
def AsksOf (run : Run) (nodes : List FieldNode) (type : TypeExpr) : Prop :=
  ∀ next ∈ run.selector.schema.possibleTypes type.base,
    run.selector.schema.IsObject next → run.Asks next (nodes.map (·.selections))

theorem inherits_asksOf (run : Run) (log : CallLog) :
    (run.execution log).Inherits run.AsksOf := by
  refine ⟨?_, ?_⟩
  · intro nodes type item hasks hbare next hnext hobject
    have hbase : (TypeExpr.list item).base = type.base := TypeExpr.base_of_bare hbare
    change next ∈ run.selector.schema.possibleTypes (TypeExpr.list item).base at hnext
    rw [hbase] at hnext
    exact hasks next hnext hobject
  · intro nodes type name object group field hasks hbare hpossible hobject hgroup hname hfield
    have hbase : name = type.base := TypeExpr.base_of_bare hbare
    rw [hbase] at hpossible
    have hobjects := hasks object hpossible hobject
    intro next hnext
    exact hobjects.field hgroup hname hfield hnext

/-- Every object that is completed is one that the run may ask for what is selected there. -/
theorem asks_of_at {depth : Nat} {log : CallLog} {path : Path} {place : Place} {object : String}
    {members : List (Place × Outline)}
    (hat : (run.outline depth log).At path place (.set (.fields object) members)) :
    run.Asks object (place.nodes.map (·.selections)) := by
  have hall := run.all_of_inherits depth log (run.inherits_asksOf log)
    fun group hgroup field hname hfield next hnext => Asks.root.field hgroup hname hfield hnext
  obtain ⟨-, -, -, hsettled⟩ := run.settled_outline depth log
  obtain ⟨value, name, hbare, hpossible, hobject, -⟩ :=
    (hsettled path place _ hat).completed_of_set
  have hbase : name = place.type.base := TypeExpr.base_of_bare hbare
  rw [hbase] at hpossible
  rcases hall path place _ hat with hasks | ⟨-, type, hleaf⟩
  · exact hasks object hpossible hobject
  · cases hleaf

/-- Where every group has a meaning, an object has a member for each. -/
theorem fills_of_covers {log : CallLog} {object : String} {sets : List (List Selection)}
    {members : List (Place × Outline)} (hc : (run.execution log).Covers object sets members)
    (hanswers : ∀ group ∈ run.groups object sets, group.first.name = "__typename" ∨
      ∃ field, run.selector.schema.field? object group.first.name = some field)
    (hdata : (Outline.set (.fields object) members).data ≠ .null) :
    run.Fills object sets (Outline.set (.fields object) members).data := by
  have hall : (run.groups object sets).filter ((run.execution log).answers object) =
      run.groups object sets := by
    apply List.filter_eq_self.2
    intro group hgroup
    unfold Execution.answers
    rcases hanswers group hgroup with hname | ⟨field, hfield⟩
    · simp [hname]
    · have hfield : (run.execution log).schema.field? object group.first.name = some field := hfield
      simp [hfield]
  have hsegments := Execution.segments_of_answers hc
  have hkeys : members.map (fun member => member.1.segment) =
      (run.groups object sets).map fun group => .key group.key := by
    rw [hsegments]
    exact congrArg (List.map _) hall
  have hn : Outline.anyNulled members = false :=
    Bool.eq_false_iff.2 fun hn => hdata (Outline.data_of_isNulled hn)
  refine ⟨_, if_neg (by simp [hn]), ?_⟩
  have htexts := congrArg (List.map PathSegment.text) hkeys
  rw [List.map_map, List.map_map] at htexts
  rw [Outline.memberData_eq_map, Keyed.keys, List.map_map, List.map_map]
  exact htexts

end Run

/-! ## Requests -/

/-- The run completes an object of the type at the path, for what the sets select. -/
inductive Run.Completes (run : Run) : Path → String → List (List Selection) → Prop
  | root : Completes run [] run.rootType [run.selections]
  | below {path : Path} {place : Place} {object : String} {members : List (Place × Outline)}
      {sets : List (List Selection)}
      (hat : (run.outline run.depth run.callLog).At path place (.set (.fields object) members))
      (hsets : place.nodes.map (·.selections) = sets) : Completes run path object sets

theorem Run.checked_of_validate {blueprint : Blueprint} {schema : Schema}
    (hbuild : blueprint.build = .ok schema) {config : Config} {context : Context}
    {request : Request}
    (hvalid : schema.validate request.document request.operation request.inputs = []) {run : Run}
    (hrun : schema.prepare config context request = .ok run) :
    run.Checked request.document schema := by
  obtain ⟨hclean, -⟩ := Schema.validate_eq_nil hvalid
  obtain ⟨op, rootType, bindings, hop, hroot, -, rfl⟩ := Schema.prepare_eq_ok hrun
  have hnames (name : String) (type : ObjectDef) (h : schema.object? name = some type) :
      type.name = name := Blueprint.name_of_object? hbuild h
  have hobject : schema.IsObject rootType := by
    have hsome := Blueprint.object?_rootType hbuild hroot
    obtain ⟨type, htype⟩ := Option.isSome_iff_exists.1 hsome
    exact ⟨rootType, type, htype, hnames rootType type htype⟩
  obtain ⟨admitting, hadmitting, hadmits⟩ :=
    Document.exists_rootType hclean (Document.mem_of_select hop)
  rw [hroot] at hadmitting
  obtain rfl := Option.some.inj hadmitting
  exact
    { selector := ⟨bindings, rfl⟩
      clean := hclean
      names := hnames
      root := hobject
      suits := ⟨rootType, Schema.mem_possibleTypes_self hnames hobject, hadmits⟩ }

/-- Where object types have the fields of their interfaces, and one response key stands for one
field, every group that is collected in the run of a request without errors has a meaning, and every
object of the response has a member for each. -/
theorem fields_answered {blueprint : Blueprint} {schema : Schema}
    (hbuild : blueprint.build = .ok schema) (hconforms : schema.Conforms) {config : Config}
    {context : Context} {request : Request}
    (hvalid : schema.validate request.document request.operation request.inputs = []) {run : Run}
    (hrun : schema.prepare config context request = .ok run) (hmerges : run.Merges) :
    (∀ object sets, run.Asks object sets → ∀ group ∈ run.groups object sets,
      group.first.name = "__typename" ∨
        ∃ field, schema.field? object group.first.name = some field) ∧
    (∀ path object sets, run.Completes path object sets → run.Asks object sets) ∧
    ∀ r, (schema.execute config context request).response? = some r → ∀ data, r.data = some data →
      ∀ path object sets, run.Completes path object sets →
        ∀ value, data.at? path = some value → value ≠ .null → run.Fills object sets value := by
  have hchecked := Run.checked_of_validate hbuild hvalid hrun
  have hanswers {object : String} {sets : List (List Selection)} (hasks : run.Asks object sets) :
      ∀ group ∈ run.groups object sets, group.first.name = "__typename" ∨
        ∃ field, schema.field? object group.first.name = some field :=
    fun group hgroup => hchecked.answers_of_asks hconforms hmerges hasks hgroup
  refine ⟨fun object sets hasks => hanswers hasks, ?_, ?_⟩
  · intro path object sets hcompletes
    cases hcompletes with
    | root => exact .root
    | below hat hsets => exact hsets ▸ Run.asks_of_at hat
  · intro r hr data hdata path object sets hcompletes value hvalue hnull
    rw [Schema.execute_of_no_errors hvalid hrun] at hr
    obtain ⟨-, rfl, -⟩ := run.of_response? hr
    obtain rfl : (run.outline run.depth run.callLog).data = data := Option.some.inj hdata
    obtain ⟨members, ho, hc, hsettled⟩ := run.settled_outline run.depth run.callLog
    cases hcompletes with
    | root =>
      obtain rfl := Option.some.inj hvalue
      rw [ho] at hnull ⊢
      apply Run.fills_of_covers hc _ hnull
      rw [hchecked.schema_eq]
      exact hanswers .root
    | @below path place object members sets hat hsets =>
      have horderly := run.orderly_outline run.depth run.callLog
      obtain rfl := Outline.data_of_at? horderly hat hvalue
      obtain ⟨_, _, _, _, _, hbelow⟩ := (hsettled path place _ hat).completed_of_set
      have hasks := Run.asks_of_at hat
      rw [hsets] at hbelow hasks
      apply Run.fills_of_covers hbelow _ hnull
      rw [hchecked.schema_eq]
      exact hanswers hasks

/-- A request without errors, in whose run a group is collected that has no meaning. -/
def Schema.LeavesOut (schema : Schema) (request : Request) : Prop :=
  schema.validate request.document request.operation request.inputs = [] ∧
    ∃ run, schema.prepare .standard .empty request = .ok run ∧
      ∃ path object sets, run.Completes path object sets ∧ ∃ group ∈ run.groups object sets,
        group.first.name ≠ "__typename" ∧ schema.field? object group.first.name = none

namespace Pets

def nameless : List (String × FieldDef) := [Sample.field "barks" (.named "Boolean")]

/-- The fields of dogs that have names, as `Named` asks. -/
def named : List (String × FieldDef) := Sample.field "name" (.named "String") :: nameless

/-- Dogs, which are `Named` whatever fields they have, and cats. -/
def blueprint (dog : List (String × FieldDef)) : Blueprint :=
  { queryType := some "Query"
    mutationType := none
    added :=
      [.interface
          { name := "Named", fields := [Sample.field "name" (.named "String")], placer := none },
        .object { name := "Dog", description := none, fields := dog, interfaces := ["Named"] },
        .object
          { name := "Cat"
            description := none
            fields := [Sample.field "meows" (.named "Boolean")]
            interfaces := [] },
        .object
          { name := "Query"
            description := none
            fields :=
              [Sample.field "pet" (.named "Named"),
                Sample.field "dog" (.named "Dog"),
                Sample.field "cat" (.named "Cat")]
            interfaces := [] }] }

def schema (dog : List (String × FieldDef)) : Schema :=
  { queryType := "Query", mutationType := none, types := (blueprint dog).table }

def node (aliasName : Option String) (name : String) (selections : List Selection) : FieldNode :=
  { location := Sample.place
    aliasName := aliasName
    name := name
    arguments := []
    directives := []
    selections := selections }

def select (aliasName : Option String) (name : String) (selections : List Selection) : Selection :=
  .field (node aliasName name selections).toFieldHead selections

def rex : Json :=
  .obj [("__typename", .str "Dog"), ("name", .str "Rex"), ("barks", .bool true)]

/-- A query on a root whose pets are all the same dog. -/
def request (selections : List Selection) : Request :=
  { document :=
      { definitions :=
          [.operation
            { location := Sample.place
              kind := .query
              name := none
              variableDefs := []
              directives := []
              selections := selections }] }
    operation := none
    inputs := []
    root := .obj [("pet", rex), ("dog", rex), ("cat", rex)] }

def run (dog : List (String × FieldDef)) (selections : List Selection) : Run :=
  { selector := .ofDocument (schema dog) (request selections).document []
    context := .empty
    config := .standard
    rootType := "Query"
    root := (request selections).root
    selections := selections
    serial := false
    depth := (request selections).document.depthLimit }

variable {dog : List (String × FieldDef)} {selections : List Selection}

theorem prepare_request :
    (schema dog).prepare .standard .empty (request selections) = .ok (run dog selections) := by
  rfl

theorem response?_request
    (hvalid : (schema dog).validate (request selections).document none [] = []) :
    ((schema dog).execute .standard .empty (request selections)).response? =
      (run dog selections).ending.response? := by
  rw [Schema.execute_of_no_errors hvalid prepare_request]

/-- The name of a pet, and of a dog whether it barks. -/
def ofPet : List Selection :=
  [select none "name" [], .inline Sample.place (some "Dog") [] [select none "barks" []]]

def pet : List Selection := [select none "pet" ofPet]

/-- The name of a pet. -/
def petName : List Selection := [select none "pet" [select none "name" []]]

/-- A dog and a cat under one response key. -/
def mixed : List Selection :=
  [select (some "x") "dog" [select none "barks" []],
    select (some "x") "cat" [select none "meows" []]]

theorem asks_pet {object : String} {sets : List (List Selection)}
    (h : (run named pet).Asks object sets) :
    object = "Query" ∧ sets = [pet] ∨ object = "Dog" ∧ sets = [ofPet] := by
  induction h with
  | root => exact .inl ⟨rfl, rfl⟩
  | @field object next sets group field _ hgroup _ hfield hnext _ ih =>
    rcases ih with ⟨rfl, rfl⟩ | ⟨rfl, rfl⟩
    · have hgroups : (run named pet).groups "Query" [pet] =
          [{ key := "pet", first := node none "pet" ofPet, others := [] }] := by rfl
      rw [hgroups] at hgroup
      obtain rfl := List.mem_singleton.1 hgroup
      obtain rfl : (Sample.field "pet" (.named "Named")).2 = field := Option.some.inj hfield
      have hdog : next = "Dog" := List.mem_singleton.1 hnext
      exact .inr ⟨hdog, rfl⟩
    · have hgroups : (run named pet).groups "Dog" [ofPet] =
          [{ key := "name", first := node none "name" [], others := [] },
            { key := "barks", first := node none "barks" [], others := [] }] := by rfl
      rw [hgroups] at hgroup
      rcases List.mem_pair.1 hgroup with rfl | rfl
      · obtain rfl : (Sample.field "name" (.named "String")).2 = field := Option.some.inj hfield
        exact absurd hnext List.not_mem_nil
      · obtain rfl : (Sample.field "barks" (.named "Boolean")).2 = field := Option.some.inj hfield
        exact absurd hnext List.not_mem_nil

theorem merges_pet : (run named pet).Merges := by
  intro object sets h group hgroup node hnode
  have hothers : group.others = [] := by
    rcases asks_pet h with ⟨rfl, rfl⟩ | ⟨rfl, rfl⟩
    · exact congrArg _ (List.mem_singleton.1 hgroup)
    · rcases List.mem_pair.1 hgroup with rfl | rfl
      · rfl
      · rfl
  unfold FieldGroup.nodes at hnode
  rw [hothers] at hnode
  rw [List.mem_singleton.1 hnode]

/-- Of a dog with a name, the response has both that are asked for. -/
theorem fields_answered_pet :
    let dog := Json.obj [("name", .str "Rex"), ("barks", .bool true)]
    ((schema named).execute .standard .empty (request pet)).response? =
      some { data := some (.obj [("pet", dog)]), errors := [] } ∧
    (run named pet).Asks "Dog" [ofPet] ∧ (run named pet).Fills "Dog" [ofPet] dog := by
  intro dog
  have hbuild : (blueprint named).build = .ok (schema named) := by rfl
  have hvalid : (schema named).validate (request pet).document none [] = [] := by rfl
  have hresponse : ((schema named).execute .standard .empty (request pet)).response? =
      some { data := some (.obj [("pet", dog)]), errors := [] } := by
    rw [response?_request hvalid]
    exact Run.response?_ending _
  obtain ⟨-, hasks, hfills⟩ :=
    fields_answered hbuild (by decide) hvalid prepare_request merges_pet
  have hcompletes : (run named pet).Completes [.key "pet"] "Dog" [ofPet] :=
    .below (.member List.mem_cons_self) rfl
  refine ⟨hresponse, hasks _ _ _ hcompletes, ?_⟩
  exact hfills _ hresponse _ rfl _ _ _ hcompletes dog rfl Json.noConfusion

/-- A dog without a name is asked for it as a pet. -/
theorem field_unanswered :
    (blueprint nameless).build = .ok (schema nameless) ∧
      (schema nameless).LeavesOut (request petName) ∧
      ((schema nameless).execute .standard .empty (request petName)).response? =
        some { data := some (.obj [("pet", .obj [])]), errors := [] } := by
  have hvalid : (schema nameless).validate (request petName).document none [] = [] := by rfl
  have hcompletes : (run nameless petName).Completes [.key "pet"] "Dog"
      [[select none "name" []]] := .below (.member List.mem_cons_self) rfl
  have hgroup : { key := "name", first := node none "name" [], others := [] } ∈
      (run nameless petName).groups "Dog" [[select none "name" []]] := List.mem_cons_self
  have hmissing : (schema nameless).field? "Dog" "name" = none := by rfl
  refine ⟨rfl, ⟨hvalid, _, prepare_request, _, _, _, hcompletes, _, hgroup, ?_, hmissing⟩, ?_⟩
  · show "name" ≠ "__typename"
    decide
  · rw [response?_request hvalid]
    exact Run.response?_ending _

/-- A dog, whose type has all that `Named` asks, is asked for what the cat is asked for. -/
theorem fields_unmerged :
    (blueprint named).build = .ok (schema named) ∧ (schema named).Conforms ∧
      (schema named).LeavesOut (request mixed) ∧
      ((schema named).execute .standard .empty (request mixed)).response? =
        some { data := some (.obj [("x", .obj [("barks", .bool true)])]), errors := [] } := by
  have hvalid : (schema named).validate (request mixed).document none [] = [] := by rfl
  have hcompletes : (run named mixed).Completes [.key "x"] "Dog"
      [[select none "barks" []], [select none "meows" []]] :=
    .below (.member List.mem_cons_self) rfl
  have hgroup : { key := "meows", first := node none "meows" [], others := [] } ∈
      (run named mixed).groups "Dog" [[select none "barks" []], [select none "meows" []]] :=
    List.mem_cons_of_mem _ List.mem_cons_self
  have hmissing : (schema named).field? "Dog" "meows" = none := by rfl
  refine ⟨rfl, by decide,
    ⟨hvalid, _, prepare_request, _, _, _, hcompletes, _, hgroup, ?_, hmissing⟩, ?_⟩
  · show "meows" ≠ "__typename"
    decide
  · rw [response?_request hvalid]
    exact Run.response?_ending _

end Pets
end TypedQuery
