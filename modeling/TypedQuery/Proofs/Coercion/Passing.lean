import TypedQuery.Coercion.Arguments
import TypedQuery.Coercion.Variables
import TypedQuery.Proofs.Schema.Build
import TypedQuery.Proofs.Schema.BuiltIn
import TypedQuery.Schema.Scripted
/-!
Values that are passed to arguments.  A literal is coerced once, to the type of the argument.  A
value that goes through a variable is coerced twice: to the type of the variable, and what that
gives to the type of the argument.  Where a scalar leaves alone what it made of an input, the two
ways of passing a value come to the same: `receives_variable_iff`.
-/

namespace TypedQuery

/-- What the scalar makes of an input is an input that it leaves as it is. -/
def ScalarDef.Settles (scalar : ScalarDef) : Prop :=
  ∀ value result, value ≠ .null → scalar.parse value = .ok result →
    result ≠ .null ∧ scalar.parse result = .ok result

/-- The type of the name leaves alone what it made of an input. -/
def Schema.Settles (schema : Schema) (name : String) : Prop :=
  ∀ scalar, schema.type? name = some (.scalar scalar) → scalar.Settles

theorem Json.isNull_iff {value : Json} : value.isNull = true ↔ value = .null := by
  cases value <;> simp [Json.isNull]

/-- The items of a value where a list is expected.  One that is no list stands for the list of
itself. -/
def Json.items : Json → List Json
  | arr items => items
  | value => [value]

/-- A list is mapped without an error just when each of its items is. -/
theorem mapM_eq_ok {α β ε : Type} {f : α → Except ε β} {items : List α} {results : List β} :
    items.mapM f = .ok results ↔ items.map f = results.map .ok := by
  induction items generalizing results with
  | nil => cases results <;> simp [pure, Except.pure]
  | cons item rest ih =>
    rw [List.mapM_cons, List.map_cons]
    cases hf : f item with
    | error e => cases results <;> simp [bind, Except.bind]
    | ok first =>
      cases hr : rest.mapM f with
      | error e =>
        have hne (others : List β) : rest.map f ≠ others.map .ok := by
          intro h
          have hok := ih.2 h
          rw [hr] at hok
          cases hok
        cases results <;> simp [bind, Except.bind, hne]
      | ok others =>
        have ho := ih.1 hr
        have hinj (a b : List β) : a.map (Except.ok (ε := ε)) = b.map .ok ↔ a = b :=
          List.map_inj_right fun _ _ => Except.ok.inj
        cases results <;> simp [bind, Except.bind, pure, Except.pure, ho, hinj]

theorem exists_map_eq_ok {α β ε : Type} {f : α → Except ε β} {items : List α}
    (h : ∀ item ∈ items, ∃ result, f item = .ok result) :
    ∃ results : List β, items.map f = results.map .ok := by
  induction items with
  | nil => exact ⟨[], rfl⟩
  | cons item rest ih =>
    obtain ⟨first, hfirst⟩ := h item List.mem_cons_self
    obtain ⟨others, hothers⟩ := ih fun item hitem => h item (List.mem_cons_of_mem _ hitem)
    exact ⟨first :: others, by rw [List.map_cons, List.map_cons, hfirst, hothers]⟩

/-- Mapping a list fails with the error of the first item that fails. -/
theorem mapM_eq_error {α β ε : Type} {f : α → Except ε β} {items : List α} {e : ε} :
    items.mapM f = .error e ↔ ∃ front item back, items = front ++ item :: back ∧
      (∀ earlier ∈ front, ∃ result, f earlier = .ok result) ∧ f item = .error e := by
  induction items with
  | nil => simp [pure, Except.pure]
  | cons first rest ih =>
    rw [List.mapM_cons]
    simp only [List.cons_eq_append_iff]
    cases hfirst : f first with
    | error other =>
      constructor
      · rintro ⟨⟩
        exact ⟨[], first, rest, .inl ⟨rfl, rfl⟩, nofun, hfirst⟩
      · rintro ⟨front, item, back, ⟨rfl, he⟩ | ⟨tail, rfl, -⟩, hfront, hitem⟩
        · obtain ⟨rfl, -⟩ := List.cons.inj he
          rw [hfirst] at hitem
          rw [Except.error.inj hitem]
          rfl
        · obtain ⟨result, hresult⟩ := hfront first List.mem_cons_self
          rw [hfirst] at hresult
          cases hresult
    | ok result =>
      have hrest : (do
          let first ← (Except.ok result : Except ε β)
          let others ← rest.mapM f
          pure (first :: others)) = .error e ↔ rest.mapM f = .error e := by
        cases rest.mapM f <;> simp [bind, Except.bind, pure, Except.pure]
      rw [hrest, ih]
      constructor
      · rintro ⟨front, item, back, rfl, hfront, hitem⟩
        refine ⟨first :: front, item, back, .inr ⟨front, rfl, rfl⟩, ?_, hitem⟩
        rw [List.forall_mem_cons]
        exact ⟨⟨result, hfirst⟩, hfront⟩
      · rintro ⟨front, item, back, ⟨rfl, he⟩ | ⟨tail, rfl, rfl⟩, hfront, hitem⟩
        · obtain ⟨rfl, -⟩ := List.cons.inj he
          rw [hfirst] at hitem
          cases hitem
        · exact ⟨tail, item, back, rfl, (List.forall_mem_cons.1 hfront).2, hitem⟩

theorem mapM_congr {α β ε : Type} {f g : α → Except ε β} {items : List α}
    (h : ∀ item ∈ items, f item = g item) : items.mapM f = items.mapM g := by
  have hmap : items.map f = items.map g := List.map_congr_left h
  have hf : (items.map f).mapM id = items.mapM f := List.mapM_map
  have hg : (items.map g).mapM id = items.mapM g := List.mapM_map
  rw [← hf, hmap, hg]

namespace BuiltIn

/-- The scalars that every schema starts with settle. -/
theorem settles_of_mem {scalar : ScalarDef} (h : scalar ∈ scalars) : scalar.Settles := by
  intro value result _ hparse
  have hcoherent := coherent_of_mem h
  have hresult := hcoherent.has_input hparse
  exact ⟨hresult.ne_null, hcoherent.keeps hresult⟩

end BuiltIn

namespace Schema

variable {schema : Schema}

/-! ## Coercing twice -/

theorem coerceNamedInput_again {name : String} (hs : schema.Settles name) {value result : Json}
    (hvalue : value ≠ .null) (h : schema.coerceNamedInput name value = .ok result) :
    result ≠ .null ∧ schema.coerceNamedInput name result = .ok result := by
  unfold coerceNamedInput at h ⊢
  cases htype : schema.type? name with
  | none => rw [htype] at h; cases h
  | some type =>
    rw [htype] at h
    cases type with
    | scalar scalar =>
      dsimp only at h ⊢
      cases hparse : scalar.parse value with
      | error rejection => rw [hparse] at h; cases h
      | ok parsed =>
        rw [hparse] at h
        obtain rfl : parsed = result := Except.ok.inj h
        obtain ⟨hresult, hagain⟩ := hs scalar htype value parsed hvalue hparse
        refine ⟨hresult, ?_⟩
        rw [hagain]
        rfl
    | enum enum =>
      cases value with
      | str text =>
        dsimp only at h
        by_cases ht : enum.values.contains text = true
        · rw [if_pos ht] at h
          obtain rfl := Except.ok.inj h
          exact ⟨Json.noConfusion, if_pos ht⟩
        · rw [if_neg ht] at h
          cases h
      | _ => cases h
    | _ => cases h

/-- Where a list is expected, null stays null, and any other value becomes the list of what its
items become. -/
theorem coerceInput_list_eq_ok {item : TypeExpr} {value result : Json}
    (h : schema.coerceInput (.list item) value = .ok result) :
    value = .null ∧ result = .null ∨ ∃ results, value.isNull = false ∧ result = .arr results ∧
      value.items.map (schema.coerceInput item) = results.map .ok := by
  -- a value that is no list stands for a list of itself
  have hone {single : Json} (hsingle : (fun coerced => Json.arr [coerced]) <$>
      schema.coerceInput item single = .ok result) :
      ∃ results, result = .arr results ∧
        [single].map (schema.coerceInput item) = results.map .ok := by
    cases hc : schema.coerceInput item single with
    | error rejection => rw [hc] at hsingle; cases hsingle
    | ok coerced =>
      rw [hc] at hsingle
      obtain rfl : Json.arr [coerced] = result := Except.ok.inj hsingle
      exact ⟨[coerced], rfl, congrArg (fun first => [first]) hc⟩
  cases value with
  | null =>
    obtain rfl := Except.ok.inj h
    exact .inl ⟨rfl, rfl⟩
  | arr items =>
    rw [coerceInput] at h
    cases hm : items.mapM (schema.coerceInput item) with
    | error rejection => rw [hm] at h; cases h
    | ok results =>
      rw [hm] at h
      obtain rfl : Json.arr results = result := Except.ok.inj h
      exact .inr ⟨results, rfl, rfl, mapM_eq_ok.1 hm⟩
  | bool b => exact .inr ((hone h).imp fun _ => .intro rfl)
  | int n => exact .inr ((hone h).imp fun _ => .intro rfl)
  | float x => exact .inr ((hone h).imp fun _ => .intro rfl)
  | str text => exact .inr ((hone h).imp fun _ => .intro rfl)
  | obj fields => exact .inr ((hone h).imp fun _ => .intro rfl)

/-- A list of what items became is left alone by a list of another type when each of them is. -/
theorem coerceInput_items {item other : TypeExpr} {items results : List Json}
    (hitems : items.map (schema.coerceInput item) = results.map .ok)
    (hagain : ∀ value result, schema.coerceInput item value = .ok result →
      schema.coerceInput other result = .ok result) :
    schema.coerceInput (.list other) (.arr results) = .ok (.arr results) := by
  have hresults : results.map (schema.coerceInput other) = results.map .ok := by
    apply List.map_congr_left
    intro result hresult
    have hmem : Except.ok result ∈ items.map (schema.coerceInput item) := by
      rw [hitems]
      exact List.mem_map_of_mem hresult
    obtain ⟨value, -, hvalue⟩ := List.mem_map.1 hmem
    exact hagain value result hvalue
  rw [coerceInput, mapM_eq_ok.2 hresults]
  rfl

/-- Behind a mark an input must not be null, and becomes what the type under the mark makes of it. -/
theorem coerceInput_nonNull_eq_ok {inner : TypeExpr} {value result : Json} :
    schema.coerceInput (.nonNull inner) value = .ok result ↔
      value ≠ .null ∧ schema.coerceInput inner value = .ok result := by
  rw [coerceInput]
  by_cases hnull : value.isNull = true
  · rw [if_pos hnull]
    exact ⟨nofun, fun h => absurd (Json.isNull_iff.1 hnull) h.1⟩
  · rw [if_neg hnull]
    exact (and_iff_right fun hvalue => hnull (Json.isNull_iff.2 hvalue)).symm

/-- An input is not null when what became of it is not. -/
theorem coerceInput_again {type : TypeExpr} (hs : schema.Settles type.base) {value result : Json}
    (h : schema.coerceInput type value = .ok result) :
    (result = .null → value = .null) ∧ schema.coerceInput type result = .ok result := by
  induction type generalizing value result with
  | named name =>
    by_cases hn : value.isNull = true
    · rw [coerceInput, if_pos hn] at h
      obtain rfl := Except.ok.inj h
      exact ⟨fun _ => Json.isNull_iff.1 hn, rfl⟩
    · rw [coerceInput, if_neg hn] at h
      have hvalue : value ≠ .null := fun hnull => hn (Json.isNull_iff.2 hnull)
      obtain ⟨hresult, hagain⟩ := coerceNamedInput_again hs hvalue h
      have hn' : ¬ result.isNull = true := fun hnull => hresult (Json.isNull_iff.1 hnull)
      refine ⟨fun hnull => absurd hnull hresult, ?_⟩
      rw [coerceInput, if_neg hn']
      exact hagain
  | list item ih =>
    rcases coerceInput_list_eq_ok h with ⟨rfl, rfl⟩ | ⟨results, -, rfl, hitems⟩
    · exact ⟨fun _ => rfl, rfl⟩
    · exact ⟨Json.noConfusion, coerceInput_items hitems fun _ _ hitem => (ih hs hitem).2⟩
  | nonNull inner ih =>
    obtain ⟨hvalue, hinner⟩ := coerceInput_nonNull_eq_ok.1 h
    obtain ⟨hnull, hagain⟩ := ih hs hinner
    exact ⟨hnull, coerceInput_nonNull_eq_ok.2 ⟨fun hr => hvalue (hnull hr), hagain⟩⟩

/-! ## One argument -/

theorem coerceInput_null_of_nonNull {type : TypeExpr} (h : type.isNonNull = true) {value : Json} :
    schema.coerceInput type .null ≠ .ok value := by
  intro hc
  cases type with
  | nonNull inner => cases hc
  | named name => cases h
  | list item => cases h

/-- A supplied argument has the value that its type makes of the literal. -/
theorem coerceArgument_eq_ok {arg : ArgumentDef} {supplied : List (String × Literal)}
    {bindings : Json.Fields} {literal : Literal}
    (hliteral : suppliedLiteral? arg.name supplied bindings = some literal) {value : Json} :
    schema.coerceArgument arg supplied bindings = .ok (some value) ↔
      schema.coerceInput arg.type (literal.toJson bindings) = .ok value := by
  rw [coerceArgument, hliteral]
  dsimp only
  by_cases hnull : ((literal.toJson bindings).isNull && arg.type.isNonNull) = true
  · rw [if_pos hnull]
    rw [Bool.and_eq_true, Json.isNull_iff] at hnull
    rw [hnull.1]
    exact ⟨nofun, fun h => absurd h (coerceInput_null_of_nonNull hnull.2)⟩
  · rw [if_neg hnull]
    cases schema.coerceInput arg.type (literal.toJson bindings) with
    | ok coerced => simp
    | error rejection => exact ⟨nofun, nofun⟩

theorem coerceArgument_of_not_required {arg : ArgumentDef} {supplied : List (String × Literal)}
    {bindings : Json.Fields} (hliteral : suppliedLiteral? arg.name supplied bindings = none)
    (h : arg.isRequired = false) :
    schema.coerceArgument arg supplied bindings = .ok arg.defaultValue := by
  rw [coerceArgument, hliteral]
  exact if_neg (Bool.eq_false_iff.1 h)

end Schema

/-! ## The arguments of a field -/

/-- The argument is one of the field, and the only one that must be supplied. -/
structure FieldDef.NeedsOnly (field : FieldDef) (arg : ArgumentDef) : Prop where
  mem : arg ∈ field.arguments.values
  others : ∀ other ∈ field.arguments.values,
    other = arg ∨ other.name ≠ arg.name ∧ other.isRequired = false

namespace Schema

/-- The arguments that a field comes to are in order and hold the value under the name. -/
def Receives (schema : Schema) (field : FieldDef) (supplied : List (String × Literal))
    (bindings : Json.Fields) (name : String) (value : Json) : Prop :=
  ∃ arguments, schema.coerceArguments field supplied bindings = .ok arguments ∧
    arguments.lookup name = some value

variable {schema : Schema}

/-- The entry of one argument in the table of a field. -/
def entry (schema : Schema) (supplied : List (String × Literal)) (bindings : Json.Fields)
    (arg : ArgumentDef) : Except Rejection (Option (String × Json)) := do
  return (← schema.coerceArgument arg supplied bindings).map fun value => (arg.name, value)

theorem entry_eq_ok {supplied : List (String × Literal)} {bindings : Json.Fields}
    {arg : ArgumentDef} {result : Option (String × Json)} :
    schema.entry supplied bindings arg = .ok result ↔
      ∃ value, schema.coerceArgument arg supplied bindings = .ok value ∧
        value.map (fun value => (arg.name, value)) = result := by
  unfold entry
  cases schema.coerceArgument arg supplied bindings with
  | error rejection => simp [bind, Except.bind]
  | ok value => simp [bind, Except.bind, pure, Except.pure]

theorem coerceArguments_eq {field : FieldDef} {supplied : List (String × Literal)}
    {bindings : Json.Fields} :
    schema.coerceArguments field supplied bindings =
      (field.arguments.values.mapM (schema.entry supplied bindings)).map
        fun entries => entries.filterMap id := by
  show (field.arguments.values.mapM (schema.entry supplied bindings) >>=
    fun entries => pure (entries.filterMap id)) = _
  cases field.arguments.values.mapM (schema.entry supplied bindings) <;> rfl

/-- The table of a field lists the entries of its arguments. -/
theorem coerceArguments_eq_ok {field : FieldDef} {supplied : List (String × Literal)}
    {bindings arguments : Json.Fields} :
    schema.coerceArguments field supplied bindings = .ok arguments ↔
      ∃ results : List (Option (String × Json)),
        field.arguments.values.map (schema.entry supplied bindings) = results.map .ok ∧
          results.filterMap id = arguments := by
  rw [coerceArguments_eq]
  simp only [← mapM_eq_ok]
  cases field.arguments.values.mapM (schema.entry supplied bindings) <;> simp [Except.map]

/-- What the table holds under a name is the value of an argument of the name. -/
theorem mem_entries_iff {field : FieldDef} {supplied : List (String × Literal)}
    {bindings : Json.Fields} {results : List (Option (String × Json))}
    (hresults : field.arguments.values.map (schema.entry supplied bindings) = results.map .ok)
    {name : String} {value : Json} :
    (name, value) ∈ results.filterMap id ↔ ∃ arg ∈ field.arguments.values, arg.name = name ∧
      schema.coerceArgument arg supplied bindings = .ok (some value) := by
  constructor
  · intro hmem
    obtain ⟨result, hresult, hsome⟩ := List.mem_filterMap.1 hmem
    have hmade : Except.ok result ∈
        field.arguments.values.map (schema.entry supplied bindings) := by
      rw [hresults]
      exact List.mem_map_of_mem hresult
    obtain ⟨arg, harg, hentry⟩ := List.mem_map.1 hmade
    obtain ⟨coerced, hcoerced, hmap⟩ := entry_eq_ok.1 hentry
    obtain ⟨kept, rfl, hpair⟩ := Option.map_eq_some_iff.1 (hmap.trans hsome)
    obtain ⟨hname, rfl⟩ := Prod.mk.inj hpair
    exact ⟨arg, harg, hname, hcoerced⟩
  · rintro ⟨arg, harg, rfl, hvalue⟩
    have hmade : schema.entry supplied bindings arg ∈ results.map .ok := by
      rw [← hresults]
      exact List.mem_map_of_mem harg
    obtain ⟨result, hresult, hentry⟩ := List.mem_map.1 hmade
    obtain ⟨coerced, hcoerced, rfl⟩ := entry_eq_ok.1 hentry.symm
    rw [hvalue] at hcoerced
    obtain rfl := Except.ok.inj hcoerced
    exact List.mem_filterMap.2 ⟨_, hresult, rfl⟩

/-- A field receives for its one argument what the argument is coerced to. -/
theorem receives_iff {field : FieldDef} {arg : ArgumentDef} (hneeds : field.NeedsOnly arg)
    {literal : Literal} {bindings : Json.Fields} {value : Json} :
    schema.Receives field [(arg.name, literal)] bindings arg.name value ↔
      schema.coerceArgument arg [(arg.name, literal)] bindings = .ok (some value) := by
  -- only the argument itself makes an entry under its name
  have hown {results : List (Option (String × Json))}
      (hresults : field.arguments.values.map (schema.entry [(arg.name, literal)] bindings) =
        results.map .ok) {found : Json} (hfound : (arg.name, found) ∈ results.filterMap id) :
      schema.coerceArgument arg [(arg.name, literal)] bindings = .ok (some found) := by
    obtain ⟨other, hother, hname, hcoerced⟩ := (mem_entries_iff hresults).1 hfound
    rcases hneeds.others other hother with rfl | ⟨hne, -⟩
    · exact hcoerced
    · exact absurd hname hne
  constructor
  · rintro ⟨arguments, hok, hlookup⟩
    obtain ⟨results, hresults, rfl⟩ := coerceArguments_eq_ok.1 hok
    exact hown hresults (Keyed.mem_of_lookup hlookup)
  · intro hvalue
    have hothers : ∀ other ∈ field.arguments.values,
        ∃ result, schema.entry [(arg.name, literal)] bindings other = .ok result := by
      intro other hother
      rcases hneeds.others other hother with rfl | ⟨hne, hrequired⟩
      · exact ⟨_, entry_eq_ok.2 ⟨_, hvalue, rfl⟩⟩
      · have hnone : suppliedLiteral? other.name [(arg.name, literal)] bindings = none := by
          have hb : (other.name == arg.name) = false := by simpa using hne
          rw [suppliedLiteral?, List.lookup_cons, hb]
          rfl
        exact ⟨_, entry_eq_ok.2 ⟨_, coerceArgument_of_not_required hnone hrequired, rfl⟩⟩
    obtain ⟨results, hresults⟩ := exists_map_eq_ok hothers
    refine ⟨results.filterMap id, coerceArguments_eq_ok.2 ⟨results, hresults, rfl⟩, ?_⟩
    apply Keyed.lookup_eq_some_of_unique
    · exact (mem_entries_iff hresults).2 ⟨arg, hneeds.mem, rfl, hvalue⟩
    · intro found hfound
      have hsame := hown hresults hfound
      rw [hvalue] at hsame
      exact (Option.some.inj (Except.ok.inj hsame)).symm

end Schema

/-! ## Variables -/

namespace VariableDefinition

/-- The variable is the only one of its name, and no other one is at fault. -/
structure StandsIn (definition : VariableDefinition) (schema : Schema)
    (definitions : List VariableDefinition) (inputs : Json.Fields) : Prop where
  mem : definition ∈ definitions
  others : ∀ other ∈ definitions, other = definition ∨
    other.name ≠ definition.name ∧ ∃ value, other.value schema inputs = .ok value

/-- A variable has the value that its type makes of the provided one. -/
theorem value_of_provided {schema : Schema} {definition : VariableDefinition}
    (hinput : schema.isInput definition.type = true) {inputs : Json.Fields} {provided value : Json}
    (hprovided : inputs.lookup definition.name = some provided)
    (hvalue : schema.coerceInput definition.type provided = .ok value) :
    definition.value schema inputs = .ok (some value) := by
  have hfault : definition.requiredFault? inputs = none := by
    unfold requiredFault?
    by_cases hn : definition.type.isNonNull = true
    · rw [if_pos hn, hprovided]
      cases provided with
      | null => exact absurd hvalue (Schema.coerceInput_null_of_nonNull hn)
      | _ => rfl
    · rw [if_neg hn]
  rw [VariableDefinition.value, hinput, hfault, hprovided]
  dsimp only
  rw [hvalue]
  rfl

theorem StandsIn.lookup {definition : VariableDefinition} {schema : Schema}
    {definitions : List VariableDefinition} {inputs : Json.Fields}
    (h : definition.StandsIn schema definitions inputs) {value : Json}
    (hvalue : definition.value schema inputs = .ok (some value)) :
    ∃ bindings, schema.coerceVariables definitions inputs = .ok bindings ∧
      bindings.lookup definition.name = some value := by
  have herrors : definitions.filterMap (·.valueError? schema inputs) = [] := by
    rw [List.filterMap_eq_nil_iff]
    intro other hother
    rcases h.others other hother with rfl | ⟨-, found, hfound⟩
    · rw [valueError?, hvalue]
    · rw [valueError?, hfound]
  refine ⟨_, by rw [Schema.coerceVariables, herrors], ?_⟩
  rw [Keyed.lookup_ofList]
  refine Keyed.lookup_eq_some_of_unique ?_ fun found hfound => ?_
  · rw [List.mem_reverse]
    exact List.mem_filterMap.2 ⟨definition, h.mem, by rw [binding?, hvalue]⟩
  · rw [List.mem_reverse] at hfound
    obtain ⟨other, hother, hbinding⟩ := List.mem_filterMap.1 hfound
    rcases h.others other hother with rfl | ⟨hne, -⟩
    · rw [binding?, hvalue] at hbinding
      exact (Prod.mk.inj (Option.some.inj hbinding)).2.symm
    · unfold binding? at hbinding
      split at hbinding
      · exact absurd (Prod.mk.inj (Option.some.inj hbinding)).1 hne
      · cases hbinding

end VariableDefinition

/-! ## Literals without variables -/

namespace Literal

mutual

/-- The value of a constant literal depends on no variables. -/
theorem toJson_of_constant {bindings : Json.Fields} : ∀ {literal : Literal},
    literal.variableNames = [] → literal.toJson bindings = literal.toJson []
  | var name, h => by cases h
  | int n, _ => rfl
  | float x, _ => rfl
  | str text, _ => rfl
  | bool b, _ => rfl
  | null, _ => rfl
  | enum name, _ => rfl
  | list items, h => congrArg Json.arr (toJsonItems_of_constant h)
  | object fields, h => congrArg Json.obj (toJsonFields_of_constant h)

theorem toJsonItems_of_constant {bindings : Json.Fields} : ∀ {items : List Literal},
    variableNamesItems items = [] → toJsonItems bindings items = toJsonItems [] items
  | [], _ => rfl
  | item :: rest, h => by
    obtain ⟨hitem, hrest⟩ := List.append_eq_nil_iff.1 h
    rw [toJsonItems, toJsonItems, toJson_of_constant hitem, toJsonItems_of_constant hrest]

theorem toJsonFields_of_constant {bindings : Json.Fields} :
    ∀ {fields : List (String × Literal)},
    variableNamesFields fields = [] → toJsonFields bindings fields = toJsonFields [] fields
  | [], _ => rfl
  | (key, value) :: rest, h => by
    obtain ⟨hvalue, hrest⟩ := List.append_eq_nil_iff.1 h
    rw [toJsonFields, toJsonFields, toJson_of_constant hvalue, toJsonFields_of_constant hrest]

end

end Literal

/-! ## Passing a value -/

namespace Schema

variable {schema : Schema}

theorem receives_of_constant {field : FieldDef} {arg : ArgumentDef} (hneeds : field.NeedsOnly arg)
    {literal : Literal} (hconstant : literal.hasVariable = false) {bindings : Json.Fields}
    {value : Json} :
    schema.Receives field [(arg.name, literal)] bindings arg.name value ↔
      schema.coerceInput arg.type (literal.toJson []) = .ok value := by
  have hnames : literal.variableNames = [] := by simpa [Literal.hasVariable] using hconstant
  have hsupplied : suppliedLiteral? arg.name [(arg.name, literal)] bindings = some literal := by
    rw [suppliedLiteral?, List.lookup_cons_self]
    cases literal with
    | var name => cases hnames
    | _ => rfl
  rw [receives_iff hneeds, coerceArgument_eq_ok hsupplied, Literal.toJson_of_constant hnames]

theorem receives_of_variable {field : FieldDef} {arg : ArgumentDef} (hneeds : field.NeedsOnly arg)
    {name : String} {bindings : Json.Fields} {bound : Json}
    (hbound : bindings.lookup name = some bound) {value : Json} :
    schema.Receives field [(arg.name, .var name)] bindings arg.name value ↔
      schema.coerceInput arg.type bound = .ok value := by
  have hhas : bindings.has name = true := by rw [Keyed.has, hbound]; rfl
  have hsupplied : suppliedLiteral? arg.name [(arg.name, .var name)] bindings =
      some (.var name) := by
    rw [suppliedLiteral?, List.lookup_cons_self]
    exact if_pos hhas
  have hjson : (Literal.var name).toJson bindings = bound := by
    rw [Literal.toJson, hbound]
    rfl
  rw [receives_iff hneeds, coerceArgument_eq_ok hsupplied, hjson]

end Schema

/-- A value that goes through a variable of the argument's type is coerced to the type twice.  It
arrives as its type has coerced it once just when the type leaves that alone, as the types that
every schema starts with do, and then it arrives as a literal does. -/
theorem receives_variable_iff {blueprint : Blueprint} {schema : Schema}
    (hbuild : blueprint.build = .ok schema) {type name : String} {field : FieldDef}
    (hfield : schema.field? type name = some field) {arg : ArgumentDef}
    (hneeds : field.NeedsOnly arg) {definition : VariableDefinition}
    (htype : definition.type = arg.type) {definitions : List VariableDefinition}
    {inputs : Json.Fields} (hstands : definition.StandsIn schema definitions inputs)
    {provided value : Json} (hprovided : inputs.lookup definition.name = some provided)
    (hvalue : schema.coerceInput arg.type provided = .ok value) :
    ∃ bindings, schema.coerceVariables definitions inputs = .ok bindings ∧
      (∀ received,
        schema.Receives field [(arg.name, .var definition.name)] bindings arg.name received ↔
          schema.coerceInput arg.type value = .ok received) ∧
      ((∀ scalar, schema.type? arg.type.base = some (.scalar scalar) →
          scalar ∈ BuiltIn.scalars ∨ scalar.Settles) →
        schema.Receives field [(arg.name, .var definition.name)] bindings arg.name value) ∧
      ∀ literal : Literal, literal.hasVariable = false → literal.toJson [] = provided →
        schema.Receives field [(arg.name, literal)] bindings arg.name value := by
  have hinput : schema.isInput definition.type = true := by
    rw [htype]
    exact Blueprint.isInput_argument hbuild hfield hneeds.mem
  have hown : definition.value schema inputs = .ok (some value) :=
    VariableDefinition.value_of_provided hinput hprovided (by rw [htype]; exact hvalue)
  obtain ⟨bindings, hbindings, hbound⟩ := hstands.lookup hown
  have htwice (received : Json) :
      schema.Receives field [(arg.name, .var definition.name)] bindings arg.name received ↔
        schema.coerceInput arg.type value = .ok received :=
    Schema.receives_of_variable hneeds hbound
  refine ⟨bindings, hbindings, htwice, fun hscalar => ?_, fun literal hconstant hjson => ?_⟩
  · have hsettles : schema.Settles arg.type.base := by
      intro scalar hs
      rcases hscalar scalar hs with hbuiltIn | hsettles
      · exact BuiltIn.settles_of_mem hbuiltIn
      · exact hsettles
    exact (htwice value).2 (Schema.coerceInput_again hsettles hvalue).2
  · rw [Schema.receives_of_constant hneeds hconstant, hjson]
    exact hvalue

namespace Passing

/-- A scalar that changes what it made of an input when it sees it again. -/
def wrapper : ScalarDef := .scripted "Wrapped" none .pass .wrap

def argument : ArgumentDef := { name := "a", type := .named "Wrapped", defaultValue := none }

def field : FieldDef :=
  { name := "f"
    description := none
    type := .named "Wrapped"
    arguments := .ofList [("a", argument)]
    resolver := none }

def blueprint : Blueprint :=
  { queryType := some "Query"
    mutationType := none
    added :=
      [.scalar wrapper,
       .object
        { name := "Query"
          description := none
          fields := .ofList [("f", field)]
          interfaces := [] }] }

def schema : Schema := { queryType := "Query", mutationType := none, types := blueprint.table }

theorem build_blueprint : blueprint.build = .ok schema := by rfl

def definition : VariableDefinition :=
  { location := { line := 1, column := 9 }
    name := "v"
    type := .named "Wrapped"
    defaultValue := none }

theorem field?_schema : schema.field? "Query" "f" = some field := by rfl

theorem needsOnly_argument : field.NeedsOnly argument where
  mem := List.mem_singleton.2 rfl
  others _ h := .inl (List.mem_singleton.1 h)

theorem standsIn_definition : definition.StandsIn schema [definition] [("v", .int 1)] where
  mem := List.mem_singleton.2 rfl
  others _ h := .inl (List.mem_singleton.1 h)

end Passing

/-- What arrives through a variable was wrapped once more than what a literal brings. -/
theorem receives_variable_wrapped :
    ∃ bindings, Passing.schema.coerceVariables [Passing.definition] [("v", .int 1)] = .ok bindings ∧
      (∀ received, Passing.schema.Receives Passing.field [("a", .var "v")] bindings "a" received ↔
        received = .obj [("wrapped", .obj [("wrapped", .int 1)])]) ∧
      Passing.schema.Receives Passing.field [("a", .int 1)] bindings "a"
        (.obj [("wrapped", .int 1)]) := by
  obtain ⟨bindings, hbindings, htwice, -, hliteral⟩ :=
    receives_variable_iff Passing.build_blueprint Passing.field?_schema
      Passing.needsOnly_argument rfl Passing.standsIn_definition rfl rfl
  refine ⟨bindings, hbindings, fun received => ?_, hliteral (.int 1) rfl rfl⟩
  rw [show "a" = Passing.argument.name from rfl, show "v" = Passing.definition.name from rfl,
    htwice received]
  constructor
  · intro h
    exact (Except.ok.inj h).symm
  · rintro rfl
    rfl

/-- A value that goes through a variable may arrive as something else than its type makes of it. -/
theorem not_receives_coerced :
    ¬ ∀ (blueprint : Blueprint) (schema : Schema), blueprint.build = .ok schema →
      ∀ (type name : String) (field : FieldDef), schema.field? type name = some field →
      ∀ arg : ArgumentDef, field.NeedsOnly arg → arg.defaultValue = none →
      ∀ (definition : VariableDefinition) (inputs : Json.Fields) (provided value : Json),
        definition.type = arg.type → inputs.lookup definition.name = some provided →
        schema.coerceInput arg.type provided = .ok value →
        ∃ bindings, schema.coerceVariables [definition] inputs = .ok bindings ∧
          schema.Receives field [(arg.name, .var definition.name)] bindings arg.name value := by
  intro hall
  obtain ⟨bindings, hbindings, hreceives⟩ :=
    hall Passing.blueprint Passing.schema Passing.build_blueprint "Query" "f" Passing.field
      Passing.field?_schema Passing.argument Passing.needsOnly_argument rfl Passing.definition
      [("v", .int 1)] (.int 1) _ rfl rfl rfl
  obtain rfl : [("v", Json.obj [("wrapped", .int 1)])] = bindings := Except.ok.inj hbindings
  have hcoerced := (Schema.receives_of_variable Passing.needsOnly_argument rfl).1 hreceives
  cases hcoerced

end TypedQuery
