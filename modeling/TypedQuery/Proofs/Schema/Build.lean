import TypedQuery.Schema.Blueprint
import TypedQuery.Schema.Root
/-!
What a schema is that was built from a blueprint: its types stand under their own names, and its
roots are objects.
-/

namespace TypedQuery

/-- What follows a check is reached just when the check passes. -/
theorem bind_eq_ok {α ε : Type} {check : Except ε Unit} {next : Unit → Except ε α} {result : α} :
    check >>= next = .ok result ↔ check = .ok () ∧ next () = .ok result := by
  cases check with
  | error e => exact ⟨nofun, nofun⟩
  | ok _ => exact ⟨fun h => ⟨rfl, h⟩, fun h => h.2⟩

/-- A check of all items passes just when each item does. -/
theorem forM_eq_ok {α ε : Type} {check : α → Except ε Unit} {items : List α} :
    items.forM check = .ok () ↔ ∀ item ∈ items, check item = .ok () := by
  induction items with
  | nil => simp [pure, Except.pure]
  | cons item rest ih =>
    rw [List.forall_mem_cons, ← ih]
    show (check item >>= fun _ => rest.forM check) = .ok () ↔ _
    exact bind_eq_ok

namespace Keyed

variable {α : Type}

theorem mem_of_lookup {key : String} {value : α} {entries : Keyed α}
    (h : entries.lookup key = some value) : (key, value) ∈ entries := by
  obtain ⟨front, back, hsplit, -⟩ := List.lookup_eq_some_iff.1 h
  rw [hsplit]
  exact List.mem_append_right _ List.mem_cons_self

theorem mem_put {key : String} {value : α} {entries : Keyed α} {entry : String × α}
    (h : entry ∈ put key value entries) : entry = (key, value) ∨ entry ∈ entries := by
  induction entries with
  | nil => exact .inl (List.mem_singleton.1 h)
  | cons first rest ih =>
    obtain ⟨k, v⟩ := first
    rw [put] at h
    split at h
    · rcases List.mem_cons.1 h with h | h
      · exact .inl h
      · exact .inr (List.mem_cons_of_mem _ h)
    · rcases List.mem_cons.1 h with h | h
      · exact .inr (h ▸ List.mem_cons_self)
      · exact (ih h).imp id (List.mem_cons_of_mem _)

theorem mem_ofList {entries : List (String × α)} {entry : String × α} (h : entry ∈ ofList entries) :
    entry ∈ entries := by
  have hfold : ∀ (rest : List (String × α)) (table : Keyed α),
      entry ∈ rest.foldl (fun table entry => put entry.1 entry.2 table) table →
        entry ∈ rest ∨ entry ∈ table := by
    intro rest
    induction rest with
    | nil => exact fun _ h => .inr h
    | cons first rest ih =>
      intro table h
      rcases ih _ h with h | h
      · exact .inl (List.mem_cons_of_mem _ h)
      · rcases mem_put h with h | h
        · exact .inl (h ▸ List.mem_cons_self)
        · exact .inr h
  exact (hfold entries [] h).resolve_right (List.not_mem_nil)

/-- A table holds under a key the only value that stands there. -/
theorem lookup_eq_some_of_unique {entries : Keyed α} {key : String} {value : α}
    (hmem : (key, value) ∈ entries) (h : ∀ other, (key, other) ∈ entries → other = value) :
    entries.lookup key = some value := by
  cases hlookup : entries.lookup key with
  | none =>
    have hne := List.lookup_eq_none_iff.1 hlookup (key, value) hmem
    exact absurd rfl (bne_iff_ne.1 hne)
  | some other => rw [h other (Keyed.mem_of_lookup hlookup)]

/-- Of a repeated key the last value counts. -/
theorem lookup_ofList (entries : List (String × α)) (key : String) :
    (ofList entries).lookup key = entries.reverse.lookup key := by
  have hfold : ∀ (rest : List (String × α)) (table : Keyed α),
      (rest.foldl (fun table entry => put entry.1 entry.2 table) table).lookup key =
        (rest.reverse.lookup key).or (table.lookup key) := by
    intro rest
    induction rest with
    | nil => intro table; rfl
    | cons first rest ih =>
      intro table
      obtain ⟨k, v⟩ := first
      rw [List.foldl_cons, ih, List.reverse_cons, List.lookup_append, Option.or_assoc]
      by_cases hk : key = k
      · subst hk
        simp [lookup_put_self]
      · have hb : (key == k) = false := by simpa using hk
        simp [lookup_put_of_ne hk, List.lookup_cons, hb]
  have h := hfold entries []
  rw [List.lookup_nil, Option.or_none] at h
  exact h

end Keyed

namespace Schema

theorem mem_types {schema : Schema} {name : String} {type : TypeDef}
    (h : schema.type? name = some type) : (name, type) ∈ schema.types :=
  Keyed.mem_of_lookup h

theorem mem_fields {schema : Schema} {type name : String} {field : FieldDef}
    (h : schema.field? type name = some field) :
    ∃ owner fields, (type, owner) ∈ schema.types ∧ owner.fields? = some fields ∧
      (name, field) ∈ fields := by
  obtain ⟨fields, hfields, hfield⟩ := Option.bind_eq_some_iff.1 h
  obtain ⟨owner, howner, hf⟩ := Option.bind_eq_some_iff.1 hfields
  exact ⟨owner, fields, mem_types howner, hf, Keyed.mem_of_lookup hfield⟩

theorem object?_eq_some {schema : Schema} {name : String} {type : ObjectDef} :
    schema.object? name = some type ↔ schema.type? name = some (.object type) := by
  unfold object?
  cases h : schema.type? name with
  | none => simp
  | some found => cases found <;> simp

/-- The implementers of an interface are the objects that state it. -/
theorem mem_implementers {schema : Schema} {interface object : String} :
    object ∈ schema.implementers interface ↔
      ∃ type, .object type ∈ schema.types.values ∧ type.name = object ∧
        interface ∈ type.interfaces := by
  unfold implementers
  rw [List.mem_flatMap]
  constructor
  · rintro ⟨found, hfound, hnames⟩
    cases found with
    | object type =>
      obtain ⟨stated, hstated, hname⟩ := List.mem_map.1 hnames
      obtain ⟨hmem, hsame⟩ := List.mem_filter.1 hstated
      exact ⟨type, hfound, hname, beq_iff_eq.1 hsame ▸ hmem⟩
    | _ => cases hnames
  · rintro ⟨type, htype, hname, hmem⟩
    exact ⟨_, htype, List.mem_map.2 ⟨interface, List.mem_filter.2 ⟨hmem, BEq.rfl⟩, hname⟩⟩

/-- What belongs to a type is what is possible for it, unless it is an object. -/
theorem isPossible_iff {schema : Schema} {abstract_ object : String} :
    schema.isPossible abstract_ object = true ↔
      schema.object? abstract_ = none ∧ object ∈ schema.possibleTypes abstract_ := by
  unfold isPossible object? possibleTypes
  cases schema.type? abstract_ with
  | none => simp
  | some type => cases type <;> simp

end Schema

namespace Blueprint

theorem name_of_mem_table {b : Blueprint} {name : String} {type : TypeDef}
    (h : (name, type) ∈ b.table) : type.name = name := by
  rcases List.mem_append.1 (Keyed.mem_ofList h) with h | h
  · obtain ⟨scalar, -, he⟩ := List.mem_map.1 h
    obtain ⟨rfl, rfl⟩ := Prod.mk.inj he
    rfl
  · obtain ⟨added, -, he⟩ := List.mem_map.1 h
    obtain ⟨rfl, rfl⟩ := Prod.mk.inj he
    rfl

/-! ## The checks -/

theorem checkRoot_eq_ok {types : Keyed TypeDef} {kind : RootKind} {name : String} :
    checkRoot types kind name = .ok () ↔ ∃ type, types.lookup name = some (.object type) := by
  unfold checkRoot
  cases types.lookup name with
  | none => simp
  | some type => cases type <;> simp

theorem checkReference_eq_ok {types : Keyed TypeDef} {site : Site} {type : TypeExpr} :
    checkReference types site type = .ok () ↔
      type.marksTwice = false ∧ ∃ base, types.lookup type.base = some base := by
  unfold checkReference
  rw [← Option.isSome_iff_exists, ← Keyed.has]
  cases type.marksTwice with
  | true => simp
  | false => cases types.has type.base <;> simp

theorem checkArgument_eq_ok {types : Keyed TypeDef} {type field : String} {arg : ArgumentDef} :
    checkArgument types type field arg = .ok () ↔ arg.type.marksTwice = false ∧
      ∃ base, types.lookup arg.type.base = some base ∧ base.isLeaf = true := by
  unfold checkArgument
  rw [bind_eq_ok, checkReference_eq_ok]
  cases types.lookup arg.type.base with
  | none => simp
  | some base => cases hleaf : base.isLeaf <;> simp [hleaf]

theorem checkField_eq_ok {types : Keyed TypeDef} {type : String} {field : FieldDef} :
    checkField types type field = .ok () ↔
      checkReference types (.field type field.name) field.type = .ok () ∧
        ∀ arg ∈ field.arguments.values, checkArgument types type field.name arg = .ok () := by
  unfold checkField
  rw [bind_eq_ok, forM_eq_ok]

theorem checkInterface_eq_ok {types : Keyed TypeDef} {object interface : String} :
    checkInterface types object interface = .ok () ↔
      ∃ type, types.lookup interface = some (.interface type) := by
  unfold checkInterface
  cases types.lookup interface with
  | none => simp
  | some type => cases type <;> simp

theorem checkMember_eq_ok {types : Keyed TypeDef} {union member : String} :
    checkMember types union member = .ok () ↔
      ∃ type, types.lookup member = some (.object type) := by
  unfold checkMember
  cases types.lookup member with
  | none => simp
  | some type => cases type <;> simp

theorem checkType_object_eq_ok {types : Keyed TypeDef} {type : ObjectDef} :
    checkType types (.object type) = .ok () ↔
      (∀ field ∈ type.fields.values, checkField types type.name field = .ok ()) ∧
        ∀ interface ∈ type.interfaces, checkInterface types type.name interface = .ok () := by
  unfold checkType
  rw [bind_eq_ok, forM_eq_ok, forM_eq_ok]

/-- What is checked of a blueprint before it becomes a schema. -/
theorem build_eq_ok {b : Blueprint} {schema : Schema} :
    b.build = .ok schema ↔ firstDuplicate? (b.added.map TypeDef.name) = none ∧
      schema.types = b.table ∧ b.queryType = some schema.queryType ∧
      b.mutationType = schema.mutationType ∧ checkRoot b.table .query schema.queryType = .ok () ∧
      (∀ name, schema.mutationType = some name → checkRoot b.table .mutation name = .ok ()) ∧
      b.table.values.forM (checkType b.table) = .ok () := by
  unfold build
  cases firstDuplicate? (b.added.map TypeDef.name) with
  | some name => exact ⟨nofun, nofun⟩
  | none =>
    cases hquery : b.queryType with
    | none => exact ⟨nofun, nofun⟩
    | some queryType =>
      cases hmutation : b.mutationType with
      | none =>
        show (checkRoot b.table .query queryType >>= fun _ =>
          b.table.values.forM (checkType b.table) >>= fun _ =>
            .ok { queryType := queryType, mutationType := none, types := b.table }) =
              .ok schema ↔ _
        rw [bind_eq_ok, bind_eq_ok]
        constructor
        · rintro ⟨hroot, htypes, hschema⟩
          obtain rfl := Except.ok.inj hschema
          exact ⟨rfl, rfl, rfl, rfl, hroot, nofun, htypes⟩
        · rintro ⟨-, htypes, hquery, hmutation, hroot, -, hall⟩
          obtain rfl := Option.some.inj hquery
          refine ⟨hroot, hall, ?_⟩
          rw [← htypes, hmutation]
      | some mutationType =>
        show (checkRoot b.table .query queryType >>= fun _ =>
          checkRoot b.table .mutation mutationType >>= fun _ =>
            b.table.values.forM (checkType b.table) >>= fun _ =>
              .ok { queryType := queryType, mutationType := some mutationType, types := b.table }) =
                .ok schema ↔ _
        rw [bind_eq_ok, bind_eq_ok, bind_eq_ok]
        constructor
        · rintro ⟨hroot, hmroot, htypes, hschema⟩
          obtain rfl := Except.ok.inj hschema
          refine ⟨rfl, rfl, rfl, rfl, hroot, fun name hname => ?_, htypes⟩
          rwa [← Option.some.inj hname]
        · rintro ⟨-, htypes, hquery, hmutation, hroot, hmroot, hall⟩
          obtain rfl := Option.some.inj hquery
          refine ⟨hroot, hmroot _ hmutation.symm, hall, ?_⟩
          rw [← htypes, hmutation]

variable {b : Blueprint} {schema : Schema} (hb : b.build = .ok schema)

include hb

/-- A type stands under its own name. -/
theorem name_of_type? {name : String} {type : TypeDef} (h : schema.type? name = some type) :
    type.name = name := by
  obtain ⟨-, htypes, -⟩ := build_eq_ok.1 hb
  exact name_of_mem_table (htypes ▸ Schema.mem_types h)

theorem name_of_object? {name : String} {type : ObjectDef} (h : schema.object? name = some type) :
    type.name = name :=
  name_of_type? hb (Schema.object?_eq_some.1 h)

theorem object?_rootType {kind : OperationKind} {name : String}
    (h : schema.rootType? kind = some name) : (schema.object? name).isSome = true := by
  obtain ⟨-, htypes, -, -, hquery, hmutation, -⟩ := build_eq_ok.1 hb
  have hobject {root : RootKind} (hc : checkRoot b.table root name = .ok ()) :
      (schema.object? name).isSome = true := by
    obtain ⟨type, hl⟩ := checkRoot_eq_ok.1 hc
    have ht : schema.type? name = some (.object type) := by rw [Schema.type?, htypes, hl]
    rw [Schema.object?_eq_some.2 ht]
    rfl
  cases kind with
  | query => exact hobject (Option.some.inj h ▸ hquery)
  | mutation => exact hobject (hmutation name h)
  | subscription => cases h

/-- Every type of a schema has passed its check. -/
theorem checkType_of_mem {entry : String × TypeDef} (h : entry ∈ schema.types) :
    checkType schema.types entry.2 = .ok () := by
  obtain ⟨-, htypes, -, -, -, -, hall⟩ := build_eq_ok.1 hb
  rw [htypes] at h ⊢
  exact forM_eq_ok.1 hall entry.2 (List.mem_map_of_mem h)

/-- Every field of a schema has passed its check. -/
theorem checkField_of_field? {type name : String} {field : FieldDef}
    (hfield : schema.field? type name = some field) :
    ∃ owner, checkField schema.types owner field = .ok () := by
  obtain ⟨owner, fields, howner, hfields, hmem⟩ := Schema.mem_fields hfield
  have hcheck := checkType_of_mem hb howner
  have hvalue : field ∈ fields.values := List.mem_map_of_mem hmem
  cases owner with
  | object object =>
    obtain rfl : object.fields = fields := Option.some.inj hfields
    exact ⟨_, (checkType_object_eq_ok.1 hcheck).1 field hvalue⟩
  | interface interface =>
    obtain rfl : interface.fields = fields := Option.some.inj hfields
    exact ⟨_, forM_eq_ok.1 hcheck field hvalue⟩
  | _ => cases hfields

/-- The arguments of a field are of input types. -/
theorem isInput_argument {type name : String} {field : FieldDef}
    (hfield : schema.field? type name = some field) {arg : ArgumentDef}
    (harg : arg ∈ field.arguments.values) : schema.isInput arg.type = true := by
  obtain ⟨owner, hcheck⟩ := checkField_of_field? hb hfield
  obtain ⟨-, base, hbase, hleaf⟩ := checkArgument_eq_ok.1 ((checkField_eq_ok.1 hcheck).2 arg harg)
  unfold Schema.isInput Schema.isLeaf Schema.type?
  rw [hbase]
  exact hleaf

/-- The values of a field are of a type that the schema has. -/
theorem isSome_type?_of_field? {type name : String} {field : FieldDef}
    (hfield : schema.field? type name = some field) :
    (schema.type? field.type.base).isSome = true := by
  obtain ⟨owner, hcheck⟩ := checkField_of_field? hb hfield
  obtain ⟨-, base, hbase⟩ := checkReference_eq_ok.1 (checkField_eq_ok.1 hcheck).1
  rw [Schema.type?, hbase]
  rfl

end Blueprint
end TypedQuery
