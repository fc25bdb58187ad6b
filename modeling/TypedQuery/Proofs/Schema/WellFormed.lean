import TypedQuery.Proofs.Lists
import TypedQuery.Proofs.Schema.Membership
/-!
Which blueprints become schemas, and what the types of such a schema are.  `Blueprint.WellFormed`
says of the roots and of the types that were added what they must be, without a table and without an
order of checks.  A blueprint is built just when it is well-formed, and the possible types of an
interface are then the objects that declare it, in the order of the table: `build_succeeds_iff`.
-/

namespace TypedQuery

/-! ## References -/

/-- One reference is another or stands somewhere in it. -/
inductive TypeExpr.Within (part : TypeExpr) : TypeExpr → Prop
  | whole : Within part part
  | list {item : TypeExpr} (h : Within part item) : Within part (.list item)
  | nonNull {inner : TypeExpr} (h : Within part inner) : Within part (.nonNull inner)

theorem TypeExpr.marksTwice_iff {type : TypeExpr} :
    type.marksTwice = true ↔ ∃ inner, Within (.nonNull (.nonNull inner)) type := by
  constructor
  · intro h
    induction type with
    | named name => cases h
    | list item ih =>
      obtain ⟨inner, hinner⟩ := ih h
      exact ⟨inner, .list hinner⟩
    | nonNull next ih =>
      rw [marksTwice, Bool.or_eq_true] at h
      rcases h with hmark | hnext
      · cases next with
        | nonNull inner => exact ⟨inner, .whole⟩
        | _ => cases hmark
      · obtain ⟨inner, hinner⟩ := ih hnext
        exact ⟨inner, .nonNull hinner⟩
  · rintro ⟨inner, h⟩
    induction h with
    | whole => rfl
    | list _ ih => exact ih
    | nonNull _ ih => rw [marksTwice, ih, Bool.or_true]

/-! ## The table -/

namespace Keyed

variable {α β : Type}

/-- The keys of a table are those that were put, each where it came first. -/
theorem keys_ofList (entries : List (String × α)) :
    (ofList entries).keys = (entries.map Prod.fst).eraseDups := by
  induction entries using List.reverseRecOn with
  | nil => rfl
  | append_singleton entries entry ih =>
    rw [ofList, List.foldl_append, List.foldl_cons, List.foldl_nil, ← ofList, keys_put, ih,
      List.map_append, List.map_singleton, eraseDups_concat]
    simp only [List.mem_eraseDups]

/-- Values that stand under different names are found under their own. -/
theorem lookup_reverse_map_eq_some {items : List β} {name : β → String} {value : β → α}
    (hnames : (items.map name).Nodup) {key : String} {found : α} :
    (items.map fun item => (name item, value item)).reverse.lookup key = some found ↔
      ∃ item ∈ items, name item = key ∧ value item = found := by
  constructor
  · intro h
    obtain ⟨item, hitem, he⟩ := List.mem_map.1 (List.mem_reverse.1 (mem_of_lookup h))
    exact ⟨item, hitem, Prod.mk.inj he⟩
  · rintro ⟨item, hitem, rfl, rfl⟩
    refine lookup_eq_some_of_unique (List.mem_reverse.2 (List.mem_map_of_mem hitem)) ?_
    intro other hother
    obtain ⟨same, hsame, he⟩ := List.mem_map.1 (List.mem_reverse.1 hother)
    obtain ⟨hname, rfl⟩ := Prod.mk.inj he
    rw [List.inj_on_of_nodup_map hnames hsame hitem hname]

end Keyed

/-- How often an object declares an interface. -/
def Schema.declarations (schema : Schema) (object interface : String) : Nat :=
  match schema.object? object with
  | some type => type.interfaces.count interface
  | none => 0

namespace Blueprint

variable {b : Blueprint}

/-- What a name stands for: the type that was added under it, or else the scalar that every schema
starts with. -/
def Defines (b : Blueprint) (name : String) (type : TypeDef) : Prop :=
  (type ∈ b.added ∧ type.name = name) ∨
    (∀ added ∈ b.added, added.name ≠ name) ∧
      ∃ scalar ∈ BuiltIn.scalars, scalar.name = name ∧ TypeDef.scalar scalar = type

/-- The table holds what the names stand for. -/
theorem lookup_table_iff (hnames : (b.added.map TypeDef.name).Nodup) {name : String}
    {type : TypeDef} : b.table.lookup name = some type ↔ b.Defines name type := by
  have hscalars : (BuiltIn.scalars.map ScalarDef.name).Nodup := BuiltIn.nodup_names
  rw [table, Keyed.lookup_ofList, List.reverse_append, List.lookup_append, Option.or_eq_some_iff,
    Keyed.lookup_reverse_map_eq_some hnames, Keyed.lookup_reverse_map_eq_some hscalars,
    List.lookup_eq_none_iff]
  simp only [List.mem_reverse, List.forall_mem_map, bne_iff_ne, Defines, ne_comm]
  refine or_congr_left ⟨?_, ?_⟩
  · rintro ⟨added, hadded, hname, rfl⟩
    exact ⟨hadded, hname⟩
  · rintro ⟨hadded, hname⟩
    exact ⟨type, hadded, hname, rfl⟩

theorem mem_values_table (hnames : (b.added.map TypeDef.name).Nodup) {type : TypeDef}
    (h : type ∈ b.added) : type ∈ b.table.values :=
  List.mem_map_of_mem (Keyed.mem_of_lookup ((lookup_table_iff hnames).2 (.inl ⟨h, rfl⟩)))

/-- The scalars that every schema starts with come first, also those that are replaced, then what
was added. -/
theorem keys_table (hnames : (b.added.map TypeDef.name).Nodup) :
    b.table.keys = BuiltIn.names ++
      (b.added.map TypeDef.name).filter fun name => !BuiltIn.isName name := by
  have hscalars : (BuiltIn.scalars.map fun scalar => (scalar.name, TypeDef.scalar scalar)).map
      Prod.fst = BuiltIn.names := rfl
  have hadded : (b.added.map fun type => (type.name, type)).map Prod.fst =
      b.added.map TypeDef.name := by
    rw [List.map_map]
    rfl
  rw [table, Keyed.keys_ofList, List.map_append, hscalars, hadded, List.eraseDups_append,
    eraseDups_of_nodup BuiltIn.nodup_names]
  exact congrArg _ (eraseDups_of_nodup (hnames.filter _))

/-! ## Well-formed blueprints -/

/-- The reference names a type that is there, and no mark stands directly inside a mark. -/
structure Resolves (b : Blueprint) (type : TypeExpr) : Prop where
  base : ∃ base, b.Defines type.base base
  marks : ∀ inner, ¬ TypeExpr.Within (.nonNull (.nonNull inner)) type

/-- Whatever the type refers to is there and of the right kind. -/
structure Supports (b : Blueprint) (type : TypeDef) : Prop where
  fields : ∀ fields, type.fields? = some fields → ∀ field ∈ fields.values,
    b.Resolves field.type ∧ ∀ arg ∈ field.arguments.values,
      b.Resolves arg.type ∧ ∃ base, b.Defines arg.type.base base ∧ base.isLeaf = true
  interfaces : ∀ object, type = .object object → ∀ name ∈ object.interfaces,
    ∃ interface, b.Defines name (.interface interface)
  members : ∀ union, type = .union union → ∀ name ∈ union.members,
    ∃ object, b.Defines name (.object object)

structure WellFormed (b : Blueprint) : Prop where
  names : (b.added.map TypeDef.name).Nodup
  query : ∃ name type, b.queryType = some name ∧ b.Defines name (.object type)
  mutation : ∀ name, b.mutationType = some name → ∃ type, b.Defines name (.object type)
  types : ∀ type ∈ b.added, b.Supports type

/-- No name is a duplicate just when each is there once. -/
theorem firstDuplicate?_eq_none_iff {names : List String} :
    firstDuplicate? names = none ↔ names.Nodup := by
  have hgo : ∀ (rest seen : List String), firstDuplicate?.go seen rest = none ↔
      rest.Nodup ∧ ∀ name ∈ rest, name ∉ seen := by
    intro rest
    induction rest with
    | nil => simp [firstDuplicate?.go]
    | cons first rest ih =>
      intro seen
      rw [firstDuplicate?.go, List.nodup_cons, List.forall_mem_cons]
      by_cases hseen : first ∈ seen
      · simp [hseen]
      · -- what the rest must avoid is `first` and what was seen before
        rw [if_neg (by simpa using hseen), ih (first :: seen)]
        simp only [List.mem_cons, not_or, forall_and, hseen]
        grind
  rw [firstDuplicate?, hgo names []]
  simp

theorem resolves_iff {type : TypeExpr} :
    b.Resolves type ↔ type.marksTwice = false ∧ ∃ base, b.Defines type.base base := by
  rw [← Bool.not_eq_true, TypeExpr.marksTwice_iff, not_exists]
  exact ⟨fun h => ⟨h.marks, h.base⟩, fun h => ⟨h.2, h.1⟩⟩

section Checks

variable (hnames : (b.added.map TypeDef.name).Nodup)

include hnames

theorem checkReference_table {site : Site} {type : TypeExpr} :
    checkReference b.table site type = .ok () ↔ b.Resolves type := by
  rw [checkReference_eq_ok, resolves_iff]
  simp only [lookup_table_iff hnames]

theorem checkArgument_table {owner field : String} {arg : ArgumentDef} :
    checkArgument b.table owner field arg = .ok () ↔
      b.Resolves arg.type ∧ ∃ base, b.Defines arg.type.base base ∧ base.isLeaf = true := by
  rw [checkArgument_eq_ok, resolves_iff]
  simp only [lookup_table_iff hnames]
  constructor
  · rintro ⟨hmarks, base, hbase, hleaf⟩
    exact ⟨⟨hmarks, base, hbase⟩, base, hbase, hleaf⟩
  · rintro ⟨⟨hmarks, -⟩, hbase⟩
    exact ⟨hmarks, hbase⟩

theorem checkField_table {owner : String} {field : FieldDef} :
    checkField b.table owner field = .ok () ↔ b.Resolves field.type ∧
      ∀ arg ∈ field.arguments.values,
        b.Resolves arg.type ∧ ∃ base, b.Defines arg.type.base base ∧ base.isLeaf = true := by
  rw [checkField_eq_ok, checkReference_table hnames]
  simp only [checkArgument_table hnames]

theorem checkType_table {type : TypeDef} :
    checkType b.table type = .ok () ↔ b.Supports type := by
  cases type with
  | object object =>
    simp only [checkType_object_eq_ok, checkField_table hnames, checkInterface_eq_ok,
      lookup_table_iff hnames]
    constructor
    · rintro ⟨hfields, hinterfaces⟩
      refine ⟨?_, ?_, nofun⟩
      · rintro fields ⟨⟩
        exact hfields
      · rintro other ⟨⟩
        exact hinterfaces
    · intro h
      exact ⟨h.fields _ rfl, h.interfaces _ rfl⟩
  | interface interface =>
    rw [checkType, forM_eq_ok]
    simp only [checkField_table hnames]
    constructor
    · intro hfields
      refine ⟨?_, nofun, nofun⟩
      rintro fields ⟨⟩
      exact hfields
    · intro h
      exact h.fields _ rfl
  | union union =>
    rw [checkType, forM_eq_ok]
    simp only [checkMember_eq_ok, lookup_table_iff hnames]
    constructor
    · intro hmembers
      refine ⟨nofun, nofun, ?_⟩
      rintro other ⟨⟩
      exact hmembers
    · intro h
      exact h.members _ rfl
  | scalar scalar => exact ⟨fun _ => ⟨nofun, nofun, nofun⟩, fun _ => rfl⟩
  | enum enum => exact ⟨fun _ => ⟨nofun, nofun, nofun⟩, fun _ => rfl⟩

/-- The scalars that every schema starts with refer to nothing. -/
theorem forM_checkType_table :
    b.table.values.forM (checkType b.table) = .ok () ↔ ∀ type ∈ b.added, b.Supports type := by
  rw [forM_eq_ok]
  constructor
  · intro h type htype
    exact (checkType_table hnames).1 (h type (mem_values_table hnames htype))
  · intro h type htype
    obtain ⟨⟨name, same⟩, hentry, rfl⟩ := List.mem_map.1 htype
    rcases (lookup_table_iff hnames).1 (Keyed.lookup_of_mem (Keyed.nodup_keys_ofList _) hentry) with
      ⟨hadded, -⟩ | ⟨-, scalar, -, -, rfl⟩
    · exact (checkType_table hnames).2 (h same hadded)
    · rfl

end Checks

theorem exists_build_iff : (∃ schema, b.build = .ok schema) ↔ b.WellFormed := by
  simp only [build_eq_ok, firstDuplicate?_eq_none_iff]
  constructor
  · rintro ⟨schema, hnames, -, hquery, hmutation, hroot, hmroot, htypes⟩
    rw [← hmutation] at hmroot
    simp only [checkRoot_eq_ok, lookup_table_iff hnames] at hroot hmroot
    obtain ⟨type, hroot⟩ := hroot
    exact ⟨hnames, ⟨_, type, hquery, hroot⟩, hmroot, (forM_checkType_table hnames).1 htypes⟩
  · rintro ⟨hnames, ⟨name, type, hquery, hroot⟩, hmroot, htypes⟩
    refine ⟨{ queryType := name, mutationType := b.mutationType, types := b.table }, hnames, rfl,
      hquery, rfl, ?_, ?_, (forM_checkType_table hnames).2 htypes⟩
    · exact checkRoot_eq_ok.2 ⟨type, (lookup_table_iff hnames).2 hroot⟩
    · intro root hmutation
      obtain ⟨type, hroot⟩ := hmroot root hmutation
      exact checkRoot_eq_ok.2 ⟨type, (lookup_table_iff hnames).2 hroot⟩

/-! ## Interfaces -/

section Interfaces

variable {schema : Schema} (hbuild : b.build = .ok schema)

include hbuild

theorem type?_iff_defines {name : String} {type : TypeDef} :
    schema.type? name = some type ↔ b.Defines name type := by
  obtain ⟨hnames, htypes, -⟩ := build_eq_ok.1 hbuild
  rw [Schema.type?, htypes, lookup_table_iff (firstDuplicate?_eq_none_iff.1 hnames)]

/-- The objects that declare an interface, in the order of the table. -/
theorem implementers_eq (interface : String) :
    schema.implementers interface = schema.types.keys.flatMap fun object =>
      List.replicate (schema.declarations object interface) object := by
  unfold Schema.implementers Keyed.values Keyed.keys
  rw [List.flatMap_map, List.flatMap_map]
  refine List.flatMap_congr fun entry hentry => ?_
  have htype := (mem_types_iff hbuild).1 hentry
  have hname := name_of_type? hbuild htype
  unfold Schema.declarations
  cases hkind : entry.2 with
  | object object =>
    rw [hkind] at htype hname
    rw [Schema.object?_eq_some.2 htype]
    dsimp only
    rw [List.map_const', ← List.count_eq_length_filter, ← hname, TypeDef.name]
  | _ =>
    have hnone : schema.object? entry.1 = none := by
      rw [Schema.object?, htype, hkind]
    rw [hnone]
    rfl

theorem mem_implementers_iff {object interface : String} :
    object ∈ schema.implementers interface ↔
      ∃ type, schema.type? object = some (.object type) ∧ interface ∈ type.interfaces := by
  rw [implementers_eq hbuild, List.mem_flatMap]
  constructor
  · rintro ⟨name, -, hmem⟩
    obtain ⟨hcount, rfl⟩ := List.mem_replicate.1 hmem
    unfold Schema.declarations at hcount
    cases htype : schema.object? object with
    | none =>
      rw [htype] at hcount
      exact absurd rfl hcount
    | some type =>
      rw [htype] at hcount
      exact ⟨type, Schema.object?_eq_some.1 htype,
        List.count_pos_iff.1 (Nat.pos_of_ne_zero hcount)⟩
  · rintro ⟨type, htype, hdeclares⟩
    refine ⟨object, List.mem_map_of_mem (Schema.mem_types htype), List.mem_replicate.2 ⟨?_, rfl⟩⟩
    unfold Schema.declarations
    rw [Schema.object?_eq_some.2 htype]
    exact Nat.ne_of_gt (List.count_pos_iff.2 hdeclares)

end Interfaces
end Blueprint

/-- A blueprint becomes a schema just when it is well-formed.  The types of the schema are then what
the names of the blueprint stand for, in the order in which they were added, with the scalars that
every schema starts with in front, replaced or not.  An object is a possible type of an interface
just when it declares it, and the possible types come in that order, once for each declaration. -/
theorem build_succeeds_iff (steps : List Blueprint.Step) :
    ((∃ schema, (Blueprint.ofSteps steps).build = .ok schema) ↔
      (Blueprint.ofSteps steps).WellFormed) ∧
    ∀ schema, (Blueprint.ofSteps steps).build = .ok schema →
      (∀ name type, schema.type? name = some type ↔ (Blueprint.ofSteps steps).Defines name type) ∧
      (schema.types.keys = BuiltIn.names ++
        ((Blueprint.ofSteps steps).added.map TypeDef.name).filter fun name =>
          !BuiltIn.isName name) ∧
      ∀ name interface, schema.type? name = some (.interface interface) →
        (∀ object type, schema.type? object = some (.object type) →
          (object ∈ schema.possibleTypes name ↔ name ∈ type.interfaces)) ∧
        schema.possibleTypes name = schema.types.keys.flatMap fun object =>
          List.replicate (schema.declarations object name) object := by
  refine ⟨Blueprint.exists_build_iff, fun schema hbuild => ⟨fun name type => ?_, ?_, ?_⟩⟩
  · exact Blueprint.type?_iff_defines hbuild
  · obtain ⟨hnames, htypes, -⟩ := Blueprint.build_eq_ok.1 hbuild
    rw [htypes, Blueprint.keys_table (Blueprint.firstDuplicate?_eq_none_iff.1 hnames)]
  · intro name interface hinterface
    have hpossible : schema.possibleTypes name = schema.implementers name := by
      rw [Schema.possibleTypes, hinterface]
    rw [hpossible]
    refine ⟨fun object type htype => ?_, Blueprint.implementers_eq hbuild name⟩
    rw [Blueprint.mem_implementers_iff hbuild]
    constructor
    · rintro ⟨other, hother, hdeclares⟩
      rw [htype] at hother
      cases hother
      exact hdeclares
    · intro hdeclares
      exact ⟨type, htype, hdeclares⟩

namespace Kennel

def field (name : String) (type : TypeExpr) : String × FieldDef :=
  (name,
    { name := name, description := none, type := type, arguments := [], resolver := none })

def object (name : String) (interfaces : List String) (fields : Keyed FieldDef) : TypeDef :=
  .object { name := name, description := none, fields := fields, interfaces := interfaces }

def named : InterfaceDef :=
  { name := "Named", fields := [field "name" (.named "String")], placer := none }

def pet : UnionDef := { name := "Pet", members := ["Cat", "Dog"], placer := none }

/-- What has a name is a dog, a cat, or an ID, which is no scalar here. -/
def steps : List Blueprint.Step :=
  [.queryType "Dog",
   .addType (object "Dog" ["Named"] [field "name" (.nonNull (.named "String"))]),
   .addType (.interface named),
   .addType (object "Cat" ["Named"] [field "name" (.named "String")]),
   .addType (object "ID" ["Named"] [field "name" (.named "String")]),
   .addType (.union pet),
   .addType (object "Query" [] [field "pets" (.list (.named "Pet"))]),
   .queryType "Query"]

def schema : Schema :=
  { queryType := "Query", mutationType := none, types := (Blueprint.ofSteps steps).table }

theorem build_steps : (Blueprint.ofSteps steps).build = .ok schema := by rfl

end Kennel

/-- The ID stands where the scalar of its name stood, in front of the dog and the cat. -/
theorem build_succeeds_kennel : (Blueprint.ofSteps Kennel.steps).WellFormed ∧
    Kennel.schema.possibleTypes "Named" = ["ID", "Dog", "Cat"] := by
  obtain ⟨hbuilds, htypes⟩ := build_succeeds_iff Kennel.steps
  obtain ⟨-, -, hinterfaces⟩ := htypes Kennel.schema Kennel.build_steps
  refine ⟨hbuilds.1 ⟨Kennel.schema, Kennel.build_steps⟩, ?_⟩
  rw [(hinterfaces "Named" Kennel.named rfl).2]
  rfl

end TypedQuery
