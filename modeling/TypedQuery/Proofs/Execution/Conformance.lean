import TypedQuery.Proofs.Execution.Positions
/-!
Response data is well typed.  Data of an object has a member for each answered group, and the member
of a field is of the field's declared type: `execute_fits`.
-/

namespace TypedQuery
namespace Selector

/-- The groups that selections come to on an object type and that have a meaning there, in the order
of their first fields. -/
def answered (s : Selector) (type : String) (sets : List (List Selection)) : List FieldGroup :=
  (FieldGroup.ofNodes (s.collect type sets)).filter fun group =>
    group.first.name == "__typename" || (s.schema.field? type group.first.name).isSome

mutual

/-- The data is of a type, where its objects answer what the nodes select. -/
inductive Fits (s : Selector) : List FieldNode → TypeExpr → Json → Prop
  | null {nodes : List FieldNode} {type : TypeExpr} (h : type.isNonNull = false) :
      Fits s nodes type .null
  | nonNull {nodes : List FieldNode} {inner : TypeExpr} {data : Json} (h : Fits s nodes inner data)
      (hdata : data ≠ .null) : Fits s nodes (.nonNull inner) data
  | list {nodes : List FieldNode} {item : TypeExpr} {items : List Json}
      (h : ∀ data ∈ items, Fits s nodes item data) : Fits s nodes (.list item) (.arr items)
  | scalar {nodes : List FieldNode} {name : String} {type : ScalarDef} {value data : Json}
      (htype : s.schema.type? name = some (.scalar type)) (h : type.serialize value = .ok data) :
      Fits s nodes (.named name) data
  | enum {nodes : List FieldNode} {name text : String} {type : EnumDef}
      (htype : s.schema.type? name = some (.enum type)) (h : text ∈ type.values) :
      Fits s nodes (.named name) (.str text)
  | object {nodes : List FieldNode} {name object : String} {fields : Json.Fields}
      (hobject : object ∈ s.schema.possibleTypes name)
      (h : FitsObject s object (nodes.map (·.selections)) fields) :
      Fits s nodes (.named name) (.obj fields)

/-- The fields are those of an object of a type. -/
inductive FitsObject (s : Selector) : String → List (List Selection) → Json.Fields → Prop
  | intro {type : String} {sets : List (List Selection)} {fields : Json.Fields}
      (hobject : (s.schema.object? type).isSome = true)
      (hkeys : fields.keys = (s.answered type sets).map (·.key))
      (htypename : ∀ group data, (group, data) ∈ (s.answered type sets).zip fields.values →
        group.first.name = "__typename" → data = .str type)
      (hfield : ∀ group data field, (group, data) ∈ (s.answered type sets).zip fields.values →
        group.first.name ≠ "__typename" →
          s.schema.field? type group.first.name = some field →
            Fits s group.nodes field.type data) :
      FitsObject s type sets fields

end

/-- Marks ask for nothing but that the data is not null. -/
theorem Fits.of_bare {s : Selector} {nodes : List FieldNode} {type : TypeExpr} {data : Json}
    (h : Fits s nodes type.bare data) (hn : type.isNonNull = true → data ≠ .null) :
    Fits s nodes type data := by
  induction type with
  | named name => exact h
  | list item => exact h
  | nonNull inner ih => exact .nonNull (ih h fun _ => hn rfl) (hn rfl)

end Selector

namespace Execution

variable (exec : Execution)

theorem fits_leaf {nodes : List FieldNode} {name : String} {value data : Json}
    (h : exec.schema.coerceResult name value = .ok data) :
    exec.selector.Fits nodes (.named name) data := by
  rcases Schema.coerceResult_eq_ok h with ⟨type, htype, hs⟩ | ⟨type, text, htype, ht, rfl⟩
  · exact .scalar htype hs
  · exact .enum htype ht

/-- A member that takes no null out of its set fits its place. -/
theorem fits_member {place : Place} {o : Outline} (h : exec.Ended place o)
    (hnull : place.type.isNonNull = true → o.isNulled = false)
    (hname : place.value = none → place.nodes.head?.map (·.name) ≠ some "__typename")
    (ih : ∀ value, exec.Completed place.nodes place.type value o → o.isNulled = false →
      exec.selector.Fits place.nodes place.type o.data) :
    exec.selector.Fits place.nodes place.type o.data := by
  by_cases hn : o.isNulled = true
  · rw [Outline.data_of_isNulled hn]
    refine .null (Bool.eq_false_iff.2 fun ht => ?_)
    rw [hnull ht] at hn
    cases hn
  have hn : o.isNulled = false := Bool.eq_false_iff.2 hn
  cases h.1 with
  | completed hvalue hmade hc => exact ih _ hc hn
  | typename _ hvalue hown _ => exact absurd hown (hname hvalue)
  | rejected _ _ ho => rw [ho] at hn; cases hn
  | cut _ _ _ ho => rw [ho] at hn; cases hn
  | hung hmade _ hpause _ => exact absurd hpause (h.pause_ne_forever hmade)
  | raised _ _ _ ho =>
    rcases ho with ⟨failure, ho, -⟩ | ⟨cause, ho⟩
    · rw [ho] at hn; cases hn
    · rw [ho] at hn; cases hn

theorem fitsObject {type : String} {sets : List (List Selection)} {members : List (Place × Outline)}
    (hobject : (exec.schema.object? type).isSome = true) (hc : exec.Covers type sets members)
    (hnull : Outline.anyNulled members = false)
    (h : ∀ member ∈ members, exec.Ended member.1 member.2)
    (ih : ∀ member ∈ members, ∀ nodes type value, exec.Completed nodes type value member.2 →
      member.2.isNulled = false → exec.selector.Fits nodes type member.2.data) :
    exec.selector.FitsObject type sets
      ((Outline.memberData members).map fun member => (member.1.text, member.2)) := by
  rw [Outline.memberData_eq_map, List.map_map]
  have hpair {group : FieldGroup} {data : Json}
      (hm : (group, data) ∈ (exec.selector.answered type sets).zip
        (Keyed.values (members.map fun member => (member.1.segment.text, member.2.data)))) :
      ∃ member ∈ members, exec.Answers type group member ∧ data = member.2.data := by
    rw [Keyed.values, List.map_map, List.zip_map_right] at hm
    obtain ⟨⟨g, member⟩, hzip, he⟩ := List.mem_map.1 hm
    obtain ⟨rfl, rfl⟩ := Prod.mk.inj he
    exact ⟨member, (List.of_mem_zip hzip).2, List.forall₂_zip hc hzip, rfl⟩
  refine .intro hobject ?_ ?_ ?_
  · have hkeys := congrArg (List.map PathSegment.text) (segments_of_answers hc)
    rw [List.map_map, List.map_map] at hkeys
    rw [Keyed.keys, List.map_map]
    exact hkeys
  · intro group data hm hname
    obtain ⟨member, -, ⟨-, -, ha⟩, rfl⟩ := hpair hm
    rw [if_pos hname] at ha
    rw [ha.2]
    rfl
  · intro group data field hm hname hfield
    obtain ⟨member, hmember, ⟨-, hnodes, ha⟩, rfl⟩ := hpair hm
    rw [if_neg hname] at ha
    obtain ⟨own, hown, htype⟩ := ha
    have hsame : own = field := Option.some.inj (hown.symm.trans hfield)
    rw [← hnodes, ← hsame, ← htype]
    refine exec.fits_member (h member hmember)
      (Outline.anyNulled_eq_false.1 hnull member hmember) ?_
      (fun value => ih member hmember _ _ value)
    rw [hnodes]
    exact fun _ hhead => hname (Option.some.inj hhead)

variable (hnames : ∀ name type, exec.schema.object? name = some type → type.name = name)

include hnames

theorem isSome_of_isObject {type : String} (h : exec.schema.IsObject type) :
    (exec.schema.object? type).isSome = true := by
  obtain ⟨placed, def_, ho, rfl⟩ := h
  rw [hnames placed def_ ho, ho]
  rfl

/-- Data that is not on its way out fits the type that it was completed at. -/
theorem fits_data (o : Outline) (hall : o.All exec.Ended) {nodes : List FieldNode} {type : TypeExpr}
    {value : Json} (hc : exec.Completed nodes type value o) (hn : o.isNulled = false) :
    exec.selector.Fits nodes type o.data := by
  induction o using Outline.induct generalizing nodes type value with
  | hfailed failure => cases hn
  | hescaped cause => cases hn
  | hleaf data =>
    obtain ⟨hmark, ⟨-, hnull⟩ | ⟨name, hbare, hleaf⟩⟩ := hc
    · rw [Outline.data, hnull]
      exact .null (hmark hnull)
    · refine .of_bare ?_ fun ht hd => ?_
      · rw [hbare]
        exact exec.fits_leaf hleaf
      · rw [hmark hd] at ht
        cases ht
  | hset kind members ih =>
    have hmembers := Outline.all_set.1 hall
    have hdata : (Outline.set kind members).data = kind.build (Outline.memberData members) :=
      if_neg (by rw [show Outline.anyNulled members = false from hn]; exact Bool.false_ne_true)
    rw [hdata]
    cases kind with
    | items =>
      obtain ⟨item, items, hbare, -, hplaces⟩ := hc
      refine .of_bare ?_ fun _ => Json.noConfusion
      rw [hbare]
      refine .list fun data hd => ?_
      rw [Outline.memberData_eq_map, List.map_map] at hd
      obtain ⟨member, hm, rfl⟩ := List.mem_map.1 hd
      obtain ⟨hended, hbelow⟩ := hmembers member hm
      have hplace : member.1 ∈ items.zipIdx.map (itemPlace item nodes) :=
        hplaces ▸ List.mem_map_of_mem hm
      obtain ⟨entry, -, hplace⟩ := List.mem_map.1 hplace
      have hfits := exec.fits_member hended (Outline.anyNulled_eq_false.1 hn member hm)
        (fun hvalue => by rw [← hplace] at hvalue; cases hvalue)
        (fun value hc hn => ih member hm hbelow hc hn)
      rw [← hplace] at hfits
      exact hfits
    | fields object =>
      obtain ⟨name, hbare, hp, hobject, hcovers⟩ := hc
      refine .of_bare ?_ fun _ => Json.noConfusion
      rw [hbare]
      exact .object hp (exec.fitsObject (exec.isSome_of_isObject hnames hobject) hcovers hn
        (fun member hm => (hmembers member hm).1)
        (fun member hm _ _ _ hc hn => ih member hm (hmembers member hm).2 hc hn))

end Execution

theorem Run.fitsObject {run : Run}
    (hnames : ∀ name type, run.selector.schema.object? name = some type → type.name = name)
    (hroot : (run.selector.schema.object? run.rootType).isSome = true) {r : Response}
    (h : run.ending.response? = some r) {data : Json} (hdata : r.data = some data)
    (hnull : data ≠ .null) :
    ∃ fields, data = .obj fields ∧
      run.selector.FitsObject run.rootType [run.selections] fields := by
  obtain ⟨-, hr, -, hh⟩ := run.of_response? h
  obtain ⟨members, ho, hc, hall⟩ := run.settled_outline run.depth run.callLog
  have hended := Outline.All.and hall (Outline.all_not_hangs hh)
  rw [hr, ho] at hdata
  rw [ho] at hended
  obtain rfl := Option.some.inj hdata
  have hn : Outline.anyNulled members = false :=
    Bool.eq_false_iff.2 fun hn => hnull (Outline.data_of_isNulled hn)
  have hmembers := Outline.all_set.1 hended
  refine ⟨_, if_neg (by rw [hn]; exact Bool.false_ne_true), ?_⟩
  exact (run.execution run.callLog).fitsObject hroot hc hn (fun member hm => (hmembers member hm).1)
    (fun member hm _ _ _ hc hn =>
      (run.execution run.callLog).fits_data hnames member.2 (hmembers member hm).2 hc hn)

/-- Data that is not null is an object of the root type, and fits from there down. -/
theorem execute_fits {blueprint : Blueprint} {schema : Schema}
    (hbuild : blueprint.build = .ok schema) (config : Config) (context : Context)
    (request : Request) {r : Response}
    (h : (schema.execute config context request).response? = some r ∨
      (schema.executeValidated config context request).response? = some r) {data : Json}
    (hdata : r.data = some data) (hnull : data ≠ .null) :
    ∃ op rootType bindings fields,
      request.document.select request.operation = .ok op ∧
      schema.rootType? op.kind = some rootType ∧
      schema.coerceVariables op.variableDefs request.inputs = .ok bindings ∧
      data = .obj fields ∧
      (Selector.ofDocument schema request.document bindings).FitsObject rootType [op.selections]
        fields := by
  obtain ⟨run, hrun, hr⟩ := Schema.run_of_data h hdata
  obtain ⟨op, rootType, bindings, hop, hroot, hvars, rfl⟩ := Schema.prepare_eq_ok hrun
  obtain ⟨fields, hfields, hfits⟩ := Run.fitsObject
    (fun name type ho => Blueprint.name_of_object? hbuild ho)
    (Blueprint.object?_rootType hbuild hroot) hr hdata hnull
  exact ⟨op, rootType, bindings, fields, hop, hroot, hvars, hfields, hfits⟩

theorem execute_fits_sample :
    ∃ op rootType bindings fields,
      (Sample.request Sample.root).document.select none = .ok op ∧
      Sample.schema.rootType? op.kind = some rootType ∧
      Sample.schema.coerceVariables op.variableDefs [] = .ok bindings ∧
      Json.obj [("number", .int 1), ("self", .null)] = .obj fields ∧
      (Selector.ofDocument Sample.schema (Sample.request Sample.root).document bindings).FitsObject
        rootType [op.selections] fields :=
  execute_fits Sample.build_blueprint .standard .empty (Sample.request Sample.root)
    (.inr Sample.response?_request) rfl Json.noConfusion

end TypedQuery
