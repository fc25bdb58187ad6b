import TypedQuery.Proofs.Execution.Positions
import TypedQuery.Proofs.Execution.Viewing
/-!
The descent into a response.  A property goes from objects to the values and fields that hold them
when it goes from items to their lists: `Execution.Carries`.  So every set of a run has the members
that its selections ask for, and every call knows the path of its position: `Run.grown_outline`.
-/

namespace TypedQuery

/-! ## Placers and resolvers that panic -/

/-- The placer gives up in no way but to say so. -/
def Placer.Calm (placer : Placer) : Prop :=
  ∀ value context message, placer value context ≠ .panicked message

def TypeDef.placer? : TypeDef → Option Placer
  | interface type => type.placer
  | union type => type.placer
  | _ => none

/-- No placer of the schema panics. -/
def Schema.CalmPlacers (schema : Schema) : Prop :=
  ∀ name type placer, schema.type? name = some type → type.placer? = some placer → placer.Calm

theorem Placer.calm_byTypename : Placer.byTypename.Calm := by
  intro value context message
  unfold Placer.byTypename
  cases (value.field? "__typename").bind Json.str? with
  | some name => exact Placement.noConfusion
  | none => exact Placement.noConfusion

/-- Calls of the resolver come to a value or an error. -/
def Resolver.Calm (resolver : Resolver) : Prop :=
  ∀ call n message, (resolver call).outcome n ≠ .panicked message

/-- No resolver of the schema panics. -/
def Schema.CalmResolvers (schema : Schema) : Prop :=
  ∀ type name field, schema.field? type name = some field → field.resolve.Calm

/-- Only a placer of its own can make a type panic. -/
theorem Placer.eq_some_of_panicked {placer : Option Placer} {value : Json} {context : Context}
    {message : Option String}
    (h : placer.getD Placer.byTypename value context = .panicked message) :
    ∃ own, placer = some own ∧ own value context = .panicked message := by
  cases placer with
  | none => exact absurd h (Placer.calm_byTypename value context message)
  | some own => exact ⟨own, rfl, h⟩

namespace Execution

variable (exec : Execution)

/-- What a call comes to in time is its outcome. -/
theorem outcome_of_result? {exec : Execution} {resolver : Resolver} {call : Call}
    {outcome : Outcome} (h : exec.result? resolver call = some outcome) :
    exec.outcome call.info.path (resolver call) = outcome := by
  unfold result? at h
  dsimp only at h
  split at h
  · cases h
  · exact Option.some.inj h

/-! ## From objects to values and fields -/

/-- The property holds of what a value comes to, for nodes that ask for it, once it holds of what its
objects come to. -/
structure Carries (nodes : List FieldNode) (Q : Path → Outline → Prop) : Prop where
  leaf : ∀ path data, Q path (.leaf data)
  failed : ∀ path failure, Q path (.failed failure)
  panicked : ∀ path name type placer value message, exec.schema.type? name = some type →
    type.placer? = some placer → placer value exec.context = .panicked message →
      Q path (.escaped (.panicked message))
  items : ∀ path type (items : List Json) (outline : Path → Json → Outline),
    (∀ entry ∈ items.zipIdx, Q (path.item entry.2) (outline (path.item entry.2) entry.1)) →
      Q path (.set .items (items.zipIdx.map (outlineItem type nodes outline path)))

section Objects

variable {exec} {nodes : List FieldNode} {Q : Path → Outline → Prop}
  {object : String → Path → Json → Outline} (h : exec.Carries nodes Q)
  (hobject : ∀ type path value, Q path (object type path value))

include h hobject

theorem Carries.outlineAbstract (info : FieldInfo) {name : String} {type : TypeDef}
    {placer : Option Placer} (htype : exec.schema.type? name = some type)
    (hplacer : type.placer? = placer) (path : Path) (value : Json) :
    Q path (exec.outlineAbstract object info name placer path value) := by
  unfold Execution.outlineAbstract
  cases hplaced : placer.getD Placer.byTypename value exec.context with
  | panicked message =>
    obtain ⟨own, hown, hpanicked⟩ := Placer.eq_some_of_panicked hplaced
    exact h.panicked path name type own value message htype (hplacer.trans hown) hpanicked
  | unknown => exact h.failed path _
  | type placed =>
    dsimp only
    cases exec.schema.object? placed with
    | some objectType =>
      dsimp only
      split
      · exact hobject _ path value
      · exact h.failed path _
    | none =>
      dsimp only
      split
      · exact h.failed path _
      · exact h.failed path _

theorem Carries.outlineNamed (info : FieldInfo) (name : String) (path : Path) (value : Json) :
    Q path (exec.outlineNamed object info name path value) := by
  have hleaf (o : Outline)
      (ho : (∃ data, o = .leaf data) ∨ ∃ failure, o = .failed failure) : Q path o := by
    rcases ho with ⟨data, rfl⟩ | ⟨failure, rfl⟩
    · exact h.leaf path data
    · exact h.failed path failure
  unfold Execution.outlineNamed
  cases htype : exec.schema.type? name with
  | none => exact h.failed path _
  | some type =>
    cases type with
    | scalar type =>
      apply hleaf
      dsimp only
      cases exec.schema.coerceResult name value with
      | ok result => exact .inl ⟨result, rfl⟩
      | error rejection => exact .inr ⟨_, rfl⟩
    | enum type =>
      apply hleaf
      dsimp only
      cases exec.schema.coerceResult name value with
      | ok result => exact .inl ⟨result, rfl⟩
      | error rejection => exact .inr ⟨_, rfl⟩
    | object type => exact hobject _ path value
    | interface type => exact h.outlineAbstract hobject info htype rfl path value
    | union type => exact h.outlineAbstract hobject info htype rfl path value

theorem Carries.outlineValue (info : FieldInfo) (type : TypeExpr) (path : Path) (value : Json) :
    Q path (exec.outlineValue object info nodes type path value) := by
  induction type generalizing path value with
  | named name =>
    unfold Execution.outlineValue
    split
    · exact h.leaf path .null
    · exact h.outlineNamed hobject info name path value
  | list item ih =>
    cases value with
    | null => exact h.leaf path .null
    | arr items => exact h.items path item items _ fun entry _ => ih (path.item entry.2) entry.1
    | _ => exact h.failed path _
  | nonNull inner ih =>
    have hinner := ih path value
    rw [Execution.outlineValue]
    -- the value stays as it is, unless it is null
    generalize exec.outlineValue object info nodes inner path value = o at hinner
    cases o with
    | leaf data => cases data <;> first | exact h.failed path _ | exact hinner
    | _ => exact hinner

/-- A field comes to what its value comes to, or fails, or its resolver panics. -/
theorem Carries.outlineCall {path : Path} {place : Place} {resolver : Resolver} {call : Call}
    (hpanic : ∀ message, exec.outcome call.info.path (resolver call) = .panicked message →
      exec.config.catchPanics = true ∨ Q path (.escaped (.panicked message)))
    (type : TypeExpr) :
    Q path (exec.outlineCall place resolver call
      (exec.outlineValue object call.info nodes type path)).2 := by
  rw [outlineCall_eq_result]
  cases hresult : exec.result? resolver call with
  | none =>
    show Q path (exec.config.fieldTimeout.elim _ _)
    cases exec.config.fieldTimeout with
    | none => exact h.leaf path .null
    | some ms => exact h.failed path _
  | some outcome =>
    show Q path (exec.outlineOutcome _ _ outcome)
    cases outcome with
    | value value => exact h.outlineValue hobject call.info type path value
    | raised error => exact h.failed path _
    | panicked message =>
      unfold outlineOutcome
      dsimp only
      split
      · exact h.failed path _
      · next hcatch => exact (hpanic message (outcome_of_result? hresult)).resolve_left hcatch

end Objects

variable {exec}

theorem Carries.outlineField {group : FieldGroup} {Q : Path → Outline → Prop}
    (h : exec.Carries group.nodes Q) {object : String → List FieldNode → Path → Json → Outline}
    (hobject : ∀ type path value, Q path (object type group.nodes path value)) {path : Path}
    {field : FieldDef}
    (hpanic : ∀ call message, exec.outcome call.info.path (field.resolve call) = .panicked message →
      exec.config.catchPanics = true ∨ Q path (.escaped (.panicked message)))
    (parentType : String) (parent : Json) :
    Q path (exec.outlineField object parentType parent path field group).2 := by
  unfold Execution.outlineField
  cases exec.schema.coerceArguments field group.first.arguments exec.selector.bindings with
  | error rejection => exact h.failed path _
  | ok arguments => exact h.outlineCall hobject (fun message => hpanic _ message) field.type

/-! ## Calls -/

variable (exec)

/-- The call for a group on an object, if there is one to make. -/
def callFor? (type : String) (parent : Json) (path : Path) (group : FieldGroup) :
    Option MadeCall :=
  if group.first.name = "__typename" then none
  else
    (exec.schema.field? type group.first.name).bind fun field =>
      match exec.schema.coerceArguments field group.first.arguments exec.selector.bindings with
      | .error _ => none
      | .ok arguments =>
        let info : FieldInfo :=
          { name := field.name, parentType := type, type := field.type, path := path }
        let call : Call :=
          { parent := parent, arguments := arguments, context := exec.context, info := info }
        some (exec.made field.resolve call)

/-- The group is for a field of the type, and its arguments are as the field takes them. -/
def Callable (type : String) (group : FieldGroup) (field : FieldDef) (arguments : Json.Fields) :
    Prop :=
  group.first.name ≠ "__typename" ∧ exec.schema.field? type group.first.name = some field ∧
    exec.schema.coerceArguments field group.first.arguments exec.selector.bindings = .ok arguments

variable {exec} {type : String} {parent : Json} {path : Path} {group : FieldGroup}

theorem callFor?_eq_some {made : MadeCall} (h : exec.callFor? type parent path group = some made) :
    made.call.info.path = path ∧ ∃ field, exec.Callable type group field made.call.arguments ∧
      made = exec.made field.resolve made.call := by
  unfold callFor? at h
  split at h
  · cases h
  · next hname =>
    obtain ⟨field, hfield, hmade⟩ := Option.bind_eq_some_iff.1 h
    dsimp only at hmade
    split at hmade
    · cases hmade
    · next arguments harguments =>
      obtain rfl := Option.some.inj hmade
      exact ⟨rfl, field, ⟨hname, hfield, harguments⟩, rfl⟩

theorem Callable.isSome_callFor? {field : FieldDef} {arguments : Json.Fields}
    (h : exec.Callable type group field arguments) (parent : Json) (path : Path) :
    (exec.callFor? type parent path group).isSome = true := by
  obtain ⟨hname, hfield, harguments⟩ := h
  unfold callFor?
  rw [if_neg hname, hfield, Option.bind_some, harguments]
  rfl

variable {object : String → List FieldNode → Path → Json → Outline}

/-- The position of a group has its call, and without one it is not a set. -/
theorem made_outlineGroup {member : Place × Outline}
    (h : exec.outlineGroup object type parent path group = some member) :
    member.1.segment = .key group.key ∧ member.1.nodes = group.nodes ∧
      member.1.made = exec.callFor? type parent (path.field group.key) group ∧
      (member.1.made = none → ∀ kind members, member.2 ≠ .set kind members) := by
  unfold outlineGroup at h
  unfold callFor?
  by_cases hname : group.first.name = "__typename"
  · rw [if_pos hname] at h ⊢
    obtain rfl := Option.some.inj h
    exact ⟨rfl, rfl, rfl, nofun⟩
  · rw [if_neg hname] at h ⊢
    obtain ⟨field, hfield, rfl⟩ := Option.map_eq_some_iff.1 h
    rw [hfield, Option.bind_some]
    unfold Execution.outlineField
    cases exec.schema.coerceArguments field group.first.arguments exec.selector.bindings with
    | error rejection => exact ⟨rfl, rfl, rfl, nofun⟩
    | ok arguments =>
      dsimp only
      rw [outlineCall_eq_result]
      exact ⟨rfl, rfl, rfl, nofun⟩

theorem exists_outlineGroup (h : (exec.callFor? type parent (path.field group.key) group).isSome) :
    ∃ member, exec.outlineGroup object type parent path group = some member := by
  obtain ⟨made, hmade⟩ := Option.isSome_iff_exists.1 h
  obtain ⟨-, field, ⟨hname, hfield, -⟩, -⟩ := callFor?_eq_some hmade
  unfold outlineGroup
  rw [if_neg hname, hfield]
  exact ⟨_, rfl⟩

/-! ## Sets -/

variable (exec)

/-- The set at a path is what its selections ask for: its fields are those that they come to on the
type, and its items ask for what the list asks for. -/
def Grown (path : Path) (sets : List (List Selection)) : Outline → Prop
  | .set .items members => ∀ member ∈ members,
    member.1.made = none ∧ member.1.nodes.map (·.selections) = sets ∧
      ∃ index, member.1.segment = .index index
  | .set (.fields type) members => ∃ object parent,
    members = exec.outlineFields object type parent path (exec.groups type sets)
  | _ => True

/-- The outline at a path and all positions below are what their selections ask for. -/
def GrownBelow (path : Path) (sets : List (List Selection)) (o : Outline) : Prop :=
  exec.Grown path sets o ∧ ∀ rest place inner, o.At rest place inner →
    exec.Grown (path ++ rest) (place.nodes.map (·.selections)) inner

variable {exec}

theorem GrownBelow.of_members {sets : List (List Selection)} {kind : SetKind}
    {members : List (Place × Outline)} (hgrown : exec.Grown path sets (.set kind members))
    (h : ∀ member ∈ members, exec.GrownBelow (path ++ [member.1.segment])
      (member.1.nodes.map (·.selections)) member.2) :
    exec.GrownBelow path sets (.set kind members) := by
  refine ⟨hgrown, fun rest place inner hat => ?_⟩
  cases hat with
  | member hm => exact (h _ hm).1
  | deeper hm hin =>
    have hbelow := (h _ hm).2 _ place inner hin
    rw [List.append_assoc] at hbelow
    exact hbelow

theorem GrownBelow.member {sets : List (List Selection)} {kind : SetKind}
    {members : List (Place × Outline)} (h : exec.GrownBelow path sets (.set kind members))
    {member : Place × Outline} (hm : member ∈ members) :
    exec.GrownBelow (path ++ [member.1.segment]) (member.1.nodes.map (·.selections)) member.2 := by
  refine ⟨h.2 _ _ _ (.member hm), fun rest place inner hin => ?_⟩
  rw [List.append_assoc]
  exact h.2 _ place inner (.deeper hm hin)

/-- A member that has a call is a field of an object, and the call is for its group and its path. -/
theorem Grown.call {sets : List (List Selection)} {kind : SetKind}
    {members : List (Place × Outline)} (h : exec.Grown path sets (.set kind members))
    {member : Place × Outline} (hm : member ∈ members) {made : MadeCall}
    (hmade : member.1.made = some made) :
    made.call.info.path = path ++ [member.1.segment] ∧ ∃ type group field,
      kind = .fields type ∧ group ∈ exec.groups type sets ∧ member.1.segment = .key group.key ∧
        exec.Callable type group field made.call.arguments ∧
        made = exec.made field.resolve made.call := by
  cases kind with
  | items =>
    rw [(h member hm).1] at hmade
    cases hmade
  | fields type =>
    obtain ⟨object, parent, rfl⟩ := h
    obtain ⟨group, hgroup, hmember⟩ := List.mem_filterMap.1 hm
    obtain ⟨hsegment, -, hcall, -⟩ := made_outlineGroup hmember
    rw [hmade] at hcall
    obtain ⟨hpath, field, hcallable, hown⟩ := callFor?_eq_some hcall.symm
    rw [hsegment]
    exact ⟨hpath, type, group, field, rfl, hgroup, rfl, hcallable, hown⟩

/-- A group that can be called has a position with its call. -/
theorem Grown.exists_call {sets : List (List Selection)} {type : String}
    {members : List (Place × Outline)} (h : exec.Grown path sets (.set (.fields type) members))
    {group : FieldGroup} (hgroup : group ∈ exec.groups type sets) {field : FieldDef}
    {arguments : Json.Fields} (hcall : exec.Callable type group field arguments) :
    ∃ member ∈ members, member.1.segment = .key group.key ∧ ∃ made, member.1.made = some made := by
  obtain ⟨object, parent, rfl⟩ := h
  have hsome := hcall.isSome_callFor? parent (path.field group.key)
  obtain ⟨member, hmember⟩ := @exists_outlineGroup exec type parent path group object hsome
  obtain ⟨hsegment, -, hmade, -⟩ := made_outlineGroup hmember
  refine ⟨member, List.mem_filterMap.2 ⟨group, hgroup, hmember⟩, hsegment, ?_⟩
  rw [hmade]
  exact Option.isSome_iff_exists.1 hsome

/-- A field that came to a set has a call. -/
theorem Grown.made_of_set {sets : List (List Selection)} {kind inner : SetKind}
    {members below : List (Place × Outline)} (h : exec.Grown path sets (.set kind members))
    {place : Place} (hm : (place, .set inner below) ∈ members) {key : String}
    (hkey : place.segment = .key key) : ∃ made, place.made = some made := by
  cases kind with
  | items =>
    obtain ⟨index, hindex⟩ := (h _ hm).2.2
    rw [show place.segment = _ from hindex] at hkey
    cases hkey
  | fields type =>
    obtain ⟨object, parent, rfl⟩ := h
    obtain ⟨group, -, hmember⟩ := List.mem_filterMap.1 hm
    obtain ⟨-, -, -, hnone⟩ := made_outlineGroup hmember
    exact Option.ne_none_iff_exists'.1 fun hmade => hnone hmade inner below rfl

theorem carries_grownBelow (nodes : List FieldNode) :
    exec.Carries nodes fun path o => exec.GrownBelow path (nodes.map (·.selections)) o := by
  refine ⟨?_, ?_, ?_, ?_⟩
  · exact fun _ _ => ⟨trivial, fun _ _ _ hat => nomatch hat⟩
  · exact fun _ _ => ⟨trivial, fun _ _ _ hat => nomatch hat⟩
  · exact fun _ _ _ _ _ _ _ _ _ => ⟨trivial, fun _ _ _ hat => nomatch hat⟩
  · intro path type items outline hitems
    refine .of_members (fun member hm => ?_) fun member hm => ?_
    · obtain ⟨entry, -, rfl⟩ := List.mem_map.1 hm
      exact ⟨rfl, rfl, entry.2, rfl⟩
    · obtain ⟨entry, hentry, rfl⟩ := List.mem_map.1 hm
      exact hitems entry hentry

theorem grown_outlineFields
    (h : ∀ type nodes path value,
      exec.GrownBelow path (nodes.map (·.selections)) (object type nodes path value))
    (type : String) (parent : Json) (path : Path) (sets : List (List Selection)) :
    exec.GrownBelow path sets
      (.set (.fields type) (exec.outlineFields object type parent path (exec.groups type sets))) := by
  refine .of_members ⟨object, parent, rfl⟩ fun member hm => ?_
  obtain ⟨group, -, hgroup⟩ := List.mem_filterMap.1 hm
  obtain ⟨hsegment, hnodes, -⟩ := made_outlineGroup hgroup
  rw [hsegment, hnodes]
  unfold outlineGroup at hgroup
  split at hgroup
  · obtain rfl := Option.some.inj hgroup
    exact ⟨trivial, fun _ _ _ hat => nomatch hat⟩
  · obtain ⟨field, -, rfl⟩ := Option.map_eq_some_iff.1 hgroup
    refine (carries_grownBelow group.nodes).outlineField (fun type => h type group.nodes) ?_ type
      parent
    exact fun _ _ _ => .inr ⟨trivial, fun _ _ _ hat => nomatch hat⟩

theorem grown_outlineObject (depth : Nat) (type : String) (nodes : List FieldNode) (path : Path)
    (value : Json) :
    exec.GrownBelow path (nodes.map (·.selections))
      (exec.outlineObject depth type nodes path value) := by
  induction depth generalizing type nodes path value with
  | zero => exact ⟨trivial, fun _ _ _ hat => nomatch hat⟩
  | succ depth ih => exact grown_outlineFields ih type value path _

end Execution

/-- All sets of a run are what the operation asks for at their paths. -/
theorem Run.grown_outline (run : Run) (depth : Nat) (log : CallLog) :
    (run.execution log).GrownBelow Path.root [run.selections] (run.outline depth log) :=
  Execution.grown_outlineFields (Execution.grown_outlineObject depth) _ _ _ _

end TypedQuery
