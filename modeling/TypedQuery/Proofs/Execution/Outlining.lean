import TypedQuery.Execution.Basic
import TypedQuery.Proofs.Execution.Outline
/-!
The outline of an execution, and how the execution follows from it.  Outlining completes every
position once, whatever happens to the others; what a position comes to, which errors it records and
what it waits for are all read off its outline.
-/

namespace TypedQuery
namespace Outline

/-- A position that cannot be null fails when it came to null. -/
def required (field : String) : Outline → Outline
  | leaf .null => failed (.nullResult field)
  | o => o

end Outline

namespace Execution

/-! ## Outlining -/

def outlineAbstract (exec : Execution) (object : String → Path → Json → Outline)
    (info : FieldInfo) (type : String) (placer : Option Placer) (path : Path) (value : Json) :
    Outline :=
  match placer.getD Placer.byTypename value exec.context with
  | .panicked message => .escaped (.panicked message)
  | .unknown => .failed (.unplaced (PlacementFault.unknown type info.coordinate).message)
  | .type name =>
    match exec.schema.object? name with
    | some objectType =>
      if exec.schema.isPossible type objectType.name then object objectType.name path value
      else .failed (.unplaced (PlacementFault.notPossible type name).message)
    | none =>
      if (exec.schema.type? name).isSome then
        .failed (.unplaced (PlacementFault.notObject type name).message)
      else .failed (.unplaced (PlacementFault.notInSchema type name).message)

def outlineNamed (exec : Execution) (object : String → Path → Json → Outline) (info : FieldInfo)
    (name : String) (path : Path) (value : Json) : Outline :=
  match exec.schema.type? name with
  | some (.scalar _) | some (.enum _) =>
    match exec.schema.coerceResult name value with
    | .ok result => .leaf result
    | .error rejection => .failed (.rejected rejection)
  | some (.object type) => object type.name path value
  | some (.interface type) => exec.outlineAbstract object info name type.placer path value
  | some (.union type) => exec.outlineAbstract object info name type.placer path value
  | none => .failed (.rejected { cause := .unknownType name, value := value })

def itemPlace (type : TypeExpr) (nodes : List FieldNode) (item : Json × Nat) : Place :=
  { segment := .index item.2, type := type, nodes := nodes, made := none, value := some item.1 }

/-- Items of a list are positions of their own. -/
def outlineItem (type : TypeExpr) (nodes : List FieldNode) (outline : Path → Json → Outline)
    (path : Path) (item : Json × Nat) : Place × Outline :=
  (itemPlace type nodes item, outline (path.item item.2) item.1)

def outlineValue (exec : Execution) (object : String → Path → Json → Outline) (info : FieldInfo)
    (nodes : List FieldNode) : TypeExpr → Path → Json → Outline
  | .nonNull inner, path, value =>
    (exec.outlineValue object info nodes inner path value).required info.coordinate
  | .list item, path, value =>
    match value with
    | .null => .leaf .null
    | .arr items =>
      .set .items <| items.zipIdx.map <|
        outlineItem item nodes (exec.outlineValue object info nodes item) path
    | value => .failed (.rejected { cause := .notList info.coordinate, value := value })
  | .named name, path, value =>
    if value.isNull then .leaf .null else exec.outlineNamed object info name path value

def outlineOutcome (exec : Execution) (info : FieldInfo) (outline : Json → Outline) :
    Outcome → Outline
  | .value value => outline value
  | .raised error => .failed (.raised error)
  | .panicked message =>
    if exec.config.catchPanics then
      .failed (.panicked
        (message.getD s!"Resolver for field \"{info.coordinate}\" panicked."))
    else .escaped (.panicked message)

/-- The position of a field whose call was made, and what follows the call when it is in time. -/
def outlineCall (exec : Execution) (place : Place) (resolver : Resolver) (call : Call)
    (outline : Json → Outline) : Place × Outline :=
  let attempt := resolver call
  let made : MadeCall :=
    { call := call, attempt := attempt, outcome := exec.outcome call.info.path attempt }
  match pause exec.config.fieldTimeout made.duration with
  | .none | .sleep _ =>
    ({ place with made := some made, value := made.outcome.value? },
      exec.outlineOutcome call.info outline made.outcome)
  | .cut ms =>
    ({ place with made := some made }, .failed (.timedOut call.info.coordinate ms))
  | .forever => ({ place with made := some made }, .leaf .null)

/-- The position of a field before its call is made. -/
def fieldPlace (field : FieldDef) (group : FieldGroup) : Place :=
  { segment := .key group.key
    type := field.type
    nodes := group.nodes
    made := none
    value := none }

def outlineField (exec : Execution) (object : String → List FieldNode → Path → Json → Outline)
    (parentType : String) (parent : Json) (path : Path) (field : FieldDef) (group : FieldGroup) :
    Place × Outline :=
  match exec.schema.coerceArguments field group.first.arguments exec.selector.bindings with
  | .error rejection => (fieldPlace field group, .failed (.rejected rejection))
  | .ok arguments =>
    let info : FieldInfo :=
      { name := field.name, parentType := parentType, type := field.type, path := path }
    let call : Call :=
      { parent := parent, arguments := arguments, context := exec.context, info := info }
    exec.outlineCall (fieldPlace field group) (field.resolver.getD Resolver.property) call
      (exec.outlineValue (fun type => object type group.nodes) info group.nodes field.type path)

/-- The type's name, which every object has under `__typename`. -/
def outlineTypename (type : String) (group : FieldGroup) : Place × Outline :=
  ({ segment := .key group.key
     type := .nonNull (.named "String")
     nodes := group.nodes
     made := none
     value := none },
    .leaf (.str type))

/-- The position that a group stands for on an object type, if it has a meaning there. -/
def outlineGroup (exec : Execution) (object : String → List FieldNode → Path → Json → Outline)
    (parentType : String) (parent : Json) (path : Path) (group : FieldGroup) :
    Option (Place × Outline) :=
  if group.first.name = "__typename" then some (outlineTypename parentType group)
  else
    (exec.schema.field? parentType group.first.name).map fun field =>
      exec.outlineField object parentType parent (path.field group.key) field group

def outlineFields (exec : Execution) (object : String → List FieldNode → Path → Json → Outline)
    (parentType : String) (parent : Json) (path : Path) (groups : List FieldGroup) :
    List (Place × Outline) :=
  groups.filterMap (exec.outlineGroup object parentType parent path)

def outlineObject (exec : Execution) : Nat → String → List FieldNode → Path → Json → Outline
  | 0, _, _, _, _ => .escaped .tooDeep
  | depth + 1, type, nodes, path, value =>
    .set (.fields type) <|
      exec.outlineFields (exec.outlineObject depth) type value path
        (exec.groups type (nodes.map (·.selections)))

end Execution

/-! ## Deadlines -/

namespace Execution

theorem pause_of_outlasts {deadline : Option Nat} {wait : Wait}
    (h : wait.outlasts deadline = true) :
    pause deadline wait = deadline.elim .forever .cut := by
  cases wait with
  | ready => cases deadline <;> cases h
  | never => cases deadline <;> rfl
  | sleeps ms =>
    cases deadline with
    | none => cases h
    | some limit => exact if_neg (Nat.not_le_of_lt (of_decide_eq_true h))

theorem pause_of_not_outlasts {deadline : Option Nat} {wait : Wait}
    (h : wait.outlasts deadline = false) :
    pause deadline wait = .none ∨ ∃ ms, pause deadline wait = .sleep ms := by
  cases wait with
  | ready => exact .inl rfl
  | never => cases deadline <;> cases h
  | sleeps ms =>
    refine .inr ⟨ms, ?_⟩
    cases deadline with
    | none => rfl
    | some limit => exact if_pos (Nat.le_of_not_lt (of_decide_eq_false h))

/-- A call in terms of whether it outlasts the deadline. -/
theorem outlineCall_eq (exec : Execution) (place : Place) (resolver : Resolver) (call : Call)
    (outline : Json → Outline) {made : MadeCall}
    (hmade : made =
      { call := call
        attempt := resolver call
        outcome := exec.outcome call.info.path (resolver call) }) :
    exec.outlineCall place resolver call outline =
      if made.duration.outlasts exec.config.fieldTimeout then
        ({ place with made := some made },
          exec.config.fieldTimeout.elim (.leaf .null) fun ms =>
            .failed (.timedOut call.info.coordinate ms))
      else
        ({ place with made := some made, value := made.outcome.value? },
          exec.outlineOutcome call.info outline made.outcome) := by
  unfold outlineCall
  dsimp only
  rw [← hmade]
  by_cases h : made.duration.outlasts exec.config.fieldTimeout = true
  · rw [pause_of_outlasts h, if_pos h]
    cases exec.config.fieldTimeout <;> rfl
  · have hout : made.outcome = exec.outcome call.info.path (resolver call) := by rw [hmade]
    rw [if_neg h]
    rcases pause_of_not_outlasts (Bool.eq_false_iff.2 h) with hp | ⟨ms, hp⟩ <;> rw [hp, hout]

end Execution

/-! ## Places -/

namespace Execution

/-- A call leaves its place as it was, but for what it says of the call. -/
theorem place_outlineCall (exec : Execution) (place : Place) (resolver : Resolver) (call : Call)
    (outline : Json → Outline) :
    ∃ made value, (exec.outlineCall place resolver call outline).1 =
      { place with made := made, value := value } := by
  unfold outlineCall
  dsimp only
  split
  · exact ⟨_, _, rfl⟩
  · exact ⟨_, _, rfl⟩
  · exact ⟨_, place.value, rfl⟩
  · exact ⟨_, place.value, rfl⟩

theorem place_outlineField (exec : Execution)
    (object : String → List FieldNode → Path → Json → Outline) (parentType : String)
    (parent : Json) (path : Path) (field : FieldDef) (group : FieldGroup) :
    ∃ made value, (exec.outlineField object parentType parent path field group).1 =
      { fieldPlace field group with made := made, value := value } := by
  unfold outlineField
  dsimp only
  split
  · exact ⟨none, none, rfl⟩
  · exact place_outlineCall ..

end Execution

/-! ## From outlines to completions -/

namespace Outline

def verdict : Outline → Verdict
  | failed failure => .failed failure
  | o => if o.isNulled then .nulled else .value o.data

/-- How a position comes out of its own, before it is caught. -/
def completion (config : Config) (path : Path) (o : Outline) : Completion :=
  { verdict := o.verdict, failures := o.marks path, trace := o.trace config }

/-- How a member of the set at a path comes out. -/
def memberCompletion (config : Config) (path : Path) (member : Place × Outline) : Completion :=
  { verdict :=
      if member.2.isNulled then Completion.nullAt member.1.type else .value member.2.data
    failures := memberMarks path [member]
    trace := member.1.await config.fieldTimeout (member.2.trace config) }

theorem isNulled_of_failure? {o : Outline} {failure : Failure} (h : o.failure? = some failure) :
    o = failed failure := by
  cases o <;> simp [failure?] at h ⊢
  exact h

/-- Catching what a position comes to gives what it comes to as a member. -/
theorem caught_completion (config : Config) (path : Path) (place : Place) (o : Outline) :
    ({ o.completion config (path ++ [place.segment]) with
        trace := place.await config.fieldTimeout (o.trace config) }).caught
          place.type place.locations (path ++ [place.segment]) =
      memberCompletion config path (place, o) := by
  cases o with
  | leaf data =>
    simp [completion, verdict, memberCompletion, Completion.caught, memberMarks, marks, failure?,
      isNulled, Outline.data]
  | failed failure =>
    simp [completion, verdict, memberCompletion, Completion.caught, memberMarks, marks, failure?,
      isNulled]
  | escaped cause =>
    simp [completion, verdict, memberCompletion, Completion.caught, memberMarks, marks, failure?,
      isNulled]
  | set kind members =>
    by_cases h : anyNulled members = true <;>
      simp [completion, verdict, memberCompletion, Completion.caught, memberMarks, marks, failure?,
        isNulled, h]

theorem memberMarks_eq_flatMap (path : Path) (members : List (Place × Outline)) :
    memberMarks path members = members.flatMap fun member => memberMarks path [member] := by
  induction members with
  | nil => rfl
  | cons member rest ih =>
    rw [List.flatMap_cons, ← ih, memberMarks, memberMarks, memberMarks, List.append_nil]

theorem memberTraces_eq_map (config : Config) (members : List (Place × Outline)) :
    memberTraces config members =
      members.map fun member =>
        member.1.await config.fieldTimeout (member.2.trace config) := by
  induction members with
  | nil => rfl
  | cons member rest ih => rw [memberTraces, ih, List.map_cons]

theorem anyEscapes_eq_false {members : List (Place × Outline)} :
    anyEscapes members = false ↔ ∀ member ∈ members, member.2.escapes = false := by
  induction members with
  | nil => simp [anyEscapes]
  | cons member rest ih => simp [anyEscapes, ih]

theorem anyHangs_eq_false {deadline : Option Nat} {members : List (Place × Outline)} :
    anyHangs deadline members = false ↔
      ∀ member ∈ members, member.1.hangs deadline = false ∧ member.2.hangs deadline = false := by
  induction members with
  | nil => simp [anyHangs]
  | cons member rest ih => simp [anyHangs, ih]

theorem anyNulled_eq_false {members : List (Place × Outline)} :
    anyNulled members = false ↔
      ∀ member ∈ members, member.1.type.isNonNull = true → member.2.isNulled = false := by
  induction members with
  | nil => simp [anyNulled]
  | cons member rest ih => simp [anyNulled, ih]

theorem memberData_eq_map (members : List (Place × Outline)) :
    memberData members = members.map fun member => (member.1.segment, member.2.data) := by
  induction members with
  | nil => rfl
  | cons member rest ih => rw [memberData, ih, List.map_cons]

/-- A position that becomes null has null as its data. -/
theorem data_of_isNulled {o : Outline} (h : o.isNulled = true) : o.data = .null := by
  cases o with
  | leaf data => cases h
  | failed failure => rfl
  | escaped cause => rfl
  | set kind members => exact if_pos h

theorem value?_memberCompletion (config : Config) (path : Path) (place : Place) (o : Outline) :
    (memberCompletion config path (place, o)).verdict.value? =
      if place.type.isNonNull && o.isNulled then none else some o.data := by
  unfold memberCompletion Completion.nullAt
  by_cases h : o.isNulled = true
  · by_cases ht : place.type.isNonNull = true <;>
      simp [h, ht, Verdict.value?, data_of_isNulled]
  · simp [h, Verdict.value?]

theorem mapM_value? (config : Config) (path : Path) (members : List (Place × Outline)) :
    (members.map (memberCompletion config path)).mapM (fun part => part.verdict.value?) =
      if anyNulled members then none else some ((memberData members).map Prod.snd) := by
  induction members with
  | nil => rfl
  | cons member rest ih =>
    obtain ⟨place, o⟩ := member
    rw [List.map_cons, List.mapM_cons, ih, value?_memberCompletion, anyNulled, memberData,
      List.map_cons]
    by_cases h : (place.type.isNonNull && o.isNulled) = true
    · simp [h]
    · by_cases hr : anyNulled rest = true <;> simp [h, hr]

/-- What the members of a set come to is what the set comes to. -/
theorem gather_members (config : Config) (path : Path) (limit : Nat) (build : List Json → Json)
    (members : List (Place × Outline)) :
    Completion.gather limit build (members.map (memberCompletion config path)) =
      { verdict :=
          if anyNulled members then .nulled
          else .value (build ((memberData members).map Prod.snd))
        failures := memberMarks path members
        trace := .members limit (memberTraces config members) } := by
  unfold Completion.gather
  rw [mapM_value?, memberMarks_eq_flatMap, memberTraces_eq_map, List.flatMap_map, List.map_map]
  by_cases h : anyNulled members = true <;> simp [h, memberCompletion, Function.comp_def]

theorem verdict_set (kind : SetKind) (members : List (Place × Outline)) :
    (set kind members).verdict =
      if anyNulled members then .nulled else .value (kind.build (memberData members)) := by
  by_cases h : anyNulled members = true <;> simp [verdict, isNulled, Outline.data, h]

/-- A position that cannot be null, as it comes out. -/
theorem completion_required (config : Config) (path : Path) (field : String) (o : Outline) :
    (o.required field).completion config path =
      match (o.completion config path).verdict with
      | .value .null =>
        { o.completion config path with verdict := .failed (.nullResult field) }
      | _ => o.completion config path := by
  cases o with
  | leaf data => cases data <;> rfl
  | failed failure => rfl
  | escaped cause => rfl
  | set kind members =>
    by_cases h : anyNulled members = true
    · simp [required, completion, verdict, isNulled, h]
    · cases kind <;> simp [required, completion, verdict, isNulled, h, Outline.data, SetKind.build]

end Outline

namespace Execution

variable (exec : Execution)

section Objects

variable {object : String → Path → Json → Completion} {outlined : String → Path → Json → Outline}
  (h : ∀ type path value,
    object type path value = (outlined type path value).completion exec.config path)

include h

theorem completeAbstract_eq (info : FieldInfo) (type : String) (placer : Option Placer)
    (path : Path) (value : Json) :
    exec.completeAbstract object info type placer path value =
      (exec.outlineAbstract outlined info type placer path value).completion exec.config path := by
  unfold completeAbstract outlineAbstract
  cases placer.getD Placer.byTypename value exec.context with
  | panicked message => rfl
  | unknown => rfl
  | type name =>
    dsimp only
    cases exec.schema.object? name with
    | some objectType =>
      by_cases hp : exec.schema.isPossible type objectType.name = true
      · simp only [hp, if_true]
        exact h _ path value
      · simp only [hp]
        rfl
    | none =>
      by_cases ht : (exec.schema.type? name).isSome = true
      · simp only [ht, if_true]
        rfl
      · simp only [ht]
        rfl

theorem completeNamed_eq (info : FieldInfo) (name : String) (path : Path) (value : Json) :
    exec.completeNamed object info name path value =
      (exec.outlineNamed outlined info name path value).completion exec.config path := by
  unfold completeNamed outlineNamed
  cases exec.schema.type? name with
  | none => rfl
  | some type =>
    cases type with
    | scalar type => dsimp only; cases exec.schema.coerceResult name value <;> rfl
    | enum type => dsimp only; cases exec.schema.coerceResult name value <;> rfl
    | object type => exact h _ path value
    | interface type => exact completeAbstract_eq exec h ..
    | union type => exact completeAbstract_eq exec h ..

theorem completeValue_eq (info : FieldInfo) (nodes : List FieldNode) (type : TypeExpr)
    (path : Path) (value : Json) :
    exec.completeValue object info (nodes.map fun node => node.location) type path value =
      (exec.outlineValue outlined info nodes type path value).completion exec.config path := by
  induction type generalizing path value with
  | named name =>
    unfold completeValue outlineValue
    by_cases hn : value.isNull = true
    · simp only [hn, if_true]
      rfl
    · simp only [hn]
      exact completeNamed_eq exec h ..
  | list item ih =>
    cases value with
    | null => rfl
    | arr items =>
      have hitem : (items.zipIdx.map fun entry =>
          (exec.completeValue object info (nodes.map fun node => node.location) item
            (path.item entry.2) entry.1).caught item (nodes.map fun node => node.location)
              (path.item entry.2)) =
          (items.zipIdx.map (outlineItem item nodes
            (exec.outlineValue outlined info nodes item) path)).map
              (Outline.memberCompletion exec.config path) := by
        rw [List.map_map]
        refine List.map_congr_left fun entry _ => ?_
        show Completion.caught _ _ _ (exec.completeValue object info _ item _ _) = _
        rw [ih]
        exact Outline.caught_completion exec.config path (itemPlace item nodes entry) _
      refine (congrArg (Completion.gather _ _) hitem).trans ?_
      rw [Outline.gather_members]
      show _ = Outline.completion exec.config path (.set .items _)
      rw [Outline.completion, Outline.verdict_set]
      rfl
    | _ => rfl
  | nonNull inner ih =>
    rw [outlineValue, Outline.completion_required, ← ih]
    rfl

end Objects

theorem completeOutcome_eq (info : FieldInfo) (path : Path) {complete : Json → Completion}
    {outline : Json → Outline}
    (h : ∀ value, complete value = (outline value).completion exec.config path)
    (outcome : Outcome) :
    exec.completeOutcome info complete outcome =
      (exec.outlineOutcome info outline outcome).completion exec.config path := by
  cases outcome with
  | value value => exact h value
  | raised error => rfl
  | panicked message =>
    unfold completeOutcome outlineOutcome
    by_cases hc : exec.config.catchPanics = true
    · simp only [hc, if_true]
      rfl
    · simp only [hc]
      rfl

theorem pause_duration (deadline : Option Nat) (made : MadeCall) :
    pause deadline made.duration =
      if made.attempt.eager && made.outcome.isPanic then .none
      else pause deadline made.attempt.wait := by
  unfold MadeCall.duration Attempt.duration
  split <;> rfl

/-- A call as it comes out once it is caught at its place. -/
theorem completeCall_eq (place : Place) (path : Path) (resolver : Resolver) (call : Call)
    {complete : Json → Completion} {outline : Json → Outline}
    (h : ∀ value, complete value =
      (outline value).completion exec.config (path ++ [place.segment])) :
    (exec.completeCall resolver call complete).caught place.type place.locations
        (path ++ [place.segment]) =
      Outline.memberCompletion exec.config path (exec.outlineCall place resolver call outline) := by
  let made : MadeCall :=
    { call := call
      attempt := resolver call
      outcome := exec.outcome call.info.path (resolver call) }
  have hp := pause_duration exec.config.fieldTimeout made
  have hout := completeOutcome_eq exec call.info (path ++ [place.segment]) h made.outcome
  -- whatever the pause is, the call is what the place waits for
  have hcaught (value : Option Json) (o : Outline) :
      ({ o.completion exec.config (path ++ [place.segment]) with
          trace := .call made.label (pause exec.config.fieldTimeout made.duration)
            (o.trace exec.config) }).caught place.type place.locations
              (path ++ [place.segment]) =
        Outline.memberCompletion exec.config path
          ({ place with made := some made, value := value }, o) :=
    Outline.caught_completion exec.config path
      { place with made := some made, value := value } o
  unfold completeCall outlineCall
  dsimp only
  rw [← hp, hout]
  cases hpause : pause exec.config.fieldTimeout made.duration with
  | none =>
    rw [hpause] at hcaught
    exact hcaught _ _
  | sleep ms =>
    rw [hpause] at hcaught
    exact hcaught _ _
  | cut ms =>
    rw [hpause] at hcaught
    exact hcaught place.value (.failed (.timedOut call.info.coordinate ms))
  | forever =>
    rw [hpause] at hcaught
    exact hcaught place.value (.leaf .null)

variable {object : String → List FieldNode → Path → Json → Completion}
  {outlined : String → List FieldNode → Path → Json → Outline}
  (h : ∀ type nodes path value,
    object type nodes path value = (outlined type nodes path value).completion exec.config path)

include h

theorem completeField_eq (parentType : String) (parent : Json) (path : Path) (field : FieldDef)
    (group : FieldGroup) :
    exec.completeField object parentType parent (path.field group.key) field group =
      Outline.memberCompletion exec.config path
        (exec.outlineField outlined parentType parent (path.field group.key) field group) := by
  unfold completeField outlineField
  cases exec.schema.coerceArguments field group.first.arguments exec.selector.bindings with
  | error rejection =>
    exact Outline.caught_completion exec.config path (fieldPlace field group)
      (.failed (.rejected rejection))
  | ok arguments =>
    exact completeCall_eq exec (fieldPlace field group) path _ _ fun value =>
      completeValue_eq exec (fun type => h type group.nodes) _ _ _ _ value

/-- The members of an object, under their keys. -/
theorem completeMembers_eq (parentType : String) (parent : Json) (path : Path)
    (groups : List FieldGroup) :
    (groups.filterMap fun group =>
        if group.first.name = "__typename" then
          some (group.key, Completion.ofValue (.str parentType))
        else
          (exec.schema.field? parentType group.first.name).map fun field =>
            (group.key,
              exec.completeField object parentType parent (path.field group.key) field group)) =
      (exec.outlineFields outlined parentType parent path groups).map fun member =>
        (member.1.segment.text, Outline.memberCompletion exec.config path member) := by
  unfold outlineFields
  rw [List.map_filterMap]
  congr 1
  funext group
  unfold outlineGroup
  by_cases hn : group.first.name = "__typename"
  · rw [if_pos hn, if_pos hn]
    rfl
  · rw [if_neg hn, if_neg hn, Option.map_map]
    congr 1
    funext field
    show (group.key, exec.completeField object parentType parent _ field group) = _
    obtain ⟨made, value, hplace⟩ :=
      exec.place_outlineField outlined parentType parent (path.field group.key) field group
    rw [completeField_eq exec h, Function.comp_apply, hplace]
    rfl

theorem completeFields_eq (limit : Nat) (parentType : String) (parent : Json) (path : Path)
    (groups : List FieldGroup) :
    exec.completeFields object limit parentType parent path groups =
      { (Outline.set (.fields parentType)
            (exec.outlineFields outlined parentType parent path groups)).completion exec.config
          path with
        trace := .members limit
          (Outline.memberTraces exec.config
            (exec.outlineFields outlined parentType parent path groups)) } := by
  unfold completeFields
  rw [completeMembers_eq exec h]
  dsimp only
  rw [List.map_map, List.map_map]
  show Completion.gather _ _ (List.map (Outline.memberCompletion exec.config path) _) = _
  rw [Outline.gather_members, Outline.completion, Outline.verdict_set, Outline.memberData_eq_map,
    List.map_map, List.zip_map', SetKind.build, List.map_map]
  rfl

omit h in
theorem completeObject_eq (depth : Nat) (type : String) (nodes : List FieldNode) (path : Path)
    (value : Json) :
    exec.completeObject depth type nodes path value =
      (exec.outlineObject depth type nodes path value).completion exec.config path := by
  induction depth generalizing type nodes path value with
  | zero => rfl
  | succ depth ih =>
    rw [completeObject, completeFields_eq exec ih]
    rfl

end Execution
end TypedQuery
