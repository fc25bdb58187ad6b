import TypedQuery.Proofs.Execution.Run
import TypedQuery.Proofs.Schema.Resolvers
/-!
Executions that look alike.  A view forgets some of what an outline says: parts of its places, and
whatever is at some paths or below them.  Resolvers that come to the same wherever the view looks
leave outlines of which it shows the same: `Run.read_outline`.
-/

namespace TypedQuery

/-- The resolver of a field, its own or the one for properties. -/
def FieldDef.resolve (field : FieldDef) : Resolver := field.resolver.getD Resolver.property

/-! ## Views -/

structure View where
  /-- What is seen of a place. -/
  keep : Place → Place
  /-- Nothing is seen of the positions at these paths and below them. -/
  blank : Path → Bool
  /-- What is seen of the locations of a place. -/
  relocate : List Location → List Location
  segment_keep : ∀ place, (keep place).segment = place.segment
  type_keep : ∀ place, (keep place).type = place.type
  locations_keep : ∀ place, (keep place).locations = relocate place.locations

namespace View

variable (view : View)

mutual

/-- What is seen of a position at a path. -/
def read (base : Path) : Outline → Outline
  | .set kind members => .set kind (readMembers base members)
  | .leaf data => .leaf data
  | .failed failure => .failed failure
  | .escaped cause => .escaped cause

def readMembers (base : Path) : List (Place × Outline) → List (Place × Outline)
  | [] => []
  | (place, o) :: rest =>
    (view.keep place,
      if view.blank (base ++ [place.segment]) then .leaf .null
      else read (base ++ [place.segment]) o) :: readMembers base rest

end

/-- What is seen of a member of the set at a path. -/
def readMember (base : Path) (member : Place × Outline) : Place × Outline :=
  (view.keep member.1,
    if view.blank (base ++ [member.1.segment]) then .leaf .null
    else view.read (base ++ [member.1.segment]) member.2)

theorem readMembers_eq_map (base : Path) (members : List (Place × Outline)) :
    view.readMembers base members = members.map (view.readMember base) := by
  induction members with
  | nil => rfl
  | cons member rest ih => rw [readMembers, ih, List.map_cons]; rfl

theorem read_required (base : Path) (o : Outline) (field : String) :
    view.read base (o.required field) = (view.read base o).required field := by
  cases o with
  | leaf data => cases data <;> rfl
  | _ => rfl

/-! ### Where everything is seen -/

/-- Nothing below the path is blank. -/
def Sees (base : Path) : Prop := ∀ path, path ≠ [] → view.blank (base ++ path) = false

variable {view}

theorem Sees.blank {base : Path} (h : view.Sees base) (segment : PathSegment) :
    view.blank (base ++ [segment]) = false := h [segment] (List.cons_ne_nil _ _)

theorem Sees.below {base : Path} (h : view.Sees base) (segment : PathSegment) :
    view.Sees (base ++ [segment]) := by
  intro path _
  rw [List.append_assoc]
  exact h (segment :: path) (List.cons_ne_nil _ _)

theorem Sees.readMember {base : Path} (h : view.Sees base) (member : Place × Outline) :
    view.readMember base member =
      (view.keep member.1, view.read (base ++ [member.1.segment]) member.2) := by
  rw [View.readMember, h.blank, if_neg Bool.false_ne_true]

theorem Sees.mem_readMembers {base : Path} (h : view.Sees base)
    {members : List (Place × Outline)} {member : Place × Outline} :
    member ∈ view.readMembers base members ↔
      ∃ own ∈ members, (view.keep own.1, view.read (base ++ [own.1.segment]) own.2) = member := by
  rw [readMembers_eq_map, List.mem_map]
  refine exists_congr fun own => and_congr_right fun _ => ?_
  rw [h.readMember]

mutual

theorem isNulled_read : ∀ {base : Path}, view.Sees base → ∀ o : Outline,
    (view.read base o).isNulled = o.isNulled
  | _, _, .leaf _ => rfl
  | _, _, .failed _ => rfl
  | _, _, .escaped _ => rfl
  | _, h, .set _ members => anyNulled_readMembers h members

theorem anyNulled_readMembers : ∀ {base : Path}, view.Sees base →
    ∀ members : List (Place × Outline),
    Outline.anyNulled (view.readMembers base members) = Outline.anyNulled members
  | _, _, [] => rfl
  | base, h, (place, o) :: rest => by
    rw [readMembers, h.blank, if_neg Bool.false_ne_true, Outline.anyNulled, Outline.anyNulled,
      view.type_keep, isNulled_read (h.below place.segment) o, anyNulled_readMembers h rest]

end

mutual

theorem data_read : ∀ {base : Path}, view.Sees base → ∀ o : Outline,
    (view.read base o).data = o.data
  | _, _, .leaf _ => rfl
  | _, _, .failed _ => rfl
  | _, _, .escaped _ => rfl
  | _, h, .set kind members => by
    rw [read, Outline.data, Outline.data, anyNulled_readMembers h, memberData_readMembers h]

theorem memberData_readMembers : ∀ {base : Path}, view.Sees base →
    ∀ members : List (Place × Outline),
    Outline.memberData (view.readMembers base members) = Outline.memberData members
  | _, _, [] => rfl
  | base, h, (place, o) :: rest => by
    rw [readMembers, h.blank, if_neg Bool.false_ne_true, Outline.memberData, Outline.memberData,
      view.segment_keep, data_read (h.below place.segment) o, memberData_readMembers h rest]

end

mutual

theorem escapes_read : ∀ {base : Path}, view.Sees base → ∀ o : Outline,
    (view.read base o).escapes = o.escapes
  | _, _, .leaf _ => rfl
  | _, _, .failed _ => rfl
  | _, _, .escaped _ => rfl
  | _, h, .set _ members => anyEscapes_readMembers h members

theorem anyEscapes_readMembers : ∀ {base : Path}, view.Sees base →
    ∀ members : List (Place × Outline),
    Outline.anyEscapes (view.readMembers base members) = Outline.anyEscapes members
  | _, _, [] => rfl
  | base, h, (place, o) :: rest => by
    rw [readMembers, h.blank, if_neg Bool.false_ne_true, Outline.anyEscapes, Outline.anyEscapes,
      escapes_read (h.below place.segment) o, anyEscapes_readMembers h rest]

end

theorem failure?_read (base : Path) (o : Outline) : (view.read base o).failure? = o.failure? := by
  cases o <;> rfl

mutual

theorem marks_read : ∀ {base : Path}, view.Sees base → ∀ o : Outline,
    (view.read base o).marks base =
      (o.marks base).map fun f => { f with locations := view.relocate f.locations }
  | _, _, .leaf _ => rfl
  | _, _, .failed _ => rfl
  | _, _, .escaped _ => rfl
  | _, h, .set _ members => memberMarks_readMembers h members

theorem memberMarks_readMembers : ∀ {base : Path}, view.Sees base →
    ∀ members : List (Place × Outline),
    Outline.memberMarks base (view.readMembers base members) =
      (Outline.memberMarks base members).map
        fun f => { f with locations := view.relocate f.locations }
  | _, _, [] => rfl
  | base, h, (place, o) :: rest => by
    rw [readMembers, h.blank, if_neg Bool.false_ne_true, Outline.memberMarks, Outline.memberMarks,
      view.segment_keep, failure?_read, view.locations_keep, marks_read (h.below place.segment) o,
      memberMarks_readMembers h rest, List.map_append, List.map_append, List.map_map]
    rfl

end

mutual

/-- A view that shows the calls shows all that is observed. -/
theorem trace_read (hmade : ∀ place, (view.keep place).made = place.made) (config : Config) :
    ∀ {base : Path}, view.Sees base → ∀ o : Outline,
    (view.read base o).trace config = o.trace config
  | _, _, .leaf _ => rfl
  | _, _, .failed _ => rfl
  | _, _, .escaped _ => rfl
  | _, h, .set _ members =>
    congrArg (Trace.members config.window) (memberTraces_readMembers hmade config h members)

theorem memberTraces_readMembers (hmade : ∀ place, (view.keep place).made = place.made)
    (config : Config) : ∀ {base : Path}, view.Sees base → ∀ members : List (Place × Outline),
    Outline.memberTraces config (view.readMembers base members) =
      Outline.memberTraces config members
  | _, _, [] => rfl
  | base, h, (place, o) :: rest => by
    rw [readMembers, h.blank, if_neg Bool.false_ne_true, Outline.memberTraces,
      Outline.memberTraces, trace_read hmade config (h.below place.segment) o,
      memberTraces_readMembers hmade config h rest, Place.await, hmade, Place.await]

end

end View

/-! ## Calls -/

namespace Execution

variable (exec : Execution)

/-- A call that the execution makes, and what it comes to. -/
def made (resolver : Resolver) (call : Call) : MadeCall :=
  { call := call
    attempt := resolver call
    outcome := exec.outcome call.info.path (resolver call) }

/-- What a call comes to, unless it outlasts the deadline. -/
def result? (resolver : Resolver) (call : Call) : Option Outcome :=
  let made := exec.made resolver call
  if made.duration.outlasts exec.config.fieldTimeout then none else some made.outcome

/-- The place of a call that was made. -/
def madePlace (place : Place) (resolver : Resolver) (call : Call) : Place :=
  { place with
    made := some (exec.made resolver call)
    value := ((exec.result? resolver call).map Outcome.value?).getD place.value }

/-- What follows a call, or its being cut off. -/
def outlineResult (info : FieldInfo) (outline : Json → Outline) : Option Outcome → Outline
  | some outcome => exec.outlineOutcome info outline outcome
  | none =>
    exec.config.fieldTimeout.elim (.leaf .null) fun ms => .failed (.timedOut info.coordinate ms)

theorem outlineCall_eq_result (place : Place) (resolver : Resolver) (call : Call)
    (outline : Json → Outline) :
    exec.outlineCall place resolver call outline =
      (exec.madePlace place resolver call,
        exec.outlineResult call.info outline (exec.result? resolver call)) := by
  rw [exec.outlineCall_eq place resolver call outline
    (show exec.made resolver call = _ from rfl), madePlace, result?]
  by_cases h : (exec.made resolver call).duration.outlasts exec.config.fieldTimeout = true
  · rw [if_pos h, if_pos h]
    rfl
  · rw [if_neg h, if_neg h]
    rfl

/-! ## What is seen of values and calls -/

section Objects

variable {exec} {view : View} {object object' : String → Path → Json → Outline}
  (h : ∀ type path value, view.read path (object' type path value) =
    view.read path (object type path value))

include h

theorem read_outlineAbstract (info : FieldInfo) (type : String) (placer : Option Placer)
    (path : Path) (value : Json) :
    view.read path (exec.outlineAbstract object' info type placer path value) =
      view.read path (exec.outlineAbstract object info type placer path value) := by
  unfold outlineAbstract
  cases placer.getD Placer.byTypename value exec.context with
  | panicked message => rfl
  | unknown => rfl
  | type name =>
    dsimp only
    cases exec.schema.object? name with
    | some objectType =>
      dsimp only
      split
      · exact h _ path value
      · rfl
    | none => rfl

theorem read_outlineNamed (info : FieldInfo) (name : String) (path : Path) (value : Json) :
    view.read path (exec.outlineNamed object' info name path value) =
      view.read path (exec.outlineNamed object info name path value) := by
  unfold outlineNamed
  cases exec.schema.type? name with
  | none => rfl
  | some type =>
    cases type with
    | scalar type => rfl
    | enum type => rfl
    | object type => exact h _ path value
    | interface type => exact read_outlineAbstract h info name type.placer path value
    | union type => exact read_outlineAbstract h info name type.placer path value

/-- A value is seen as its objects are, and items as their places are. -/
theorem read_outlineValue {nodes nodes' : List FieldNode}
    (hnodes : ∀ place : Place, view.keep { place with nodes := nodes' } =
      view.keep { place with nodes := nodes }) (info : FieldInfo) (type : TypeExpr)
    (path : Path) (value : Json) :
    view.read path (exec.outlineValue object' info nodes' type path value) =
      view.read path (exec.outlineValue object info nodes type path value) := by
  induction type generalizing path value with
  | named name =>
    unfold outlineValue
    split
    · rfl
    · exact read_outlineNamed h info name path value
  | list item ih =>
    cases value with
    | arr items =>
      show Outline.set .items (view.readMembers path _) =
        .set .items (view.readMembers path _)
      rw [view.readMembers_eq_map, view.readMembers_eq_map, List.map_map, List.map_map]
      refine congrArg _ (List.map_congr_left fun entry _ =>
        Prod.ext (hnodes (itemPlace item nodes entry)) ?_)
      have hitem := ih (path.item entry.2) entry.1
      show (if view.blank (path.item entry.2) then Outline.leaf .null else _) =
        if view.blank (path.item entry.2) then Outline.leaf .null else _
      exact congrArg (fun o => if view.blank (path.item entry.2) then Outline.leaf .null else o)
        hitem
    | _ => rfl
  | nonNull inner ih =>
    rw [outlineValue, outlineValue, view.read_required, view.read_required, ih path value]

end Objects

/-- A call is seen as its place is, and what follows it unless the view is blank there. -/
theorem read_outlineCall {exec exec' : Execution} {view : View} (hconfig : exec'.config = exec.config)
    {place place' : Place} {resolver resolver' : Resolver} {call : Call} {base : Path}
    (hpath : call.info.path = base ++ [place.segment]) (hsegment : place'.segment = place.segment)
    (hplace : view.keep (exec'.madePlace place' resolver' call) =
      view.keep (exec.madePlace place resolver call))
    (hresult : view.blank call.info.path = false →
      exec'.result? resolver' call = exec.result? resolver call)
    {outline outline' : Json → Outline}
    (h : ∀ value, view.read call.info.path (outline' value) =
      view.read call.info.path (outline value)) :
    view.readMember base (exec'.outlineCall place' resolver' call outline') =
      view.readMember base (exec.outlineCall place resolver call outline) := by
  rw [outlineCall_eq_result, outlineCall_eq_result]
  have hown : base ++ [(exec.madePlace place resolver call).segment] = call.info.path := hpath.symm
  have hown' : base ++ [(exec'.madePlace place' resolver' call).segment] = call.info.path := by
    rw [hpath, ← hsegment]
    rfl
  refine Prod.ext hplace ?_
  show (if view.blank (base ++ [_]) then Outline.leaf .null else view.read (base ++ [_]) _) =
    if view.blank (base ++ [_]) then Outline.leaf .null else view.read (base ++ [_]) _
  rw [hown, hown']
  by_cases hblank : view.blank call.info.path = true
  · rw [if_pos hblank, if_pos hblank]
  · rw [if_neg hblank, if_neg hblank, hresult (Bool.eq_false_iff.2 hblank)]
    unfold outlineResult outlineOutcome
    rw [hconfig]
    cases exec.result? resolver call with
    | none => rfl
    | some outcome =>
      cases outcome with
      | value value => exact h value
      | raised error => rfl
      | panicked message => rfl

/-- Values come to the same in two executions once those of named types do. -/
theorem outlineValue_congr {exec exec' : Execution} {object : String → Path → Json → Outline}
    {info : FieldInfo}
    (h : ∀ name path value, exec'.outlineNamed object info name path value =
      exec.outlineNamed object info name path value) (nodes : List FieldNode) (type : TypeExpr) :
    exec'.outlineValue object info nodes type = exec.outlineValue object info nodes type := by
  induction type with
  | named name =>
    funext path value
    unfold outlineValue
    rw [h]
  | list item ih =>
    funext path value
    cases value with
    | arr items =>
      unfold outlineValue
      rw [ih]
    | _ => rfl
  | nonNull inner ih =>
    funext path value
    rw [outlineValue, outlineValue, ih]

/-! ## Alike executions -/

/-- The same execution with other resolvers, and calls that see another log. -/
def withResolvers (resolvers : String → String → Option Resolver) (exec : Execution) : Execution :=
  { exec with selector := exec.selector.withResolvers resolvers }

def withLog (log : CallLog) (exec : Execution) : Execution := { exec with log := log }

/-- Other resolvers and another log make no difference to the view: it sees the same of the places
of all calls, and the calls where it looks come to the same. -/
structure Alike (view : View) (resolvers : String → String → Option Resolver) (log : CallLog) :
    Prop where
  place : ∀ type name field call place, exec.schema.field? type name = some field →
    view.keep ((exec.withLog log).madePlace place ((resolvers type name).getD Resolver.property)
      call) = view.keep (exec.madePlace place field.resolve call)
  result : ∀ type name field call, exec.schema.field? type name = some field →
    view.blank call.info.path = false →
      (exec.withLog log).result? ((resolvers type name).getD Resolver.property) call =
        exec.result? field.resolve call

variable {exec} {view : View} {resolvers : String → String → Option Resolver} {log : CallLog}

section Values

variable (object : String → Path → Json → Outline) (info : FieldInfo)

theorem outlineAbstract_withResolvers (type : String) (placer : Option Placer) (path : Path)
    (value : Json) :
    ((exec.withResolvers resolvers).withLog log).outlineAbstract object info type placer path value =
      exec.outlineAbstract object info type placer path value := by
  have hschema : ((exec.withResolvers resolvers).withLog log).schema =
      exec.schema.withResolvers resolvers := rfl
  have hcontext : ((exec.withResolvers resolvers).withLog log).context = exec.context := rfl
  unfold outlineAbstract
  rw [hschema, hcontext]
  cases placer.getD Placer.byTypename value exec.context with
  | panicked message => rfl
  | unknown => rfl
  | type name =>
    dsimp only
    rw [Schema.object?_withResolvers, Schema.type?_withResolvers]
    cases exec.schema.object? name with
    | some objectType =>
      dsimp only [Option.map_some]
      rw [Schema.isPossible_withResolvers]
      rfl
    | none =>
      dsimp only [Option.map_none]
      rw [Option.isSome_map]

theorem outlineNamed_withResolvers (name : String) (path : Path) (value : Json) :
    ((exec.withResolvers resolvers).withLog log).outlineNamed object info name path value =
      exec.outlineNamed object info name path value := by
  have hschema : ((exec.withResolvers resolvers).withLog log).schema =
      exec.schema.withResolvers resolvers := rfl
  unfold outlineNamed
  rw [hschema, Schema.type?_withResolvers, Schema.coerceResult_withResolvers]
  cases exec.schema.type? name with
  | none => rfl
  | some type =>
    cases type with
    | scalar type => rfl
    | enum type => rfl
    | object type => rfl
    | interface type => exact outlineAbstract_withResolvers object info name type.placer path value
    | union type => exact outlineAbstract_withResolvers object info name type.placer path value

/-- Values come to the same whatever the resolvers are, once the objects in them do. -/
theorem outlineValue_withResolvers (nodes : List FieldNode) (type : TypeExpr) :
    ((exec.withResolvers resolvers).withLog log).outlineValue object info nodes type =
      exec.outlineValue object info nodes type :=
  outlineValue_congr (outlineNamed_withResolvers object info) nodes type

end Values

section Fields

variable {object object' : String → List FieldNode → Path → Json → Outline}
  (h : ∀ type nodes path value, view.read path (object' type nodes path value) =
    view.read path (object type nodes path value))
  (halike : exec.Alike view resolvers log)

include h halike

theorem read_outlineField {parentType name : String} {field : FieldDef}
    (hfield : exec.schema.field? parentType name = some field) (parent : Json) (base : Path)
    (group : FieldGroup) :
    view.readMember base
        (((exec.withResolvers resolvers).withLog log).outlineField object' parentType parent
          (base.field group.key) (field.withResolver (resolvers parentType name)) group) =
      view.readMember base
        (exec.outlineField object parentType parent (base.field group.key) field group) := by
  have hargs : ((exec.withResolvers resolvers).withLog log).schema.coerceArguments
        (field.withResolver (resolvers parentType name)) group.first.arguments
        ((exec.withResolvers resolvers).withLog log).selector.bindings =
      exec.schema.coerceArguments field group.first.arguments exec.selector.bindings :=
    exec.schema.coerceArguments_withResolvers resolvers
      (field.withResolver (resolvers parentType name)) group.first.arguments exec.selector.bindings
  unfold outlineField
  rw [hargs]
  cases exec.schema.coerceArguments field group.first.arguments exec.selector.bindings with
  | error rejection => rfl
  | ok arguments =>
    refine @read_outlineCall exec ((exec.withResolvers resolvers).withLog log) view rfl _ _ _ _ _ _
      rfl rfl (halike.place parentType name field _ _ hfield)
      (halike.result parentType name field _ hfield) _ _ fun value => ?_
    rw [outlineValue_withResolvers]
    exact read_outlineValue (fun type => h type group.nodes) (fun _ => rfl) _ _ _ value

theorem read_outlineFields (parentType : String) (parent : Json) (base : Path)
    (groups : List FieldGroup) :
    view.readMembers base
        (((exec.withResolvers resolvers).withLog log).outlineFields object' parentType parent base
          groups) =
      view.readMembers base (exec.outlineFields object parentType parent base groups) := by
  have hschema : ((exec.withResolvers resolvers).withLog log).schema =
      exec.schema.withResolvers resolvers := rfl
  rw [view.readMembers_eq_map, view.readMembers_eq_map, outlineFields, outlineFields,
    List.map_filterMap, List.map_filterMap]
  refine List.filterMap_congr fun group _ => ?_
  unfold outlineGroup
  by_cases hn : group.first.name = "__typename"
  · rw [if_pos hn, if_pos hn]
  · rw [if_neg hn, if_neg hn, hschema, Schema.field?_withResolvers]
    cases hfield : exec.schema.field? parentType group.first.name with
    | none => rfl
    | some field =>
      exact congrArg some (read_outlineField h halike hfield parent base group)

end Fields

theorem groups_withResolvers (type : String) (sets : List (List Selection)) :
    ((exec.withResolvers resolvers).withLog log).groups type sets = exec.groups type sets :=
  congrArg FieldGroup.ofNodes (exec.selector.collect_withResolvers resolvers type sets)

theorem read_outlineObject (halike : exec.Alike view resolvers log) (depth : Nat) (type : String)
    (nodes : List FieldNode) (path : Path) (value : Json) :
    view.read path (((exec.withResolvers resolvers).withLog log).outlineObject depth type nodes path
        value) =
      view.read path (exec.outlineObject depth type nodes path value) := by
  induction depth generalizing type nodes path value with
  | zero => rfl
  | succ depth ih =>
    rw [outlineObject, outlineObject, View.read, View.read, groups_withResolvers,
      read_outlineFields ih halike]

end Execution

namespace Run

/-- The same run with other resolvers. -/
def withResolvers (resolvers : String → String → Option Resolver) (run : Run) : Run :=
  { run with selector := run.selector.withResolvers resolvers }

/-- A view shows the same of two runs that are alike wherever it looks. -/
theorem read_outline {run : Run} {view : View} {resolvers : String → String → Option Resolver}
    {log log' : CallLog} (halike : (run.execution log).Alike view resolvers log') (depth : Nat) :
    view.read Path.root ((run.withResolvers resolvers).outline depth log') =
      view.read Path.root (run.outline depth log) := by
  let exec := run.execution log
  show Outline.set _ (view.readMembers Path.root
    ((((exec.withResolvers resolvers).withLog log').outlineFields
      (((exec.withResolvers resolvers).withLog log').outlineObject depth) run.rootType run.root
        Path.root (((exec.withResolvers resolvers).withLog log').groups run.rootType
          [run.selections])))) = _
  rw [Execution.groups_withResolvers]
  exact congrArg (Outline.set _) (Execution.read_outlineFields
    (fun type nodes path value => Execution.read_outlineObject halike depth type nodes path value)
    halike run.rootType run.root Path.root _)

end Run

end TypedQuery
