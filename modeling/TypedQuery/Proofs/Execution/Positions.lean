import Mathlib.Data.List.Forall2
import TypedQuery.Proofs.Execution.Run
/-!
Positions.  Each position of an outline is one of few kinds, `Execution.Settled`, and the positions
below an object are those of the groups that are answered there, `Execution.Covers`.  This holds at
every path of every run: `Run.settled_outline`.
-/

namespace TypedQuery

/-- A type without its outer marks. -/
def TypeExpr.bare : TypeExpr → TypeExpr
  | nonNull inner => inner.bare
  | type => type

def Failure.isTimeout : Failure → Bool
  | timedOut _ _ => true
  | _ => false

namespace Outline

/-- The outline has a position at the path from its root. -/
inductive At : Outline → Path → Place → Outline → Prop
  | member {kind : SetKind} {members : List (Place × Outline)} {place : Place} {o : Outline}
      (h : (place, o) ∈ members) : At (set kind members) [place.segment] place o
  | deeper {kind : SetKind} {members : List (Place × Outline)} {outer place : Place}
      {between o : Outline} {path : Path} (h : (outer, between) ∈ members)
      (hin : At between path place o) : At (set kind members) (outer.segment :: path) place o

/-- All positions of the outline have the property. -/
def All (P : Place → Outline → Prop) (o : Outline) : Prop :=
  ∀ path place inner, o.At path place inner → P place inner

section All

variable {P : Place → Outline → Prop}

theorem all_leaf (data : Json) : (leaf data).All P := fun _ _ _ h => by cases h

theorem all_failed (failure : Failure) : (failed failure).All P := fun _ _ _ h => by cases h

theorem all_escaped (cause : Escape) : (escaped cause).All P := fun _ _ _ h => by cases h

theorem all_set {kind : SetKind} {members : List (Place × Outline)} :
    (set kind members).All P ↔ ∀ member ∈ members, P member.1 member.2 ∧ member.2.All P := by
  constructor
  · intro h member hm
    exact ⟨h _ _ _ (.member hm), fun path place inner hin => h _ _ _ (.deeper hm hin)⟩
  · intro h path place inner hat
    cases hat with
    | member hm => exact (h _ hm).1
    | deeper hm hin => exact (h _ hm).2 _ _ _ hin

theorem All.and {Q : Place → Outline → Prop} {o : Outline} (h : o.All P) (h' : o.All Q) :
    o.All fun place inner => P place inner ∧ Q place inner :=
  fun path place inner hat => ⟨h path place inner hat, h' path place inner hat⟩

theorem all_not_hangs {deadline : Option Nat} {o : Outline} (h : o.hangs deadline = false) :
    o.All fun place _ => place.hangs deadline = false := by
  induction o using induct with
  | hleaf data => exact all_leaf data
  | hfailed failure => exact all_failed failure
  | hescaped cause => exact all_escaped cause
  | hset kind members ih =>
    refine all_set.2 fun member hm => ?_
    obtain ⟨hplace, hbelow⟩ := anyHangs_eq_false.1 h member hm
    exact ⟨hplace, ih member hm hbelow⟩

theorem all_required {o : Outline} (h : o.All P) (field : String) : (o.required field).All P := by
  cases o with
  | leaf data => cases data <;> first | exact all_failed _ | exact all_leaf _
  | _ => exact h

end All

end Outline

namespace Schema

/-- Some object type has the name. -/
def IsObject (schema : Schema) (name : String) : Prop :=
  ∃ placed type, schema.object? placed = some type ∧ type.name = name

theorem coerceResult_eq_ok {schema : Schema} {name : String} {value data : Json}
    (h : schema.coerceResult name value = .ok data) :
    (∃ type, schema.type? name = some (.scalar type) ∧ type.serialize value = .ok data) ∨
      ∃ type text, schema.type? name = some (.enum type) ∧ text ∈ type.values ∧
        data = .str text := by
  unfold coerceResult at h
  cases htype : schema.type? name with
  | none => rw [htype] at h; cases h
  | some type =>
    rw [htype] at h
    cases type with
    | scalar type =>
      dsimp only at h
      cases hs : type.serialize value with
      | error rejection => rw [hs] at h; cases h
      | ok result =>
        rw [hs] at h
        obtain rfl := Except.ok.inj h
        exact .inl ⟨type, rfl, hs⟩
    | enum type =>
      cases value with
      | str text =>
        dsimp only at h
        by_cases ht : type.values.contains text = true
        · rw [if_pos ht] at h
          obtain rfl := Except.ok.inj h
          exact .inr ⟨type, text, rfl, List.contains_iff_mem.1 ht, rfl⟩
        · rw [if_neg ht] at h
          cases h
      | _ => cases h
    | object type => cases h
    | interface type => cases h
    | union type => cases h

end Schema

namespace Execution

/-- A group has a meaning on an object type. -/
def answers (exec : Execution) (type : String) (group : FieldGroup) : Bool :=
  group.first.name == "__typename" || (exec.schema.field? type group.first.name).isSome

/-- The position of a group on an object type. -/
def Answers (exec : Execution) (type : String) (group : FieldGroup) (member : Place × Outline) :
    Prop :=
  member.1.segment = .key group.key ∧ member.1.nodes = group.nodes ∧
    if group.first.name = "__typename" then
      member.1.type = .nonNull (.named "String") ∧ member.2 = .leaf (.str type)
    else
      ∃ field, exec.schema.field? type group.first.name = some field ∧
        member.1.type = field.type

/-- The members are those of an object of the type, for the groups that have a meaning there. -/
def Covers (exec : Execution) (type : String) (sets : List (List Selection))
    (members : List (Place × Outline)) : Prop :=
  List.Forall₂ (exec.Answers type) ((exec.groups type sets).filter (exec.answers type)) members

/-- What completing a value at a type comes to. -/
def Completed (exec : Execution) (nodes : List FieldNode) (type : TypeExpr) (value : Json) :
    Outline → Prop
  | .leaf data =>
    (data = .null → type.isNonNull = false) ∧
      (value = .null ∧ data = .null ∨
        ∃ name, type.bare = .named name ∧ exec.schema.coerceResult name value = .ok data)
  | .failed failure => failure.isTimeout = false
  | .escaped _ => True
  | .set .items members =>
    ∃ item items, type.bare = .list item ∧ value = .arr items ∧
      members.map Prod.fst = items.zipIdx.map (itemPlace item nodes)
  | .set (.fields object) members =>
    ∃ name, type.bare = .named name ∧ object ∈ exec.schema.possibleTypes name ∧
      exec.schema.IsObject object ∧ exec.Covers object (nodes.map (·.selections)) members

/-- What a position comes to. -/
inductive Settled (exec : Execution) (place : Place) (o : Outline) : Prop
  | completed {value : Json} (hvalue : place.value = some value)
      (hmade : ∀ made, place.made = some made → made.outcome = .value value ∧
        ∀ ms, pause exec.config.fieldTimeout made.duration ≠ .cut ms)
      (h : exec.Completed place.nodes place.type value o)
  | typename {type : String} (hmade : place.made = none) (hvalue : place.value = none)
      (hname : place.nodes.head?.map (·.name) = some "__typename") (h : o = .leaf (.str type))
  | rejected {rejection : Rejection} (hmade : place.made = none) (hvalue : place.value = none)
      (h : o = .failed (.rejected rejection))
  | cut {made : MadeCall} {ms : Nat} (hmade : place.made = some made) (hvalue : place.value = none)
      (hpause : pause exec.config.fieldTimeout made.duration = .cut ms)
      (h : o = .failed (.timedOut made.call.info.coordinate ms))
  | hung {made : MadeCall} (hmade : place.made = some made) (hvalue : place.value = none)
      (hpause : pause exec.config.fieldTimeout made.duration = .forever) (h : o = .leaf .null)
  | raised {made : MadeCall} (hmade : place.made = some made) (hvalue : place.value = none)
      (hpause : ∀ ms, pause exec.config.fieldTimeout made.duration ≠ .cut ms)
      (h : (∃ failure, o = .failed failure ∧ failure.isTimeout = false) ∨
        ∃ cause, o = .escaped cause)

theorem segments_of_answers {exec : Execution} {type : String} {groups : List FieldGroup}
    {members : List (Place × Outline)} (h : List.Forall₂ (exec.Answers type) groups members) :
    members.map (fun member => member.1.segment) = groups.map fun group => .key group.key := by
  induction h with
  | nil => rfl
  | cons ha _ ih => rw [List.map_cons, List.map_cons, ih, ha.1]

/-- An object is completed as one of its type. -/
def ObjectAt (exec : Execution) (type : String) (nodes : List FieldNode) (o : Outline) : Prop :=
  o.All exec.Settled ∧
    ((∃ members, o = .set (.fields type) members ∧
      exec.Covers type (nodes.map (·.selections)) members) ∨ ∃ cause, o = .escaped cause)

/-- What a position comes to when its call comes to an end. -/
def Ended (exec : Execution) (place : Place) (o : Outline) : Prop :=
  exec.Settled place o ∧ place.hangs exec.config.fieldTimeout = false

theorem Ended.pause_ne_forever {exec : Execution} {place : Place} {o : Outline}
    (h : exec.Ended place o) {made : MadeCall} (hmade : place.made = some made) :
    pause exec.config.fieldTimeout made.duration ≠ .forever := by
  intro hpause
  have hh := h.2
  unfold Place.hangs at hh
  rw [hmade] at hh
  dsimp only at hh
  rw [hpause] at hh
  cases hh

variable (exec : Execution)

section Objects

variable {object : String → Path → Json → Outline} {nodes : List FieldNode}
  (h : ∀ type path value, exec.ObjectAt type nodes (object type path value))

include h

theorem completed_object {name type : String} (hp : type ∈ exec.schema.possibleTypes name)
    (ho : exec.schema.IsObject type) (path : Path) (value other : Json) :
    exec.Completed nodes (.named name) other (object type path value) := by
  rcases (h type path value).2 with ⟨members, he, hc⟩ | ⟨cause, he⟩
  · rw [he]
    exact ⟨name, rfl, hp, ho, hc⟩
  · rw [he]
    exact trivial

theorem completed_outlineAbstract (info : FieldInfo) (name : String) (placer : Option Placer)
    (path : Path) (value : Json) :
    exec.Completed nodes (.named name) value
        (exec.outlineAbstract object info name placer path value) ∧
      (exec.outlineAbstract object info name placer path value).All exec.Settled := by
  unfold outlineAbstract
  cases placer.getD Placer.byTypename value exec.context with
  | panicked message => exact ⟨trivial, Outline.all_escaped _⟩
  | unknown => exact ⟨rfl, Outline.all_failed _⟩
  | type placed =>
    dsimp only
    cases ho : exec.schema.object? placed with
    | some objectType =>
      by_cases hp : exec.schema.isPossible name objectType.name = true
      · simp only [hp, if_true]
        exact ⟨exec.completed_object h (Schema.isPossible_iff.1 hp).2 ⟨placed, objectType, ho, rfl⟩ path
          value value, (h _ path value).1⟩
      · simp only [hp]
        exact ⟨rfl, Outline.all_failed _⟩
    | none =>
      dsimp only
      split
      · exact ⟨rfl, Outline.all_failed _⟩
      · exact ⟨rfl, Outline.all_failed _⟩

theorem completed_outlineNamed (info : FieldInfo) (name : String) (path : Path) (value : Json) :
    exec.Completed nodes (.named name) value (exec.outlineNamed object info name path value) ∧
      (exec.outlineNamed object info name path value).All exec.Settled := by
  have hleaf (o : Outline)
      (hok : ∀ data, exec.schema.coerceResult name value = .ok data → o = .leaf data)
      (herror : ∀ rejection, exec.schema.coerceResult name value = .error rejection →
        o = .failed (.rejected rejection)) :
      exec.Completed nodes (.named name) value o ∧ o.All exec.Settled := by
    cases hresult : exec.schema.coerceResult name value with
    | error rejection =>
      rw [herror rejection hresult]
      exact ⟨rfl, Outline.all_failed _⟩
    | ok data =>
      rw [hok data hresult]
      exact ⟨⟨fun _ => rfl, .inr ⟨name, rfl, hresult⟩⟩, Outline.all_leaf _⟩
  unfold outlineNamed
  cases htype : exec.schema.type? name with
  | none => exact ⟨rfl, Outline.all_failed _⟩
  | some type =>
    cases type with
    | scalar type => exact hleaf _ (fun _ h => by rw [h]) (fun _ h => by rw [h])
    | enum type => exact hleaf _ (fun _ h => by rw [h]) (fun _ h => by rw [h])
    | object type =>
      have hp : type.name ∈ exec.schema.possibleTypes name := by
        unfold Schema.possibleTypes
        rw [htype]
        exact List.mem_cons_self
      exact ⟨exec.completed_object h hp ⟨name, type, Schema.object?_eq_some.2 htype, rfl⟩ path value
        value, (h _ path value).1⟩
    | interface type => exact exec.completed_outlineAbstract h info name type.placer path value
    | union type => exact exec.completed_outlineAbstract h info name type.placer path value

omit h in
theorem completed_required {type : TypeExpr} {value : Json} {o : Outline} (field : String)
    (h : exec.Completed nodes type value o) :
    exec.Completed nodes (.nonNull type) value (o.required field) := by
  cases o with
  | failed failure => exact h
  | escaped cause => exact h
  | set kind members => cases kind <;> exact h
  | leaf data =>
    by_cases hd : data = .null
    · rw [hd]
      exact rfl
    · have ho : (Outline.leaf data).required field = .leaf data := by
        cases data <;> first | rfl | exact absurd rfl hd
      rw [ho]
      exact ⟨fun hn => absurd hn hd, h.2.imp (fun hn => absurd hn.2 hd) id⟩

theorem completed_outlineValue (info : FieldInfo) (type : TypeExpr) (path : Path) (value : Json) :
    exec.Completed nodes type value (exec.outlineValue object info nodes type path value) ∧
      (exec.outlineValue object info nodes type path value).All exec.Settled := by
  induction type generalizing path value with
  | named name =>
    unfold outlineValue
    by_cases hn : value.isNull = true
    · rw [if_pos hn]
      have hvalue : value = .null := by cases value <;> first | rfl | cases hn
      exact ⟨⟨fun _ => rfl, .inl ⟨hvalue, rfl⟩⟩, Outline.all_leaf _⟩
    · rw [if_neg hn]
      exact exec.completed_outlineNamed h info name path value
  | list item ih =>
    cases value with
    | null => exact ⟨⟨fun _ => rfl, .inl ⟨rfl, rfl⟩⟩, Outline.all_leaf _⟩
    | arr items =>
      refine ⟨⟨item, items, rfl, rfl, ?_⟩, Outline.all_set.2 fun member hm => ?_⟩
      · rw [List.map_map]
        rfl
      · obtain ⟨entry, -, rfl⟩ := List.mem_map.1 hm
        obtain ⟨hc, hall⟩ := ih (path.item entry.2) entry.1
        exact ⟨.completed rfl (fun made hmade => by cases hmade) hc, hall⟩
    | _ => exact ⟨rfl, Outline.all_failed _⟩
  | nonNull inner ih =>
    obtain ⟨hc, hall⟩ := ih path value
    exact ⟨exec.completed_required info.coordinate hc, Outline.all_required hall _⟩

end Objects

section Fields

variable {object : String → List FieldNode → Path → Json → Outline}

theorem settled_outlineCall {place : Place} (hplace : place.made = none ∧ place.value = none)
    (resolver : Resolver) (call : Call) {outline : Json → Outline}
    (h : ∀ value, exec.Completed place.nodes place.type value (outline value) ∧
      (outline value).All exec.Settled) :
    exec.Settled (exec.outlineCall place resolver call outline).1
        (exec.outlineCall place resolver call outline).2 ∧
      (exec.outlineCall place resolver call outline).2.All exec.Settled := by
  let made : MadeCall :=
    { call := call
      attempt := resolver call
      outcome := exec.outcome call.info.path (resolver call) }
  have hin (hcut : ∀ ms, pause exec.config.fieldTimeout made.duration ≠ .cut ms) :
      exec.Settled { place with made := some made, value := made.outcome.value? }
          (exec.outlineOutcome call.info outline made.outcome) ∧
        (exec.outlineOutcome call.info outline made.outcome).All exec.Settled := by
    cases hout : made.outcome with
    | value value =>
      refine ⟨.completed rfl (fun other hother => ?_) (h value).1, (h value).2⟩
      obtain rfl := Option.some.inj hother
      exact ⟨hout, hcut⟩
    | raised error =>
      exact ⟨.raised rfl rfl hcut (.inl ⟨_, rfl, rfl⟩), Outline.all_failed _⟩
    | panicked message =>
      unfold outlineOutcome
      dsimp only
      by_cases hc : exec.config.catchPanics = true
      · rw [if_pos hc]
        exact ⟨.raised rfl rfl hcut (.inl ⟨_, rfl, rfl⟩), Outline.all_failed _⟩
      · rw [if_neg hc]
        exact ⟨.raised rfl rfl hcut (.inr ⟨_, rfl⟩), Outline.all_escaped _⟩
  unfold outlineCall
  dsimp only
  cases hp : pause exec.config.fieldTimeout made.duration with
  | none => exact hin fun ms => by rw [hp]; exact Pause.noConfusion
  | sleep ms => exact hin fun ms => by rw [hp]; exact Pause.noConfusion
  | cut ms => exact ⟨.cut rfl hplace.2 hp rfl, Outline.all_failed _⟩
  | forever => exact ⟨.hung rfl hplace.2 hp rfl, Outline.all_leaf _⟩

theorem answers_eq_isSome (object : String → List FieldNode → Path → Json → Outline)
    (parentType : String) (parent : Json) (path : Path) (group : FieldGroup) :
    exec.answers parentType group =
      (exec.outlineGroup object parentType parent path group).isSome := by
  unfold answers outlineGroup
  by_cases hn : group.first.name = "__typename"
  · simp [hn]
  · simp [hn]

variable (groups : List FieldGroup)
  (h : ∀ group ∈ groups, ∀ type path value,
    exec.ObjectAt type group.nodes (object type group.nodes path value))

include h

theorem settled_outlineGroup (parentType : String) (parent : Json) (path : Path)
    {group : FieldGroup} (hgroup : group ∈ groups) {member : Place × Outline}
    (hm : exec.outlineGroup object parentType parent path group = some member) :
    exec.Answers parentType group member ∧ exec.Settled member.1 member.2 ∧
      member.2.All exec.Settled := by
  unfold outlineGroup at hm
  by_cases hn : group.first.name = "__typename"
  · rw [if_pos hn] at hm
    obtain rfl := Option.some.inj hm
    refine ⟨⟨rfl, rfl, ?_⟩, .typename rfl rfl (congrArg some hn) rfl, Outline.all_leaf _⟩
    rw [if_pos hn]
    exact ⟨rfl, rfl⟩
  · rw [if_neg hn] at hm
    obtain ⟨field, hfield, rfl⟩ := Option.map_eq_some_iff.1 hm
    obtain ⟨made, value, hplace⟩ :=
      exec.place_outlineField object parentType parent (path.field group.key) field group
    refine ⟨?_, ?_⟩
    · unfold Answers
      rw [hplace, if_neg hn]
      exact ⟨rfl, rfl, field, hfield, rfl⟩
    · unfold outlineField
      cases exec.schema.coerceArguments field group.first.arguments exec.selector.bindings with
      | error rejection => exact ⟨.rejected rfl rfl rfl, Outline.all_failed _⟩
      | ok arguments =>
        exact exec.settled_outlineCall ⟨rfl, rfl⟩ _ _ fun value =>
          exec.completed_outlineValue (h group hgroup) _ _ _ value

theorem covers_outlineFields (parentType : String) (parent : Json) (path : Path) :
    List.Forall₂ (exec.Answers parentType) (groups.filter (exec.answers parentType))
        (exec.outlineFields object parentType parent path groups) ∧
      ∀ member ∈ exec.outlineFields object parentType parent path groups,
        exec.Settled member.1 member.2 ∧ member.2.All exec.Settled := by
  have hsettled : ∀ group ∈ groups, ∀ member,
      exec.outlineGroup object parentType parent path group = some member →
        exec.Answers parentType group member ∧ exec.Settled member.1 member.2 ∧
          member.2.All exec.Settled :=
    fun _ hgroup _ hm => exec.settled_outlineGroup groups h parentType parent path hgroup hm
  refine ⟨?_, fun member hm => ?_⟩
  · clear h
    unfold outlineFields
    induction groups with
    | nil => exact .nil
    | cons group rest ih =>
      have hrest := ih fun g hg => hsettled g (List.mem_cons_of_mem _ hg)
      have hans := exec.answers_eq_isSome object parentType parent path group
      cases hm : exec.outlineGroup object parentType parent path group with
      | some member =>
        have ha := (hsettled group List.mem_cons_self member hm).1
        rw [hm] at hans
        rw [List.filterMap_cons_some hm, List.filter_cons_of_pos hans]
        exact .cons ha hrest
      | none =>
        rw [hm] at hans
        rw [List.filterMap_cons_none hm, List.filter_cons_of_neg (Bool.eq_false_iff.1 hans)]
        exact hrest
  · obtain ⟨group, hgroup, hm⟩ := List.mem_filterMap.1 hm
    exact (hsettled group hgroup member hm).2

end Fields

theorem objectAt_outlineObject (depth : Nat) (type : String) (nodes : List FieldNode) (path : Path)
    (value : Json) : exec.ObjectAt type nodes (exec.outlineObject depth type nodes path value) := by
  induction depth generalizing type nodes path value with
  | zero => exact ⟨Outline.all_escaped _, .inr ⟨_, rfl⟩⟩
  | succ depth ih =>
    obtain ⟨hc, hall⟩ := exec.covers_outlineFields (exec.groups type (nodes.map (·.selections)))
      (fun group _ type path value => ih type group.nodes path value) type value path
    exact ⟨Outline.all_set.2 hall, .inl ⟨_, rfl, hc⟩⟩

/-! ### Properties of all positions -/

section Along

variable {exec}

theorem Covers.exists_group {type : String} {sets : List (List Selection)}
    {members : List (Place × Outline)} (h : exec.Covers type sets members)
    {member : Place × Outline} (hm : member ∈ members) :
    ∃ group ∈ exec.groups type sets, exec.answers type group = true ∧
      exec.Answers type group member := by
  obtain ⟨i, hi, rfl⟩ := List.mem_iff_getElem.1 hm
  have hlength := List.Forall₂.length_eq h
  obtain ⟨hgroup, hanswers⟩ := List.mem_filter.1 (List.getElem_mem (hlength ▸ hi))
  exact ⟨_, hgroup, hanswers, List.Forall₂.get h (hlength ▸ hi) hi⟩

/-- Only what was completed has positions below it. -/
theorem Settled.completed_of_set {place : Place} {kind : SetKind} {members : List (Place × Outline)}
    (h : exec.Settled place (.set kind members)) :
    ∃ value, exec.Completed place.nodes place.type value (.set kind members) := by
  cases h with
  | completed _ _ hc => exact ⟨_, hc⟩
  | typename _ _ _ ho => cases ho
  | rejected _ _ ho => cases ho
  | cut _ _ _ ho => cases ho
  | hung _ _ _ ho => cases ho
  | raised _ _ _ ho =>
    rcases ho with ⟨failure, ho, -⟩ | ⟨cause, ho⟩
    · cases ho
    · cases ho

/-- The property of nodes and their type goes from a list to its items, and from an object to the
fields that are answered there. -/
structure Inherits (exec : Execution) (P : List FieldNode → TypeExpr → Prop) : Prop where
  item : ∀ nodes type item, P nodes type → type.bare = .list item → P nodes item
  field : ∀ nodes type name object group field, P nodes type → type.bare = .named name →
    object ∈ exec.schema.possibleTypes name → exec.schema.IsObject object →
    group ∈ exec.groups object (nodes.map (·.selections)) → group.first.name ≠ "__typename" →
    exec.schema.field? object group.first.name = some field → P group.nodes field.type

/-- The nodes of the position and its type have the property, or a type's name stands there. -/
def Holds (P : List FieldNode → TypeExpr → Prop) (place : Place) (o : Outline) : Prop :=
  P place.nodes place.type ∨
    place.nodes.head?.map (·.name) = some "__typename" ∧ ∃ type, o = .leaf (.str type)

variable {P : List FieldNode → TypeExpr → Prop}

theorem Answers.holds {object : String} {group : FieldGroup} {member : Place × Outline}
    (h : exec.Answers object group member)
    (hP : ∀ field, group.first.name ≠ "__typename" →
      exec.schema.field? object group.first.name = some field → P group.nodes field.type) :
    Holds P member.1 member.2 := by
  obtain ⟨-, hnodes, hanswer⟩ := h
  unfold Holds
  rw [hnodes]
  by_cases hname : group.first.name = "__typename"
  · rw [if_pos hname] at hanswer
    exact .inr ⟨congrArg some hname, object, hanswer.2⟩
  · rw [if_neg hname] at hanswer
    obtain ⟨field, hfield, htype⟩ := hanswer
    rw [htype]
    exact .inl (hP field hname hfield)

/-- A property that is inherited holds of all positions below one where it holds. -/
theorem Inherits.all_below (h : exec.Inherits P) (o : Outline) (hall : o.All exec.Settled)
    {place : Place} (hsettled : exec.Settled place o) (hP : Holds P place o) :
    o.All (Holds P) := by
  induction o using Outline.induct generalizing place with
  | hleaf data => exact Outline.all_leaf data
  | hfailed failure => exact Outline.all_failed failure
  | hescaped cause => exact Outline.all_escaped cause
  | hset kind members ih =>
    obtain ⟨value, hc⟩ := hsettled.completed_of_set
    refine Outline.all_set.2 fun member hm => ?_
    obtain ⟨hown, hbelow⟩ := Outline.all_set.1 hall member hm
    have hmember : Holds P member.1 member.2 := by
      rcases hP with hP | ⟨-, type, hleaf⟩
      · cases kind with
        | items =>
          obtain ⟨item, items, hbare, -, hplaces⟩ := hc
          have hplace : member.1 ∈ items.zipIdx.map (itemPlace item place.nodes) :=
            hplaces ▸ List.mem_map_of_mem hm
          obtain ⟨entry, -, hplace⟩ := List.mem_map.1 hplace
          unfold Holds
          rw [← hplace]
          exact .inl (h.item place.nodes place.type item hP hbare)
        | fields object =>
          obtain ⟨name, hbare, hpossible, hobject, hcovers⟩ := hc
          obtain ⟨group, hgroup, -, hanswers⟩ := hcovers.exists_group hm
          exact hanswers.holds fun field hname hfield =>
            h.field place.nodes place.type name object group field hP hbare hpossible hobject hgroup
              hname hfield
      · cases hleaf
    exact ⟨hmember, ih member hm hbelow hown hmember⟩

end Along

end Execution

/-- The positions of a run, from the root fields down. -/
theorem Run.settled_outline (run : Run) (depth : Nat) (log : CallLog) :
    ∃ members, run.outline depth log = .set (.fields run.rootType) members ∧
      (run.execution log).Covers run.rootType [run.selections] members ∧
      (run.outline depth log).All (run.execution log).Settled := by
  obtain ⟨hc, hall⟩ := (run.execution log).covers_outlineFields
    ((run.execution log).groups run.rootType [run.selections])
    (fun group _ type path value =>
      (run.execution log).objectAt_outlineObject depth type group.nodes path value)
    run.rootType run.root Path.root
  exact ⟨_, rfl, hc, Outline.all_set.2 hall⟩

/-- A property that the root fields have and that is inherited holds of all positions of a run. -/
theorem Run.all_of_inherits (run : Run) (depth : Nat) (log : CallLog)
    {P : List FieldNode → TypeExpr → Prop} (h : (run.execution log).Inherits P)
    (hroot : ∀ group ∈ (run.execution log).groups run.rootType [run.selections], ∀ field,
      group.first.name ≠ "__typename" →
      run.selector.schema.field? run.rootType group.first.name = some field →
        P group.nodes field.type) :
    (run.outline depth log).All (Execution.Holds P) := by
  obtain ⟨members, ho, hc, hall⟩ := run.settled_outline depth log
  rw [ho] at hall ⊢
  refine Outline.all_set.2 fun member hm => ?_
  obtain ⟨hsettled, hbelow⟩ := Outline.all_set.1 hall member hm
  obtain ⟨group, hgroup, -, hanswers⟩ := hc.exists_group hm
  have hmember : Execution.Holds P member.1 member.2 := hanswers.holds (hroot group hgroup)
  exact ⟨hmember, h.all_below member.2 hbelow hsettled hmember⟩

end TypedQuery
