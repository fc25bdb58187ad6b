import Mathlib.Data.List.Forall2
import TypedQuery.Proofs.Execution.Fragments
import TypedQuery.Proofs.Execution.Viewing
/-!
Executions of which one asks with other fields for the same.  When the groups of two executions
correspond, so do all that they attempt: `Run.matches_outline`.  Outlines that match have the same
data and the same calls, and the same failures at the same paths.
-/

namespace TypedQuery

/-- The failures are the same but for their locations, which are related. -/
structure FieldFailure.Relocated (L : List Location → List Location → Prop)
    (f f' : FieldFailure) : Prop where
  failure : f'.failure = f.failure
  path : f'.path = f.path
  locations : L f.locations f'.locations

/-- The view of all but the fields that ask for the positions. -/
def View.bare : View where
  keep place := { place with nodes := [] }
  blank _ := false
  relocate _ := []
  segment_keep _ := rfl
  type_keep _ := rfl
  locations_keep _ := rfl

/-! ## Outlines that match -/

namespace Outline

section Matches

variable (R : List FieldNode → List FieldNode → Prop)

mutual

/-- The outlines differ in the fields that ask for their positions, and these are related. -/
inductive Matches : Outline → Outline → Prop
  | leaf (data : Json) : Matches (leaf data) (leaf data)
  | failed (failure : Failure) : Matches (failed failure) (failed failure)
  | escaped (cause : Escape) : Matches (escaped cause) (escaped cause)
  | set (kind : SetKind) {members members' : List (Place × Outline)}
      (h : MembersMatch members members') : Matches (set kind members) (set kind members')

inductive MembersMatch : List (Place × Outline) → List (Place × Outline) → Prop
  | nil : MembersMatch [] []
  | cons {place : Place} {nodes : List FieldNode} {o o' : Outline}
      {rest rest' : List (Place × Outline)} (hnodes : R place.nodes nodes) (ho : Matches o o')
      (hrest : MembersMatch rest rest') :
      MembersMatch ((place, o) :: rest) (({ place with nodes := nodes }, o') :: rest')

end

end Matches

variable {R : List FieldNode → List FieldNode → Prop}

section Read

variable {view : View}

mutual

/-- Outlines that match look the same to a view that does not see the difference in the fields. -/
theorem Matches.read (hkeep : ∀ {nodes nodes'}, R nodes nodes' → ∀ place : Place,
    view.keep { place with nodes := nodes' } = view.keep { place with nodes := nodes }) :
    ∀ {o o' : Outline} (base : Path), o.Matches R o' → view.read base o' = view.read base o
  | _, _, _, .leaf _ => rfl
  | _, _, _, .failed _ => rfl
  | _, _, _, .escaped _ => rfl
  | _, _, base, .set kind h => congrArg (set kind) (h.read hkeep base)

theorem MembersMatch.read (hkeep : ∀ {nodes nodes'}, R nodes nodes' → ∀ place : Place,
    view.keep { place with nodes := nodes' } = view.keep { place with nodes := nodes }) :
    ∀ {members members' : List (Place × Outline)} (base : Path), MembersMatch R members members' →
    view.readMembers base members' = view.readMembers base members
  | _, _, _, .nil => rfl
  | _, _, base, @MembersMatch.cons _ place _ _ _ _ _ hnodes ho hrest => by
    rw [View.readMembers, View.readMembers, hkeep hnodes place, ho.read hkeep,
      hrest.read hkeep base]

end

end Read

section Marks

variable {L : List Location → List Location → Prop}

theorem relocated_failure? (hL : ∀ {nodes nodes'}, R nodes nodes' →
    L (nodes.map fun node => node.location) (nodes'.map fun node => node.location))
    {o o' : Outline} (h : o.Matches R o') {place : Place} {nodes : List FieldNode}
    (hnodes : R place.nodes nodes) (path : Path) :
    List.Forall₂ (FieldFailure.Relocated L)
      (o.failure?.toList.map fun failure =>
        { failure := failure, locations := place.locations, path := path })
      (o'.failure?.toList.map fun failure =>
        { failure := failure
          locations := ({ place with nodes := nodes } : Place).locations
          path := path }) := by
  cases h with
  | failed failure => exact .cons ⟨rfl, rfl, hL hnodes⟩ .nil
  | _ => exact .nil

mutual

/-- Outlines that match have the same failures in the same order. -/
theorem Matches.marks (hL : ∀ {nodes nodes'}, R nodes nodes' →
    L (nodes.map fun node => node.location) (nodes'.map fun node => node.location)) :
    ∀ {o o' : Outline} (path : Path), o.Matches R o' →
      List.Forall₂ (FieldFailure.Relocated L) (o.marks path) (o'.marks path)
  | _, _, _, .leaf _ => .nil
  | _, _, _, .failed _ => .nil
  | _, _, _, .escaped _ => .nil
  | _, _, path, .set _ h => h.marks hL path

theorem MembersMatch.marks (hL : ∀ {nodes nodes'}, R nodes nodes' →
    L (nodes.map fun node => node.location) (nodes'.map fun node => node.location)) :
    ∀ {members members' : List (Place × Outline)} (path : Path), MembersMatch R members members' →
      List.Forall₂ (FieldFailure.Relocated L) (memberMarks path members) (memberMarks path members')
  | _, _, _, .nil => .nil
  | _, _, path, @MembersMatch.cons _ place _ _ _ _ _ hnodes ho hrest => by
    have hown := relocated_failure? hL ho hnodes (path ++ [place.segment])
    rw [memberMarks, memberMarks]
    exact List.rel_append (List.rel_append hown (ho.marks hL _)) (hrest.marks hL path)

end

end Marks

theorem Matches.data_eq {o o' : Outline} (h : o.Matches R o') : o'.data = o.data := by
  have hsees : View.bare.Sees Path.root := fun _ _ => rfl
  rw [← View.data_read hsees o', h.read (fun _ _ => rfl), View.data_read hsees]

/-- Outlines that match have the same response when the fields have the same locations. -/
theorem Matches.response_eq (hlocations : ∀ {nodes nodes'}, R nodes nodes' →
    nodes.map (fun node => node.location) = nodes'.map fun node => node.location)
    {o o' : Outline} (h : o.Matches R o') : o'.response = o.response := by
  have hmarks : List.Forall₂ Eq (o.marks Path.root) (o'.marks Path.root) := by
    refine (h.marks hlocations Path.root).imp fun f f' hf => ?_
    obtain ⟨failure, locations, path⟩ := f
    obtain ⟨hfailure, hpath, hsame⟩ := hf
    obtain ⟨failure', locations', path'⟩ := f'
    obtain rfl : failure' = failure := hfailure
    obtain rfl : path' = path := hpath
    obtain rfl : locations = locations' := hsame
    rfl
  rw [List.forall₂_eq_eq_eq] at hmarks
  rw [response, response, h.data_eq, hmarks]

theorem MembersMatch.append {members members' more more' : List (Place × Outline)}
    (h : MembersMatch R members members') (hmore : MembersMatch R more more') :
    MembersMatch R (members ++ more) (members' ++ more') := by
  induction members generalizing members' with
  | nil =>
    cases h
    exact hmore
  | cons member rest ih =>
    cases h with
    | cons hnodes ho hrest => exact .cons hnodes ho (ih hrest)

theorem Matches.required {o o' : Outline} (h : o.Matches R o') (field : String) :
    (o.required field).Matches R (o'.required field) := by
  cases h with
  | leaf data =>
    cases data with
    | null => exact .failed _
    | _ => exact .leaf _
  | failed failure => exact .failed failure
  | escaped cause => exact .escaped cause
  | set kind h => exact .set kind h

end Outline

/-! ## Executions that match -/

/-- The groups answer under the same key and make the same call, for fields that are related. -/
structure FieldGroup.Matches (R : List FieldNode → List FieldNode → Prop)
    (group group' : FieldGroup) : Prop where
  key : group'.key = group.key
  name : group'.first.name = group.first.name
  arguments : group'.first.arguments = group.first.arguments
  nodes : R group.nodes group'.nodes

namespace Execution

open Outline

variable {exec : Execution} {fragments : List Fragment}
  {R : List FieldNode → List FieldNode → Prop}

section Values

variable {object object' : String → Path → Json → Outline}
  (h : ∀ type path value, (object type path value).Matches R (object' type path value))

include h

theorem matches_outlineAbstract (info : FieldInfo) (type : String) (placer : Option Placer)
    (path : Path) (value : Json) :
    (exec.outlineAbstract object info type placer path value).Matches R
      ((exec.withFragments fragments).outlineAbstract object' info type placer path value) := by
  show Matches R _ (exec.outlineAbstract object' info type placer path value)
  unfold outlineAbstract
  cases placer.getD Placer.byTypename value exec.context with
  | panicked message => exact .escaped _
  | unknown => exact .failed _
  | type name =>
    dsimp only
    cases exec.schema.object? name with
    | some objectType =>
      dsimp only
      split
      · exact h _ path value
      · exact .failed _
    | none =>
      dsimp only
      split <;> exact .failed _

theorem matches_outlineNamed (info : FieldInfo) (name : String) (path : Path) (value : Json) :
    (exec.outlineNamed object info name path value).Matches R
      ((exec.withFragments fragments).outlineNamed object' info name path value) := by
  show Matches R _ (exec.outlineNamed object' info name path value)
  unfold outlineNamed
  cases exec.schema.type? name with
  | none => exact .failed _
  | some type =>
    cases type with
    | scalar type =>
      dsimp only
      cases exec.schema.coerceResult name value with
      | ok result => exact .leaf result
      | error rejection => exact .failed _
    | enum type =>
      dsimp only
      cases exec.schema.coerceResult name value with
      | ok result => exact .leaf result
      | error rejection => exact .failed _
    | object type => exact h _ path value
    | interface type =>
      exact @matches_outlineAbstract exec fragments R object object' h info name type.placer path
        value
    | union type =>
      exact @matches_outlineAbstract exec fragments R object object' h info name type.placer path
        value

theorem matches_outlineValue {nodes nodes' : List FieldNode} (hnodes : R nodes nodes')
    (info : FieldInfo) (type : TypeExpr) (path : Path) (value : Json) :
    (exec.outlineValue object info nodes type path value).Matches R
      ((exec.withFragments fragments).outlineValue object' info nodes' type path value) := by
  induction type generalizing path value with
  | named name =>
    unfold outlineValue
    split
    · exact .leaf _
    · exact matches_outlineNamed h info name path value
  | list item ih =>
    cases value with
    | arr items =>
      have hitems (entries : List (Json × Nat)) : MembersMatch R
          (entries.map (outlineItem item nodes (exec.outlineValue object info nodes item) path))
          (entries.map (outlineItem item nodes'
            ((exec.withFragments fragments).outlineValue object' info nodes' item) path)) := by
        induction entries with
        | nil => exact .nil
        | cons entry rest ihrest => exact .cons hnodes (ih (path.item entry.2) entry.1) ihrest
      unfold outlineValue
      exact .set .items (hitems _)
    | null => exact .leaf _
    | _ => exact .failed _
  | nonNull inner ih =>
    rw [outlineValue, outlineValue]
    exact (ih path value).required info.coordinate

end Values

/-- What follows calls with the same result matches when it does for all values. -/
theorem matches_outlineResult {outline outline' : Json → Outline}
    (h : ∀ value, (outline value).Matches R (outline' value)) (info : FieldInfo)
    (result : Option Outcome) :
    (exec.outlineResult info outline result).Matches R
      (exec.outlineResult info outline' result) := by
  cases result with
  | none =>
    unfold outlineResult
    cases exec.config.fieldTimeout with
    | none => exact .leaf _
    | some ms => exact .failed _
  | some outcome =>
    unfold outlineResult outlineOutcome
    cases outcome with
    | value value => exact h value
    | raised error => exact .failed _
    | panicked message =>
      dsimp only
      split
      · exact .failed _
      · exact .escaped _

section Fields

variable {object object' : String → List FieldNode → Path → Json → Outline}
  (h : ∀ {nodes nodes'}, R nodes nodes' → ∀ type path value,
    (object type nodes path value).Matches R (object' type nodes' path value))

include h

/-- Groups that match make the same call, and what follows the calls matches. -/
theorem matches_outlineField (parentType : String) (parent : Json) (path : Path) (field : FieldDef)
    {group group' : FieldGroup} (hgroup : group.Matches R group') :
    MembersMatch R
      [exec.outlineField object parentType parent (path.field group.key) field group]
      [(exec.withFragments fragments).outlineField object' parentType parent
        (path.field group'.key) field group'] := by
  have harguments : (exec.withFragments fragments).schema.coerceArguments field
        group'.first.arguments (exec.withFragments fragments).selector.bindings =
      exec.schema.coerceArguments field group.first.arguments exec.selector.bindings := by
    rw [hgroup.arguments]
    rfl
  have hplace : fieldPlace field group' =
      { fieldPlace field group with nodes := group'.nodes } := by
    unfold fieldPlace
    rw [hgroup.key]
  unfold outlineField
  rw [harguments, hplace, hgroup.key]
  cases exec.schema.coerceArguments field group.first.arguments exec.selector.bindings with
  | error rejection => exact .cons hgroup.nodes (.failed _) .nil
  | ok arguments =>
    dsimp only
    rw [outlineCall_eq_result, outlineCall_eq_result]
    refine .cons hgroup.nodes ?_ .nil
    exact matches_outlineResult (fun value =>
      matches_outlineValue (h hgroup.nodes) hgroup.nodes _ field.type _ value) _ _

theorem matches_outlineFields (parentType : String) (parent : Json) (path : Path)
    {groups groups' : List FieldGroup}
    (hgroups : List.Forall₂ (FieldGroup.Matches R) groups groups') :
    MembersMatch R (exec.outlineFields object parentType parent path groups)
      ((exec.withFragments fragments).outlineFields object' parentType parent path groups') := by
  unfold outlineFields
  induction hgroups with
  | nil => exact .nil
  | @cons group group' rest rest' hgroup _ ih =>
    rw [List.filterMap_cons, List.filterMap_cons]
    unfold outlineGroup
    rw [hgroup.name]
    by_cases htypename : group.first.name = "__typename"
    · rw [if_pos htypename, if_pos htypename]
      unfold outlineTypename
      rw [hgroup.key]
      exact .cons hgroup.nodes (.leaf _) ih
    · rw [if_neg htypename, if_neg htypename]
      have hfield : (exec.withFragments fragments).schema.field? parentType group.first.name =
          exec.schema.field? parentType group.first.name := rfl
      rw [hfield]
      cases exec.schema.field? parentType group.first.name with
      | none => exact ih
      | some field => exact (matches_outlineField h parentType parent path field hgroup).append ih

end Fields

/-- Objects match when the groups of their fields do. -/
theorem matches_outlineObject {S : List (List Selection) → List (List Selection) → Prop}
    (hsets : ∀ {nodes nodes'}, R nodes nodes' →
      S (nodes.map (·.selections)) (nodes'.map (·.selections)))
    (hgroups : ∀ {sets sets'}, S sets sets' → ∀ type, List.Forall₂ (FieldGroup.Matches R)
      (exec.groups type sets) ((exec.withFragments fragments).groups type sets'))
    (depth : Nat) {nodes nodes' : List FieldNode} (h : R nodes nodes') (type : String)
    (path : Path) (value : Json) :
    (exec.outlineObject depth type nodes path value).Matches R
      ((exec.withFragments fragments).outlineObject depth type nodes' path value) := by
  induction depth generalizing nodes nodes' type path value with
  | zero => exact .escaped _
  | succ depth ih =>
    rw [outlineObject, outlineObject]
    exact .set _ (matches_outlineFields ih type value path (hgroups (hsets h) type))

end Execution

/-! ## Runs that match -/

namespace Run

/-- The same run on other selections and fragments. -/
def rewritten (fragments : List Fragment) (selections : List Selection) (depth : Nat) (run : Run) :
    Run :=
  { run with
    selector := run.selector.withFragments fragments
    selections := selections
    depth := depth }

/-- The run attempts the same as the rewritten one, when their groups match. -/
theorem matches_outline {R : List FieldNode → List FieldNode → Prop}
    {S : List (List Selection) → List (List Selection) → Prop} {run : Run}
    {fragments : List Fragment} {selections : List Selection}
    (hsets : ∀ {nodes nodes'}, R nodes nodes' →
      S (nodes.map (·.selections)) (nodes'.map (·.selections)))
    (hgroups : ∀ {sets sets'}, S sets sets' → ∀ type, List.Forall₂ (FieldGroup.Matches R)
      (FieldGroup.ofNodes (run.selector.collect type sets))
      (FieldGroup.ofNodes ((run.selector.withFragments fragments).collect type sets')))
    (hroot : S [run.selections] [selections]) (limit depth : Nat) (log : CallLog) :
    (run.outline depth log).Matches R
      ((run.rewritten fragments selections limit).outline depth log) :=
  .set _ (Execution.matches_outlineFields
    (@Execution.matches_outlineObject (run.execution log) fragments R S hsets hgroups depth)
    run.rootType run.root Path.root (hgroups hroot run.rootType))

end Run

end TypedQuery
