import TypedQuery.Proofs.Execution.Nulls
import TypedQuery.Proofs.Execution.Timing
import TypedQuery.Proofs.Validation.Resolvers
/-!
What one call can change.  Whatever a call comes to, the errors elsewhere stay, in their order, and
data changes at most at the nearest position around the call that may be null: `isolated_call`.
-/

namespace TypedQuery

/-! ## Data -/

/-- The value with null at a path, where the path is there. -/
def Json.clear : Path → Json → Json
  | [], _ => .null
  | .key name :: rest, .obj fields =>
    .obj (fields.map fun field => if field.1 = name then (field.1, clear rest field.2) else field)
  | .index i :: rest, .arr items => .arr (items.modify i (clear rest))
  | _ :: _, value => value

/-- Clearing a path puts null there. -/
theorem Json.at?_clear {path : Path} {value found : Json} (h : value.at? path = some found) :
    (value.clear path).at? path = some .null := by
  induction path generalizing value with
  | nil => rfl
  | cons segment rest ih =>
    cases segment with
    | key name =>
      cases value with
      | obj fields =>
        obtain ⟨inner, hinner, hfound⟩ := Option.bind_eq_some_iff.1 h
        rw [clear, at?]
        have hlookup : (fields.map fun field =>
            if field.1 = name then (field.1, clear rest field.2) else field).lookup name =
              some (inner.clear rest) := by
          clear h ih
          induction fields with
          | nil => cases hinner
          | cons first others ih =>
            obtain ⟨key, value⟩ := first
            rw [List.lookup_cons] at hinner
            rw [List.map_cons, List.lookup_cons]
            by_cases hkey : key = name
            · subst hkey
              rw [beq_self_eq_true] at hinner
              obtain rfl := Option.some.inj hinner
              simp
            · have hne : (name == key) = false := by simpa using Ne.symm hkey
              rw [hne] at hinner
              rw [if_neg hkey, hne]
              exact ih hinner
        rw [hlookup]
        exact ih hfound
      | _ => cases h
    | index i =>
      cases value with
      | arr items =>
        obtain ⟨inner, hinner, hfound⟩ := Option.bind_eq_some_iff.1 h
        rw [clear, at?, List.getElem?_modify_eq, hinner]
        exact ih hfound
      | _ => cases h

namespace SetKind

variable {members : List (PathSegment × Json)}

theorem clear_items (h : items.Spells (members.map Prod.fst)) (segment : PathSegment)
    (rest : Path) :
    (items.build members).clear (segment :: rest) =
      items.build (members.map fun member =>
        (member.1, if member.1 = segment then member.2.clear rest else member.2)) := by
  have hget {i : Nat} (hi : i < members.length) : members[i].1 = .index i := by
    have hi' : (members.map Prod.fst)[i]? =
        ((List.range (members.map Prod.fst).length).map PathSegment.index)[i]? :=
      congrArg (·[i]?) h
    simpa [hi] using hi'
  cases segment with
  | key name =>
    show Json.arr _ = Json.arr _
    rw [List.map_map]
    refine congrArg _ (List.map_congr_left fun member hm => ?_)
    obtain ⟨i, hi, rfl⟩ := List.mem_iff_getElem.1 hm
    have hne : ¬ PathSegment.index i = .key name := fun he => by cases he
    rw [Function.comp_apply, hget hi, if_neg hne]
  | index i =>
    show Json.arr _ = Json.arr _
    rw [List.map_map]
    refine congrArg _ (List.ext_getElem (by simp) fun j hj hj' => ?_)
    have hlength : j < members.length := by simpa using hj'
    rw [List.getElem_modify, List.getElem_map, List.getElem_map, Function.comp_apply,
      hget hlength]
    by_cases hij : i = j
    · rw [if_pos hij, if_pos (congrArg _ hij.symm)]
    · rw [if_neg hij, if_neg fun he => hij (PathSegment.index.inj he).symm]

theorem clear_fields {type : String} (h : (fields type).Spells (members.map Prod.fst))
    (segment : PathSegment) (rest : Path) :
    ((fields type).build members).clear (segment :: rest) =
      (fields type).build (members.map fun member =>
        (member.1, if member.1 = segment then member.2.clear rest else member.2)) := by
  cases segment with
  | key name =>
    show Json.obj _ = Json.obj _
    rw [List.map_map, List.map_map]
    refine congrArg _ (List.map_congr_left fun member hm => ?_)
    obtain ⟨own, hown⟩ := h.2 _ (List.mem_map_of_mem hm)
    rw [Function.comp_apply, Function.comp_apply, hown]
    show (if own = name then _ else _) = _
    by_cases hname : own = name
    · rw [if_pos hname, if_pos (congrArg _ hname)]
    · rw [if_neg hname, if_neg fun he => hname (PathSegment.key.inj he)]
  | index i =>
    show Json.obj _ = Json.obj _
    rw [List.map_map]
    refine congrArg _ (List.map_congr_left fun member hm => ?_)
    obtain ⟨own, hown⟩ := h.2 _ (List.mem_map_of_mem hm)
    have hne : ¬ PathSegment.key own = .index i := fun he => by cases he
    rw [Function.comp_apply, hown, if_neg hne]

/-- Clearing goes into the member whose segment comes first. -/
theorem clear_build {kind : SetKind} (h : kind.Spells (members.map Prod.fst))
    (segment : PathSegment) (rest : Path) :
    (kind.build members).clear (segment :: rest) =
      kind.build (members.map fun member =>
        (member.1, if member.1 = segment then member.2.clear rest else member.2)) := by
  cases kind with
  | items => exact clear_items h segment rest
  | fields type => exact clear_fields h segment rest

end SetKind

/-! ## Outlines without a position -/

/-- The view that sees nothing of the position at a path, and of other positions no calls. -/
def View.without (off : Path) : View where
  keep place := { place with made := none, value := none }
  blank path := path == off
  relocate := id
  segment_keep _ := rfl
  type_keep _ := rfl
  locations_keep _ := rfl

namespace View

variable {off : Path}

theorem blank_without {path : Path} : (without off).blank path = true ↔ path = off :=
  beq_iff_eq

theorem sees_without {base : Path} (h : ¬ base <+: off) : (without off).Sees base := by
  intro path _
  rw [Bool.eq_false_iff]
  intro hblank
  exact h ⟨path, blank_without.1 hblank⟩

/-- A member off the path is seen as it is. -/
theorem readMember_without {base : Path} {member : Place × Outline}
    (h : ¬ base ++ [member.1.segment] <+: off) :
    (without off).readMember base member =
      ((without off).keep member.1,
        (without off).read (base ++ [member.1.segment]) member.2) := by
  have hblank : ¬ (without off).blank (base ++ [member.1.segment]) = true := by
    intro hblank
    exact h (blank_without.1 hblank ▸ List.prefix_refl _)
  rw [readMember, if_neg hblank]

/-- Failures at the path and below it are not seen, all others are. -/
theorem marks_read_without {base : Path} (h : ¬ off <+: base) (o : Outline) :
    ((without off).read base o).marks base =
      (o.marks base).filter fun f => decide (¬ off <+: f.path) := by
  induction o using Outline.induct generalizing base with
  | hleaf data => rfl
  | hfailed failure => rfl
  | hescaped cause => rfl
  | hset kind members ih =>
    rw [read, Outline.marks, Outline.marks, readMembers_eq_map, Outline.memberMarks_eq_flatMap,
      Outline.memberMarks_eq_flatMap base members, List.filter_flatMap, List.flatMap_map]
    refine List.flatMap_congr fun member hm => ?_
    by_cases hoff : base ++ [member.1.segment] = off
    · -- nothing is left of this member, and all its failures are off
      have hblank : (without off).blank (base ++ [member.1.segment]) = true :=
        blank_without.2 hoff
      have hnone : ∀ f ∈ Outline.memberMarks base [member], ¬ decide (¬ off <+: f.path) = true := by
        intro f hf
        obtain ⟨other, hother, rest, hpath⟩ := Outline.path_of_mem_memberMarks hf
        obtain rfl := List.mem_singleton.1 hother
        rw [decide_eq_true_eq, not_not, hpath, ← hoff]
        exact ⟨rest, by rw [List.append_assoc]; rfl⟩
      rw [List.filter_eq_nil_iff.2 hnone, readMember, if_pos hblank]
      rfl
    · have hbelow : ¬ off <+: base ++ [member.1.segment] := by
        intro hprefix
        rcases List.prefix_concat_iff.1 hprefix with he | hprefix
        · exact hoff he.symm
        · exact h hprefix
      have hblank : ¬ (without off).blank (base ++ [member.1.segment]) = true :=
        fun hblank => hoff (blank_without.1 hblank)
      obtain ⟨place, o⟩ := member
      rw [readMember, if_neg hblank, Outline.memberMarks, Outline.memberMarks,
        Outline.memberMarks, Outline.memberMarks, List.append_nil, List.append_nil,
        (without off).segment_keep, ih _ hm hbelow, List.filter_append, failure?_read,
        locations_keep]
      refine congrArg (· ++ _) (List.filter_eq_self.2 fun f hf => ?_).symm
      obtain ⟨failure, -, rfl⟩ := List.mem_map.1 hf
      exact decide_eq_true hbelow

end View

/-! ### Nulls around the position -/

/-- The outline has a position at the path, and it may be null. -/
def Outline.Nullable (o : Outline) (path : Path) : Prop :=
  ∃ place inner, o.At path place inner ∧ place.type.isNonNull = false

theorem Outline.anyNulled_eq_any (members : List (Place × Outline)) :
    anyNulled members =
      (members.map fun member => member.1.type.isNonNull && member.2.isNulled).any id := by
  induction members with
  | nil => rfl
  | cons member rest ih => rw [anyNulled, ih, List.map_cons, List.any_cons]; rfl

namespace View

variable {off : Path}

/-- Which member a position that is seen belongs to. -/
theorem nullable_read {view : View} {base : Path} {kind : SetKind}
    {members : List (Place × Outline)} {segment : PathSegment} {front : Path}
    (h : (view.read base (.set kind members)).Nullable (segment :: front)) :
    ∃ member ∈ members, member.1.segment = segment ∧
      (front = [] ∧ member.1.type.isNonNull = false ∨
        (view.readMember base member).2.Nullable front) := by
  obtain ⟨place, inner, hat, htype⟩ := h
  rw [read, readMembers_eq_map] at hat
  obtain ⟨seen, hseen, hcase⟩ := Outline.at_set.1 hat
  obtain ⟨member, hm, rfl⟩ := List.mem_map.1 hseen
  refine ⟨member, hm, ?_⟩
  rcases hcase with ⟨hpath, he⟩ | ⟨rest, hpath, hin⟩
  · obtain ⟨hsegment, rfl⟩ := List.cons.inj hpath
    obtain ⟨rfl, -⟩ := Prod.mk.inj he
    refine ⟨(hsegment.trans (view.segment_keep _)).symm, .inl ⟨rfl, ?_⟩⟩
    rw [← view.type_keep]
    exact htype
  · obtain ⟨hsegment, rfl⟩ := List.cons.inj hpath
    exact ⟨(hsegment.trans (view.segment_keep _)).symm, .inr ⟨place, inner, hin, htype⟩⟩

/-- Another member than the one on the way to the path is not on that way. -/
theorem not_prefix_of_ne {base rest : Path} {segment other : PathSegment}
    (hoff : off = base ++ segment :: rest) (hne : other ≠ segment) : ¬ base ++ [other] <+: off := by
  rw [hoff]
  intro hprefix
  exact hne (List.cons_prefix_cons.1 ((List.prefix_append_right_inj base).1 hprefix)).1

/-- The member on the way to the path is left out, or the path goes on in it. -/
theorem readMember_on {base rest : Path} {member : Place × Outline}
    (hoff : off = base ++ member.1.segment :: rest) :
    (rest = [] ∧ ((without off).readMember base member).2 = .leaf .null) ∨
      off = base ++ [member.1.segment] ++ rest ∧
        ((without off).readMember base member).2 =
          (without off).read (base ++ [member.1.segment]) member.2 := by
  by_cases hblank : (without off).blank (base ++ [member.1.segment]) = true
  · have hsame : base ++ [member.1.segment] = base ++ member.1.segment :: rest :=
      (blank_without.1 hblank).trans hoff
    refine .inl ⟨?_, if_pos hblank⟩
    exact (List.cons.inj (List.append_cancel_left hsame)).2.symm
  · refine .inr ⟨?_, if_neg hblank⟩
    rw [hoff, List.append_assoc]
    rfl

theorem eq_cons_of_prefix {segment : PathSegment} {front rest : Path}
    (h : segment :: front <+: rest) : ∃ others, rest = segment :: others ∧ front <+: others := by
  obtain ⟨back, rfl⟩ := h
  exact ⟨front ++ back, rfl, List.prefix_append _ _⟩

/-- A null leaves what is seen of a position just when one leaves the position, if there is one
between it and the position left out that may be null. -/
theorem isNulled_read_without {o : Outline} (h : o.Orderly) {base rest front : Path}
    (hoff : off = base ++ rest) (hfront : front <+: rest)
    (hnullable : ((without off).read base o).Nullable front) :
    ((without off).read base o).isNulled = o.isNulled := by
  induction o using Outline.induct generalizing base rest front with
  | hleaf data => rfl
  | hfailed failure => rfl
  | hescaped cause => rfl
  | hset kind members ih =>
    rcases front with _ | ⟨segment, front⟩
    · obtain ⟨_, _, hat, -⟩ := hnullable
      exact absurd rfl hat.ne_nil
    obtain ⟨rest, rfl, hinner⟩ := eq_cons_of_prefix hfront
    obtain ⟨own, hown, rfl, hbelow⟩ := nullable_read hnullable
    show Outline.anyNulled ((without off).readMembers base members) = Outline.anyNulled members
    rw [readMembers_eq_map, Outline.anyNulled_eq_any, Outline.anyNulled_eq_any, List.map_map]
    refine congrArg (List.any · id) (List.map_congr_left fun member hm => ?_)
    show (member.1.type.isNonNull && ((without off).readMember base member).2.isNulled) = _
    by_cases hs : member.1.segment = own.1.segment
    · obtain rfl : member = own := h.eq_of_segment hm hown hs
      rcases hbelow with ⟨-, htype⟩ | hbelow
      · rw [htype, Bool.false_and, Bool.false_and]
      · rcases readMember_on hoff with ⟨-, hleaf⟩ | ⟨hdeeper, hread⟩
        · rw [hleaf] at hbelow
          obtain ⟨_, _, hat, -⟩ := hbelow
          cases hat
        · rw [hread] at hbelow ⊢
          rw [ih member hm (h.member hm) hdeeper hinner hbelow]
    · have hapart := not_prefix_of_ne hoff hs
      rw [readMember_without hapart, isNulled_read (sees_without hapart)]

/-- Once a position around the one left out is cleared that may be null, or the whole, the data that
is seen is that of the outline. -/
theorem clear_data_read {o : Outline} (h : o.Orderly) {base rest front : Path}
    (hoff : off = base ++ rest) (hfront : front <+: rest)
    (hnullable : front = [] ∨ ((without off).read base o).Nullable front) :
    ((without off).read base o).data.clear front = o.data.clear front := by
  induction o using Outline.induct generalizing base rest front with
  | hleaf data => rfl
  | hfailed failure => rfl
  | hescaped cause => rfl
  | hset kind members ih =>
    rcases front with _ | ⟨segment, front⟩
    · rfl
    have hnullable := hnullable.resolve_left (List.cons_ne_nil _ _)
    have hnulled := isNulled_read_without h hoff hfront hnullable
    obtain ⟨rest, rfl, hinner⟩ := eq_cons_of_prefix hfront
    obtain ⟨own, hown, rfl, hbelow⟩ := nullable_read hnullable
    change Outline.anyNulled ((without off).readMembers base members) =
      Outline.anyNulled members at hnulled
    rw [read, Outline.data, Outline.data, hnulled]
    by_cases hn : Outline.anyNulled members = true
    · rw [if_pos hn, if_pos hn]
    have hsegments : (Outline.memberData members).map Prod.fst =
        members.map fun member => member.1.segment := by
      rw [Outline.memberData_eq_map, List.map_map]
      rfl
    have hseen : (Outline.memberData ((without off).readMembers base members)).map Prod.fst =
        members.map fun member => member.1.segment := by
      rw [Outline.memberData_eq_map, readMembers_eq_map, List.map_map, List.map_map]
      rfl
    rw [if_neg hn, if_neg hn, SetKind.clear_build (by rw [hseen]; exact h.1),
      SetKind.clear_build (by rw [hsegments]; exact h.1), Outline.memberData_eq_map,
      Outline.memberData_eq_map, readMembers_eq_map, List.map_map, List.map_map, List.map_map]
    refine congrArg _ (List.map_congr_left fun member hm => ?_)
    show (member.1.segment, if member.1.segment = own.1.segment then
        ((without off).readMember base member).2.data.clear front
        else ((without off).readMember base member).2.data) =
      (member.1.segment, if member.1.segment = own.1.segment then member.2.data.clear front
        else member.2.data)
    by_cases hs : member.1.segment = own.1.segment
    · obtain rfl : member = own := h.eq_of_segment hm hown hs
      rw [if_pos rfl, if_pos rfl]
      rcases readMember_on hoff with ⟨hrest, -⟩ | ⟨hdeeper, hread⟩
      · rw [hrest] at hinner
        rw [List.prefix_nil.1 hinner]
        rfl
      · rw [hread] at hbelow ⊢
        rw [ih member hm (h.member hm) hdeeper hinner (hbelow.imp And.left id)]
    · have hapart := not_prefix_of_ne hoff hs
      rw [if_neg hs, if_neg hs, readMember_without hapart, data_read (sees_without hapart)]

/-- A position around the one left out is seen. -/
theorem nullable_read_of_nullable {o : Outline} {base rest front : Path} (hoff : off = base ++ rest)
    (hfront : front <+: rest) (h : o.Nullable front) :
    ((without off).read base o).Nullable front := by
  obtain ⟨place, inner, hat, htype⟩ := h
  have hmem {base : Path} {members : List (Place × Outline)} {member : Place × Outline}
      (hm : member ∈ members) :
      (without off).readMember base member ∈ (without off).readMembers base members := by
    rw [readMembers_eq_map]
    exact List.mem_map_of_mem hm
  induction hat generalizing base rest with
  | @member kind members place inner hm =>
    exact ⟨(without off).keep place, _, .member (hmem hm), htype⟩
  | @deeper kind members outer place between inner path hm hin ih =>
    obtain ⟨rest, rfl, hinner⟩ := eq_cons_of_prefix hfront
    have hmember : ((without off).keep outer,
        ((without off).readMember base (outer, between)).2) ∈
        (without off).readMembers base members := hmem hm
    rcases @readMember_on off base rest (outer, between) hoff with ⟨hrest, -⟩ | ⟨hdeeper, hread⟩
    · rw [hrest] at hinner
      exact absurd (List.prefix_nil.1 hinner) hin.ne_nil
    · obtain ⟨place, inner, hat, htype⟩ := ih hdeeper hinner htype
      rw [← hread] at hat
      have hat := @Outline.At.deeper kind _ _ _ _ _ _ hmember hat
      exact ⟨place, inner, hat, htype⟩

end View

/-! ## Runs -/

/-- The error is at the path or below it. -/
def ResponseError.isWithin (off : Path) (e : ResponseError) : Bool :=
  match e.path with
  | some path => decide (off <+: path)
  | none => false

namespace Run

/-- Other resolvers come to the same in every call but those at the path, each in its own run. -/
def AgreesOff (run : Run) (resolvers : String → String → Option Resolver) (off : Path) : Prop :=
  ∀ type name field call, run.selector.schema.field? type name = some field →
    call.info.path ≠ off →
      ((run.withResolvers resolvers).execution (run.withResolvers resolvers).callLog).result?
          ((resolvers type name).getD Resolver.property) call =
        (run.execution run.callLog).result? field.resolve call

variable {run : Run} {resolvers : String → String → Option Resolver} {off : Path}

/-- Without the position at the path, the two runs have the same outline. -/
theorem AgreesOff.read_outline (h : run.AgreesOff resolvers off) :
    (View.without off).read Path.root
        ((run.withResolvers resolvers).outline run.depth (run.withResolvers resolvers).callLog) =
      (View.without off).read Path.root (run.outline run.depth run.callLog) := by
  refine Run.read_outline ⟨?_, ?_⟩ run.depth
  · intro type name field call place _
    rfl
  · intro type name field call hfield hblank
    have hoff : call.info.path ≠ off := by
      intro he
      rw [View.blank_without.2 he] at hblank
      cases hblank
    exact h type name field call hfield hoff

/-- The errors elsewhere are those of what is seen. -/
theorem errors_off (o : Outline) (hoff : off ≠ []) :
    o.response.errors.filter (fun e => !e.isWithin off) =
      (((View.without off).read Path.root o).marks Path.root).map FieldFailure.report := by
  have hroot : ¬ off <+: Path.root := fun hprefix => hoff (List.prefix_nil.1 hprefix)
  rw [View.marks_read_without hroot]
  show ((o.marks Path.root).map FieldFailure.report).filter _ = _
  rw [List.filter_map]
  refine congrArg _ (List.filter_congr fun f _ => ?_)
  show (!decide (off <+: f.path)) = decide (¬ off <+: f.path)
  rw [decide_not]

theorem errors_eq_of_agreesOff (h : run.AgreesOff resolvers off) {r r' : Response}
    (hr : run.ending.response? = some r)
    (hr' : (run.withResolvers resolvers).ending.response? = some r') :
    r.errors.filter (fun e => !e.isWithin off) = r'.errors.filter (fun e => !e.isWithin off) := by
  obtain ⟨-, rfl, -⟩ := run.of_response? hr
  obtain ⟨-, rfl, -⟩ := (run.withResolvers resolvers).of_response? hr'
  by_cases hoff : off = []
  · -- every error of a run is at the root or below it
    have hnone (o : Outline) : o.response.errors.filter (fun e => !e.isWithin off) = [] := by
      refine List.filter_eq_nil_iff.2 fun e he => ?_
      obtain ⟨f, -, rfl⟩ := List.mem_map.1 he
      rw [hoff]
      show ¬ (!decide ([] <+: f.path)) = true
      rw [decide_eq_true List.nil_prefix]
      exact Bool.false_ne_true
    rw [hnone, hnone]
  · rw [errors_off _ hoff, errors_off _ hoff]
    exact congrArg (fun o => (Outline.marks Path.root o).map FieldFailure.report)
      h.read_outline.symm

theorem data_eq_of_agreesOff (h : run.AgreesOff resolvers off) {r r' : Response}
    (hr : run.ending.response? = some r)
    (hr' : (run.withResolvers resolvers).ending.response? = some r') {front : Path}
    (hfront : front <+: off)
    (hnullable : front = [] ∨ (run.outline run.depth run.callLog).Nullable front) :
    r.data.map (Json.clear front) = r'.data.map (Json.clear front) := by
  obtain ⟨-, rfl, -⟩ := run.of_response? hr
  obtain ⟨-, rfl, -⟩ := (run.withResolvers resolvers).of_response? hr'
  have hroot : off = Path.root ++ off := rfl
  have hseen : front = [] ∨ ((View.without off).read Path.root
      (run.outline run.depth run.callLog)).Nullable front :=
    hnullable.imp_right (View.nullable_read_of_nullable hroot hfront)
  have hown := View.clear_data_read (run.orderly_outline run.depth run.callLog) hroot hfront hseen
  have hother := View.clear_data_read ((run.withResolvers resolvers).orderly_outline run.depth
    (run.withResolvers resolvers).callLog) hroot hfront (by rw [h.read_outline]; exact hseen)
  rw [h.read_outline] at hother
  exact congrArg some (hown.symm.trans hother)

end Run

namespace Schema

variable {schema : Schema} {resolvers : String → String → Option Resolver} {config : Config}
  {context : Context} {request : Request} {r r' : Response}

/-- With other resolvers a request gets the same response, or it is the same operation that is
run. -/
theorem runs_of_executeValidated
    (h : (schema.executeValidated config context request).response? = some r)
    (h' : ((schema.withResolvers resolvers).executeValidated config context request).response? =
      some r') :
    r = r' ∨ ∃ run, schema.prepare config context request = .ok run ∧
      run.ending.response? = some r ∧
        (run.withResolvers resolvers).ending.response? = some r' := by
  unfold executeValidated at h h'
  rw [prepare_withResolvers] at h'
  cases hrun : schema.prepare config context request with
  | error response =>
    rw [hrun] at h h'
    obtain rfl := Option.some.inj h
    exact .inl (Option.some.inj h')
  | ok run =>
    rw [hrun] at h h'
    exact .inr ⟨run, rfl, h, h'⟩

theorem runs_of_execute
    (h : (schema.execute config context request).response? = some r)
    (h' : ((schema.withResolvers resolvers).execute config context request).response? = some r') :
    r = r' ∨ ∃ run, schema.prepare config context request = .ok run ∧
      run.ending.response? = some r ∧
        (run.withResolvers resolvers).ending.response? = some r' := by
  unfold execute at h h'
  rw [validate_withResolvers] at h'
  cases hv : schema.validate request.document request.operation request.inputs with
  | nil =>
    rw [hv] at h h'
    exact runs_of_executeValidated h h'
  | cons first rest =>
    rw [hv] at h h'
    obtain rfl := Option.some.inj h
    exact .inl (Option.some.inj h')

end Schema

/-- Two resolver behaviours that come to the same in every call but those at one path: elsewhere the
errors are the same and in the same order, and so is the data once a position is cleared that may be
null and is at the path or around it, as the nearest one is, or the whole. -/
theorem isolated_call {schema : Schema} {resolvers : String → String → Option Resolver}
    {config : Config} {context : Context} {request : Request} {off : Path}
    (hagree : ∀ run, schema.prepare config context request = .ok run →
      run.AgreesOff resolvers off) {r r' : Response}
    (h : (schema.execute config context request).response? = some r ∧
        ((schema.withResolvers resolvers).execute config context request).response? = some r' ∨
      (schema.executeValidated config context request).response? = some r ∧
        ((schema.withResolvers resolvers).executeValidated config context request).response? =
          some r') :
    r.errors.filter (fun e => !e.isWithin off) = r'.errors.filter (fun e => !e.isWithin off) ∧
      ∀ front, front <+: off →
        (front = [] ∨ ∃ run, schema.prepare config context request = .ok run ∧
          (run.outline run.depth run.callLog).Nullable front) →
        r.data.map (Json.clear front) = r'.data.map (Json.clear front) := by
  have hruns : r = r' ∨ ∃ run, schema.prepare config context request = .ok run ∧
      run.ending.response? = some r ∧
        (run.withResolvers resolvers).ending.response? = some r' := by
    rcases h with ⟨h, h'⟩ | ⟨h, h'⟩
    · exact Schema.runs_of_execute h h'
    · exact Schema.runs_of_executeValidated h h'
  rcases hruns with rfl | ⟨run, hrun, hr, hr'⟩
  · exact ⟨rfl, fun _ _ _ => rfl⟩
  · have hoff := hagree run hrun
    refine ⟨Run.errors_eq_of_agreesOff hoff hr hr', fun front hfront hnullable => ?_⟩
    refine Run.data_eq_of_agreesOff hoff hr hr' hfront (hnullable.imp_right ?_)
    rintro ⟨other, hother, hfound⟩
    rw [hrun] at hother
    obtain rfl := Except.ok.inj hother
    exact hfound

namespace Sample

/-- The object below the root is not had, all else is read as before. -/
def failing (_ name : String) : Option Resolver :=
  if name = "self" then
    some fun call =>
      if call.info.path = [.key "self"] then
        { logged := true
          wait := .ready
          eager := false
          outcome := fun _ => .raised (.plain "no self") }
      else Resolver.property call
  else none

/-- A query for the numbers of the root and of the object below it.  In both lists a number is
missing. -/
def listing : Request :=
  { document :=
      { definitions :=
          [.operation
              { location := place
                kind := .query
                name := none
                variableDefs := []
                directives := []
                selections :=
                  [select "numbers" [], select "self" [select "number" [], select "numbers" []]] }] }
    operation := none
    inputs := []
    root :=
      .obj [("numbers", .arr [.int 1, .null]),
        ("self", .obj [("number", .int 1), ("numbers", .arr [.null])])] }

/-- A number is missing at the path. -/
def lacking (path : Path) : ResponseError :=
  (Failure.nullResult "Query.numbers").report [place] (some path)

/-- The first list is null, and there is one more error. -/
def listed (self : Json) (error : ResponseError) : Response :=
  { data := some (.obj [("numbers", .null), ("self", self)])
    errors := [lacking [.key "numbers", .index 1], error] }

def own : Response :=
  listed (.obj [("number", .int 1), ("numbers", .null)])
    (lacking [.key "self", .key "numbers", .index 0])

def failed : Response :=
  listed .null ((Failure.raised (.plain "no self")).report [place] (some [.key "self"]))

theorem response?_listing :
    (schema.executeValidated .standard .empty listing).response? = some own :=
  Run.response?_ending _

theorem response?_failing :
    ((schema.withResolvers failing).executeValidated .standard .empty listing).response? =
      some failed :=
  Run.response?_ending _

theorem result?_property {exec : Execution} {resolver : Resolver} {call : Call}
    (h : resolver call = Resolver.property call) :
    exec.result? resolver call =
      some (.value ((call.parent.field? call.info.name).getD .null)) := by
  rw [Execution.result?, Execution.made, h]
  cases exec.config.fieldTimeout <;> rfl

theorem agreesOff_failing {run : Run} (hschema : run.selector.schema = schema) :
    run.AgreesOff failing [.key "self"] := by
  intro type name field call hfield hoff
  have hown : field.resolve = Resolver.property := by
    rw [hschema] at hfield
    rw [FieldDef.resolve, resolver_eq_none hfield]
    rfl
  have hother : (failing type name).getD Resolver.property call = Resolver.property call := by
    unfold failing
    by_cases hname : name = "self"
    · rw [if_pos hname]
      exact if_neg hoff
    · rw [if_neg hname]
      rfl
  rw [hown, result?_property hother, result?_property rfl]

end Sample

/-- One failure takes the place of the other, which was below it.  The error of the first list
stays, and so does its null. -/
theorem isolated_call_sample :
    (Sample.schema.executeValidated .standard .empty Sample.listing).response? = some Sample.own ∧
      ((Sample.schema.withResolvers Sample.failing).executeValidated .standard .empty
        Sample.listing).response? = some Sample.failed ∧
      Sample.own.errors.filter (fun e => !e.isWithin [.key "self"]) =
        [Sample.lacking [.key "numbers", .index 1]] ∧
      Sample.own.errors.filter (fun e => !e.isWithin [.key "self"]) =
        Sample.failed.errors.filter (fun e => !e.isWithin [.key "self"]) ∧
      Sample.own.data.map (Json.clear []) = Sample.failed.data.map (Json.clear []) ∧
      Sample.own.data.map (Json.clear [.key "self"]) =
        Sample.failed.data.map (Json.clear [.key "self"]) := by
  have hagree : ∀ run, Sample.schema.prepare .standard .empty Sample.listing = .ok run →
      run.AgreesOff Sample.failing [.key "self"] := by
    intro run hrun
    obtain ⟨op, rootType, bindings, -, -, -, rfl⟩ := Schema.prepare_eq_ok hrun
    exact Sample.agreesOff_failing rfl
  obtain ⟨herrors, hdata⟩ :=
    isolated_call hagree (.inr ⟨Sample.response?_listing, Sample.response?_failing⟩)
  refine ⟨Sample.response?_listing, Sample.response?_failing, rfl, herrors,
    hdata [] List.nil_prefix (.inl rfl),
    hdata [.key "self"] (List.prefix_refl _) (.inr ⟨_, rfl, ?_⟩)⟩
  exact ⟨_, _, .member (List.mem_cons_of_mem _ List.mem_cons_self), rfl⟩

end TypedQuery
