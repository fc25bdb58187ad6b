import TypedQuery.Proofs.Execution.Collecting
import TypedQuery.Proofs.Execution.Positions
/-!
Errors and nulls explain each other.  Below every null that moved there is an error, no error lies
below another one, and a null without an error was there from the start: `errors_explain_nulls`.
-/

namespace TypedQuery

/-- The value at a path of some data. -/
def Json.at? : Path → Json → Option Json
  | [], value => some value
  | .key name :: rest, .obj fields => (fields.lookup name).bind (at? rest)
  | .index i :: rest, .arr items => items[i]?.bind (at? rest)
  | _ :: _, _ => none

/-- Neither path leads to the other one or through it. -/
def Path.Apart (p q : Path) : Prop := ¬ p <+: q ∧ ¬ q <+: p

theorem Path.apart_append {base : Path} {s t : PathSegment} (h : s ≠ t) (p q : Path) :
    Apart (base ++ s :: p) (base ++ t :: q) := by
  constructor
  · intro hp
    exact h (List.cons_prefix_cons.1 ((List.prefix_append_right_inj base).1 hp)).1
  · intro hp
    exact h (List.cons_prefix_cons.1 ((List.prefix_append_right_inj base).1 hp)).1.symm

/-! ## Segments -/

/-- The segments of the members of a list, or of an object. -/
def SetKind.Spells : SetKind → List PathSegment → Prop
  | items, segments => segments = (List.range segments.length).map .index
  | fields _, segments => segments.Nodup ∧ ∀ segment ∈ segments, ∃ name, segment = .key name

theorem SetKind.nodup_of_spells {kind : SetKind} {segments : List PathSegment}
    (h : kind.Spells segments) : segments.Nodup := by
  cases kind with
  | items =>
    rw [show segments = _ from h]
    exact List.Nodup.map (fun _ _ => PathSegment.index.inj) List.nodup_range
  | fields type => exact h.1

namespace Outline

/-- The members of a set can be told apart. -/
def Spelled : Outline → Prop
  | set kind members => kind.Spells (members.map fun member => member.1.segment)
  | _ => True

/-- The members of each set can be told apart. -/
def Orderly (o : Outline) : Prop := o.Spelled ∧ o.All fun _ inner => inner.Spelled

theorem Orderly.member {kind : SetKind} {members : List (Place × Outline)}
    (h : (set kind members).Orderly) {member : Place × Outline} (hm : member ∈ members) :
    member.2.Orderly :=
  all_set.1 h.2 member hm

theorem Orderly.eq_of_segment {kind : SetKind} {members : List (Place × Outline)}
    (h : (set kind members).Orderly) {a b : Place × Outline} (ha : a ∈ members) (hb : b ∈ members)
    (hs : a.1.segment = b.1.segment) : a = b :=
  List.inj_on_of_nodup_map (SetKind.nodup_of_spells h.1) ha hb hs

theorem segment_getElem {members : List (Place × Outline)}
    (h : SetKind.items.Spells (members.map fun member => member.1.segment)) {i : Nat}
    (hi : i < members.length) : members[i].1.segment = .index i := by
  have hget : (members.map fun member => member.1.segment)[i]? =
      ((List.range (members.map fun member => member.1.segment).length).map
        PathSegment.index)[i]? := congrArg (·[i]?) h
  simpa [hi] using hget

theorem at?_items {members : List (Place × Outline)}
    (h : SetKind.items.Spells (members.map fun member => member.1.segment))
    {member : Place × Outline} (hm : member ∈ members) (path : Path) :
    (SetKind.items.build (memberData members)).at? (member.1.segment :: path) =
      member.2.data.at? path := by
  obtain ⟨i, hi, rfl⟩ := List.mem_iff_getElem.1 hm
  rw [segment_getElem h hi, SetKind.build, memberData_eq_map, List.map_map, Json.at?,
    List.getElem?_map, List.getElem?_eq_getElem hi]
  rfl

theorem at?_fields {type : String} {members : List (Place × Outline)}
    (h : (SetKind.fields type).Spells (members.map fun member => member.1.segment))
    {member : Place × Outline} (hm : member ∈ members) (path : Path) :
    ((SetKind.fields type).build (memberData members)).at? (member.1.segment :: path) =
      member.2.data.at? path := by
  obtain ⟨name, hname⟩ := h.2 _ (List.mem_map_of_mem hm)
  have hlookup : ((memberData members).map fun member => (member.1.text, member.2)).lookup name =
      some member.2.data := by
    obtain ⟨hnodup, hkeys⟩ := h
    rw [memberData_eq_map, List.map_map]
    induction members with
    | nil => cases hm
    | cons first rest ih =>
      rw [List.map_cons, List.nodup_cons] at hnodup
      rw [List.map_cons, Function.comp_apply, List.lookup_cons]
      rcases List.mem_cons.1 hm with rfl | hm
      · rw [hname]
        simp [PathSegment.text]
      · obtain ⟨other, hother⟩ := hkeys _ List.mem_cons_self
        have hne : (name == first.1.segment.text) = false := by
          rw [show first.1.segment = .key other from hother, beq_eq_false_iff_ne]
          rintro rfl
          refine hnodup.1 ?_
          rw [show first.1.segment = _ from hother, ← hname]
          exact List.mem_map_of_mem hm
        rw [hne]
        exact ih hm hnodup.2 fun segment hs => hkeys segment (List.mem_cons_of_mem _ hs)
  rw [hname, SetKind.build, Json.at?, hlookup]
  rfl

/-- The path to a member goes on in the data of the member. -/
theorem at?_build {kind : SetKind} {members : List (Place × Outline)}
    (h : (set kind members).Orderly) {member : Place × Outline} (hm : member ∈ members)
    (path : Path) :
    (kind.build (memberData members)).at? (member.1.segment :: path) = member.2.data.at? path := by
  cases kind with
  | items => exact at?_items h.1 hm path
  | fields type => exact at?_fields h.1 hm path

/-- A path into the data of a set goes to one of its members. -/
theorem segment_of_at?_build {kind : SetKind} {members : List (Place × Outline)}
    (h : kind.Spells (members.map fun member => member.1.segment)) {segment : PathSegment}
    {path : Path} {value : Json}
    (hv : (kind.build (memberData members)).at? (segment :: path) = some value) :
    ∃ member ∈ members, member.1.segment = segment := by
  rw [memberData_eq_map] at hv
  cases kind with
  | items =>
    cases segment with
    | key name => cases hv
    | index i =>
      obtain ⟨data, hdata, -⟩ := Option.bind_eq_some_iff.1 hv
      obtain ⟨hi, -⟩ := List.getElem?_eq_some_iff.1 hdata
      rw [List.length_map, List.length_map] at hi
      exact ⟨_, List.getElem_mem hi, segment_getElem h hi⟩
  | fields type =>
    cases segment with
    | index i => cases hv
    | key name =>
      obtain ⟨data, hdata, -⟩ := Option.bind_eq_some_iff.1 hv
      have hentry := Keyed.mem_of_lookup hdata
      rw [List.map_map] at hentry
      obtain ⟨member, hm, he⟩ := List.mem_map.1 hentry
      obtain ⟨other, hother⟩ := h.2 _ (List.mem_map_of_mem hm)
      have hname : member.1.segment.text = name := congrArg Prod.fst he
      rw [show member.1.segment = .key other from hother] at hname
      exact ⟨member, hm, hother.trans (congrArg PathSegment.key hname)⟩

/-! ## Errors -/

theorem at_set {kind : SetKind} {members : List (Place × Outline)} {path : Path} {place : Place}
    {inner : Outline} :
    (set kind members).At path place inner ↔ ∃ member ∈ members,
      path = [member.1.segment] ∧ (place, inner) = member ∨
        ∃ rest, path = member.1.segment :: rest ∧ member.2.At rest place inner := by
  constructor
  · intro h
    cases h with
    | member hm => exact ⟨_, hm, .inl ⟨rfl, rfl⟩⟩
    | deeper hm hin => exact ⟨_, hm, .inr ⟨_, rfl, hin⟩⟩
  · rintro ⟨⟨outer, between⟩, hm, ⟨rfl, he⟩ | ⟨rest, rfl, hin⟩⟩
    · obtain ⟨rfl, rfl⟩ := Prod.mk.inj he
      exact .member hm
    · exact .deeper hm hin

theorem mem_memberMarks {base : Path} {members : List (Place × Outline)} {f : FieldFailure} :
    f ∈ memberMarks base members ↔ ∃ member ∈ members,
      (∃ failure, member.2 = failed failure ∧
        f = { failure := failure
              locations := member.1.locations
              path := base ++ [member.1.segment] }) ∨
        f ∈ member.2.marks (base ++ [member.1.segment]) := by
  rw [memberMarks_eq_flatMap, List.mem_flatMap]
  refine exists_congr fun member => and_congr_right fun _ => ?_
  rw [memberMarks, memberMarks, List.append_nil, List.mem_append]
  refine or_congr ?_ Iff.rfl
  rw [List.mem_map]
  constructor
  · rintro ⟨failure, hf, rfl⟩
    exact ⟨failure, isNulled_of_failure? (Option.mem_toList.1 hf), rfl⟩
  · rintro ⟨failure, ho, rfl⟩
    exact ⟨failure, by rw [ho]; exact List.mem_cons_self, rfl⟩

/-- The failures of an outline are those of its positions. -/
theorem mem_marks {o : Outline} {base : Path} {f : FieldFailure} :
    f ∈ o.marks base ↔ ∃ path place failure, o.At path place (failed failure) ∧
      f = { failure := failure, locations := place.locations, path := base ++ path } := by
  induction o using induct generalizing base with
  | hleaf data => exact ⟨nofun, fun ⟨_, _, _, h, _⟩ => nomatch h⟩
  | hfailed failure => exact ⟨nofun, fun ⟨_, _, _, h, _⟩ => nomatch h⟩
  | hescaped cause => exact ⟨nofun, fun ⟨_, _, _, h, _⟩ => nomatch h⟩
  | hset kind members ih =>
    rw [marks, mem_memberMarks]
    constructor
    · rintro ⟨member, hm, ⟨failure, ho, rfl⟩ | hf⟩
      · exact ⟨_, member.1, failure, at_set.2 ⟨member, hm, .inl ⟨rfl, by rw [← ho]⟩⟩, rfl⟩
      · obtain ⟨path, place, failure, hat, rfl⟩ := (ih member hm).1 hf
        refine ⟨_, place, failure, at_set.2 ⟨member, hm, .inr ⟨path, rfl, hat⟩⟩, ?_⟩
        rw [List.append_assoc]
        rfl
    · rintro ⟨path, place, failure, hat, rfl⟩
      obtain ⟨member, hm, ⟨rfl, he⟩ | ⟨rest, rfl, hin⟩⟩ := at_set.1 hat
      · exact ⟨member, hm, .inl ⟨failure, by rw [← he], by rw [← he]⟩⟩
      · refine ⟨member, hm, .inr ((ih member hm).2 ⟨rest, place, failure, hin, ?_⟩)⟩
        rw [List.append_assoc]
        rfl

theorem path_of_mem_memberMarks {base : Path} {members : List (Place × Outline)} {f : FieldFailure}
    (h : f ∈ memberMarks base members) :
    ∃ member ∈ members, ∃ rest, f.path = base ++ member.1.segment :: rest := by
  obtain ⟨member, hm, ⟨failure, -, rfl⟩ | hf⟩ := mem_memberMarks.1 h
  · exact ⟨member, hm, [], rfl⟩
  · obtain ⟨path, place, failure, -, rfl⟩ := mem_marks.1 hf
    refine ⟨member, hm, path, ?_⟩
    rw [List.append_assoc]
    rfl

/-- No failure lies below another one. -/
theorem pairwise_marks {o : Outline} (h : o.Orderly) (base : Path) :
    (o.marks base).Pairwise fun f g => Path.Apart f.path g.path := by
  induction o using induct generalizing base with
  | hleaf data => exact .nil
  | hfailed failure => exact .nil
  | hescaped cause => exact .nil
  | hset kind members ih =>
    have hnodup := SetKind.nodup_of_spells h.1
    have hbelow := fun member hm => ih member hm (h.member hm)
    clear h ih
    rw [marks]
    induction members with
    | nil => exact .nil
    | cons first rest ihrest =>
      obtain ⟨place, o⟩ := first
      rw [List.map_cons, List.nodup_cons] at hnodup
      have hrest := ihrest hnodup.2 fun member hm => hbelow member (List.mem_cons_of_mem _ hm)
      have hfirst : (memberMarks base [(place, o)]).Pairwise
          fun f g => Path.Apart f.path g.path := by
        rw [memberMarks, memberMarks, List.append_nil]
        cases o with
        | leaf data => exact .nil
        | failed failure => exact List.pairwise_singleton _ _
        | escaped cause => exact .nil
        | set kind below => exact hbelow _ List.mem_cons_self _
      rw [memberMarks_eq_flatMap, List.flatMap_cons, ← memberMarks_eq_flatMap]
      refine List.pairwise_append.2 ⟨hfirst, hrest, fun f hf g hg => ?_⟩
      obtain ⟨member, hm, p, hp⟩ := path_of_mem_memberMarks hf
      obtain ⟨other, hother, q, hq⟩ := path_of_mem_memberMarks hg
      obtain rfl := List.mem_singleton.1 hm
      rw [hp, hq]
      refine Path.apart_append (fun hs => hnodup.1 ?_) p q
      rw [show place.segment = other.1.segment from hs]
      exact List.mem_map_of_mem hother

/-! ## Data along paths -/

theorem at?_null (segment : PathSegment) (path : Path) :
    Json.at? (segment :: path) .null = none := by
  cases segment <;> rfl

theorem At.ne_nil {o inner : Outline} {path : Path} {place : Place} (h : o.At path place inner) :
    path ≠ [] := by
  cases h with
  | member hm => exact List.cons_ne_nil _ _
  | deeper hm hin => exact List.cons_ne_nil _ _

/-- Where the data goes on, it is that of the member. -/
theorem at?_set {kind : SetKind} {members : List (Place × Outline)}
    (h : (set kind members).Orderly) {member : Place × Outline} (hm : member ∈ members)
    {path : Path} {value : Json}
    (hv : (set kind members).data.at? (member.1.segment :: path) = some value) :
    anyNulled members = false ∧ member.2.data.at? path = some value := by
  by_cases hn : anyNulled members = true
  · rw [Outline.data, if_pos hn, at?_null] at hv
    cases hv
  · rw [Outline.data, if_neg hn, at?_build h hm] at hv
    exact ⟨Bool.eq_false_iff.2 hn, hv⟩

theorem data_of_at? {o inner : Outline} (h : o.Orderly) {path : Path} {place : Place}
    (hat : o.At path place inner) {value : Json} (hv : o.data.at? path = some value) :
    value = inner.data := by
  induction hat with
  | member hm => exact (Option.some.inj (at?_set h hm hv).2).symm
  | deeper hm _ ih => exact ih (h.member hm) (at?_set h hm hv).2

/-- What a path into the data leads to is a position, or lies within the data of a leaf. -/
theorem at_of_at? {o : Outline} (h : o.Orderly) {path : Path} {value : Json}
    (hv : o.data.at? path = some value) :
    path = [] ∨ (∃ place inner, o.At path place inner) ∨
      (∃ front rest place data, path = front ++ rest ∧ o.At front place (leaf data) ∧
        data.at? rest = some value) ∨
      ∃ data, o = leaf data := by
  induction o using induct generalizing path with
  | hleaf data => exact .inr (.inr (.inr ⟨data, rfl⟩))
  | hfailed failure =>
    cases path with
    | nil => exact .inl rfl
    | cons segment path => rw [Outline.data, at?_null] at hv; cases hv
  | hescaped cause =>
    cases path with
    | nil => exact .inl rfl
    | cons segment path => rw [Outline.data, at?_null] at hv; cases hv
  | hset kind members ih =>
    rcases path with _ | ⟨segment, path⟩
    · exact .inl rfl
    refine .inr ?_
    by_cases hn : anyNulled members = true
    · rw [Outline.data, if_pos hn, at?_null] at hv
      cases hv
    rw [Outline.data, if_neg hn] at hv
    obtain ⟨member, hm, rfl⟩ := segment_of_at?_build h.1 hv
    rw [at?_build h hm] at hv
    rcases ih member hm (h.member hm) hv with
      rfl | ⟨place, inner, hat⟩ | ⟨front, rest, place, data, rfl, hat, hin⟩ | ⟨data, hleaf⟩
    · exact .inl ⟨_, _, .member hm⟩
    · exact .inl ⟨place, inner, .deeper hm hat⟩
    · exact .inr (.inl ⟨_, rest, place, data, rfl, .deeper hm hat, hin⟩)
    · rw [hleaf] at hv
      exact .inr (.inl ⟨[member.1.segment], path, member.1, data, rfl, hleaf ▸ .member hm, hv⟩)

theorem exists_null_of_at {o inner : Outline} (h : o.Orderly) {path : Path} {place : Place}
    (hat : o.At path place inner) (hd : inner.data = .null) :
    ∃ front, front <+: path ∧ o.data.at? front = some .null := by
  induction hat with
  | @member kind members place inner hm =>
    by_cases hn : anyNulled members = true
    · exact ⟨[], List.nil_prefix, congrArg some (if_pos hn)⟩
    · refine ⟨_, List.prefix_refl _, ?_⟩
      rw [Outline.data, if_neg hn, at?_build h hm]
      exact congrArg some hd
  | @deeper kind members outer place between inner path hm _ ih =>
    by_cases hn : anyNulled members = true
    · exact ⟨[], List.nil_prefix, congrArg some (if_pos hn)⟩
    · obtain ⟨front, hfront, hnull⟩ := ih (h.member hm) hd
      refine ⟨outer.segment :: front, List.cons_prefix_cons.2 ⟨rfl, hfront⟩, ?_⟩
      rw [Outline.data, if_neg hn, at?_build h hm]
      exact hnull

/-- A path that goes on from a position goes on in the outline there. -/
theorem at_append {o inner below : Outline} (h : o.Orderly) {path rest : Path} {place own : Place}
    (hat : o.At path place inner) (hbelow : o.At (path ++ rest) own below) :
    rest = [] ∧ own = place ∧ below = inner ∨ inner.At rest own below := by
  induction hat with
  | member hm =>
    obtain ⟨other, hother, ⟨hp, he⟩ | ⟨tail, hp, hin⟩⟩ := at_set.1 hbelow
    · obtain ⟨hs, hrest⟩ := List.cons.inj hp
      obtain rfl := h.eq_of_segment hm hother hs
      obtain ⟨rfl, rfl⟩ := Prod.mk.inj he
      exact .inl ⟨hrest, rfl, rfl⟩
    · obtain ⟨hs, rfl⟩ := List.cons.inj hp
      obtain rfl := h.eq_of_segment hm hother hs
      exact .inr hin
  | deeper hm hin ih =>
    obtain ⟨other, hother, ⟨hp, -⟩ | ⟨tail, hp, hdeep⟩⟩ := at_set.1 hbelow
    · exact absurd (List.append_eq_nil_iff.1 (List.cons.inj hp).2).1 hin.ne_nil
    · obtain ⟨hs, rfl⟩ := List.cons.inj hp
      obtain rfl := h.eq_of_segment hm hother hs
      exact ih (h.member hm) hdeep

/-! ## Nulls on their way out -/

/-- A null that stays where it is stands where null is allowed. -/
theorem nullable_of_at? {o inner : Outline} (h : o.Orderly) {path : Path} {place : Place}
    (hat : o.At path place inner) (hn : inner.isNulled = true) {value : Json}
    (hv : o.data.at? path = some value) : place.type.isNonNull = false := by
  induction hat with
  | member hm =>
    refine Bool.eq_false_iff.2 fun ht => ?_
    rw [anyNulled_eq_false.1 (at?_set h hm hv).1 _ hm ht] at hn
    cases hn
  | deeper hm _ ih => exact ih (h.member hm) hn (at?_set h hm hv).2

/-- No position on the path can be null. -/
def Forced (o : Outline) (path : Path) : Prop :=
  ∀ front, front ≠ [] → front <+: path →
    ∃ place inner, o.At front place inner ∧ place.type.isNonNull = true

theorem forced_cons {kind : SetKind} {members : List (Place × Outline)} {member : Place × Outline}
    (hm : member ∈ members) (ht : member.1.type.isNonNull = true) {path : Path}
    (h : member.2.Forced path) : (set kind members).Forced (member.1.segment :: path) := by
  intro front hne hprefix
  rcases front with _ | ⟨segment, front⟩
  · exact absurd rfl hne
  obtain ⟨rfl, hfront⟩ := List.cons_prefix_cons.1 hprefix
  by_cases hf : front = []
  · rw [hf]
    exact ⟨member.1, member.2, .member hm, ht⟩
  · obtain ⟨place, inner, hat, hin⟩ := h front hf hfront
    exact ⟨place, inner, .deeper hm hat, hin⟩

/-- A null on its way out comes from a failure, by positions that cannot be null. -/
theorem exists_failure_of_isNulled {o : Outline} (hesc : o.escapes = false)
    (hn : o.isNulled = true) :
    (∃ failure, o = failed failure) ∨
      ∃ path place failure, o.At path place (failed failure) ∧ o.Forced path := by
  induction o using induct with
  | hleaf data => cases hn
  | hfailed failure => exact .inl ⟨failure, rfl⟩
  | hescaped cause => cases hesc
  | hset kind members ih =>
    obtain ⟨member, hm, ht, hin⟩ : ∃ member ∈ members, member.1.type.isNonNull = true ∧
        member.2.isNulled = true := by
      by_contra hnone
      have hfalse : anyNulled members = false := anyNulled_eq_false.2 fun member hm ht =>
        Bool.eq_false_iff.2 fun hin => hnone ⟨member, hm, ht, hin⟩
      rw [isNulled, hfalse] at hn
      cases hn
    refine .inr ?_
    rcases ih member hm (anyEscapes_eq_false.1 hesc member hm) hin with
      ⟨failure, ho⟩ | ⟨path, place, failure, hat, hforced⟩
    · refine ⟨[member.1.segment], member.1, failure, ?_, forced_cons hm ht ?_⟩
      · rw [← ho]
        exact .member hm
      · intro front hne hprefix
        exact absurd (List.prefix_nil.1 hprefix) hne
    · exact ⟨_, place, failure, .deeper hm hat, forced_cons hm ht hforced⟩

theorem eq_leaf_of_data {o : Outline} (hn : o.isNulled = false) (hd : o.data = .null) :
    o = leaf .null := by
  cases o with
  | leaf data => exact congrArg leaf hd
  | failed failure => cases hn
  | escaped cause => cases hn
  | set kind members =>
    rw [Outline.data, if_neg (by rw [show anyNulled members = false from hn]; exact
      Bool.false_ne_true)] at hd
    cases kind <;> cases hd

theorem at_trans {o inner below : Outline} {path rest : Path} {place own : Place}
    (hat : o.At path place inner) (hin : inner.At rest own below) :
    o.At (path ++ rest) own below := by
  induction hat with
  | member hm => exact .deeper hm hin
  | deeper hm _ ih => exact .deeper hm (ih hin)

theorem escapes_of_at {o inner : Outline} {path : Path} {place : Place}
    (hat : o.At path place inner) (hesc : o.escapes = false) : inner.escapes = false := by
  induction hat with
  | member hm => exact anyEscapes_eq_false.1 hesc _ hm
  | deeper hm _ ih => exact ih (anyEscapes_eq_false.1 hesc _ hm)

/-- The paths of the failures, in their order. -/
def paths (o : Outline) : List Path := (o.marks Path.root).map (·.path)

theorem mem_paths {o : Outline} {path : Path} :
    path ∈ o.paths ↔ ∃ place failure, o.At path place (failed failure) := by
  rw [paths, List.mem_map]
  constructor
  · rintro ⟨f, hf, rfl⟩
    obtain ⟨path, place, failure, hat, rfl⟩ := mem_marks.1 hf
    exact ⟨place, failure, hat⟩
  · rintro ⟨place, failure, hat⟩
    exact ⟨_, mem_marks.2 ⟨path, place, failure, hat, rfl⟩, rfl⟩

/-- A null on its way out of a position has a failure there or below, with no position between that
can be null. -/
theorem exists_path_of_isNulled {o inner : Outline} (hesc : o.escapes = false) {path : Path}
    {place : Place} (hat : o.At path place inner) (hn : inner.isNulled = true) :
    ∃ rest, path ++ rest ∈ o.paths ∧ inner.Forced rest := by
  rcases exists_failure_of_isNulled (escapes_of_at hat hesc) hn with
    ⟨failure, ho⟩ | ⟨rest, own, failure, hin, hforced⟩
  · refine ⟨[], ?_, fun front hne hprefix => absurd (List.prefix_nil.1 hprefix) hne⟩
    rw [List.append_nil, mem_paths]
    exact ⟨place, failure, ho ▸ hat⟩
  · exact ⟨rest, mem_paths.2 ⟨own, failure, at_trans hat hin⟩, hforced⟩

/-- A null with a failure at or below it is on its way out. -/
theorem isNulled_of_path {o inner : Outline} (h : o.Orderly) {path rest : Path} {place : Place}
    (hat : o.At path place inner) (hd : inner.data = .null) (hpath : path ++ rest ∈ o.paths) :
    inner.isNulled = true := by
  obtain ⟨own, failure, hbelow⟩ := mem_paths.1 hpath
  by_contra hn
  have hleaf := eq_leaf_of_data (Bool.eq_false_iff.2 hn) hd
  rcases at_append h hat hbelow with ⟨-, -, hf⟩ | hin
  · rw [hleaf] at hf
    cases hf
  · rw [hleaf] at hin
    cases hin

theorem pairwise_paths {o : Outline} (h : o.Orderly) : o.paths.Pairwise Path.Apart :=
  List.pairwise_map.2 (pairwise_marks h Path.root)

/-- Data has null where a failure is, or ends in one above it. -/
theorem null_of_mem_paths {o : Outline} (h : o.Orderly) {path : Path} (hp : path ∈ o.paths) :
    (∃ front, front <+: path ∧ o.data.at? front = some .null) ∧
      ∀ value, o.data.at? path = some value → value = .null := by
  obtain ⟨place, failure, hat⟩ := mem_paths.1 hp
  exact ⟨exists_null_of_at h hat rfl, fun value hv => data_of_at? h hat hv⟩

/-- A null with a failure at or below it may be null, and some failure forced it. -/
theorem forced_of_null {o inner : Outline} (h : o.Orderly) (hesc : o.escapes = false) {path : Path}
    {place : Place} (hat : o.At path place inner) (hv : o.data.at? path = some .null)
    (hp : ∃ rest, path ++ rest ∈ o.paths) :
    place.type.isNonNull = false ∧ ∃ rest, path ++ rest ∈ o.paths ∧ inner.Forced rest := by
  obtain ⟨rest, hrest⟩ := hp
  have hn := isNulled_of_path h hat (data_of_at? h hat hv).symm hrest
  exact ⟨nullable_of_at? h hat hn hv, exists_path_of_isNulled hesc hat hn⟩

/-- A null with no failure at or below it did not move there. -/
theorem leaf_of_null {o inner : Outline} (h : o.Orderly) (hesc : o.escapes = false) {path : Path}
    {place : Place} (hat : o.At path place inner) (hv : o.data.at? path = some .null)
    (hp : ∀ rest, path ++ rest ∉ o.paths) : inner = leaf .null := by
  refine eq_leaf_of_data (Bool.eq_false_iff.2 fun hn => ?_) (data_of_at? h hat hv).symm
  obtain ⟨rest, hrest, -⟩ := exists_path_of_isNulled hesc hat hn
  exact hp rest hrest

/-- Data that is null as a whole was forced by a failure. -/
theorem forced_of_data {kind : SetKind} {members : List (Place × Outline)}
    (hesc : (set kind members).escapes = false) (hd : (set kind members).data = .null) :
    ∃ path ∈ (set kind members).paths, (set kind members).Forced path := by
  have hn : (set kind members).isNulled = true := by
    by_contra hn
    cases eq_leaf_of_data (Bool.eq_false_iff.2 hn) hd
  rcases exists_failure_of_isNulled hesc hn with
    ⟨failure, hf⟩ | ⟨path, place, failure, hat, hforced⟩
  · cases hf
  · exact ⟨path, mem_paths.2 ⟨place, failure, hat⟩, hforced⟩

end Outline

/-! ## Requests -/

namespace Execution

variable {exec : Execution}

theorem spelled_of_covers {type : String} {sets : List (List Selection)}
    {members : List (Place × Outline)} (h : exec.Covers type sets members) :
    (Outline.set (.fields type) members).Spelled := by
  have hnodup : (((exec.groups type sets).filter (exec.answers type)).map (·.key)).Nodup :=
    (FieldGroup.nodup_keys (exec.selector.collect type sets)).sublist
      (List.filter_sublist.map _)
  show SetKind.Spells (.fields type) (members.map fun member => member.1.segment)
  rw [segments_of_answers h]
  constructor
  · have hmapped := hnodup.map (f := PathSegment.key) fun _ _ => PathSegment.key.inj
    rwa [List.map_map] at hmapped
  · intro segment hs
    obtain ⟨group, -, rfl⟩ := List.mem_map.1 hs
    exact ⟨group.key, rfl⟩

theorem spelled_of_completed {nodes : List FieldNode} {type : TypeExpr} {value : Json} {o : Outline}
    (h : exec.Completed nodes type value o) : o.Spelled := by
  cases o with
  | set kind members =>
    cases kind with
    | fields type =>
      obtain ⟨-, -, -, -, hc⟩ := h
      exact spelled_of_covers hc
    | items =>
      obtain ⟨item, items, -, -, hplaces⟩ := h
      have hsegments : members.map (fun member => member.1.segment) =
          (List.range items.length).map .index :=
        calc members.map (fun member => member.1.segment)
            = (members.map Prod.fst).map Place.segment := by rw [List.map_map]; rfl
          _ = (items.zipIdx.map Prod.snd).map .index := by
            rw [hplaces, List.map_map, List.map_map]
            rfl
          _ = (List.range items.length).map .index := by
            rw [List.zipIdx_map_snd, List.range_eq_range']
      show SetKind.Spells .items (members.map fun member => member.1.segment)
      rw [hsegments]
      show _ = (List.range ((List.range items.length).map PathSegment.index).length).map
        PathSegment.index
      rw [List.length_map, List.length_range]
  | _ => exact trivial

theorem spelled_of_settled {place : Place} {o : Outline} (h : exec.Settled place o) :
    o.Spelled := by
  cases h with
  | completed _ _ hc => exact spelled_of_completed hc
  | typename _ _ _ ho => rw [ho]; exact trivial
  | rejected _ _ ho => rw [ho]; exact trivial
  | cut _ _ _ ho => rw [ho]; exact trivial
  | hung _ _ _ ho => rw [ho]; exact trivial
  | raised _ _ _ ho =>
    rcases ho with ⟨failure, ho, -⟩ | ⟨cause, ho⟩
    · rw [ho]; exact trivial
    · rw [ho]; exact trivial

/-- Where a position that did not fail has null, null was what it was completed from, or what the
scalar made of it. -/
theorem value_of_leaf {place : Place} (h : exec.Ended place (.leaf .null)) :
    ∃ value, place.value = some value ∧
      (∀ made, place.made = some made → made.outcome = .value value) ∧
      (value = .null ∨ ∃ name type, place.type.bare = .named name ∧
        exec.schema.type? name = some (.scalar type) ∧ type.serialize value = .ok .null) := by
  cases h.1 with
  | @completed value hvalue hmade hc =>
    refine ⟨value, hvalue, fun made hm => (hmade made hm).1, ?_⟩
    rcases hc.2 with ⟨hnull, -⟩ | ⟨name, hbare, hleaf⟩
    · exact .inl hnull
    · rcases Schema.coerceResult_eq_ok hleaf with ⟨type, htype, hs⟩ | ⟨_, _, _, _, hstr⟩
      · exact .inr ⟨name, type, hbare, htype, hs⟩
      · cases hstr
  | typename _ _ _ ho => cases ho
  | rejected _ _ ho => cases ho
  | cut _ _ _ ho => cases ho
  | hung hmade _ hpause _ => exact absurd hpause (h.pause_ne_forever hmade)
  | raised _ _ _ ho =>
    rcases ho with ⟨failure, ho, -⟩ | ⟨cause, ho⟩
    · cases ho
    · cases ho

end Execution

theorem Run.orderly_outline (run : Run) (depth : Nat) (log : CallLog) :
    (run.outline depth log).Orderly := by
  obtain ⟨members, ho, hc, hall⟩ := run.settled_outline depth log
  refine ⟨?_, fun path place inner hat => Execution.spelled_of_settled (hall path place inner hat)⟩
  rw [ho]
  exact Execution.spelled_of_covers hc

/-- Errors and nulls of a response that has data. -/
theorem errors_explain_nulls {schema : Schema} {config : Config} {context : Context}
    {request : Request} {r : Response}
    (h : (schema.execute config context request).response? = some r ∨
      (schema.executeValidated config context request).response? = some r) {data : Json}
    (hdata : r.data = some data) :
    ∃ (run : Run) (paths : List Path), schema.prepare config context request = .ok run ∧
      r.errors.map (·.path) = paths.map some ∧
      let o := run.outline run.depth run.callLog
      paths.Pairwise Path.Apart ∧
      (∀ path ∈ paths,
        (∃ front, front <+: path ∧ data.at? front = some .null) ∧
          ∀ value, data.at? path = some value → value = .null) ∧
      (∀ path, data.at? path = some .null → path = [] ∨ (∃ place inner, o.At path place inner) ∨
        ∃ front rest place leaf, path = front ++ rest ∧ o.At front place (.leaf leaf) ∧
          leaf.at? rest = some .null) ∧
      (∀ path place inner, o.At path place inner → data.at? path = some .null →
        (∃ rest, path ++ rest ∈ paths) →
          place.type.isNonNull = false ∧ ∃ rest, path ++ rest ∈ paths ∧ inner.Forced rest) ∧
      (∀ path place inner, o.At path place inner → data.at? path = some .null →
        (∀ rest, path ++ rest ∉ paths) →
          ∃ value, place.value = some value ∧
            (∀ made, place.made = some made → made.outcome = .value value) ∧
            (value = .null ∨ ∃ name type, place.type.bare = .named name ∧
              schema.type? name = some (.scalar type) ∧ type.serialize value = .ok .null)) ∧
      (data = .null → r.errors ≠ [] ∧ ∃ path ∈ paths, o.Forced path) := by
  obtain ⟨run, hrun, hr⟩ := Schema.run_of_data h hdata
  obtain ⟨-, hresponse, hesc, hh⟩ := run.of_response? hr
  obtain ⟨members, ho, -, hsettled⟩ := run.settled_outline run.depth run.callLog
  have horderly := run.orderly_outline run.depth run.callLog
  have hended := hsettled.and (Outline.all_not_hangs hh)
  obtain ⟨op, rootType, bindings, -, -, -, hmade⟩ := Schema.prepare_eq_ok hrun
  have hschema : run.selector.schema = schema := by rw [hmade]; rfl
  have herrors : r.errors.map (·.path) =
      (run.outline run.depth run.callLog).paths.map some := by
    rw [hresponse, Outline.response, Outline.paths, List.map_map, List.map_map]
    rfl
  have hd : data = (run.outline run.depth run.callLog).data := by
    rw [hresponse] at hdata
    exact (Option.some.inj hdata).symm
  subst hd
  refine ⟨run, _, hrun, herrors, Outline.pairwise_paths horderly,
    fun path hp => Outline.null_of_mem_paths horderly hp, fun path hv => ?_,
    fun path place inner hat hv hp => Outline.forced_of_null horderly hesc hat hv hp,
    fun path place inner hat hv hp => ?_, fun hnull => ?_⟩
  · rcases Outline.at_of_at? horderly hv with hroot | hat | hleaf | ⟨leaf, hleaf⟩
    · exact .inl hroot
    · exact .inr (.inl hat)
    · exact .inr (.inr hleaf)
    · rw [ho] at hleaf
      cases hleaf
  · obtain rfl := Outline.leaf_of_null horderly hesc hat hv hp
    exact hschema ▸ Execution.value_of_leaf (hended path place _ hat)
  · rw [ho] at hnull hesc herrors ⊢
    obtain ⟨path, hp, hforced⟩ := Outline.forced_of_data hesc hnull
    refine ⟨fun hnone => ?_, path, hp, hforced⟩
    rw [hnone] at herrors
    rw [List.map_eq_nil_iff.1 herrors.symm] at hp
    cases hp

theorem errors_explain_nulls_sample :
    ∃ (run : Run) (paths : List Path),
      Sample.schema.prepare .standard .empty (Sample.request Sample.root) = .ok run ∧
      Sample.response.errors.map (·.path) = paths.map some ∧ paths.Pairwise Path.Apart ∧
      ∀ path ∈ paths, ∃ front, front <+: path ∧
        (Json.obj [("number", .int 1), ("self", .null)]).at? front = some .null := by
  obtain ⟨run, paths, hrun, herrors, hapart, hnull, -⟩ :=
    errors_explain_nulls (.inr Sample.response?_request) rfl
  exact ⟨run, paths, hrun, herrors, hapart, fun path hp => (hnull path hp).1⟩

end TypedQuery
