import TypedQuery.Proofs.Execution.Descent
import TypedQuery.Proofs.Execution.Nulls
import TypedQuery.Proofs.Execution.Order
/-!
The events of an outline.  Every call is seen at the path of its position, at most once, after the
calls of the positions around it (`Outline.pairwise_events`, `Outline.grounded_members`), and it is
seen when the execution comes to its end (`Outline.started_of_at`).
-/

namespace TypedQuery
namespace Event

/-- The path of the call that an event is of. -/
def path? : Event → Option Path
  | started label => some label.path
  | resumed label => some label.path
  | escaped _ => none

/-- The event is of a call at the path or below it. -/
def Within (path : Path) (e : Event) : Prop := ∃ own, e.path? = some own ∧ path <+: own

/-- The second event makes no call that the first one makes, and none around it. -/
def Precedes (e f : Event) : Prop :=
  ∀ p q, e.called? = some p → f.called? = some q → ¬ q <+: p

theorem path?_of_called? {e : Event} {path : Path} (h : e.called? = some path) :
    e.path? = some path := by
  cases e with
  | started label => exact h
  | resumed label => cases h
  | escaped cause => cases h

theorem path_of_label {e : Event} {label : CallLabel} (h : e = started label ∨ e = resumed label)
    {path : Path} (hpath : e.path? = some path) : label.path = path := by
  rcases h with rfl | rfl
  · exact Option.some.inj hpath
  · exact Option.some.inj hpath

end Event

namespace Outline

variable (config : Config)

/-! ## Members -/

/-- What a member of a set does: it waits for its call, and goes on with what is below. -/
def memberTrace (member : Place × Outline) : Trace :=
  member.1.await config.fieldTimeout (member.2.trace config)

variable {config}

theorem mem_inOrder_members {members : List (Place × Outline)} {e : Event} :
    e ∈ Trace.allInOrder (memberTraces config members) ↔
      ∃ member ∈ members, e ∈ (memberTrace config member).inOrder := by
  rw [Trace.allInOrder_eq_flatMap, memberTraces_eq_map, List.flatMap_map, List.mem_flatMap]
  rfl

/-- An event of a member is of its own call, or from below. -/
theorem mem_inOrder_member {member : Place × Outline} {e : Event}
    (h : e ∈ (memberTrace config member).inOrder) :
    (∃ made, member.1.made = some made ∧ (e = .started made.label ∨ e = .resumed made.label)) ∨
      e ∈ (member.2.trace config).inOrder := by
  unfold memberTrace Place.await at h
  cases hmade : member.1.made with
  | none =>
    rw [hmade] at h
    exact .inr h
  | some made =>
    rw [hmade] at h
    dsimp only at h
    have hown {rest : List Event} (he : e ∈ .started made.label :: rest)
        (hrest : e ∈ rest → e = .resumed made.label ∨ e ∈ (member.2.trace config).inOrder) :
        (∃ own, some made = some own ∧ (e = .started own.label ∨ e = .resumed own.label)) ∨
          e ∈ (member.2.trace config).inOrder := by
      rcases List.mem_cons.1 he with rfl | he
      · exact .inl ⟨made, rfl, .inl rfl⟩
      · exact (hrest he).imp (fun he => ⟨made, rfl, .inr he⟩) id
    cases hpause : Execution.pause config.fieldTimeout made.duration with
    | none =>
      rw [hpause] at h
      exact hown h .inr
    | sleep ms =>
      rw [hpause] at h
      exact hown h List.mem_cons.1
    | cut ms =>
      rw [hpause] at h
      exact hown h .inr
    | forever =>
      rw [hpause] at h
      exact hown h fun he => absurd he List.not_mem_nil

/-- A member whose call comes to an end is seen to make it, and then what is below. -/
theorem inOrder_member {member : Place × Outline}
    (hh : member.1.hangs config.fieldTimeout = false) :
    (∀ made, member.1.made = some made → .started made.label ∈ (memberTrace config member).inOrder) ∧
      (member.2.trace config).inOrder ⊆ (memberTrace config member).inOrder := by
  unfold memberTrace Place.await
  unfold Place.hangs at hh
  cases hmade : member.1.made with
  | none => exact ⟨fun _ he => (by cases he), List.Subset.refl _⟩
  | some made =>
    rw [hmade] at hh
    dsimp only at hh ⊢
    have hstart {rest : List Event} (own : MadeCall) (he : some made = some own) :
        .started own.label ∈ Event.started made.label :: rest := by
      rw [Option.some.inj he]
      exact List.mem_cons_self
    cases hpause : Execution.pause config.fieldTimeout made.duration with
    | none => exact ⟨hstart, List.subset_cons_self _ _⟩
    | sleep ms =>
      exact ⟨hstart, List.Subset.trans (List.subset_cons_self _ _) (List.subset_cons_self _ _)⟩
    | cut ms => exact ⟨hstart, List.subset_cons_self _ _⟩
    | forever =>
      rw [hpause] at hh
      cases hh

/-- A member with a call makes it first.  If the call slept, it goes on before what is below. -/
theorem events_member {place : Place} {made : MadeCall} (hmade : place.made = some made)
    (o : Outline) (now : Nat) :
    ∃ later, ((memberTrace config (place, o)).course now).events = .started made.label :: later ∧
      (later = [] ∨ ∃ time, later = ((o.trace config).course time).events ∨
        later = .resumed made.label :: ((o.trace config).course time).events) := by
  unfold memberTrace Place.await
  rw [hmade]
  dsimp only
  cases Execution.pause config.fieldTimeout made.duration with
  | none =>
    refine ⟨_, ?_, .inr ⟨now, .inl rfl⟩⟩
    rw [Trace.course, Course.events_after]
    rfl
  | sleep ms =>
    refine ⟨_, ?_, .inr ⟨now + ms, .inr rfl⟩⟩
    rw [Trace.course, Course.events_wait, Course.events_after]
    rfl
  | cut ms =>
    refine ⟨_, ?_, .inr ⟨now + ms, .inl rfl⟩⟩
    rw [Trace.course, Course.events_wait]
    rfl
  | forever => exact ⟨[], rfl, .inl rfl⟩

theorem events_member_of_none {place : Place} (hmade : place.made = none) (o : Outline)
    (now : Nat) :
    ((memberTrace config (place, o)).course now).events = ((o.trace config).course now).events := by
  unfold memberTrace Place.await
  rw [hmade]

/-- The members of a set as they start. -/
theorem courses_members (members : List (Place × Outline)) :
    Trace.courses (memberTraces config members) =
      members.map fun member now => (memberTrace config member).course now := by
  rw [Trace.courses_eq_map, memberTraces_eq_map, List.map_map]
  rfl

/-! ## Calls at their positions -/

/-- Every event but an escape is of the call of some position. -/
theorem at_of_mem_inOrder {o : Outline} {e : Event} (he : e ∈ (o.trace config).inOrder) {own : Path}
    (hown : e.path? = some own) :
    ∃ path place inner made, o.At path place inner ∧ place.made = some made ∧
      (e = .started made.label ∨ e = .resumed made.label) := by
  induction o using induct with
  | hleaf data => cases he
  | hfailed failure => cases he
  | hescaped cause =>
    rw [List.mem_singleton.1 he] at hown
    cases hown
  | hset kind members ih =>
    obtain ⟨member, hm, he⟩ := mem_inOrder_members.1 he
    rcases mem_inOrder_member he with ⟨made, hmade, hevent⟩ | hbelow
    · exact ⟨_, member.1, member.2, made, .member hm, hmade, hevent⟩
    · obtain ⟨path, place, inner, made, hat, hmade, hevent⟩ := ih member hm hbelow
      exact ⟨_, place, inner, made, .deeper hm hat, hmade, hevent⟩

/-- The call of a position is seen, unless some call never ends. -/
theorem started_of_at {o : Outline} (hh : o.hangs config.fieldTimeout = false) {path : Path}
    {place : Place} {inner : Outline} (hat : o.At path place inner) {made : MadeCall}
    (hmade : place.made = some made) : .started made.label ∈ (o.trace config).inOrder := by
  induction hat with
  | member hm =>
    obtain ⟨hplace, -⟩ := anyHangs_eq_false.1 hh _ hm
    exact mem_inOrder_members.2 ⟨_, hm, (inOrder_member hplace).1 made hmade⟩
  | deeper hm _ ih =>
    obtain ⟨hplace, hbelow⟩ := anyHangs_eq_false.1 hh _ hm
    exact mem_inOrder_members.2 ⟨_, hm, (inOrder_member hplace).2 (ih hbelow hmade)⟩

/-- Calls of the outline, which is at the path, know the paths of their positions. -/
def Addressed (base : Path) (o : Outline) : Prop :=
  ∀ path place inner, o.At path place inner → ∀ made, place.made = some made →
    made.call.info.path = base ++ path

theorem Addressed.member {base : Path} {kind : SetKind} {members : List (Place × Outline)}
    (h : (set kind members).Addressed base) {member : Place × Outline} (hm : member ∈ members) :
    (∀ made, member.1.made = some made → made.label.path = base ++ [member.1.segment]) ∧
      member.2.Addressed (base ++ [member.1.segment]) := by
  refine ⟨h _ _ _ (.member hm), fun path place inner hat made hmade => ?_⟩
  rw [List.append_assoc]
  exact h _ place inner (.deeper hm hat) made hmade

/-- What is seen of an outline is strictly below its path. -/
theorem Addressed.below {base : Path} {o : Outline} (h : o.Addressed base) {e : Event}
    (he : e ∈ (o.trace config).inOrder) {own : Path} (hown : e.path? = some own) :
    ∃ rest, rest ≠ [] ∧ own = base ++ rest := by
  obtain ⟨path, place, inner, made, hat, hmade, hevent⟩ := at_of_mem_inOrder he hown
  refine ⟨path, hat.ne_nil, ?_⟩
  rw [← h path place inner hat made hmade]
  exact (Event.path_of_label hevent hown).symm

/-- What is seen of a member is at its path or below. -/
theorem Addressed.within {base : Path} {kind : SetKind} {members : List (Place × Outline)}
    (h : (set kind members).Addressed base) {member : Place × Outline} (hm : member ∈ members)
    {e : Event} (he : e ∈ (memberTrace config member).inOrder) {own : Path}
    (hown : e.path? = some own) : base ++ [member.1.segment] <+: own := by
  obtain ⟨hmember, hbelow⟩ := h.member hm
  rcases mem_inOrder_member he with ⟨made, hmade, hevent⟩ | he
  · have hsame : base ++ [member.1.segment] = own :=
      (hmember made hmade).symm.trans (Event.path_of_label hevent hown)
    exact hsame ▸ List.prefix_refl _
  · obtain ⟨rest, -, rfl⟩ := hbelow.below he hown
    exact List.prefix_append _ _

theorem segment_unique {base own : Path} {s t : PathSegment} {p q : Path}
    (hp : base ++ s :: p <+: own) (hq : base ++ t :: q <+: own) : s = t := by
  by_contra hne
  obtain ⟨hpq, hqp⟩ := @Path.apart_append base s t hne p q
  rcases List.prefix_or_prefix_of_prefix hp hq with h | h
  · exact hpq h
  · exact hqp h

/-- What is seen at the path of a position or below it is seen of the position. -/
theorem Addressed.of_within {base : Path} {o : Outline} (h : o.Addressed base) (horderly : o.Orderly)
    {path : Path} {place : Place} {inner : Outline} (hat : o.At path place inner) {e : Event}
    (he : e ∈ (o.trace config).inOrder) (hwithin : e.Within (base ++ path)) :
    e ∈ (memberTrace config (place, inner)).inOrder := by
  obtain ⟨own, hown, hprefix⟩ := hwithin
  induction hat generalizing base with
  | member hm =>
    obtain ⟨other, hother, he⟩ := mem_inOrder_members.1 he
    have hsame := segment_unique (h.within hother he hown) hprefix
    rw [← horderly.eq_of_segment hother hm hsame]
    exact he
  | @deeper kind members outer place between inner path hm hin ih =>
    obtain ⟨other, hother, he⟩ := mem_inOrder_members.1 he
    have hsame := segment_unique (h.within hother he hown) hprefix
    obtain rfl := horderly.eq_of_segment hother hm hsame
    obtain ⟨hmember, hbelow⟩ := h.member hm
    rw [List.append_cons] at hprefix
    rcases mem_inOrder_member he with ⟨made, hmade, hevent⟩ | he
    · -- the member's own call is above the position
      have hpath : base ++ [outer.segment] = own := by
        rw [← hmember made hmade, Event.path_of_label hevent hown]
      have hlength := hprefix.length_le
      have hpos := List.length_pos_iff.2 hin.ne_nil
      rw [← hpath, List.length_append] at hlength
      omega
    · exact ih hbelow (horderly.member hm) he hprefix

/-! ## The order of events -/

/-- The event is of the member at the place, unless it is of no call. -/
def Owns (base : Path) (members : List (Place × Outline)) (i : Nat) (e : Event) : Prop :=
  ∃ member, members[i]? = some member ∧
    ∀ own, e.path? = some own → base ++ [member.1.segment] <+: own

/-- An order that each member keeps, and that holds between members, is that of the set. -/
theorem pairwise_members {R : Event → Event → Prop} {base : Path} {kind : SetKind}
    {members : List (Place × Outline)} (h : (set kind members).Addressed base) {limit : Nat}
    (hcross : ∀ i j e f, Owns base members i e → Owns base members j f →
      (i < j ∨ limit ≠ 1 ∧ i ≠ j) → R e f)
    (hmember : ∀ member ∈ members, ∀ now,
      ((memberTrace config member).course now).events.Pairwise R) (now : Nat) :
    ((Trace.members limit (memberTraces config members)).course now).events.Pairwise R := by
  rw [Trace.course, courses_members]
  refine Crew.course_pairwise hcross fun i start hget now => ?_
  rw [List.getElem?_map, Option.map_eq_some_iff] at hget
  obtain ⟨member, hget, rfl⟩ := hget
  have hm : member ∈ members := List.mem_of_getElem? hget
  refine ⟨hmember member hm now, fun e he => ⟨member, hget, fun own hown => ?_⟩⟩
  exact h.within hm (Trace.events_subset_inOrder _ now he) hown

/-- Members have places of their own. -/
theorem Orderly.place_unique {kind : SetKind} {members : List (Place × Outline)}
    (h : (set kind members).Orderly) {i j : Nat} {first second : Place × Outline}
    (hfirst : members[i]? = some first) (hsecond : members[j]? = some second)
    (hsame : first.1.segment = second.1.segment) : i = j := by
  have hmembers := h.eq_of_segment (List.mem_of_getElem? hfirst) (List.mem_of_getElem? hsecond) hsame
  rw [← hmembers, ← hfirst] at hsecond
  have hnodup : members.Nodup := (SetKind.nodup_of_spells h.1).of_map _
  have hi : i < members.length := (List.getElem?_eq_some_iff.1 hfirst).1
  exact (List.getElem?_inj hi hnodup).1 hsecond.symm

end Outline

/-- The relation holds between what is below different positions of a set, and from a call to what is
below it. -/
structure Event.Orders (R : Event → Event → Prop) : Prop where
  apart : ∀ base s t e f, s ≠ t → (∀ own, e.path? = some own → base ++ [s] <+: own) →
    (∀ own, f.path? = some own → base ++ [t] <+: own) → R e f
  below : ∀ path e f, e.path? = some path →
    (∀ own, f.path? = some own → ∃ rest, rest ≠ [] ∧ own = path ++ rest) → R e f
  resumed : ∀ label, R (.started label) (.resumed label)

theorem Event.orders_precedes : Orders Precedes where
  apart base s t e f hne he hf p q hp hq hprefix :=
    hne (Outline.segment_unique (he p (path?_of_called? hp))
      ((hf q (path?_of_called? hq)).trans hprefix))
  below path e f he hf p q hp hq hprefix := by
    obtain ⟨rest, hne, rfl⟩ := hf q (path?_of_called? hq)
    rw [path?_of_called? hp] at he
    obtain rfl := Option.some.inj he
    have hlength := hprefix.length_le
    have hpos := List.length_pos_iff.2 hne
    rw [List.length_append] at hlength
    omega
  resumed _ _ _ _ hq := by cases hq

namespace Outline

variable {config : Config}

section Orders

variable {R : Event → Event → Prop} (hR : Event.Orders R)

include hR

/-- A member makes its own call before all others, which are below. -/
theorem pairwise_member {base : Path} {kind : SetKind} {members : List (Place × Outline)}
    (h : (set kind members).Addressed base) {member : Place × Outline} (hm : member ∈ members)
    (hbelow : ∀ now, ((member.2.trace config).course now).events.Pairwise R) (now : Nat) :
    ((memberTrace config member).course now).events.Pairwise R := by
  obtain ⟨place, o⟩ := member
  obtain ⟨hmember, hinner⟩ := h.member hm
  cases hmade : place.made with
  | none =>
    rw [events_member_of_none hmade]
    exact hbelow now
  | some made =>
    obtain ⟨later, he, hlater⟩ := @events_member config place made hmade o now
    rw [he, List.pairwise_cons]
    have hown {e : Event} (he : e.path? = some made.label.path) (time : Nat) :
        ∀ f ∈ ((o.trace config).course time).events, R e f := by
      intro f hf
      refine hR.below _ e f he fun own hown => ?_
      rw [hmember made hmade]
      exact hinner.below (Trace.events_subset_inOrder _ time hf) hown
    rcases hlater with rfl | ⟨time, rfl | rfl⟩
    · exact ⟨nofun, .nil⟩
    · exact ⟨hown rfl time, hbelow time⟩
    · rw [List.pairwise_cons, List.forall_mem_cons]
      exact ⟨⟨hR.resumed _, hown rfl time⟩, hown rfl time, hbelow time⟩

theorem pairwise_set {base : Path} {kind : SetKind} {members : List (Place × Outline)}
    (horderly : (set kind members).Orderly) (h : (set kind members).Addressed base)
    (hbelow : ∀ member ∈ members, ∀ now,
      ((member.2.trace config).course now).events.Pairwise R) (limit now : Nat) :
    ((Trace.members limit (memberTraces config members)).course now).events.Pairwise R := by
  refine pairwise_members h (fun i j e f he hf hij => ?_)
    (fun member hm => pairwise_member hR h hm (hbelow member hm)) now
  obtain ⟨first, hfirst, he⟩ := he
  obtain ⟨second, hsecond, hf⟩ := hf
  refine hR.apart base _ _ e f (fun hsame => ?_) he hf
  have hplace := horderly.place_unique hfirst hsecond hsame
  omega

theorem pairwise_trace {base : Path} {o : Outline} (horderly : o.Orderly) (h : o.Addressed base)
    (now : Nat) : ((o.trace config).course now).events.Pairwise R := by
  induction o using induct generalizing base now with
  | hleaf data => exact .nil
  | hfailed failure => exact .nil
  | hescaped cause => exact List.pairwise_singleton _ _
  | hset kind members ih =>
    exact pairwise_set hR horderly h
      (fun member hm => ih member hm (horderly.member hm) (h.member hm).2) config.window now

/-- The events of a set are in order, whatever the limit on the set. -/
theorem pairwise_events {base : Path} {kind : SetKind} {members : List (Place × Outline)}
    (horderly : (set kind members).Orderly) (h : (set kind members).Addressed base)
    (limit now : Nat) :
    ((Trace.members limit (memberTraces config members)).course now).events.Pairwise R :=
  pairwise_set hR horderly h
    (fun _ hm => pairwise_trace hR (horderly.member hm) (h.member hm).2) limit now

end Orders

/-! ## The calls around a call -/

/-- Fields that came to sets have calls. -/
def Introduced (o : Outline) : Prop :=
  ∀ path place kind members, o.At path place (set kind members) → ∀ key,
    place.segment = .key key → ∃ made, place.made = some made

theorem Introduced.member {kind : SetKind} {members : List (Place × Outline)}
    (h : (set kind members).Introduced) {member : Place × Outline} (hm : member ∈ members) :
    member.2.Introduced :=
  fun _ place inner below hat => h _ place inner below (.deeper hm hat)

/-- The event is of a call below the field at the path, which is below the base. -/
def Needs (base : Path) (e : Event) (path : Path) : Prop :=
  ∃ front key own, path = front ++ [.key key] ∧ base <+: front ∧ e.path? = some own ∧
    path <+: own ∧ path ≠ own

/-- A position is a member of the whole, or of the set at the position around it. -/
theorem exists_set_of_at {o inner : Outline} {path : Path} {place : Place}
    (hat : o.At path place inner) :
    ∃ base kind members, path = base ++ [place.segment] ∧ (place, inner) ∈ members ∧
      (base = [] ∧ o = set kind members ∨ ∃ outer, o.At base outer (set kind members)) := by
  induction hat with
  | member hm => exact ⟨[], _, _, rfl, hm, .inl ⟨rfl, rfl⟩⟩
  | @deeper kind members outer place between inner path hm _ ih =>
    obtain ⟨base, below, others, rfl, hin, hbase⟩ := ih
    refine ⟨outer.segment :: base, below, others, rfl, hin, .inr ?_⟩
    rcases hbase with ⟨rfl, rfl⟩ | ⟨next, hnext⟩
    · exact ⟨outer, .member hm⟩
    · exact ⟨next, .deeper hm hnext⟩

/-- The call of a member needs nothing below the base. -/
theorem not_needs_own {base : Path} {segment : PathSegment} {e : Event} {path : Path}
    (hpath : e.path? = some (base ++ [segment])) : ¬ Needs base e path := by
  rintro ⟨front, key, own, rfl, hfront, hown, hprefix, hne⟩
  rw [hpath] at hown
  obtain rfl := Option.some.inj hown
  refine hne (List.IsPrefix.eq_of_length_le hprefix ?_)
  rw [List.length_append, List.length_append]
  exact Nat.add_le_add_right hfront.length_le _

/-- What an event of a member needs is its member's own call, or below. -/
theorem needs_member {base : Path} {segment : PathSegment} {e : Event} {path rest : Path}
    (hpath : e.path? = some (base ++ segment :: rest)) (h : Needs base e path) :
    (path = base ++ [segment] ∧ rest ≠ [] ∧ ∃ key, segment = .key key) ∨
      Needs (base ++ [segment]) e path := by
  obtain ⟨front, key, own, rfl, ⟨between, rfl⟩, hown, hprefix, hne⟩ := h
  rw [hpath] at hown
  obtain rfl := Option.some.inj hown
  rw [List.append_assoc, List.prefix_append_right_inj] at hprefix
  rcases between with _ | ⟨next, between⟩
  · rw [List.nil_append, List.cons_prefix_cons] at hprefix
    obtain ⟨rfl, -⟩ := hprefix
    refine .inl ⟨by rw [List.append_nil], fun hrest => hne ?_, key, rfl⟩
    rw [hrest, List.append_nil]
  · rw [List.cons_append, List.cons_prefix_cons] at hprefix
    obtain ⟨rfl, hprefix⟩ := hprefix
    refine .inr ⟨base ++ next :: between, key, _, rfl, ?_, hpath, ?_, hne⟩
    · exact ⟨between, List.append_assoc base [next] between⟩
    · rw [List.append_assoc, List.prefix_append_right_inj, List.cons_append]
      exact List.cons_prefix_cons.2 ⟨rfl, hprefix⟩

end Outline

/-- What is grounded for some needs is so for others that are met beforehand. -/
theorem Grounded.of_needs {Needs Others : Event → Path → Prop} {past events : List Event}
    (h : Grounded Needs past events)
    (hother : ∀ e ∈ events, ∀ path, Others e path →
      Needs e path ∨ ∃ earlier ∈ past, earlier.called? = some path) :
    Grounded Others past events := by
  induction events generalizing past with
  | nil => trivial
  | cons e rest ih =>
    obtain ⟨hmet, hrest⟩ := h
    refine ⟨fun path hpath => (hother e List.mem_cons_self path hpath).elim (hmet path) id,
      ih hrest fun f hf path hpath => ?_⟩
    refine (hother f (List.mem_cons_of_mem _ hf) path hpath).imp_right ?_
    rintro ⟨earlier, hearlier, hcalled⟩
    exact ⟨earlier, List.mem_cons_of_mem _ hearlier, hcalled⟩

namespace Outline

variable {config : Config}

/-- Only a set has calls below it. -/
theorem eq_set_of_event {o : Outline} {now : Nat} {e : Event}
    (he : e ∈ ((o.trace config).course now).events) {own : Path} (hown : e.path? = some own) :
    ∃ kind members, o = set kind members := by
  cases o with
  | leaf data => cases he
  | failed failure => cases he
  | escaped cause =>
    rw [List.mem_singleton.1 he] at hown
    cases hown
  | set kind members => exact ⟨kind, members, rfl⟩

/-- A member makes its own call before those below, which need it. -/
theorem grounded_member {base : Path} {kind : SetKind} {members : List (Place × Outline)}
    (h : (set kind members).Addressed base) (hintro : (set kind members).Introduced)
    {member : Place × Outline} (hm : member ∈ members)
    (hbelow : ∀ past now, Grounded (Needs (base ++ [member.1.segment])) past
      ((member.2.trace config).course now).events) (past : List Event) (now : Nat) :
    Grounded (Needs base) past ((memberTrace config member).course now).events := by
  obtain ⟨place, o⟩ := member
  obtain ⟨hmember, hinner⟩ := h.member hm
  -- the path of an event below goes on from the member's
  have hpath {time : Nat} {e : Event} (he : e ∈ ((o.trace config).course time).events) {path : Path}
      (hneeds : Needs base e path) :
      ∃ rest, rest ≠ [] ∧ e.path? = some (base ++ place.segment :: rest) := by
    obtain ⟨-, -, own, -, -, hown, -, -⟩ := hneeds
    obtain ⟨rest, hne, rfl⟩ := hinner.below (Trace.events_subset_inOrder _ time he) hown
    refine ⟨rest, hne, ?_⟩
    rw [hown, List.append_assoc]
    rfl
  cases hmade : place.made with
  | none =>
    rw [events_member_of_none hmade]
    refine (hbelow past now).of_needs fun e he path hneeds => .inl ?_
    obtain ⟨rest, hne, hown⟩ := hpath he hneeds
    refine (needs_member hown hneeds).resolve_left ?_
    rintro ⟨-, -, key, hkey⟩
    obtain ⟨inner, below, rfl⟩ := eq_set_of_event he hown
    obtain ⟨made, hsome⟩ := hintro _ place inner below (.member hm) key hkey
    rw [hmade] at hsome
    cases hsome
  | some made =>
    obtain ⟨later, he, hlater⟩ := @events_member config place made hmade o now
    rw [he]
    have hlabel : made.label.path = base ++ [place.segment] := hmember made hmade
    have hown {e : Event} (he : e = .started made.label ∨ e = .resumed made.label) {path : Path} :
        ¬ Needs base e path := by
      have hpath : e.path? = some (base ++ [place.segment]) := by
        rcases he with rfl | rfl
        · exact congrArg some hlabel
        · exact congrArg some hlabel
      exact not_needs_own hpath
    have hlater' (time : Nat) (others : List Event) (hsome : .started made.label ∈ others) :
        Grounded (Needs base) others ((o.trace config).course time).events := by
      refine (hbelow others time).of_needs fun e he path hneeds => ?_
      obtain ⟨rest, hne, hown⟩ := hpath he hneeds
      refine (needs_member hown hneeds).symm.imp_right ?_
      rintro ⟨rfl, -, -⟩
      exact ⟨_, hsome, congrArg some hlabel⟩
    refine ⟨fun path hneeds => absurd hneeds (hown (.inl rfl)), ?_⟩
    rcases hlater with rfl | ⟨time, rfl | rfl⟩
    · trivial
    · exact hlater' time _ List.mem_cons_self
    · exact ⟨fun path hneeds => absurd hneeds (hown (.inr rfl)),
        hlater' time _ (List.mem_cons_of_mem _ List.mem_cons_self)⟩

theorem grounded_set {base : Path} {kind : SetKind} {members : List (Place × Outline)}
    (h : (set kind members).Addressed base) (hintro : (set kind members).Introduced)
    (hbelow : ∀ member ∈ members, ∀ past now, Grounded (Needs (base ++ [member.1.segment])) past
      ((member.2.trace config).course now).events) (limit : Nat) (past : List Event) (now : Nat) :
    Grounded (Needs base) past
      ((Trace.members limit (memberTraces config members)).course now).events := by
  rw [Trace.course, courses_members]
  refine Crew.course_grounded fun start hs now => ?_
  obtain ⟨member, hm, rfl⟩ := List.mem_map.1 hs
  exact grounded_member h hintro hm (hbelow member hm) past now

theorem grounded_trace {base : Path} {o : Outline} (h : o.Addressed base) (hintro : o.Introduced)
    (past : List Event) (now : Nat) :
    Grounded (Needs base) past ((o.trace config).course now).events := by
  induction o using induct generalizing base past now with
  | hleaf data => trivial
  | hfailed failure => trivial
  | hescaped cause => exact ⟨fun _ ⟨_, _, _, _, _, hown, _⟩ => (nomatch hown), trivial⟩
  | hset kind members ih =>
    exact grounded_set h hintro
      (fun member hm => ih member hm (h.member hm).2 (hintro.member hm)) config.window past now

/-- Every call comes after the calls of the fields around it, whatever the limit on the set. -/
theorem grounded_members {base : Path} {kind : SetKind} {members : List (Place × Outline)}
    (h : (set kind members).Addressed base) (hintro : (set kind members).Introduced) (limit now : Nat) :
    Grounded (Needs base) [] ((Trace.members limit (memberTraces config members)).course now).events :=
  grounded_set h hintro
    (fun _ hm => grounded_trace (h.member hm).2 (hintro.member hm)) limit [] now

end Outline
end TypedQuery
