import TypedQuery.Proofs.Execution.Events
import TypedQuery.Proofs.Execution.Shares
/-!
The members of a set in an outline.  They keep the window of the set, however they take turns
(`Outline.inWindow_of_steps`).  Of the events of a set anywhere in an outline, the whole shows what
the set shows by itself from some time on (`Outline.share_at`), so at every point of what is seen the
set has come by its own steps to where its members are in the window
(`Outline.throughout_of_share`).
-/

namespace TypedQuery

/-! ## Events are seen once -/

/-- The events are not the same, unless they are of no call. -/
def Event.Distinct (e f : Event) : Prop := ∀ own, e.path? = some own → e ≠ f

theorem Event.orders_distinct : Orders Distinct where
  apart base s t e f hne he hf own hown hsame :=
    hne (Outline.segment_unique (he own hown) (hf own (hsame ▸ hown)))
  below path e f he hf own hown hsame := by
    subst hsame
    obtain ⟨rest, hne, hrest⟩ := hf path he
    exact hne (List.self_eq_append_right.1 hrest)
  resumed _ _ _ hsame := nomatch hsame

/-! ## Events of a set -/

/-- The event is of a call below the path. -/
def Event.isBelow (base : Path) (e : Event) : Bool :=
  match e.path? with
  | some own => base.isPrefixOf own && own != base
  | none => false

theorem Event.isBelow_iff {base : Path} {e : Event} :
    e.isBelow base = true ↔ ∃ s, e.Within (base ++ [s]) := by
  unfold isBelow Within
  cases e.path? with
  | none => simp
  | some own =>
    simp only [Bool.and_eq_true, List.isPrefixOf_iff_prefix, bne_iff_ne, Option.some.injEq,
      exists_eq_left']
    constructor
    · rintro ⟨⟨rest, rfl⟩, hne⟩
      cases rest with
      | nil => exact absurd (List.append_nil base) hne
      | cons s rest => exact ⟨s, (List.prefix_append_right_inj base).2 (List.prefix_append [s] rest)⟩
    · rintro ⟨s, rest, rfl⟩
      refine ⟨⟨s :: rest, by rw [List.append_assoc]; rfl⟩, fun hsame => ?_⟩
      rw [List.append_assoc] at hsame
      cases List.append_right_eq_self.1 hsame

namespace Outline

variable {config : Config} {base : Path} {members : List (Place × Outline)}

/-! ## Members of a set -/

/-- Something is seen of the member at the place. -/
def Started (base : Path) (members : List (Place × Outline)) (events : List Event) (i : Nat) :
    Prop :=
  ∃ member, members[i]? = some member ∧ ∃ e ∈ events, e.Within (base ++ [member.1.segment])

/-- The member at the place comes to its end with all below it, and all of that is seen.  Of a call
that is cut off only the start is seen, so that it is over is said of the members that run. -/
def Finished (config : Config) (members : List (Place × Outline)) (i : Nat) (events : List Event) :
    Prop :=
  ∃ member, members[i]? = some member ∧ (memberTrace config member).finishes = true ∧
    (memberTrace config member).inOrder ⊆ events

theorem Finished.mono (i : Nat) (events more : List Event) (hsub : events ⊆ more)
    (h : Finished config members i events) : Finished config members i more := by
  obtain ⟨member, hget, hends, hall⟩ := h
  exact ⟨member, hget, hends, List.Subset.trans hall hsub⟩

/-- The members of a set as they start. -/
abbrev tasks (config : Config) (members : List (Place × Outline)) : List (Nat → Course) :=
  Trace.courses (memberTraces config members)

theorem exists_member {i : Nat} {first : Nat → Course}
    (h : (tasks config members)[i]? = some first) :
    ∃ member, members[i]? = some member ∧
      first = fun now => (memberTrace config member).course now := by
  rw [tasks, courses_members, List.getElem?_map, Option.map_eq_some_iff] at h
  obtain ⟨member, hget, rfl⟩ := h
  exact ⟨member, hget, rfl⟩

/-- What a member does is all that it has to do. -/
theorem leftOf_tasks (i : Nat) (first : Nat → Course)
    (h : (tasks config members)[i]? = some first) (now : Nat) :
    Crew.LeftOf (Finished config members) [] i (first now) := by
  obtain ⟨member, hget, rfl⟩ := exists_member h
  have hlimited : (memberTrace config member).limited (0 < ·) :=
    (allLimited_memberTraces (show (0 < ·) config.window from Nat.le_max_left _ _) [member]).1
  intro hends later _ hsub
  exact ⟨member, hget, Trace.finishes_of_ends hlimited hends,
    List.Subset.trans (Trace.inOrder_subset_events hlimited hends) hsub⟩

theorem Orderly.at {o inner : Outline} (h : o.Orderly) {path : Path} {place : Place}
    (hat : o.At path place inner) : inner.Orderly :=
  ⟨h.2 path place inner hat, fun _ _ _ hin => h.2 _ _ _ (at_trans hat hin)⟩

theorem Addressed.at {o inner : Outline} (h : o.Addressed base) {path : Path} {place : Place}
    (hat : o.At path place inner) : inner.Addressed (base ++ path) := by
  intro rest own below hin made hmade
  rw [List.append_assoc]
  exact h _ own below (at_trans hat hin) made hmade

theorem At.exists_set {o inner : Outline} {path : Path} {place : Place}
    (h : o.At path place inner) : ∃ kind members, o = set kind members := by
  cases h with
  | member => exact ⟨_, _, rfl⟩
  | deeper => exact ⟨_, _, rfl⟩

/-! ## The share of a set -/

/-- What is below a member is of that member, and not its own call. -/
theorem within_of_isBelow {segment : PathSegment} {rest : Path} {e : Event}
    (h : e.isBelow (base ++ segment :: rest) = true) :
    ∃ own, e.path? = some own ∧ base ++ [segment] <+: own ∧ own ≠ base ++ [segment] := by
  obtain ⟨s, own, hown, hprefix⟩ := Event.isBelow_iff.1 h
  have hmember : base ++ [segment] <+: base ++ segment :: rest :=
    (List.prefix_append_right_inj base).2 (List.prefix_append [segment] rest)
  refine ⟨own, hown, hmember.trans ((List.prefix_append _ [s]).trans hprefix), fun hsame => ?_⟩
  have hshort := hmember.length_le
  have hlength := hprefix.length_le
  rw [hsame, List.length_append, List.length_singleton] at hlength
  omega

/-- Of the events below a member, a set shows what the member shows from some time on. -/
theorem share_member {kind : SetKind} (horderly : (set kind members).Orderly)
    (h : (set kind members).Addressed base) {member : Place × Outline} (hm : member ∈ members)
    (rest : Path) (limit now : Nat) :
    ∃ later, ((Trace.members limit (memberTraces config members)).course now).events.filter
        (Event.isBelow (base ++ member.1.segment :: rest)) <+:
      ((member.2.trace config).course later).events.filter
        (Event.isBelow (base ++ member.1.segment :: rest)) := by
  obtain ⟨i, hget⟩ := List.getElem?_of_mem hm
  have htask : (tasks config members)[i]? =
      some fun now => (memberTrace config member).course now := by
    rw [tasks, courses_members, List.getElem?_map, hget]
    rfl
  have hothers : ∀ j other, (tasks config members)[j]? = some other → j ≠ i →
      ∀ now, ∀ e ∈ (other now).events,
        Event.isBelow (base ++ member.1.segment :: rest) e = false := by
    intro j other hother hne now e he
    obtain ⟨apart, hapart, rfl⟩ := exists_member hother
    refine Bool.eq_false_iff.2 fun hbelow => hne ?_
    obtain ⟨own, hown, hprefix, -⟩ := within_of_isBelow hbelow
    have hwithin := h.within (List.mem_of_getElem? hapart) (Trace.events_subset_inOrder _ now he) hown
    exact horderly.place_unique hapart hget (segment_unique hwithin hprefix)
  have hown {e : Event} {made : MadeCall} (hmade : member.1.made = some made)
      (he : e = .started made.label ∨ e = .resumed made.label) :
      ¬ Event.isBelow (base ++ member.1.segment :: rest) e = true := by
    intro hbelow
    obtain ⟨own, hown, -, hne⟩ := within_of_isBelow hbelow
    exact hne ((Event.path_of_label he hown).symm.trans ((h.member hm).1 made hmade))
  obtain ⟨later, hshare⟩ := Crew.course_share htask hothers limit now
  rw [Trace.course]
  obtain ⟨place, o⟩ := member
  cases hmade : place.made with
  | none =>
    rw [events_member_of_none hmade] at hshare
    exact ⟨later, hshare⟩
  | some made =>
    obtain ⟨rest, he, hlater⟩ := @events_member config place made hmade o later
    rw [he, List.filter_cons_of_neg (hown hmade (.inl rfl))] at hshare
    rcases hlater with rfl | ⟨time, rfl | rfl⟩
    · exact ⟨now, hshare.trans List.nil_prefix⟩
    · exact ⟨time, hshare⟩
    · rw [List.filter_cons_of_neg (hown hmade (.inr rfl))] at hshare
      exact ⟨time, hshare⟩

/-- Of the events of a set anywhere in an outline, the whole shows what the set shows from some time
on. -/
theorem share_at {around kind : SetKind} {outer : List (Place × Outline)}
    (horderly : (set around outer).Orderly) (h : (set around outer).Addressed base) {path : Path}
    {place : Place} (hat : (set around outer).At path place (set kind members)) (limit now : Nat) :
    ∃ later, ((Trace.members limit (memberTraces config outer)).course now).events.filter
        (Event.isBelow (base ++ path)) <+:
      ((Trace.members config.window (memberTraces config members)).course later).events.filter
        (Event.isBelow (base ++ path)) := by
  generalize ho : set around outer = o at hat
  generalize hset : set kind members = inner at hat
  induction hat generalizing base around outer limit now with
  | member hm =>
    cases ho
    subst hset
    exact share_member horderly h hm [] limit now
  | deeper hm hin ih =>
    cases ho
    obtain ⟨k, below, rfl⟩ := hin.exists_set
    obtain ⟨time, hshare⟩ := @share_member config base _ _ horderly h _ hm _ limit now
    obtain ⟨later, hinner⟩ :=
      ih (horderly.member hm) (h.member hm).2 config.window time rfl hset
    rw [← List.append_cons] at hinner
    exact ⟨later, hshare.trans hinner⟩

/-! ## The window of a set at any time -/

/-- The members of a set at some time, with what is past.  No more run than the limit says, and
those that have started run or have finished.  Those outside the window have finished and do not run
any more, not even to wait for a deadline; and when none runs all have started. -/
structure InWindow (config : Config) (limit : Nat) (members : List (Place × Outline))
    (past : List Event) (crew : Crew) : Prop where
  few : crew.running.length ≤ limit
  running : ∀ i < crew.next, Finished config members i past ∨ i ∈ crew.running.map Prod.fst
  behind : ∀ i < crew.next, ∀ j, j + limit ≤ i →
    Finished config members j past ∧ j ∉ crew.running.map Prod.fst
  busy : crew.running = [] → crew.next = members.length

theorem InWindow.of_finished {limit : Nat} {past events : List Event} {crew : Crew}
    (h : InWindow config limit members past crew)
    (hfinished : ∀ i, Finished config members i past → Finished config members i events) :
    InWindow config limit members events crew where
  few := h.few
  running i hi := (h.running i hi).imp_left (hfinished i)
  behind i hi j hj := (h.behind i hi j hj).imp_left (hfinished j)
  busy := h.busy

/-- Members that take turns keep the window, whenever they do. -/
theorem inWindow_of_steps {limit now : Nat} (hlimit : 0 < limit) {past : List Event} {crew : Crew}
    (h : Crew.Steps limit (.start limit now (tasks config members)) past crew) :
    InWindow config limit members past crew := by
  have hall := Crew.accounted_of_steps Finished.mono leftOf_tasks h
  have hwindow := Crew.Windowed.of_steps h
  constructor
  case few => exact hwindow.few
  case running => exact fun i hi => or_iff_not_imp_right.2 (hall.settled i hi)
  case behind => exact fun i hi j hj => ⟨hall.behind hwindow hi hj, hwindow.not_running hi hj⟩
  case busy =>
    intro hnone
    have htotal := hall.total
    rw [hall.busy hlimit hnone, tasks, courses_members, List.length_map] at htotal
    exact htotal

/-- What has finished by some events has finished by those that show as much of the set. -/
theorem Finished.of_filter {kind : SetKind} (h : (set kind members).Addressed base) {i : Nat}
    {past events : List Event} (hfinished : Finished config members i past)
    (hsub : past.filter (Event.isBelow base) ⊆ events) : Finished config members i events := by
  obtain ⟨member, hget, hends, hall⟩ := hfinished
  refine ⟨member, hget, hends, fun e he => ?_⟩
  have hcall : ∃ own, e.path? = some own := by
    cases e with
    | started label => exact ⟨_, rfl⟩
    | resumed label => exact ⟨_, rfl⟩
    | escaped cause =>
      exact absurd rfl (Trace.not_escaped_inOrder (Trace.not_escapes_of_finishes hends) _ he cause)
  obtain ⟨own, hown⟩ := hcall
  have hwithin := h.within (List.mem_of_getElem? hget) he hown
  exact hsub (List.mem_filter.2 ⟨hall he, Event.isBelow_iff.2 ⟨_, own, hown, hwithin⟩⟩)

/-- At every point of the events, the set has come to where its members are in their window.  It has
come there by its own steps from when it was started, which show nothing of it that is not seen, and
the members have started of which something is seen. -/
def Throughout (config : Config) (base : Path) (limit : Nat) (members : List (Place × Outline))
    (events : List Event) : Prop :=
  ∃ start, ∀ before after, events = before ++ after → ∃ past crew,
    Crew.Steps limit (.start limit start (tasks config members)) past crew ∧
      past.filter (Event.isBelow base) <+: before.filter (Event.isBelow base) ∧
      (∀ i, Started base members before i → i < crew.next) ∧
      InWindow config limit members before crew

theorem throughout_of_share {kind : SetKind} (horderly : (set kind members).Orderly)
    (h : (set kind members).Addressed base) {limit start : Nat} (hlimit : 0 < limit)
    {events : List Event}
    (hshare : events.filter (Event.isBelow base) <+:
      ((Trace.members limit (memberTraces config members)).course start).events.filter
        (Event.isBelow base)) :
    Throughout config base limit members events := by
  refine ⟨start, fun before after hevents => ?_⟩
  rw [Trace.course] at hshare
  obtain ⟨last, hsteps, -⟩ := Crew.course_steps limit start (tasks config members)
  have hown : Crew.Manned (fun i c => ∀ e ∈ c.events, Owns base members i e)
      (.start limit start (tasks config members)) := by
    refine .start (fun i first hfirst now e he => ?_) limit start
    obtain ⟨member, hget, rfl⟩ := exists_member hfirst
    exact ⟨member, hget, fun own hown =>
      h.within (List.mem_of_getElem? hget) (Trace.events_subset_inOrder _ now he) hown⟩
  have hseen : before.filter (Event.isBelow base) <+: events.filter (Event.isBelow base) := by
    rw [hevents, List.filter_append]
    exact List.prefix_append _ _
  obtain ⟨past, crew, hpast, hprefix, hplaces⟩ :=
    hsteps.exists_at (.start limit start _) hown (hseen.trans hshare)
  refine ⟨past, crew, hpast, hprefix, ?_, (inWindow_of_steps hlimit hpast).of_finished ?_⟩
  · rintro i ⟨member, hget, e, he, own, hown, hwithin⟩
    have hbelow : e.isBelow base = true := Event.isBelow_iff.2 ⟨_, own, hown, hwithin⟩
    obtain ⟨place, hplace, other, hother, howns⟩ := hplaces e (List.mem_filter.2 ⟨he, hbelow⟩)
    rw [horderly.place_unique hget hother (segment_unique hwithin (howns own hown))]
    exact hplace
  · exact fun i hfinished => hfinished.of_filter h
      (List.Subset.trans hprefix.subset (List.filter_subset_self before))

/-- Events of which those of a set keep its window throughout.  When something is seen of a member,
those outside the window have finished, and nothing more is seen of them; so at no time have more
members started and not finished than the limit says. -/
structure KeepsWindow (config : Config) (base : Path) (limit : Nat)
    (members : List (Place × Outline)) (events : List Event) : Prop where
  throughout : Throughout config base limit members events
  behind : ∀ before e after, events = before ++ e :: after → ∀ i, Started base members [e] i →
    ∀ j, j + limit ≤ i →
      Finished config members j before ∧ ¬ Started base members (e :: after) j
  few : ∀ before after, events = before ++ after → ∀ places : List Nat, places.Nodup →
    (∀ i ∈ places, Started base members before i ∧ ¬ Finished config members i before) →
      places.length ≤ limit

theorem keepsWindow_of_throughout {kind : SetKind} (h : (set kind members).Addressed base)
    (horderly : (set kind members).Orderly) {limit : Nat} (hlimit : 0 < limit)
    {events : List Event} (hthroughout : Throughout config base limit members events)
    (hdistinct : events.Pairwise Event.Distinct)
    (hof : ∀ member ∈ members, ∀ e ∈ events, e.Within (base ++ [member.1.segment]) →
      e ∈ (memberTrace config member).inOrder) : KeepsWindow config base limit members events := by
  obtain ⟨start, hpoints⟩ := hthroughout
  constructor
  case throughout => exact ⟨start, hpoints⟩
  case behind =>
    intro before e after hevents i hi j hj
    obtain ⟨past, crew, -, -, hstarted, hwindow⟩ :=
      hpoints (before ++ [e]) after (by rw [hevents, List.append_assoc]; rfl)
    obtain ⟨member, hget, f, hf, hwithin⟩ := hi
    obtain rfl := List.mem_singleton.1 hf
    have hin : i < crew.next :=
      hstarted i ⟨member, hget, f, List.mem_append_right _ hf, hwithin⟩
    obtain ⟨other, hother, hends, hall⟩ := (hwindow.behind i hin j hj).1
    -- the event is of the later member, so the earlier one has finished before it
    have hbefore : (memberTrace config other).inOrder ⊆ before := by
      intro g hg
      rcases List.mem_append.1 (hall hg) with hg' | hg'
      · exact hg'
      · obtain rfl := List.mem_singleton.1 hg'
        obtain ⟨own, hown, hprefix⟩ := hwithin
        have hplace := horderly.place_unique hother hget
          (segment_unique (h.within (List.mem_of_getElem? hother) hg hown) hprefix)
        omega
    refine ⟨⟨other, hother, hends, hbefore⟩, ?_⟩
    rintro ⟨again, hagain, g, hg, hlater⟩
    rw [hother] at hagain
    obtain rfl := Option.some.inj hagain
    have hmem : g ∈ events := hevents ▸ List.mem_append_right _ hg
    have hearlier := hbefore (hof other (List.mem_of_getElem? hother) g hmem hlater)
    rw [hevents] at hdistinct
    obtain ⟨own, hown, -⟩ := hlater
    exact (List.pairwise_append.1 hdistinct).2.2 g hearlier g hg own hown rfl
  case few =>
    intro before after hevents places hnodup hopen
    obtain ⟨past, crew, -, -, hstarted, hwindow⟩ := hpoints before after hevents
    have hrunning : places ⊆ crew.running.map Prod.fst := fun i hi =>
      (hwindow.running i (hstarted i (hopen i hi).1)).resolve_left (hopen i hi).2
    have hlength := (hnodup.subperm hrunning).length_le
    rw [List.length_map] at hlength
    exact Nat.le_trans hlength hwindow.few

/-! ## Sets that come to their ends -/

/-- Where nothing escapes and no call hangs, every member comes to its end, and what it does is done
by the whole. -/
theorem finished_of_at {o : Outline} (hesc : o.escapes = false)
    (hh : o.hangs config.fieldTimeout = false) {path : Path} {place : Place} {inner : Outline}
    (hat : o.At path place inner) :
    (memberTrace config (place, inner)).finishes = true ∧
      (memberTrace config (place, inner)).inOrder ⊆ (o.trace config).inOrder := by
  induction hat with
  | @member kind members place inner hm =>
    obtain ⟨hplace, hbelow⟩ := anyHangs_eq_false.1 hh _ hm
    have hinner := anyEscapes_eq_false.1 hesc _ hm
    have hends := allFinish_memberTraces config [(place, inner)]
    rw [memberTraces, Trace.allFinish, anyEscapes, anyHangs, hplace, hbelow, hinner] at hends
    exact ⟨(Bool.and_eq_true _ _ ▸ hends).1, fun e he => mem_inOrder_members.2 ⟨_, hm, he⟩⟩
  | deeper hm _ ih =>
    obtain ⟨hplace, hbelow⟩ := anyHangs_eq_false.1 hh _ hm
    obtain ⟨hends, hsub⟩ := ih (anyEscapes_eq_false.1 hesc _ hm) hbelow
    refine ⟨hends, fun e he => mem_inOrder_members.2 ⟨_, hm, ?_⟩⟩
    exact (inOrder_member hplace).2 (hsub he)

end Outline

end TypedQuery
