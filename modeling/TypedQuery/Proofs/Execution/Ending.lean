import TypedQuery.Proofs.Execution.Steps
/-!
Which traces come to their end, and what is seen of them.  Neither depends on how many members of a
set run at a time, but for the order of events; one member at a time gives the depth-first order.
-/

namespace TypedQuery
namespace Course

/-- The task comes to its end, and all that it does is among the events. -/
def DoneIn (events : List Event) (c : Course) : Prop := c.ends = true ∧ c.events ⊆ events

theorem DoneIn.mono {events more : List Event} {c : Course} (h : c.DoneIn events)
    (hsub : events ⊆ more) : c.DoneIn more :=
  ⟨h.1, List.Subset.trans h.2 hsub⟩

/-- The task does what is given, from its beginning on, and all of it when it comes to its end. -/
def Along (full : List Event) (c : Course) : Prop :=
  c.events <+: full ∧ (c.ends = true → c.events = full)

namespace Along

variable {full : List Event} {c left : Course}

theorem of_rest_none (h : c.Along full) (hlast : c.rest? = none) : c.first = full := by
  obtain ⟨hends, hevents⟩ := Course.of_rest_none hlast
  exact hevents ▸ h.2 hends

theorem of_rest_some (h : c.Along full) (hleft : c.rest? = some left) :
    ∃ later, full = c.first ++ later ∧ left.Along later := by
  obtain ⟨hends, hevents⟩ := Course.of_rest_some hleft
  obtain ⟨⟨more, hfull⟩, hall⟩ := h
  rw [hevents] at hall hfull
  refine ⟨left.events ++ more, by rw [← hfull, List.append_assoc], ⟨more, rfl⟩, fun he => ?_⟩
  have hsame := hall (hends.trans he)
  rw [← hfull] at hsame
  exact List.append_cancel_left (hsame.trans (List.append_assoc _ _ _))

theorem after {earlier : List Event} {set : List Nat} (h : c.Along full) :
    (c.after earlier set).Along (earlier ++ full) := by
  unfold Along
  rw [events_after, ends_after]
  exact ⟨(List.prefix_append_right_inj earlier).2 h.1, fun he => congrArg (earlier ++ ·) (h.2 he)⟩

theorem wait {now ms : Nat} {events : List Event} (h : c.Along full) :
    (wait now ms events c).Along (events ++ full) := by
  unfold Along
  rw [events_wait, ends_wait]
  exact ⟨(List.prefix_append_right_inj events).2 h.1, fun he => congrArg (events ++ ·) (h.2 he)⟩

end Along

end Course

namespace Crew

/-- A crew that comes to its end does all that its members do, which come to their ends. -/
theorem doneIn_of_course_ends {limit now : Nat} {members : List (Nat → Course)} (hlimit : 0 < limit)
    (h : (course limit now members).ends = true) :
    ∀ first ∈ members, ∃ now', (first now').DoneIn (course limit now members).events := by
  let Done (i : Nat) (events : List Event) : Prop :=
    ∀ first, members[i]? = some first → ∃ now', (first now').DoneIn events
  have hmono : ∀ i past more, past ⊆ more → Done i past → Done i more := by
    intro i past more hsub hdone first hget
    obtain ⟨now', hfirst⟩ := hdone first hget
    exact ⟨now', hfirst.mono hsub⟩
  have hleft : ∀ i first, members[i]? = some first → ∀ now, LeftOf Done [] i (first now) := by
    intro i first hget now' hends later _ hsub other hother
    rw [hget] at hother
    obtain rfl := Option.some.inj hother
    exact ⟨now', hends, hsub⟩
  intro first hm
  obtain ⟨i, hget⟩ := List.mem_iff_getElem?.1 hm
  exact done_of_course_ends hmono hlimit hleft h i (List.getElem?_eq_some_iff.1 hget).1 first hget

/-- A crew does what its members do, and nothing else. -/
theorem course_events {P : Event → Prop} {limit now : Nat} {members : List (Nat → Course)}
    (h : ∀ start ∈ members, ∀ now, ∀ e ∈ (start now).events, P e) :
    ∀ e ∈ (course limit now members).events, P e := by
  have hall : Preceded (fun _ => P) [] (course limit now members).events :=
    course_preceded (fun _ _ _ _ he => he)
      (fun start hs now => Preceded.forall_iff.2 (h start hs now)) limit now
  exact Preceded.forall_iff.1 hall

/-! ## One member at a time -/

theorem enlist_alone (crew : Crew) (now : Nat) (h : crew.running = []) :
    (crew.waiting = [] ∧ (enlist 1 now crew).running = []) ∨
      ∃ start rest, crew.waiting = start :: rest ∧
        (enlist 1 now crew).running = [(crew.next, start now)] ∧
        (enlist 1 now crew).waiting = rest := by
  have hcount : ((crew.running.head?.map Prod.fst).getD crew.next) + 1 - crew.next = 1 := by
    rw [h]
    show crew.next + 1 - crew.next = 1
    omega
  cases hw : crew.waiting with
  | nil => exact .inl ⟨rfl, by simp [enlist, h, hw]⟩
  | cons start rest =>
    refine .inr ⟨start, rest, rfl, ?_, ?_⟩
    · show crew.running ++ fresh 1 now crew = _
      rw [fresh, hcount, hw, h]
      rfl
    · show crew.waiting.drop _ = _
      rw [hcount, hw]
      rfl

theorem put_alone {place : Nat} {course : Course} (left : Course) {m : Nat × Course}
    (hl : [m].lookup place = some course) :
    m.2 = course ∧ put place left [m] = [(place, left)] ∧ drop place [m] = [] := by
  obtain ⟨p, c⟩ := m
  rw [List.lookup_cons] at hl
  by_cases hp : place = p
  · subst hp
    simp only [BEq.rfl, Option.some.injEq] at hl
    exact ⟨hl, by simp [put], by simp [drop]⟩
  · have hb : (place == p) = false := by simp [hp]
    rw [hb] at hl
    cases hl

/-- Members run one at a time, each along what is given for it: what is left of the one that runs
and those behind it make up the whole, after the past. -/
def Serial (whole past : List Event) (crew : Crew) : Prop :=
  ∃ rest behind, past ++ (rest ++ behind.flatten) = whole ∧
    List.Forall₂ (fun start full => ∀ now, (start now).Along full) crew.waiting behind ∧
    (crew.running = [] ∧ rest = [] ∧ crew.waiting = [] ∨
      ∃ m, crew.running = [m] ∧ m.2.Along rest)

/-- When none runs, the next one starts. -/
theorem Serial.enlist {whole past : List Event} {crew : Crew} (now : Nat)
    {behind : List (List Event)} (hnone : crew.running = []) (hwhole : past ++ behind.flatten = whole)
    (hwaiting :
      List.Forall₂ (fun start full => ∀ now, (start now).Along full) crew.waiting behind) :
    Serial whole past (enlist 1 now crew) := by
  rcases enlist_alone crew now hnone with ⟨hnil, hrunning⟩ | ⟨start, rest, hcons, hrunning, hrest⟩
  · rw [hnil] at hwaiting
    cases hwaiting
    have hleft : (Crew.enlist 1 now crew).waiting = [] := by
      show crew.waiting.drop _ = []
      rw [hnil, List.drop_nil]
    exact ⟨[], [], hwhole, by rw [hleft]; exact .nil, .inl ⟨hrunning, rfl, hleft⟩⟩
  · rw [hcons] at hwaiting
    cases hwaiting with
    | cons hfirst hothers => exact ⟨_, _, hwhole, hrest ▸ hothers, .inr ⟨_, hrunning, hfirst now⟩⟩

theorem Serial.step {whole past events : List Event} {crew next : Crew}
    (h : Serial whole past crew) (hstep : Step 1 crew events next) :
    Serial whole (past ++ events) next := by
  obtain ⟨rest, behind, hwhole, hwaiting, hrunning⟩ := h
  have hone {place : Nat} {course : Course} (hl : crew.running.lookup place = some course) :
      ∃ m, crew.running = [m] ∧ m.2.Along rest := by
    refine hrunning.resolve_left fun ⟨hnil, _⟩ => ?_
    rw [hnil] at hl
    cases hl
  cases hstep with
  | ring =>
    rw [List.append_nil]
    exact ⟨rest, behind, hwhole, hwaiting, hrunning⟩
  | skip =>
    rw [List.append_nil]
    exact ⟨rest, behind, hwhole, hwaiting, hrunning⟩
  | @finish place _ course now _ hl hlast =>
    obtain ⟨m, hm, halong⟩ := hone hl
    rw [hm] at hl
    obtain ⟨hcourse, -, hdrop⟩ := put_alone course hl
    rw [hcourse] at halong
    refine @Serial.enlist _ _ (crew.dismiss place) now _ ?_ ?_ hwaiting
    · show drop place crew.running = []
      rw [hm]
      exact hdrop
    · rw [halong.of_rest_none hlast, List.append_assoc]
      exact hwhole
  | @pass place _ course left _ hl hleft =>
    obtain ⟨m, hm, halong⟩ := hone hl
    rw [hm] at hl
    obtain ⟨hcourse, hput, -⟩ := put_alone left hl
    rw [hcourse] at halong
    obtain ⟨later, hrest, hlater⟩ := halong.of_rest_some hleft
    refine ⟨later, behind, ?_, hwaiting, .inr ⟨(place, left), ?_, hlater⟩⟩
    · rw [← hwhole, hrest, List.append_assoc, List.append_assoc]
    · show put place left crew.running = _
      rw [hm]
      exact hput

/-- While one member runs at a time, each does what it does before those behind it start. -/
theorem course_along {now : Nat} {members : List (Nat → Course)} {behind : List (List Event)}
    (h : List.Forall₂ (fun start full => ∀ now, (start now).Along full) members behind) :
    (course 1 now members).Along behind.flatten := by
  obtain ⟨last, hsteps, hover⟩ := course_steps 1 now members
  have hstart : Serial behind.flatten [] (start 1 now members) :=
    @Serial.enlist _ _ (unmanned members) now _ rfl rfl h
  obtain ⟨rest, more, hwhole, hwaiting, hrunning⟩ :=
    hsteps.keep (fun _ _ _ _ hkeeps => Serial.step hkeeps) hstart
  refine ⟨⟨_, hwhole⟩, fun hends => ?_⟩
  obtain ⟨-, rfl, hnil⟩ := hrunning.resolve_right fun ⟨m, hm, _⟩ => by
    rw [hover hends] at hm
    cases hm
  rw [hnil] at hwaiting
  cases hwaiting
  rw [← hwhole]
  exact (List.append_nil _).symm

end Crew

/-! ## Traces -/

namespace Trace

mutual

/-- Every part comes to its end. -/
def finishes : Trace → Bool
  | idle => true
  | escape _ => false
  | call _ pause next => pause != .forever && next.finishes
  | members _ traces => allFinish traces

def allFinish : List Trace → Bool
  | [] => true
  | trace :: rest => trace.finishes && allFinish rest

end

mutual

/-- Some part ends the execution from within. -/
def escapes : Trace → Bool
  | idle => false
  | escape _ => true
  | call _ _ next => next.escapes
  | members _ traces => anyEscapes traces

def anyEscapes : List Trace → Bool
  | [] => false
  | trace :: rest => trace.escapes || anyEscapes rest

end

mutual

/-- The limits of all sets are as they should be. -/
def limited (P : Nat → Prop) : Trace → Prop
  | idle => True
  | escape _ => True
  | call _ _ next => next.limited P
  | members limit traces => P limit ∧ allLimited P traces

def allLimited (P : Nat → Prop) : List Trace → Prop
  | [] => True
  | trace :: rest => trace.limited P ∧ allLimited P rest

end

mutual

/-- What is seen of a trace when its members run one after another. -/
def inOrder : Trace → List Event
  | idle => []
  | escape cause => [.escaped cause]
  | call label pause next =>
    match pause with
    | .none => .started label :: next.inOrder
    | .sleep _ => .started label :: .resumed label :: next.inOrder
    | .cut _ => .started label :: next.inOrder
    | .forever => [.started label]
  | members _ traces => allInOrder traces

def allInOrder : List Trace → List Event
  | [] => []
  | trace :: rest => trace.inOrder ++ allInOrder rest

end

mutual

/-- No part waits for ever, and what ends the execution from within is as given. -/
def moves (halts : Event → Prop) : Trace → Prop
  | idle => True
  | escape cause => halts (.escaped cause)
  | call _ pause next => pause ≠ .forever ∧ next.moves halts
  | members _ traces => allMove halts traces

def allMove (halts : Event → Prop) : List Trace → Prop
  | [] => True
  | trace :: rest => trace.moves halts ∧ allMove halts rest

end

section Moves

variable {halts : Event → Prop}

mutual

theorem moves_of_finishes : ∀ {trace : Trace}, trace.finishes = true → trace.moves halts
  | idle, _ => trivial
  | escape _, h => by cases h
  | call _ pause _, h => by
    rw [finishes, Bool.and_eq_true, bne_iff_ne] at h
    exact ⟨h.1, moves_of_finishes h.2⟩
  | members _ _, h => allMove_of_allFinish h

theorem allMove_of_allFinish : ∀ {traces : List Trace}, allFinish traces = true →
    allMove halts traces
  | [], _ => trivial
  | trace :: rest, h => by
    rw [allFinish, Bool.and_eq_true] at h
    exact ⟨moves_of_finishes h.1, allMove_of_allFinish h.2⟩

end

mutual

theorem course_runs : ∀ {trace : Trace}, trace.moves halts → ∀ now,
    (trace.course now).Runs halts []
  | idle, _, _ => trivial
  | escape _, h, _ => ⟨_, List.mem_cons_self, h⟩
  | call label pause next, h, now => by
    cases pause with
    | none =>
      show ((next.course now).after _ _).Runs halts []
      rw [Course.runs_after]
      exact .inr (course_runs h.2 now)
    | sleep ms =>
      refine Course.runs_wait ?_
      rw [Course.runs_after]
      exact .inr (course_runs h.2 (now + ms))
    | cut ms => exact Course.runs_wait (course_runs h.2 (now + ms))
    | forever => exact absurd rfl h.1
  | members limit traces, h, now => by
    rw [course]
    exact Crew.course_runs (courses_run h)

theorem courses_run : ∀ {traces : List Trace}, allMove halts traces →
    ∀ start ∈ courses traces, ∀ now, (start now).Runs halts []
  | [], _, _, hs => by cases hs
  | trace :: rest, h, start, hs => by
    rcases List.mem_cons.1 hs with rfl | hs
    · exact course_runs h.1
    · exact courses_run h.2 start hs

end

end Moves

mutual

theorem finishes_of_ends : ∀ {trace : Trace}, trace.limited (0 < ·) → ∀ {now : Nat},
    (trace.course now).ends = true → trace.finishes = true
  | idle, _, _, _ => rfl
  | escape _, _, _, h => by cases h
  | call label pause next, hl, now, h => by
    rw [finishes, Bool.and_eq_true]
    cases pause with
    | none => exact ⟨rfl, finishes_of_ends hl (by simpa [course] using h)⟩
    | sleep ms => exact ⟨rfl, finishes_of_ends hl (by simpa [course] using h)⟩
    | cut ms => exact ⟨rfl, finishes_of_ends hl (by simpa [course] using h)⟩
    | forever => cases h
  | members limit traces, hl, now, h => by
    rw [course] at h
    refine allFinish_of_end hl.2 fun start hs => ?_
    obtain ⟨later, hends, -⟩ := Crew.doneIn_of_course_ends hl.1 h start hs
    exact ⟨later, hends⟩

theorem allFinish_of_end : ∀ {traces : List Trace}, allLimited (0 < ·) traces →
    (∀ start ∈ courses traces, ∃ now, (start now).ends = true) → allFinish traces = true
  | [], _, _ => rfl
  | trace :: rest, hl, h => by
    obtain ⟨now, hn⟩ := h _ List.mem_cons_self
    rw [allFinish, finishes_of_ends hl.1 hn, Bool.true_and]
    exact allFinish_of_end hl.2 fun start hs => h start (List.mem_cons_of_mem _ hs)

end

/-- Whether a trace comes to its end is up to its parts alone. -/
theorem course_ends {trace : Trace} (hl : trace.limited (0 < ·)) (now : Nat) :
    (trace.course now).ends = trace.finishes := by
  rw [Bool.eq_iff_iff]
  refine ⟨finishes_of_ends hl, fun h => ?_⟩
  have hruns := course_runs (@moves_of_finishes (fun _ => False) trace h) now
  exact (Course.ends_of_runs hruns).resolve_right fun ⟨_, _, hhalts⟩ => hhalts

theorem allInOrder_eq_flatMap (traces : List Trace) :
    allInOrder traces = traces.flatMap inOrder := by
  induction traces with
  | nil => rfl
  | cons trace rest ih => rw [allInOrder, ih, List.flatMap_cons]

theorem allFinish_eq_all (traces : List Trace) : allFinish traces = traces.all finishes := by
  induction traces with
  | nil => rfl
  | cons trace rest ih => rw [allFinish, ih, List.all_cons]

theorem courses_eq_map (traces : List Trace) :
    courses traces = traces.map fun trace now => trace.course now := by
  induction traces with
  | nil => rfl
  | cons trace rest ih => rw [courses, ih, List.map_cons]

mutual

/-- Whatever is seen of a trace is seen when its members run one after another. -/
theorem events_subset_inOrder : ∀ (trace : Trace) (now : Nat),
    (trace.course now).events ⊆ trace.inOrder
  | idle, _ => List.Subset.refl _
  | escape _, _ => List.Subset.refl _
  | call label pause next, now => by
    cases pause with
    | none =>
      rw [course, Course.events_after]
      exact List.cons_subset_cons _ (events_subset_inOrder next now)
    | sleep ms =>
      rw [course, Course.events_wait, Course.events_after]
      exact List.cons_subset_cons _ (List.cons_subset_cons _ (events_subset_inOrder next _))
    | cut ms =>
      rw [course, Course.events_wait]
      exact List.cons_subset_cons _ (events_subset_inOrder next _)
    | forever => exact List.Subset.refl _
  | members limit traces, now => by
    intro e he
    rw [course] at he
    exact Crew.course_events (P := (· ∈ allInOrder traces))
      (fun start hs now e he => events_subset_allInOrder traces start hs now he) e he

theorem events_subset_allInOrder : ∀ traces : List Trace, ∀ start ∈ courses traces, ∀ now,
    (start now).events ⊆ allInOrder traces
  | [], _, hs, _ => by cases hs
  | trace :: rest, start, hs, now => by
    rw [allInOrder]
    rcases List.mem_cons.1 hs with rfl | hs
    · exact List.Subset.trans (events_subset_inOrder trace now) (List.subset_append_left _ _)
    · exact List.Subset.trans (events_subset_allInOrder rest start hs now)
        (List.subset_append_right _ _)

end

mutual

/-- All that is seen when members run one after another is seen of a trace that comes to its end. -/
theorem inOrder_subset_events : ∀ {trace : Trace}, trace.limited (0 < ·) → ∀ {now : Nat},
    (trace.course now).ends = true → trace.inOrder ⊆ (trace.course now).events
  | idle, _, _, _ => List.Subset.refl _
  | escape _, _, _, _ => List.Subset.refl _
  | call label pause next, hl, now, h => by
    have hnext {later : Nat} (h : (next.course later).ends = true) :
        next.inOrder ⊆ (next.course later).events :=
      inOrder_subset_events (show next.limited (0 < ·) from hl) h
    cases pause with
    | none =>
      rw [course, Course.events_after]
      exact List.cons_subset_cons _ (hnext (by simpa [course] using h))
    | sleep ms =>
      rw [course, Course.events_wait, Course.events_after]
      exact List.cons_subset_cons _ (List.cons_subset_cons _
        (hnext (by simpa [course] using h)))
    | cut ms =>
      rw [course, Course.events_wait]
      exact List.cons_subset_cons _ (hnext (by simpa [course] using h))
    | forever => exact List.Subset.refl _
  | members limit traces, hl, now, h => by
    rw [course] at h ⊢
    exact allInOrder_subset hl.2 (Crew.doneIn_of_course_ends hl.1 h)

theorem allInOrder_subset : ∀ {traces : List Trace}, allLimited (0 < ·) traces →
    ∀ {events : List Event}, (∀ start ∈ courses traces, ∃ now, (start now).DoneIn events) →
      allInOrder traces ⊆ events
  | [], _, _, _ => List.nil_subset _
  | trace :: rest, hl, events, h => by
    obtain ⟨now, hends, hsub⟩ := h _ List.mem_cons_self
    rw [allInOrder]
    exact List.append_subset.2 ⟨List.Subset.trans (inOrder_subset_events hl.1 hends) hsub,
      allInOrder_subset hl.2 fun start hs => h start (List.mem_cons_of_mem _ hs)⟩

end

mutual

theorem not_escaped_inOrder : ∀ {trace : Trace}, trace.escapes = false →
    ∀ e ∈ trace.inOrder, ∀ cause, e ≠ .escaped cause
  | idle, _, _, he, _ => by cases he
  | escape _, h, _, _, _ => by cases h
  | call label pause next, h, e, he, cause => by
    have hnext := not_escaped_inOrder (show next.escapes = false from h) e
    cases pause with
    | none =>
      rcases List.mem_cons.1 he with rfl | he
      · exact Event.noConfusion
      · exact hnext he cause
    | sleep ms =>
      rcases List.mem_cons.1 he with rfl | he
      · exact Event.noConfusion
      · rcases List.mem_cons.1 he with rfl | he
        · exact Event.noConfusion
        · exact hnext he cause
    | cut ms =>
      rcases List.mem_cons.1 he with rfl | he
      · exact Event.noConfusion
      · exact hnext he cause
    | forever =>
      obtain rfl := List.mem_singleton.1 he
      exact Event.noConfusion
  | members _ _, h, e, he, cause => not_escaped_allInOrder h e he cause

theorem not_escaped_allInOrder : ∀ {traces : List Trace}, anyEscapes traces = false →
    ∀ e ∈ allInOrder traces, ∀ cause, e ≠ .escaped cause
  | [], _, _, he, _ => by cases he
  | trace :: rest, h, e, he, cause => by
    rw [anyEscapes, Bool.or_eq_false_iff] at h
    rcases List.mem_append.1 he with he | he
    · exact not_escaped_inOrder h.1 e he cause
    · exact not_escaped_allInOrder h.2 e he cause

end

mutual

/-- What comes to its end is not ended from within. -/
theorem not_escapes_of_finishes : ∀ {trace : Trace}, trace.finishes = true → trace.escapes = false
  | idle, _ => rfl
  | escape _, h => by cases h
  | call _ _ next, h => by
    rw [finishes, Bool.and_eq_true] at h
    have hnext : next.escapes = false := not_escapes_of_finishes h.2
    exact hnext
  | members _ _, h => not_anyEscapes_of_allFinish h

theorem not_anyEscapes_of_allFinish : ∀ {traces : List Trace}, allFinish traces = true →
    anyEscapes traces = false
  | [], _ => rfl
  | trace :: rest, h => by
    rw [allFinish, Bool.and_eq_true] at h
    rw [anyEscapes, not_escapes_of_finishes h.1, not_anyEscapes_of_allFinish h.2]
    rfl

end

/-- A trace in which nothing escapes is not seen to escape. -/
theorem not_escaped_of_mem {trace : Trace} (h : trace.escapes = false) {now : Nat} :
    ∀ e ∈ (trace.course now).events, ∀ cause, e ≠ .escaped cause :=
  fun e he => not_escaped_inOrder h e (events_subset_inOrder trace now he)

mutual

/-- One member at a time gives the depth-first order, as far as the trace goes on. -/
theorem along_course : ∀ {trace : Trace}, trace.limited (· = 1) → ∀ now,
    (trace.course now).Along trace.inOrder
  | idle, _, _ => ⟨List.prefix_refl _, fun _ => rfl⟩
  | escape _, _, _ => ⟨List.prefix_refl _, fun _ => rfl⟩
  | call label pause next, hl, now => by
    have hnext (later : Nat) : (next.course later).Along next.inOrder :=
      along_course (show next.limited (· = 1) from hl) later
    cases pause with
    | none =>
      rw [course]
      exact (hnext now).after
    | sleep ms =>
      rw [course]
      exact (hnext (now + ms)).after.wait
    | cut ms =>
      rw [course]
      exact (hnext (now + ms)).wait
    | forever => exact ⟨List.prefix_refl _, fun _ => rfl⟩
  | members limit traces, hl, now => by
    obtain ⟨rfl, hl⟩ := hl
    rw [course, inOrder, allInOrder_eq_flatMap, List.flatMap_def]
    exact Crew.course_along (courses_along hl)

theorem courses_along : ∀ {traces : List Trace}, allLimited (· = 1) traces →
    List.Forall₂ (fun start full => ∀ now, Course.Along full (start now)) (courses traces)
      (traces.map inOrder)
  | [], _ => .nil
  | _ :: _, hl => .cons (along_course hl.1) (courses_along hl.2)

end

end Trace
end TypedQuery
