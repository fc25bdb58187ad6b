import TypedQuery.Proofs.Execution.Progress
/-!
Crews step by step.  In a step a member has its turn, after which it is over or goes on later, or a
turn is passed over, or alarms go off.  What a crew does is what it does in its steps
(`Crew.run_steps`), so what every step keeps holds all the time (`Crew.Steps.keep`).
-/

namespace TypedQuery

/-! ## Events and their past -/

/-- The property holds of every event and what came before it, the past included. -/
def Preceded (P : List Event → Event → Prop) (past : List Event) : List Event → Prop
  | [] => True
  | e :: rest => P past e ∧ Preceded P (past ++ [e]) rest

namespace Preceded

variable {P : List Event → Event → Prop} {past first later : List Event}

theorem append_iff :
    Preceded P past (first ++ later) ↔ Preceded P past first ∧ Preceded P (past ++ first) later := by
  induction first generalizing past with
  | nil =>
    rw [List.nil_append, List.append_nil]
    exact ⟨fun h => ⟨trivial, h⟩, And.right⟩
  | cons e rest ih =>
    show P past e ∧ Preceded P (past ++ [e]) (rest ++ later) ↔ (P past e ∧ _) ∧ _
    rw [ih, and_assoc, List.append_assoc, List.singleton_append]

theorem forall_iff {Q : Event → Prop} {events : List Event} :
    Preceded (fun _ => Q) past events ↔ ∀ e ∈ events, Q e := by
  induction events generalizing past with
  | nil => exact ⟨fun _ _ he => (by cases he), fun _ => trivial⟩
  | cons e rest ih =>
    rw [List.forall_mem_cons, ← @ih (past ++ [e])]
    rfl

theorem pairwise_iff {R : Event → Event → Prop} {events : List Event} :
    Preceded (fun past f => ∀ e ∈ past, R e f) past events ↔
      (∀ e ∈ past, ∀ f ∈ events, R e f) ∧ events.Pairwise R := by
  induction events generalizing past with
  | nil => exact ⟨fun _ => ⟨fun _ _ _ hf => (by cases hf), .nil⟩, fun _ => trivial⟩
  | cons f rest ih =>
    show (∀ e ∈ past, R e f) ∧ Preceded _ (past ++ [f]) rest ↔ _
    simp only [ih, List.pairwise_cons, List.forall_mem_append, List.forall_mem_cons, forall_and,
      and_assoc, List.not_mem_nil, false_implies, implies_true, true_and]

theorem mono (hmono : ∀ past more e, past ⊆ more → P past e → P more e) {more events : List Event}
    (h : Preceded P past events) (hsub : past ⊆ more) : Preceded P more events := by
  induction events generalizing past more with
  | nil => trivial
  | cons e rest ih =>
    refine ⟨hmono past more e hsub h.1, ih h.2 fun f hf => ?_⟩
    exact (List.mem_append.1 hf).elim (fun hf => List.mem_append_left _ (hsub hf))
      (List.mem_append_right _)

end Preceded

namespace Crew

/-! ## Steps -/

/-- A step of a crew, at any time, with what is seen of it. -/
inductive Step (limit : Nat) : Crew → List Event → Crew → Prop
  | ring {crew : Crew} {time : Nat} (hready : crew.ready = [])
      (halarm : crew.nextAlarm? = some time) : Step limit crew [] (crew.ring time)
  | skip {crew : Crew} {place : Nat} {rest : List Nat} (hready : crew.ready = place :: rest)
      (hgone : crew.running.lookup place = none) : Step limit crew [] crew.skip
  | finish {crew : Crew} {place : Nat} {rest : List Nat} {course : Course} (now : Nat)
      (hready : crew.ready = place :: rest) (hl : crew.running.lookup place = some course)
      (hlast : course.rest? = none) : Step limit crew course.first (crew.finish limit now place)
  | pass {crew : Crew} {place : Nat} {rest : List Nat} {course left : Course}
      (hready : crew.ready = place :: rest) (hl : crew.running.lookup place = some course)
      (hleft : course.rest? = some left) :
      Step limit crew course.first (crew.pass place course left)

/-- Some steps, with all that is seen of them. -/
inductive Steps (limit : Nat) : Crew → List Event → Crew → Prop
  | refl (crew : Crew) : Steps limit crew [] crew
  | head {crew next last : Crew} {events later : List Event} (hstep : Step limit crew events next)
      (hrest : Steps limit next later last) : Steps limit crew (events ++ later) last

variable {limit : Nat}

section Keep

variable {Keeps : List Event → Crew → Prop}
  (hkeep : ∀ past crew events next, Keeps past crew → Step limit crew events next →
    Keeps (past ++ events) next)
  {crew last : Crew} {events : List Event} (h : Steps limit crew events last)

include hkeep h

/-- What each step keeps holds all along. -/
theorem Steps.keep {past : List Event} (hstart : Keeps past crew) : Keeps (past ++ events) last := by
  induction h generalizing past with
  | refl crew =>
    rw [List.append_nil]
    exact hstart
  | head hone _ ih =>
    rw [← List.append_assoc]
    exact ih (hkeep _ _ _ _ hstart hone)

/-- What holds of the events of each step, for what the steps keep, holds of all events. -/
theorem Steps.preceded {P : List Event → Event → Prop}
    (hevents : ∀ past crew events next, Keeps past crew → Step limit crew events next →
      Preceded P past events) {past : List Event} (hstart : Keeps past crew) :
    Preceded P past events := by
  induction h generalizing past with
  | refl crew => trivial
  | head hone _ ih =>
    exact Preceded.append_iff.2
      ⟨hevents _ _ _ _ hstart hone, ih (hkeep _ _ _ _ hstart hone)⟩

end Keep

/-- Steps of the crew show what is seen of the course, and no member is left when it ends. -/
def Follows (limit : Nat) (crew : Crew) (course : Course) : Prop :=
  ∃ last, Steps limit crew course.events last ∧ (course.ends = true → last.running = [])

theorem Follows.head {crew next : Crew} {events : List Event} {course whole : Course}
    (hstep : Step limit crew events next) (h : Follows limit next course)
    (hevents : whole.events = events ++ course.events) (hends : whole.ends = course.ends) :
    Follows limit crew whole := by
  obtain ⟨last, hsteps, hover⟩ := h
  refine ⟨last, ?_, fun he => hover (hends ▸ he)⟩
  rw [hevents]
  exact .head hstep hsteps

theorem follows_asleep {crew : Crew} (hr : crew.ready = [])
    (h : ∀ time, crew.nextAlarm? = some time →
      Follows limit (crew.ring time) ((crew.ring time).run limit time 0 0 false)) :
    Follows limit crew
      (match _ha : crew.nextAlarm? with
        | none => .stuck []
        | some time => .turn [] [] false ((crew.ring time).run limit time 0 0 false)) := by
  split
  · exact ⟨crew, .refl crew, fun h => by cases h⟩
  · rename_i time ht
    exact (h time ht).head (.ring hr ht) rfl rfl

/-- What a crew does is what it does in its steps. -/
theorem run_steps (crew : Crew) (limit now turns yields : Nat) (yielded : Bool) :
    Follows limit crew (crew.run limit now turns yields yielded) := by
  fun_induction run crew limit now turns yields yielded with
  | case1 crew now turns yields hr asleep ih => exact follows_asleep hr ih
  | case2 crew now turns yields yielded hr asleep hy ih => exact follows_asleep hr ih
  | case3 crew now turns yields yielded place rest hr hl ih => exact ih.head (.skip hr hl) rfl rfl
  | case4 crew now turns yields yielded place rest hr course hl yielded' hc after hempty =>
    have hnil : after.running = [] := by simpa using hempty
    refine ⟨after, ?_, fun _ => hnil⟩
    rw [← List.append_nil (Course.events _)]
    exact .head (.finish now hr hl hc) (.refl after)
  | case5 crew now turns yields yielded place rest hr course hl yielded' hc after hempty ih =>
    exact ih.head (.finish now hr hl hc) Course.events_after Course.ends_after
  | case6 crew now turns yields yielded place rest hr course hl left hc after yields' hturn ih =>
    exact ih.head (.pass hr hl hc) rfl rfl
  | case7 crew now turns yields yielded place rest hr course hl yielded' left hc after yields' =>
    rename_i ih
    exact ih.head (.pass hr hl hc) Course.events_after Course.ends_after

theorem course_steps (limit now : Nat) (members : List (Nat → Course)) :
    Follows limit (start limit now members) (course limit now members) := by
  rcases course_cases limit now members with ⟨hnil, e⟩ | ⟨-, e⟩
  · rw [e]
    exact ⟨_, .refl _, fun _ => hnil⟩
  · rw [e]
    exact run_steps _ limit now 0 0 false

/-! ## Members at their places -/

/-- A member that starts was waiting at its place. -/
theorem fresh_at {limit now : Nat} {crew : Crew} {m : Nat × Course}
    (h : m ∈ fresh limit now crew) :
    ∃ i start, crew.waiting[i]? = some start ∧ m = (crew.next + i, start now) := by
  obtain ⟨⟨start, place⟩, hs, rfl⟩ := List.mem_map.1 h
  obtain ⟨hle, hget⟩ := List.mk_mem_zipIdx_iff_le_and_getElem?_sub.1 hs
  refine ⟨place - crew.next, start, ?_, ?_⟩
  · rw [List.getElem?_take] at hget
    split at hget
    · exact hget
    · cases hget
  · rw [Nat.add_sub_cancel' hle]

/-- A member that goes on waiting keeps its place. -/
theorem waiting_enlist_at {limit now : Nat} {crew : Crew} {i : Nat} {start : Nat → Course}
    (h : (enlist limit now crew).waiting[i]? = some start) :
    ∃ j, crew.waiting[j]? = some start ∧ (enlist limit now crew).next + i = crew.next + j := by
  let count := (crew.running.head?.map Prod.fst).getD crew.next + limit - crew.next
  have hwaiting : (crew.waiting.drop count)[i]? = some start := h
  rw [List.getElem?_drop] at hwaiting
  have hlt : count + i < crew.waiting.length := (List.getElem?_eq_some_iff.1 hwaiting).1
  have hlength : (fresh limit now crew).length = count := by
    have htake : (fresh limit now crew).length = (crew.waiting.take count).length := by
      unfold fresh
      rw [List.length_map, List.length_zipIdx]
    rw [htake, List.length_take]
    omega
  refine ⟨count + i, hwaiting, ?_⟩
  show crew.next + (fresh limit now crew).length + i = crew.next + (count + i)
  omega

/-- Members that run have the property, each with its place, and those that wait have it whenever
they start. -/
structure Manned (Q : Nat → Course → Prop) (crew : Crew) : Prop where
  running : ∀ m ∈ crew.running, Q m.1 m.2
  waiting : ∀ i start, crew.waiting[i]? = some start → ∀ now, Q (crew.next + i) (start now)

namespace Manned

variable {Q Q' : Nat → Course → Prop} {crew : Crew}

theorem enlist (h : Manned Q crew) (limit now : Nat) : Manned Q (enlist limit now crew) := by
  constructor
  case running =>
    intro m hm
    rcases List.mem_append.1 hm with hm | hm
    · exact h.running m hm
    · obtain ⟨i, start, hget, rfl⟩ := fresh_at hm
      exact h.waiting i start hget now
  case waiting =>
    intro i start hget
    obtain ⟨j, hj, hplace⟩ := waiting_enlist_at hget
    rw [hplace]
    exact h.waiting j start hj

theorem start {members : List (Nat → Course)}
    (h : ∀ i first, members[i]? = some first → ∀ now, Q i (first now)) (limit now : Nat) :
    Manned Q (start limit now members) := by
  have hnone : Manned Q (unmanned members) := by
    refine ⟨fun _ hm => (by cases hm), fun i first hget now => ?_⟩
    rw [show (unmanned members).next + i = i from Nat.zero_add i]
    exact h i first hget now
  exact hnone.enlist limit now

/-- A step changes what is left of the member that has its turn, and nothing else about members. -/
theorem step {events : List Event} {next : Crew} (h : Manned Q crew)
    (hstep : Step limit crew events next) (hsame : ∀ place course, Q place course → Q' place course)
    (hturn : ∀ place course left, (place, course) ∈ crew.running → events = course.first →
      course.rest? = some left → Q' place left) : Manned Q' next := by
  have h' : Manned Q' crew :=
    ⟨fun m hm => hsame _ _ (h.running m hm), fun i start hget now =>
      hsame _ _ (h.waiting i start hget now)⟩
  cases hstep with
  | ring hready halarm => exact ⟨h'.running, h'.waiting⟩
  | skip hready hgone => exact ⟨h'.running, h'.waiting⟩
  | @finish place _ course now hready hl hlast =>
    have hdismiss : Manned Q' (crew.dismiss place) :=
      ⟨fun m hm => h'.running m ((drop_sublist place crew.running).subset hm), h'.waiting⟩
    exact hdismiss.enlist limit now
  | @pass place _ course left hready hl hleft =>
    refine ⟨fun m hm => ?_, h'.waiting⟩
    rcases mem_of_mem_put hm with rfl | hm
    · exact hturn place course left (mem_of_lookup hl) rfl hleft
    · exact h'.running m hm

end Manned

/-- What is seen of a step is a turn of some member. -/
theorem Step.events_eq {crew next : Crew} {events : List Event} (h : Step limit crew events next) :
    events = [] ∨ ∃ m ∈ crew.running, events = m.2.first ∧
      ∃ later, m.2.events = m.2.first ++ later := by
  cases h with
  | ring => exact .inl rfl
  | skip => exact .inl rfl
  | finish _ _ hl hlast =>
    exact .inr ⟨_, mem_of_lookup hl, rfl, [], by rw [(Course.of_rest_none hlast).2, List.append_nil]⟩
  | pass _ hl hleft => exact .inr ⟨_, mem_of_lookup hl, rfl, _, (Course.of_rest_some hleft).2⟩

/-- A member that runs after a step has not had the turn, or goes on after its turn, or has
started. -/
theorem Step.running_cases {crew next : Crew} {events : List Event}
    (h : Step limit crew events next) (hnodup : (crew.running.map Prod.fst).Nodup)
    {m : Nat × Course} (hm : m ∈ next.running) :
    (m ∈ crew.running ∧ ∀ e ∈ events, ∃ turn ∈ crew.running, m.1 ≠ turn.1 ∧ e ∈ turn.2.events) ∨
      (∃ turn ∈ crew.running, events = turn.2.first ∧ turn.2.rest? = some m.2) ∨
        crew.next ≤ m.1 := by
  cases h with
  | ring => exact .inl ⟨hm, nofun⟩
  | skip => exact .inl ⟨hm, nofun⟩
  | @finish place _ course now _ hl hlast =>
    rcases List.mem_append.1 hm with hm | hm
    · refine .inl ⟨(drop_sublist place crew.running).subset hm, fun e he => ?_⟩
      refine ⟨_, mem_of_lookup hl, ne_of_mem_drop hnodup hm, ?_⟩
      rw [(Course.of_rest_none hlast).2]
      exact he
    · have hm : m ∈ fresh limit now (crew.dismiss place) := hm
      exact .inr (.inr (fresh_place hm).1)
  | @pass place _ course left _ hl hleft =>
    rcases mem_put_of_nodup hnodup hm with rfl | ⟨hm, hne⟩
    · exact .inr (.inl ⟨_, mem_of_lookup hl, rfl, hleft⟩)
    · refine .inl ⟨hm, fun e he => ⟨_, mem_of_lookup hl, hne, ?_⟩⟩
      rw [(Course.of_rest_some hleft).2]
      exact List.mem_append_left _ he

theorem Step.next_le {crew next : Crew} {events : List Event} (h : Step limit crew events next) :
    crew.next ≤ next.next := by
  cases h with
  | ring => exact Nat.le_refl _
  | skip => exact Nat.le_refl _
  | finish => exact Nat.le_add_right _ _
  | pass => exact Nat.le_refl _

/-- What holds of the events of each member, and goes on to hold when more is past, holds of what
the crew does. -/
theorem course_preceded {P : List Event → Event → Prop}
    (hmono : ∀ past more e, past ⊆ more → P past e → P more e) {past : List Event}
    {members : List (Nat → Course)}
    (h : ∀ first ∈ members, ∀ now, Preceded P past (first now).events) (limit now : Nat) :
    Preceded P past (course limit now members).events := by
  obtain ⟨last, hsteps, -⟩ := course_steps limit now members
  have hstart : Manned (fun _ c => Preceded P past c.events) (Crew.start limit now members) :=
    .start (fun i first hget => h first (List.mem_of_getElem? hget)) limit now
  refine @Steps.preceded limit (fun past => Manned fun _ c => Preceded P past c.events)
    (fun past crew events next hkeeps hstep => hkeeps.step hstep (fun _ c hc => ?_)
      fun _ c left hc hevents hleft => ?_) _ _ _ hsteps P
    (fun past crew events next hkeeps hstep => ?_) past hstart
  · exact hc.mono hmono (List.subset_append_left _ _)
  · have hcourse := hkeeps.running _ hc
    rw [(Course.of_rest_some hleft).2, Preceded.append_iff] at hcourse
    rw [hevents]
    exact hcourse.2
  · rcases hstep.events_eq with rfl | ⟨m, hm, rfl, later, hlater⟩
    · trivial
    · have hcourse := hkeeps.running m hm
      rw [hlater, Preceded.append_iff] at hcourse
      exact hcourse.1

/-! ## Members that are over -/

/-- What is left of the member at a place.  When it comes to its end and all has happened, the
member is done. -/
def LeftOf (Done : Nat → List Event → Prop) (past : List Event) (place : Nat) (c : Course) : Prop :=
  c.ends = true → ∀ later, past ⊆ later → c.events ⊆ later → Done place later

theorem LeftOf.rest {Done : Nat → List Event → Prop} {past : List Event} {place : Nat}
    {c left : Course} (h : LeftOf Done past place c) (hleft : c.rest? = some left) :
    LeftOf Done (past ++ c.first) place left := by
  obtain ⟨hends, hevents⟩ := Course.of_rest_some hleft
  intro he later hpast hsub
  rw [List.append_subset] at hpast
  refine h (hends.trans he) later hpast.1 ?_
  rw [hevents]
  exact List.append_subset.2 ⟨hpast.2, hsub⟩

/-- All members are accounted for: those that have started run, or are done. -/
structure Accounted (limit : Nat) (Done : Nat → List Event → Prop) (total : Nat)
    (past : List Event) (crew : Crew) : Prop extends Manned (LeftOf Done past) crew where
  settled : ∀ i < crew.next, i ∉ crew.running.map Prod.fst → Done i past
  total : crew.next + crew.waiting.length = total
  busy : 0 < limit → crew.running = [] → crew.waiting = []

theorem busy_enlist (crew : Crew) (now : Nat) (hlimit : 0 < limit)
    (h : (enlist limit now crew).running = []) : (enlist limit now crew).waiting = [] := by
  have h : crew.running ++ fresh limit now crew = [] := h
  rw [List.append_eq_nil_iff, fresh, List.map_eq_nil_iff, List.zipIdx_eq_nil_iff,
    List.take_eq_nil_iff] at h
  obtain ⟨hr, hw⟩ := h
  rw [hr] at hw
  have hwaiting : crew.waiting = [] := by
    refine hw.resolve_left ?_
    show ¬ crew.next + limit - crew.next = 0
    omega
  show crew.waiting.drop _ = []
  rw [hwaiting, List.drop_nil]

theorem total_enlist (limit now : Nat) (crew : Crew) :
    (enlist limit now crew).next + (enlist limit now crew).waiting.length =
      crew.next + crew.waiting.length := by
  let count := (crew.running.head?.map Prod.fst).getD crew.next + limit - crew.next
  have hfresh : (fresh limit now crew).length = (crew.waiting.take count).length := by
    unfold fresh
    rw [List.length_map, List.length_zipIdx]
  show crew.next + (fresh limit now crew).length + (crew.waiting.drop count).length = _
  rw [hfresh, List.length_take, List.length_drop]
  omega

theorem Accounted.start {Done : Nat → List Event → Prop} {limit now : Nat}
    {members : List (Nat → Course)}
    (h : ∀ i first, members[i]? = some first → ∀ now, LeftOf Done [] i (first now)) :
    Accounted limit Done members.length [] (start limit now members) := by
  refine ⟨.start h limit now, fun i hi hnot => ?_, ?_, busy_enlist (unmanned members) now⟩
  · have hnot : i ∉ (fresh limit now (unmanned members)).map Prod.fst := hnot
    rw [map_fst_fresh, List.mem_range'_1] at hnot
    have hi : i < 0 + (fresh limit now (unmanned members)).length := hi
    exact absurd ⟨Nat.zero_le i, hi⟩ hnot
  · exact (total_enlist limit now (unmanned members)).trans (Nat.zero_add _)

section Accounted

variable {Done : Nat → List Event → Prop} {total : Nat}
  (hmono : ∀ i past more, past ⊆ more → Done i past → Done i more)

include hmono

theorem Accounted.step {past events : List Event} {crew next : Crew}
    (h : Accounted limit Done total past crew) (hstep : Step limit crew events next) :
    Accounted limit Done total (past ++ events) next := by
  have hmanned : Manned (LeftOf Done (past ++ events)) next := by
    refine h.toManned.step hstep (fun place c hc he later hpast => hc he later ?_) ?_
    · exact List.Subset.trans (List.subset_append_left _ _) hpast
    · intro place c left hc hevents hleft
      rw [hevents]
      exact (h.running _ hc).rest hleft
  have hover {i : Nat} (hi : i < crew.next) (hnot : i ∉ crew.running.map Prod.fst) :
      Done i (past ++ events) :=
    hmono i past _ (List.subset_append_left _ _) (h.settled i hi hnot)
  cases hstep with
  | ring => exact ⟨hmanned, fun i => hover, h.total, h.busy⟩
  | skip => exact ⟨hmanned, fun i => hover, h.total, h.busy⟩
  | @finish place _ course now _ hl hlast =>
    refine ⟨hmanned, fun i hi hnot => ?_, ?_, busy_enlist (crew.dismiss place) now⟩
    · have hnot : i ∉ (drop place crew.running ++ fresh limit now (crew.dismiss place)).map
          Prod.fst := hnot
      rw [List.map_append, List.mem_append, not_or, map_fst_fresh, List.mem_range'_1] at hnot
      have hi : i < crew.next + (fresh limit now (crew.dismiss place)).length := hi
      have hold : i < crew.next := by
        have hnext : (crew.dismiss place).next = crew.next := rfl
        omega
      by_cases hplace : i = place
      · subst hplace
        obtain ⟨hends, hevents⟩ := Course.of_rest_none hlast
        refine h.running _ (mem_of_lookup hl) hends _ (List.subset_append_left _ _) ?_
        rw [hevents]
        exact List.subset_append_right _ _
      · refine hover hold fun hin => hnot.1 ?_
        obtain ⟨m, hm, rfl⟩ := List.mem_map.1 hin
        exact List.mem_map_of_mem (mem_drop_of_ne hm hplace)
    · exact (total_enlist limit now (crew.dismiss place)).trans h.total
  | @pass place _ course left _ hl _ =>
    have hplaces : (put place left crew.running).map Prod.fst = crew.running.map Prod.fst :=
      map_fst_put place left crew.running
    refine ⟨hmanned, fun i hi hnot => hover hi fun hm => hnot ?_, h.total, fun hlimit hnil => ?_⟩
    · show i ∈ (put place left crew.running).map Prod.fst
      rw [hplaces]
      exact hm
    · refine h.busy hlimit ?_
      rw [← List.map_eq_nil_iff, ← hplaces, show put place left crew.running = [] from hnil]
      rfl

/-- From when the first members start, all are accounted for. -/
theorem accounted_of_steps {limit now : Nat} {members : List (Nat → Course)} {past : List Event}
    {crew : Crew}
    (h : ∀ i first, members[i]? = some first → ∀ now, LeftOf Done [] i (first now))
    (hsteps : Steps limit (start limit now members) past crew) :
    Accounted limit Done members.length past crew :=
  hsteps.keep (fun _ _ _ _ hkeeps hstep => Accounted.step hmono hkeeps hstep) (.start h)

/-- When a crew comes to its end, all its members are done. -/
theorem done_of_course_ends {limit now : Nat} {members : List (Nat → Course)} (hlimit : 0 < limit)
    (h : ∀ i first, members[i]? = some first → ∀ now, LeftOf Done [] i (first now))
    (hends : (course limit now members).ends = true) :
    ∀ i < members.length, Done i (course limit now members).events := by
  obtain ⟨last, hsteps, hover⟩ := course_steps limit now members
  have hlast := accounted_of_steps hmono h hsteps
  have hrunning := hover hends
  intro i hi
  refine hlast.settled i ?_ (by rw [hrunning]; exact List.not_mem_nil)
  have htotal := hlast.total
  rw [hlast.busy hlimit hrunning] at htotal
  exact Nat.lt_of_lt_of_eq hi htotal.symm

end Accounted

end Crew
end TypedQuery
