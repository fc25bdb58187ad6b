import TypedQuery.Execution.Crew
import TypedQuery.Proofs.Lists
/-!
Progress of tasks.  A set of members that would all come to their ends comes to its own end, however
many of them run at a time: whoever waits has an alarm set, and alarms go off while all wait.  Some
events may halt all that goes on; when they are seen, nothing is said of what follows.
-/

namespace TypedQuery
namespace Course

/-- The task comes to its end if it gets the turns that it waits for, or to an event that halts it.
`pending` are the alarms that it set and that have not gone off; unless it yields, it waits for the
first of them. -/
def Runs (halts : Event → Prop) : List Nat → Course → Prop
  | _, finished _ _ => True
  | _, stuck events => ∃ e ∈ events, halts e
  | pending, turn events alarms true next =>
    (∃ e ∈ events, halts e) ∨ Runs halts (pending ++ alarms) next
  | pending, turn events alarms false next =>
    (∃ e ∈ events, halts e) ∨ ∃ time, (pending ++ alarms).min? = some time ∧
      Runs halts ((pending ++ alarms).filter (· ≠ time)) next

variable {halts : Event → Prop}

theorem runs_after {pending set : List Nat} {earlier : List Event} {c : Course} :
    (c.after earlier set).Runs halts pending ↔
      (∃ e ∈ earlier, halts e) ∨ c.Runs halts (pending ++ set) := by
  have hsplit (events : List Event) :
      (∃ e ∈ earlier ++ events, halts e) ↔ (∃ e ∈ earlier, halts e) ∨ ∃ e ∈ events, halts e := by
    constructor
    · rintro ⟨e, he, hhalts⟩
      exact (List.mem_append.1 he).imp (⟨e, ·, hhalts⟩) (⟨e, ·, hhalts⟩)
    · rintro (⟨e, he, hhalts⟩ | ⟨e, he, hhalts⟩)
      · exact ⟨e, List.mem_append_left _ he, hhalts⟩
      · exact ⟨e, List.mem_append_right _ he, hhalts⟩
  cases c with
  | finished _ _ => exact ⟨fun _ => .inr trivial, fun _ => trivial⟩
  | stuck events => exact hsplit events
  | turn events alarms yields next =>
    cases yields <;> simp only [after, Runs, List.append_assoc, hsplit, or_assoc]

/-- A task that has set no alarm may wait for one of its own. -/
theorem runs_wait {now ms : Nat} {events : List Event} {next : Course} (h : next.Runs halts []) :
    (wait now ms events next).Runs halts [] := by
  unfold wait
  split
  · rw [runs_after]
    exact .inr h
  · exact .inr ⟨now + ms, rfl, by simpa using h⟩

theorem ends_of_runs {c : Course} : ∀ {pending : List Nat}, c.Runs halts pending →
    c.ends = true ∨ ∃ e ∈ c.events, halts e := by
  induction c with
  | finished _ _ => exact fun _ => .inl rfl
  | stuck _ => exact fun h => .inr h
  | turn events alarms yields next ih =>
    have hnow (h : ∃ e ∈ events, halts e) : ∃ e ∈ events ++ next.events, halts e := by
      obtain ⟨e, he, hhalts⟩ := h
      exact ⟨e, List.mem_append_left _ he, hhalts⟩
    have hlater (h : next.ends = true ∨ ∃ e ∈ next.events, halts e) :
        next.ends = true ∨ ∃ e ∈ events ++ next.events, halts e := by
      refine h.imp_right ?_
      rintro ⟨e, he, hhalts⟩
      exact ⟨e, List.mem_append_right _ he, hhalts⟩
    intro pending h
    cases yields with
    | true => exact h.elim (fun h => .inr (hnow h)) fun h => hlater (ih h)
    | false =>
      rcases h with h | ⟨_, _, h⟩
      · exact .inr (hnow h)
      · exact hlater (ih h)

/-- A turn that is not the last one gives the next one its alarms. -/
theorem runs_rest {pending : List Nat} {c left : Course} (h : c.Runs halts pending)
    (hleft : c.rest? = some left) :
    (∃ e ∈ c.first, halts e) ∨
      if c.yields then left.Runs halts (pending ++ c.alarms)
      else (turn [] [] false left).Runs halts (pending ++ c.alarms) := by
  cases c with
  | finished _ _ => cases hleft
  | stuck _ => exact .inl h
  | turn events alarms yields next =>
    cases hleft
    cases yields with
    | true => exact h
    | false => exact h.imp_right fun h => by simpa [Runs, Course.yields, Course.alarms] using h

@[simp] theorem ends_after {earlier : List Event} {set : List Nat} {c : Course} :
    (c.after earlier set).ends = c.ends := by
  cases c <;> rfl

@[simp] theorem events_after {earlier : List Event} {set : List Nat} {c : Course} :
    (c.after earlier set).events = earlier ++ c.events := by
  cases c <;> simp [after, events]

@[simp] theorem ends_wait {now ms : Nat} {events : List Event} {next : Course} :
    (wait now ms events next).ends = next.ends := by
  unfold wait
  split
  · exact ends_after
  · rfl

@[simp] theorem events_wait {now ms : Nat} {events : List Event} {next : Course} :
    (wait now ms events next).events = events ++ next.events := by
  unfold wait
  split
  · exact events_after
  · rfl

/-- A task that is over after this turn. -/
theorem of_rest_none {c : Course} (h : c.rest? = none) : c.ends = true ∧ c.events = c.first := by
  cases c with
  | finished _ _ => exact ⟨rfl, rfl⟩
  | stuck _ => cases h
  | turn _ _ _ _ => cases h

theorem of_rest_some {c left : Course} (h : c.rest? = some left) :
    c.ends = left.ends ∧ c.events = c.first ++ left.events := by
  cases c with
  | finished _ _ => cases h
  | stuck events =>
    cases h
    exact ⟨rfl, (List.append_nil events).symm⟩
  | turn _ _ _ _ =>
    cases h
    exact ⟨rfl, rfl⟩

end Course

namespace Crew

/-! ## Members that run -/

theorem mem_of_lookup {place : Nat} {course : Course} {running : List (Nat × Course)}
    (h : running.lookup place = some course) : (place, course) ∈ running := by
  induction running with
  | nil => cases h
  | cons member rest ih =>
    obtain ⟨p, c⟩ := member
    rw [List.lookup_cons] at h
    by_cases hp : place = p
    · subst hp
      simp only [BEq.rfl, Option.some.injEq] at h
      subst h
      exact List.mem_cons_self
    · have hb : (place == p) = false := by simp [hp]
      rw [hb] at h
      exact List.mem_cons_of_mem _ (ih h)

theorem mem_of_mem_put {place : Nat} {left : Course} {running : List (Nat × Course)}
    {m : Nat × Course} (h : m ∈ put place left running) : m = (place, left) ∨ m ∈ running := by
  induction running with
  | nil => cases h
  | cons member rest ih =>
    rw [put] at h
    split at h
    · rcases List.mem_cons.1 h with h | h
      · exact .inl h
      · exact .inr (List.mem_cons_of_mem _ h)
    · rcases List.mem_cons.1 h with h | h
      · exact .inr (h ▸ List.mem_cons_self)
      · exact (ih h).imp id (List.mem_cons_of_mem _)

theorem left_mem_put {place : Nat} {course : Course} (left : Course)
    {running : List (Nat × Course)} (hl : running.lookup place = some course) :
    (place, left) ∈ put place left running := by
  induction running with
  | nil => cases hl
  | cons member rest ih =>
    obtain ⟨p, c⟩ := member
    rw [List.lookup_cons] at hl
    by_cases hp : p = place
    · rw [put, if_pos hp]
      exact List.mem_cons_self
    · have hb : (place == p) = false := by simp [Ne.symm hp]
      rw [hb] at hl
      rw [put, if_neg hp]
      exact List.mem_cons_of_mem _ (ih hl)

theorem mem_put_of_nodup {place : Nat} {left : Course} {running : List (Nat × Course)}
    (hn : (running.map Prod.fst).Nodup) {m : Nat × Course} (h : m ∈ put place left running) :
    m = (place, left) ∨ m ∈ running ∧ m.1 ≠ place := by
  induction running with
  | nil => cases h
  | cons member rest ih =>
    rw [List.map_cons, List.nodup_cons] at hn
    rw [put] at h
    split at h
    · rename_i hp
      rcases List.mem_cons.1 h with h | h
      · exact .inl h
      · refine .inr ⟨List.mem_cons_of_mem _ h, fun e => hn.1 ?_⟩
        rw [hp, ← e]
        exact List.mem_map_of_mem h
    · rename_i hp
      rcases List.mem_cons.1 h with h | h
      · exact .inr ⟨h ▸ List.mem_cons_self, h ▸ hp⟩
      · exact (ih hn.2 h).imp id fun hm => ⟨List.mem_cons_of_mem _ hm.1, hm.2⟩

theorem ne_of_mem_drop {place : Nat} {running : List (Nat × Course)}
    (hn : (running.map Prod.fst).Nodup) {m : Nat × Course} (h : m ∈ drop place running) :
    m.1 ≠ place := by
  induction running with
  | nil => cases h
  | cons member rest ih =>
    rw [List.map_cons, List.nodup_cons] at hn
    rw [drop] at h
    split at h
    · rename_i hp
      intro e
      rw [hp, ← e] at hn
      exact hn.1 (List.mem_map_of_mem h)
    · rename_i hp
      rcases List.mem_cons.1 h with h | h
      · exact h ▸ hp
      · exact ih hn.2 h

theorem map_fst_put (place : Nat) (left : Course) (running : List (Nat × Course)) :
    (put place left running).map Prod.fst = running.map Prod.fst := by
  induction running with
  | nil => rfl
  | cons member rest ih =>
    rw [put]
    split
    · rename_i h
      simp [h]
    · simp [ih]

theorem drop_sublist (place : Nat) (running : List (Nat × Course)) :
    (drop place running).Sublist running := by
  induction running with
  | nil => exact .refl _
  | cons member rest ih =>
    rw [drop]
    split
    · exact List.sublist_cons_self _ _
    · exact ih.cons_cons _

theorem mem_drop_of_ne {place : Nat} {running : List (Nat × Course)} {m : Nat × Course}
    (h : m ∈ running) (hne : m.1 ≠ place) : m ∈ drop place running := by
  induction running with
  | nil => cases h
  | cons member rest ih =>
    rw [drop]
    split
    · rename_i hp
      rcases List.mem_cons.1 h with rfl | h
      · exact absurd hp hne
      · exact h
    · rcases List.mem_cons.1 h with rfl | h
      · exact List.mem_cons_self
      · exact List.mem_cons_of_mem _ (ih h)

/-! ## Members that start -/

/-- A crew without the member that has had its last turn, before others start. -/
def dismiss (place : Nat) (crew : Crew) : Crew :=
  { crew with ready := crew.ready.drop 1, running := drop place crew.running }

/-- The members that `enlist` starts. -/
def fresh (limit now : Nat) (crew : Crew) : List (Nat × Course) :=
  ((crew.waiting.take
    ((crew.running.head?.map Prod.fst).getD crew.next + limit - crew.next)).zipIdx crew.next).map
      fun (start, place) => (place, start now)

theorem map_fst_fresh (limit now : Nat) (crew : Crew) :
    (fresh limit now crew).map Prod.fst = List.range' crew.next (fresh limit now crew).length := by
  unfold fresh
  rw [List.map_map, List.length_map, List.length_zipIdx, ← List.zipIdx_map_snd]
  rfl

theorem fresh_place {limit now : Nat} {crew : Crew} {m : Nat × Course}
    (h : m ∈ fresh limit now crew) :
    crew.next ≤ m.1 ∧ m.1 < crew.next + (fresh limit now crew).length := by
  have hm : m.1 ∈ (fresh limit now crew).map Prod.fst := List.mem_map_of_mem h
  rw [map_fst_fresh, List.mem_range'_1] at hm
  exact hm

/-- A member that starts was waiting. -/
theorem fresh_start {limit now : Nat} {crew : Crew} {m : Nat × Course}
    (h : m ∈ fresh limit now crew) : ∃ start ∈ crew.waiting, m.2 = start now := by
  obtain ⟨⟨start, place⟩, hs, rfl⟩ := List.mem_map.1 h
  exact ⟨start, List.mem_of_mem_take (List.fst_mem_of_mem_zipIdx hs), rfl⟩

/-! ## Places

Members that run have different places, in front of those that have not started. -/

structure Placed (crew : Crew) : Prop where
  places_nodup : (crew.running.map Prod.fst).Nodup
  running_lt : ∀ m ∈ crew.running, m.1 < crew.next

namespace Placed

variable {crew : Crew}

theorem enlist (h : Placed crew) (limit now : Nat) : Placed (enlist limit now crew) := by
  constructor
  case places_nodup =>
    show ((crew.running ++ fresh limit now crew).map Prod.fst).Nodup
    rw [List.map_append, List.nodup_append, map_fst_fresh]
    refine ⟨h.places_nodup, List.nodup_range', fun a ha b hb e => ?_⟩
    obtain ⟨m, hm, rfl⟩ := List.mem_map.1 ha
    have := h.running_lt m hm
    rw [List.mem_range'_1] at hb
    omega
  case running_lt =>
    intro m hm
    show m.1 < crew.next + (fresh limit now crew).length
    rcases List.mem_append.1 hm with hm | hm
    · have := h.running_lt m hm
      omega
    · exact (fresh_place hm).2

theorem dismiss (h : Placed crew) (place : Nat) : Placed (dismiss place crew) := by
  have hsub := drop_sublist place crew.running
  constructor
  case places_nodup => exact h.places_nodup.sublist (hsub.map Prod.fst)
  case running_lt => exact fun m hm => h.running_lt m (hsub.subset hm)

theorem pass (h : Placed crew) {place : Nat} {course : Course}
    (hl : crew.running.lookup place = some course) (left : Course) :
    Placed (pass place course left crew) := by
  constructor
  case places_nodup =>
    show ((put place left crew.running).map Prod.fst).Nodup
    rw [map_fst_put]
    exact h.places_nodup
  case running_lt =>
    intro m hm
    rcases mem_of_mem_put hm with rfl | hm
    · exact h.running_lt (place, course) (mem_of_lookup hl)
    · exact h.running_lt m hm

end Placed

/-! ## Progress

A member of a crew is in its turn, or has set an alarm that has not gone off.  `Lively` says so, and
every step of a crew keeps it. -/

/-- The alarms that a member set and that have not gone off. -/
def pending (place : Nat) (crew : Crew) : List Nat :=
  (crew.alarms.filter fun alarm => alarm.2 = place).map Prod.fst

structure Lively (halts : Event → Prop) (crew : Crew) : Prop extends Placed crew where
  ready_nodup : crew.ready.Nodup
  ready_lt : ∀ place ∈ crew.ready, place < crew.next
  alarms_lt : ∀ alarm ∈ crew.alarms, alarm.2 < crew.next
  awake : ∀ m ∈ crew.running, m.1 ∈ crew.ready → m.2.Runs halts (crew.pending m.1)
  asleep : ∀ m ∈ crew.running, m.1 ∉ crew.ready →
    (Course.turn [] [] false m.2).Runs halts (crew.pending m.1)
  waiting : ∀ start ∈ crew.waiting, ∀ now, (start now).Runs halts []

theorem pending_eq_nil {crew : Crew} {place : Nat} (h : ∀ alarm ∈ crew.alarms, alarm.2 ≠ place) :
    crew.pending place = [] := by
  unfold pending
  rw [List.map_eq_nil_iff, List.filter_eq_nil_iff]
  intro alarm ha
  simpa using h alarm ha

namespace Lively

variable {halts : Event → Prop} {crew : Crew}

theorem enlist (h : Lively halts crew) (limit now : Nat) :
    Lively halts (enlist limit now crew) := by
  have hfresh {m : Nat × Course} (hm : m ∈ fresh limit now crew) :=
    fresh_place hm
  have hready {m : Nat × Course} (hm : m ∈ fresh limit now crew) :
      m.1 ∈ (Crew.enlist limit now crew).ready :=
    List.mem_append_right _ (List.mem_map_of_mem hm)
  have hnone {m : Nat × Course} (hm : m ∈ fresh limit now crew) : crew.pending m.1 = [] :=
    pending_eq_nil fun alarm ha e => by
      have := h.alarms_lt alarm ha
      have := hfresh hm
      omega
  constructor
  case toPlaced => exact h.toPlaced.enlist limit now
  case ready_nodup =>
    show (crew.ready ++ (fresh limit now crew).map Prod.fst).Nodup
    rw [List.nodup_append, map_fst_fresh]
    refine ⟨h.ready_nodup, List.nodup_range', fun a ha b hb e => ?_⟩
    have := h.ready_lt a ha
    rw [List.mem_range'_1] at hb
    omega
  case ready_lt =>
    intro place hp
    show place < crew.next + (fresh limit now crew).length
    rcases List.mem_append.1 hp with hp | hp
    · have := h.ready_lt place hp
      omega
    · obtain ⟨m, hm, rfl⟩ := List.mem_map.1 hp
      exact (hfresh hm).2
  case alarms_lt =>
    intro alarm ha
    show alarm.2 < crew.next + (fresh limit now crew).length
    have := h.alarms_lt alarm ha
    omega
  case awake =>
    intro m hm hr
    show m.2.Runs halts (crew.pending m.1)
    rcases List.mem_append.1 hm with hm | hm
    · refine h.awake m hm ((List.mem_append.1 hr).resolve_right fun hf => ?_)
      have := h.running_lt m hm
      obtain ⟨m', hm', e⟩ := List.mem_map.1 hf
      have := hfresh hm'
      omega
    · rw [hnone hm]
      obtain ⟨start, hs, e⟩ := fresh_start hm
      rw [e]
      exact h.waiting start hs now
  case asleep =>
    intro m hm hr
    rcases List.mem_append.1 hm with hm | hm
    · exact h.asleep m hm fun hr' => hr (List.mem_append_left _ hr')
    · exact absurd (hready hm) hr
  case waiting =>
    exact fun start hs => h.waiting start (List.mem_of_mem_drop hs)

theorem finish (h : Lively halts crew) (limit now : Nat) {place : Nat} {rest : List Nat}
    (hr : crew.ready = place :: rest) : Lively halts (finish limit now place crew) := by
  have hsub := drop_sublist place crew.running
  have hready : place ∉ rest ∧ rest.Nodup := by
    rw [← List.nodup_cons, ← hr]
    exact h.ready_nodup
  apply Lively.enlist
  constructor
  case toPlaced => exact h.toPlaced.dismiss place
  case ready_nodup => simpa [hr] using hready.2
  case ready_lt => exact fun p hp => h.ready_lt p (List.mem_of_mem_drop hp)
  case alarms_lt => exact h.alarms_lt
  case awake =>
    exact fun m hm hp => h.awake m (hsub.subset hm) (List.mem_of_mem_drop hp)
  case asleep =>
    intro m hm hp
    refine h.asleep m (hsub.subset hm) fun hp' => hp ?_
    rw [hr, List.mem_cons] at hp'
    simpa [hr] using hp'.resolve_left (ne_of_mem_drop h.places_nodup hm)
  case waiting => exact h.waiting

theorem skip (h : Lively halts crew) {place : Nat} {rest : List Nat}
    (hr : crew.ready = place :: rest) (hl : crew.running.lookup place = none) :
    Lively halts crew.skip := by
  have hne {m : Nat × Course} (hm : m ∈ crew.running) : m.1 ≠ place := by
    intro e
    rw [List.lookup_eq_none_iff] at hl
    simpa [e] using hl m hm
  have hready : place ∉ rest ∧ rest.Nodup := by
    rw [← List.nodup_cons, ← hr]
    exact h.ready_nodup
  constructor
  case toPlaced => exact ⟨h.places_nodup, h.running_lt⟩
  case ready_nodup => simpa [Crew.skip, hr] using hready.2
  case ready_lt => exact fun p hp => h.ready_lt p (List.mem_of_mem_drop hp)
  case alarms_lt => exact h.alarms_lt
  case awake => exact fun m hm hp => h.awake m hm (List.mem_of_mem_drop hp)
  case asleep =>
    intro m hm hp
    refine h.asleep m hm fun hp' => hp ?_
    rw [hr, List.mem_cons] at hp'
    simpa [Crew.skip, hr] using hp'.resolve_left (hne hm)
  case waiting => exact h.waiting

theorem pending_pass_self (place : Nat) (course left : Course) (crew : Crew) :
    (crew.pass place course left).pending place = crew.pending place ++ course.alarms := by
  simp [pending, pass, List.filter_append, List.filter_map, Function.comp_def]

theorem pending_pass_of_ne {place other : Nat} (hne : other ≠ place) (course left : Course)
    (crew : Crew) : (crew.pass place course left).pending other = crew.pending other := by
  have hn : ¬ place = other := fun e => hne e.symm
  simp [pending, pass, List.filter_append, List.filter_map, Function.comp_def, hn]

theorem pass (h : Lively halts crew) {place : Nat} {rest : List Nat} {course left : Course}
    (hr : crew.ready = place :: rest) (hl : crew.running.lookup place = some course)
    (hleft : course.rest? = some left) :
    (∃ e ∈ course.first, halts e) ∨ Lively halts (pass place course left crew) := by
  have hmem := mem_of_lookup hl
  have hready : place ∉ rest ∧ rest.Nodup := by
    rw [← List.nodup_cons, ← hr]
    exact h.ready_nodup
  have hnext : place < crew.next := h.running_lt _ hmem
  refine (Course.runs_rest (h.awake _ hmem (by rw [hr]; exact List.mem_cons_self)) hleft).imp_right
    fun hruns => ?_
  have hr' : (Crew.pass place course left crew).ready =
      rest ++ (if course.yields then [place] else []) := by
    simp [Crew.pass, hr]
  constructor
  case toPlaced => exact h.toPlaced.pass hl left
  case ready_nodup =>
    rw [hr']
    split
    · exact List.nodup_append.2 ⟨hready.2, by simp, fun a ha b hb e =>
        hready.1 (List.mem_singleton.1 hb ▸ e ▸ ha)⟩
    · simpa using hready.2
  case ready_lt =>
    intro p hp
    rw [hr', List.mem_append] at hp
    rcases hp with hp | hp
    · exact h.ready_lt p (by rw [hr]; exact List.mem_cons_of_mem _ hp)
    · split at hp
      · rw [List.mem_singleton] at hp
        exact hp ▸ hnext
      · cases hp
  case alarms_lt =>
    intro alarm ha
    rcases List.mem_append.1 ha with ha | ha
    · exact h.alarms_lt alarm ha
    · obtain ⟨time, _, rfl⟩ := List.mem_map.1 ha
      exact hnext
  case awake =>
    intro m hm hp
    rcases mem_put_of_nodup h.places_nodup hm with rfl | ⟨hm, hne⟩
    · rw [pending_pass_self]
      by_cases hy : course.yields = true
      · simpa [hy] using hruns
      · rw [hr', if_neg hy, List.append_nil] at hp
        exact absurd hp hready.1
    · rw [pending_pass_of_ne hne]
      refine h.awake m hm ?_
      rw [hr', List.mem_append] at hp
      rw [hr]
      refine List.mem_cons_of_mem _ (hp.resolve_right fun hp => ?_)
      split at hp
      · exact hne (List.mem_singleton.1 hp)
      · cases hp
  case asleep =>
    intro m hm hp
    rcases mem_put_of_nodup h.places_nodup hm with rfl | ⟨hm, hne⟩
    · rw [pending_pass_self]
      by_cases hy : course.yields = true
      · refine absurd ?_ hp
        rw [hr', if_pos hy]
        exact List.mem_append_right _ List.mem_cons_self
      · simpa [hy] using hruns
    · rw [pending_pass_of_ne hne]
      refine h.asleep m hm fun hp' => hp ?_
      rw [hr, List.mem_cons] at hp'
      rw [hr']
      exact List.mem_append_left _ (hp'.resolve_left hne)
  case waiting => exact h.waiting

theorem pending_ring (place time : Nat) (crew : Crew) :
    (crew.ring time).pending place = (crew.pending place).filter (· ≠ time) := by
  simp only [pending, ring, List.filter_map, List.filter_filter]
  congr 2
  funext alarm
  simp [Bool.and_comm]

theorem mem_ready_ring {place time : Nat} (hr : crew.ready = []) :
    place ∈ (crew.ring time).ready ↔ time ∈ crew.pending place := by
  simp only [ring, hr, List.nil_append, List.mem_eraseDups, pending, List.mem_map,
    List.mem_filter, decide_eq_true_eq]
  constructor
  · rintro ⟨alarm, ⟨ha, ht⟩, hp⟩
    exact ⟨alarm, ⟨ha, hp⟩, ht⟩
  · rintro ⟨alarm, ⟨ha, hp⟩, ht⟩
    exact ⟨alarm, ⟨ha, ht⟩, hp⟩

theorem ring (h : Lively halts crew) {time : Nat} (hr : crew.ready = [])
    (ht : crew.nextAlarm? = some time) : Lively halts (ring time crew) := by
  have hmin {place : Nat} {other : Nat} (ho : other ∈ crew.pending place) : time ≤ other := by
    obtain ⟨alarm, ha, rfl⟩ := List.mem_map.1 ho
    exact (List.min?_eq_some_iff.1 ht).2 _ (List.mem_map_of_mem (List.mem_filter.1 ha).1)
  have hrest {m : Nat × Course} (hm : m ∈ crew.running) :
      ∃ first, (crew.pending m.1).min? = some first ∧
        m.2.Runs halts ((crew.pending m.1).filter (· ≠ first)) := by
    have := h.asleep m hm (by simp [hr])
    simpa [Course.Runs] using this
  constructor
  case toPlaced => exact ⟨h.places_nodup, h.running_lt⟩
  case ready_nodup =>
    simp only [Crew.ring, hr, List.nil_append]
    exact nodup_eraseDups _
  case ready_lt =>
    intro place hp
    obtain ⟨alarm, ha, rfl⟩ := List.mem_map.1 ((mem_ready_ring hr).1 hp)
    rw [List.mem_filter, decide_eq_true_eq] at ha
    exact ha.2 ▸ h.alarms_lt alarm ha.1
  case alarms_lt => exact fun alarm ha => h.alarms_lt alarm (List.mem_filter.1 ha).1
  case awake =>
    intro m hm hp
    obtain ⟨first, hf, hruns⟩ := hrest hm
    have hd := (mem_ready_ring hr).1 hp
    -- the member's own first alarm is the one that goes off
    have he : first = time :=
      Nat.le_antisymm ((List.min?_eq_some_iff.1 hf).2 _ hd) (hmin (List.min?_mem hf))
    rw [pending_ring, ← he]
    exact hruns
  case asleep =>
    intro m hm hp
    have hd : time ∉ crew.pending m.1 := fun hd => hp ((mem_ready_ring hr).2 hd)
    have he : (crew.pending m.1).filter (· ≠ time) = crew.pending m.1 := by
      rw [List.filter_eq_self]
      intro other ho
      exact decide_eq_true fun e => hd (e ▸ ho)
    rw [pending_ring, he]
    exact h.asleep m hm (by simp [hr])
  case waiting => exact h.waiting

end Lively

theorem alarms_ring (time : Nat) (crew : Crew) :
    (crew.ring time).alarms.map Prod.fst =
      (crew.alarms.map Prod.fst).filter (· ≠ time) := by
  simp [ring, List.filter_map, Function.comp_def]

theorem alarms_pass (place : Nat) (course left : Course) (crew : Crew) :
    (crew.pass place course left).alarms.map Prod.fst =
      crew.alarms.map Prod.fst ++ course.alarms := by
  simp [pass, Function.comp_def]

variable {halts : Event → Prop}

/-- A lively crew that is asleep has set an alarm. -/
theorem Lively.nextAlarm {crew : Crew} (h : Lively halts crew) (hr : crew.ready = [])
    (hne : crew.running ≠ []) : ∃ time, crew.nextAlarm? = some time := by
  obtain ⟨m, hm⟩ := List.exists_mem_of_ne_nil _ hne
  obtain ⟨_, he, _⟩ | ⟨first, hf, _⟩ := h.asleep m hm (by simp [hr])
  · cases he
  rw [List.append_nil] at hf
  obtain ⟨alarm, ha, _⟩ := List.mem_map.1 (List.min?_mem hf)
  have hmem : alarm.1 ∈ crew.alarms.map Prod.fst := List.mem_map_of_mem (List.mem_filter.1 ha).1
  cases hn : crew.nextAlarm? with
  | some time => exact ⟨time, rfl⟩
  | none =>
    rw [nextAlarm?, List.min?_eq_none_iff] at hn
    rw [hn] at hmem
    cases hmem

theorem asleep_eq {crew : Crew} {limit time : Nat} (ht : crew.nextAlarm? = some time) :
    (match _ha : crew.nextAlarm? with
      | none => Course.stuck []
      | some time => .turn [] [] false ((crew.ring time).run limit time 0 0 false)) =
      .turn [] [] false ((crew.ring time).run limit time 0 0 false) := by
  split
  · rename_i hn
    rw [hn] at ht
    cases ht
  · rename_i other ho
    rw [ho, Option.some.injEq] at ht
    rw [ht]

theorem runs_turn_ring {crew : Crew} {time : Nat} {next : Course}
    (ht : crew.nextAlarm? = some time)
    (h : next.Runs halts ((crew.ring time).alarms.map Prod.fst)) :
    (Course.turn [] [] false next).Runs halts (crew.alarms.map Prod.fst) := by
  refine .inr ⟨time, by simpa [nextAlarm?] using ht, ?_⟩
  rw [List.append_nil, ← alarms_ring]
  exact h

theorem run_runs {crew : Crew} {limit now turns yields : Nat} {yielded : Bool}
    (h : Lively halts crew) (hne : crew.running ≠ []) :
    (crew.run limit now turns yields yielded).Runs halts (crew.alarms.map Prod.fst) := by
  fun_induction run crew limit now turns yields yielded with
  | case1 crew now turns yields hr asleep ih =>
    obtain ⟨time, ht⟩ := h.nextAlarm hr hne
    refine .inr ?_
    rw [List.append_nil, show asleep = _ from asleep_eq ht]
    exact runs_turn_ring ht (ih time ht (h.ring hr ht) hne)
  | case2 crew now turns yields yielded hr asleep hy ih =>
    obtain ⟨time, ht⟩ := h.nextAlarm hr hne
    rw [show asleep = _ from asleep_eq ht]
    exact runs_turn_ring ht (ih time ht (h.ring hr ht) hne)
  | case3 crew now turns yields yielded place rest hr hl ih =>
    exact ih (h.skip hr hl) hne
  | case4 => trivial
  | case5 crew now turns yields yielded place rest hr course hl yielded' hc after hempty ih =>
    rw [Course.runs_after, List.append_nil]
    exact .inr (ih (h.finish limit now hr) (by simpa using hempty))
  | case6 crew now turns yields yielded place rest hr course hl left hc after yields' hturn ih =>
    refine (h.pass hr hl hc).imp_right fun hafter => ?_
    have hruns := ih hafter (List.ne_nil_of_mem (left_mem_put left hl))
    rw [alarms_pass] at hruns
    exact hruns
  | case7 crew now turns yields yielded place rest hr course hl yielded' left hc after yields' _ ih =>
    rw [Course.runs_after]
    refine (h.pass hr hl hc).imp_right fun hafter => ?_
    have hruns := ih hafter (List.ne_nil_of_mem (left_mem_put left hl))
    rw [alarms_pass] at hruns
    exact hruns

/-- Members of which none has started. -/
def unmanned (members : List (Nat → Course)) : Crew :=
  { running := [], ready := [], alarms := [], waiting := members, next := 0 }

/-- No member of a crew that starts has set an alarm. -/
theorem lively_start (limit now : Nat) {members : List (Nat → Course)}
    (h : ∀ start ∈ members, ∀ now, (start now).Runs halts []) :
    Lively halts (start limit now members) := by
  have hl : Lively halts (unmanned members) :=
    { places_nodup := List.nodup_nil
      running_lt := fun _ hm => by cases hm
      ready_nodup := List.nodup_nil
      ready_lt := fun _ hm => by cases hm
      alarms_lt := fun _ hm => by cases hm
      awake := fun _ hm => by cases hm
      asleep := fun _ hm => by cases hm
      waiting := h }
  exact hl.enlist limit now

/-- Either no member starts, or the first of them take turns. -/
theorem course_cases (limit now : Nat) (members : List (Nat → Course)) :
    (start limit now members).running = [] ∧ course limit now members = .finished [] false ∨
      (start limit now members).running ≠ [] ∧
        course limit now members = (start limit now members).run limit now 0 0 false := by
  by_cases h : (start limit now members).running = []
  · exact .inl ⟨h, if_pos (List.isEmpty_iff.2 h)⟩
  · exact .inr ⟨h, if_neg fun e => h (List.isEmpty_iff.1 e)⟩

theorem course_runs {limit now : Nat} {members : List (Nat → Course)}
    (h : ∀ start ∈ members, ∀ now, (start now).Runs halts []) :
    (course limit now members).Runs halts [] := by
  rcases course_cases limit now members with ⟨_, e⟩ | ⟨hne, e⟩
  · rw [e]
    trivial
  · rw [e]
    exact run_runs (lively_start limit now h) hne

end Crew
end TypedQuery
