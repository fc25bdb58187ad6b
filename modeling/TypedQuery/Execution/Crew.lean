import TypedQuery.Execution.Course
/-!
The members of a set, taking turns.  Turns are given in the order in which members became ready.  The
set's own turn ends when none is ready, or two members have yielded, or every member that is not over
has had a turn, the latter two counted from the last member that was over in this turn of the set.
The set yields if any member yielded, or if its turn did not end for want of ready members.

A limited number of members run at a time: one starts when all members are over that stand at least
that far in front of it.
-/

namespace TypedQuery

/-- The members of a set at some time. -/
structure Crew where
  /-- Members that have started and are not over, by their places, with what is left of them. -/
  running : List (Nat × Course)
  /-- The places of the members whose turn it is, in order. -/
  ready : List Nat
  /-- Alarms that have not gone off, in the order in which they were set, with the places of the
  members that set them. -/
  alarms : List (Nat × Nat)
  /-- The members that have not started, each as what it does from a given time on. -/
  waiting : List (Nat → Course)
  /-- The place of the first of those. -/
  next : Nat

namespace Crew

/-- Replaces what is left of a running member. -/
def put (place : Nat) (course : Course) : List (Nat × Course) → List (Nat × Course)
  | [] => []
  | member :: rest =>
    if member.1 = place then (place, course) :: rest else member :: put place course rest

/-- Takes a member away. -/
def drop (place : Nat) : List (Nat × Course) → List (Nat × Course)
  | [] => []
  | member :: rest => if member.1 = place then rest else member :: drop place rest

/-- Starts members until one stands `limit` places behind the first that is not over. -/
def enlist (limit now : Nat) (crew : Crew) : Crew :=
  let first := (crew.running.head?.map Prod.fst).getD crew.next
  let count := first + limit - crew.next
  let fresh := ((crew.waiting.take count).zipIdx crew.next).map fun (start, place) =>
    (place, start now)
  { running := crew.running ++ fresh
    ready := crew.ready ++ fresh.map Prod.fst
    alarms := crew.alarms
    waiting := crew.waiting.drop count
    next := crew.next + fresh.length }

/-- Members at the time when the first of them start. -/
def start (limit now : Nat) (members : List (Nat → Course)) : Crew :=
  enlist limit now { running := [], ready := [], alarms := [], waiting := members, next := 0 }

/-- The member that has had its turn is over. -/
def finish (limit now place : Nat) (crew : Crew) : Crew :=
  enlist limit now
    { crew with ready := crew.ready.drop 1, running := drop place crew.running }

/-- The member that has had its turn goes on later. -/
def pass (place : Nat) (course left : Course) (crew : Crew) : Crew :=
  { crew with
    running := put place left crew.running
    ready := crew.ready.drop 1 ++ (if course.yields then [place] else [])
    alarms := crew.alarms ++ course.alarms.map fun time => (time, place) }

/-- The time when the next alarm goes off. -/
def nextAlarm? (crew : Crew) : Option Nat := (crew.alarms.map Prod.fst).min?

/-- Lets the alarms of a time go off. -/
def ring (time : Nat) (crew : Crew) : Crew :=
  let due := crew.alarms.filter fun alarm => alarm.1 = time
  { crew with
    ready := crew.ready ++ (due.map Prod.snd).eraseDups
    alarms := crew.alarms.filter fun alarm => alarm.1 ≠ time }

/-! ## What is left to do

Each step of a crew starts members, or else uses up turns of those that run, or else gives turns or
lets alarms go off without new ones.
-/

/-- The turns that are left to some members. -/
def load : List (Nat × Course) → Nat
  | [] => 0
  | member :: rest => member.2.size + load rest

theorem load_put {place : Nat} {course : Course} (left : Course) {running : List (Nat × Course)}
    (h : running.lookup place = some course) :
    load (put place left running) + course.size = load running + left.size := by
  induction running with
  | nil => simp at h
  | cons member rest ih =>
    obtain ⟨p, c⟩ := member
    by_cases hp : p = place
    · subst hp
      simp only [List.lookup_cons, BEq.rfl, Option.some.injEq] at h
      subst h
      simp only [put, if_true, load]
      omega
    · have hb : (place == p) = false := by simp [Ne.symm hp]
      simp only [List.lookup_cons, hb] at h
      have := ih h
      simp only [put, hp, if_false, load]
      omega

theorem load_drop {place : Nat} {course : Course} {running : List (Nat × Course)}
    (h : running.lookup place = some course) :
    load (drop place running) + course.size = load running := by
  induction running with
  | nil => simp at h
  | cons member rest ih =>
    obtain ⟨p, c⟩ := member
    by_cases hp : p = place
    · subst hp
      simp only [List.lookup_cons, BEq.rfl, Option.some.injEq] at h
      subst h
      simp only [drop, if_true, load]
      omega
    · have hb : (place == p) = false := by simp [Ne.symm hp]
      simp only [List.lookup_cons, hb] at h
      have := ih h
      simp only [drop, hp, if_false, load]
      omega

/-- Less is left to do for the first crew than for the second. -/
def Less (a b : Crew) : Prop :=
  a.waiting.length < b.waiting.length ∨
    a.waiting.length = b.waiting.length ∧
      (load a.running < load b.running ∨
        load a.running = load b.running ∧
          2 * a.alarms.length + a.ready.length < 2 * b.alarms.length + b.ready.length)

theorem Less.lex {a b : Crew} (h : Less a b) :
    Prod.Lex (· < ·) (Prod.Lex (· < ·) (· < ·))
      (a.waiting.length, load a.running, 2 * a.alarms.length + a.ready.length)
      (b.waiting.length, load b.running, 2 * b.alarms.length + b.ready.length) := by
  simp only [Prod.lex_def]
  exact h

theorem finish_less (limit now : Nat) {place : Nat} {course : Course} {crew : Crew}
    (h : crew.running.lookup place = some course) : Less (crew.finish limit now place) crew := by
  have hload := load_drop h
  have hpos := course.size_pos
  simp only [Less, finish, enlist, List.length_drop]
  generalize ((drop place crew.running).head?.map Prod.fst).getD crew.next + limit - crew.next =
    count
  by_cases hc : min count crew.waiting.length = 0
  · have hw : crew.waiting.take count = [] := by
      rw [← List.length_eq_zero_iff, List.length_take]
      exact hc
    right
    refine ⟨by omega, .inl ?_⟩
    simp only [hw, List.zipIdx_nil, List.map_nil, List.append_nil]
    omega
  · left
    omega

theorem pass_less {place : Nat} {course left : Course} {crew : Crew}
    (hready : crew.ready ≠ []) (h : crew.running.lookup place = some course)
    (hleft : course.rest? = some left) : Less (crew.pass place course left) crew := by
  have hload := load_put left h
  have hpos : 0 < crew.ready.length := List.length_pos_iff.2 hready
  refine .inr ⟨rfl, ?_⟩
  rcases Course.size_rest hleft with hs | ⟨hs, hy, ha⟩
  · left
    simp only [pass]
    omega
  · right
    simp only [pass, hy, ha]
    simp
    omega

theorem length_eraseDups_le (places : List Nat) : places.eraseDups.length ≤ places.length := by
  induction h : places.length using Nat.strongRecOn generalizing places with
  | ind n ih =>
    cases places with
    | nil => simp
    | cons place rest =>
      simp only [List.eraseDups_cons, List.length_cons] at *
      have hf := List.length_filter_le (fun b => !b == place) rest
      have := ih _ (by omega) (rest.filter fun b => !b == place) rfl
      omega

theorem ring_less {time : Nat} {crew : Crew} (h : crew.nextAlarm? = some time) :
    Less (crew.ring time) crew := by
  have hmem : time ∈ crew.alarms.map Prod.fst := List.min?_mem h
  obtain ⟨alarm, hm, ht⟩ := List.mem_map.1 hmem
  have hd := length_eraseDups_le ((crew.alarms.filter fun alarm => alarm.1 = time).map Prod.snd)
  have hpos : 0 < (crew.alarms.filter fun alarm => decide (alarm.1 = time)).length :=
    List.length_pos_of_mem (List.mem_filter.2 ⟨hm, by simpa using ht⟩)
  have hsum := List.length_eq_countP_add_countP (fun alarm : Nat × Nat => decide (alarm.1 = time))
    (l := crew.alarms)
  simp only [List.countP_eq_length_filter] at hsum
  refine .inr ⟨rfl, .inr ⟨rfl, ?_⟩⟩
  simp only [ring, List.length_append]
  simp only [List.length_map] at hd
  simp only [ne_eq, decide_not, decide_eq_true_eq] at *
  omega

/-- A member whose turn it is should be running; if it is not, nothing happens. -/
def skip (crew : Crew) : Crew := { crew with ready := crew.ready.drop 1 }

theorem skip_less {crew : Crew} (hready : crew.ready ≠ []) : Less crew.skip crew := by
  have hpos : 0 < crew.ready.length := List.length_pos_iff.2 hready
  refine .inr ⟨rfl, .inr ⟨rfl, ?_⟩⟩
  simp only [skip, List.length_drop]
  omega

/-! ## Turns -/

/-- What a crew does from some time on, within a turn.  `turns` turns were given to members, and
`yields` of those members yielded, since the last one was over; `yielded` says whether any did in the
whole turn. -/
def run (crew : Crew) (limit now turns yields : Nat) (yielded : Bool) : Course :=
  match _hr : crew.ready with
  | [] =>
    let asleep :=
      match _ha : crew.nextAlarm? with
      | none => .stuck []
      | some time => .turn [] [] false ((crew.ring time).run limit time 0 0 false)
    if yielded then .turn [] [] true asleep else asleep
  | place :: _ =>
    match _hl : crew.running.lookup place with
    | none => crew.skip.run limit now turns yields yielded
    | some course =>
      let yielded := yielded || course.yields
      match _hc : course.rest? with
      | none =>
        let after := crew.finish limit now place
        if after.running.isEmpty then .finished course.first yielded
        else (after.run limit now 0 0 yielded).after course.first []
      | some left =>
        let after := crew.pass place course left
        let yields := if course.yields then yields + 1 else yields
        if yields = 2 ∨ turns + 1 = crew.running.length then
          .turn course.first course.alarms true (after.run limit now 0 0 false)
        else
          (after.run limit now (turns + 1) yields yielded).after course.first course.alarms
termination_by (crew.waiting.length, load crew.running, 2 * crew.alarms.length + crew.ready.length)
decreasing_by
  · exact (ring_less _ha).lex
  · exact (skip_less (by simp [_hr])).lex
  · exact (finish_less limit now _hl).lex
  · exact (pass_less (by simp [_hr]) _hl _hc).lex
  · exact (pass_less (by simp [_hr]) _hl _hc).lex

/-- What the members of a set do, from the time on when the first of them start. -/
def course (limit now : Nat) (members : List (Nat → Course)) : Course :=
  let crew := start limit now members
  if crew.running.isEmpty then .finished [] false else crew.run limit now 0 0 false

end Crew

namespace Trace

mutual

/-- What a trace comes to from a time on. -/
def course (now : Nat) : Trace → Course
  | idle => .finished [] false
  | escape cause => .stuck [.escaped cause]
  | call label pause next =>
    match pause with
    | .none => (course now next).after [.started label] []
    | .sleep ms => .wait now ms [.started label] ((course (now + ms) next).after [.resumed label] [])
    | .cut ms => .wait now ms [.started label] (course (now + ms) next)
    | .forever => .stuck [.started label]
  | members limit traces => Crew.course limit now (courses traces)

def courses : List Trace → List (Nat → Course)
  | [] => []
  | trace :: rest => (fun now => course now trace) :: courses rest

end

/-- All events of a trace that starts at time zero, in order. -/
def events (trace : Trace) : List Event := (trace.course 0).events

end Trace

end TypedQuery
