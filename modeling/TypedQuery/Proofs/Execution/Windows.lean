import TypedQuery.Proofs.Execution.Steps
/-!
The window of a crew.  Members that run stand close together: none of them is `limit` or more places
in front of another that has started (`Crew.Windowed`).  So when a member has started, all are over
that stand at least that far in front of it: `Crew.Accounted.behind`.
-/

namespace TypedQuery

namespace Crew

variable {limit : Nat} {crew next : Crew} {events : List Event}

/-! ## Places in the window -/

/-- Members run in the order of their places, within the window. -/
structure Windowed (limit : Nat) (crew : Crew) : Prop where
  increasing : (crew.running.map Prod.fst).Pairwise (· < ·)
  started : ∀ m ∈ crew.running, m.1 < crew.next
  window : ∀ m ∈ crew.running, crew.next ≤ m.1 + limit

namespace Windowed

theorem enlist (h : Windowed limit crew) (now : Nat) : Windowed limit (enlist limit now crew) := by
  let first := (crew.running.head?.map Prod.fst).getD crew.next
  have hcount : (fresh limit now crew).length ≤ first + limit - crew.next := by
    unfold fresh
    rw [List.length_map, List.length_zipIdx]
    exact List.length_take_le _ _
  have hfirst : first ≤ crew.next ∧ ∀ m ∈ crew.running, first ≤ m.1 := by
    have hincreasing := h.increasing
    cases hr : crew.running with
    | nil => exact ⟨by simp [first, hr], fun _ hm => by cases hm⟩
    | cons head rest =>
      have hhead : first = head.1 := by simp [first, hr]
      have hstarted := h.started head (hr ▸ List.mem_cons_self)
      rw [hr, List.map_cons, List.pairwise_cons] at hincreasing
      rw [hhead]
      refine ⟨Nat.le_of_lt hstarted, fun m hm => ?_⟩
      rcases List.mem_cons.1 hm with rfl | hm
      · exact Nat.le_refl _
      · exact Nat.le_of_lt (hincreasing.1 _ (List.mem_map_of_mem hm))
  constructor
  case increasing =>
    show ((crew.running ++ fresh limit now crew).map Prod.fst).Pairwise (· < ·)
    rw [List.map_append, map_fst_fresh, List.pairwise_append]
    refine ⟨h.increasing, List.pairwise_lt_range', fun i hi j hj => ?_⟩
    obtain ⟨m, hm, rfl⟩ := List.mem_map.1 hi
    exact Nat.lt_of_lt_of_le (h.started m hm) (List.mem_range'_1.1 hj).1
  case started =>
    intro m hm
    show m.1 < crew.next + (fresh limit now crew).length
    rcases List.mem_append.1 hm with hm | hm
    · exact Nat.lt_add_right _ (h.started m hm)
    · exact (fresh_place hm).2
  case window =>
    intro m hm
    show crew.next + (fresh limit now crew).length ≤ m.1 + limit
    rcases List.mem_append.1 hm with hm | hm
    · have := h.window m hm
      have := hfirst.2 m hm
      omega
    · have := fresh_place hm
      omega

theorem dismiss (h : Windowed limit crew) (place : Nat) : Windowed limit (dismiss place crew) := by
  have hsub := drop_sublist place crew.running
  exact
    { increasing := h.increasing.sublist (hsub.map Prod.fst)
      started := fun m hm => h.started m (hsub.subset hm)
      window := fun m hm => h.window m (hsub.subset hm) }

theorem start (limit now : Nat) (members : List (Nat → Course)) :
    Windowed limit (start limit now members) := by
  have hnone : Windowed limit (unmanned members) :=
    { increasing := .nil
      started := fun _ hm => by cases hm
      window := fun _ hm => by cases hm }
  exact hnone.enlist now

/-- The window moves on only when a member is over. -/
theorem step (h : Windowed limit crew) (hstep : Step limit crew events next) :
    Windowed limit next := by
  cases hstep with
  | ring => exact ⟨h.increasing, h.started, h.window⟩
  | skip => exact ⟨h.increasing, h.started, h.window⟩
  | finish now => exact (h.dismiss _).enlist now
  | @pass place _ course left _ hl _ =>
    constructor
    case increasing =>
      show ((put place left crew.running).map Prod.fst).Pairwise (· < ·)
      rw [map_fst_put]
      exact h.increasing
    case started =>
      intro m hm
      rcases mem_of_mem_put hm with rfl | hm
      · exact h.started (place, course) (mem_of_lookup hl)
      · exact h.started m hm
    case window =>
      intro m hm
      rcases mem_of_mem_put hm with rfl | hm
      · exact h.window (place, course) (mem_of_lookup hl)
      · exact h.window m hm

theorem of_steps {now : Nat} {members : List (Nat → Course)} {past : List Event}
    (h : Steps limit (Crew.start limit now members) past crew) : Windowed limit crew :=
  @Steps.keep limit (fun _ => Windowed limit) (fun _ _ _ _ hkeeps hstep => hkeeps.step hstep)
    _ _ _ h [] (.start limit now members)

theorem few (h : Windowed limit crew) : crew.running.length ≤ limit := by
  rw [← List.length_map (f := Prod.fst)]
  refine length_le_of_close (h.increasing.imp Nat.ne_of_lt) fun i hi j hj => ?_
  obtain ⟨m, hm, rfl⟩ := List.mem_map.1 hi
  obtain ⟨m', hm', rfl⟩ := List.mem_map.1 hj
  exact Nat.lt_of_lt_of_le (h.started m hm) (h.window m' hm')

/-- Of the members that have started, those far enough in front of another one do not run. -/
theorem not_running (h : Windowed limit crew) {i j : Nat} (hi : i < crew.next)
    (hj : j + limit ≤ i) : j ∉ crew.running.map Prod.fst := by
  intro hin
  obtain ⟨m, hm, rfl⟩ := List.mem_map.1 hin
  have := h.window m hm
  omega

end Windowed

/-! ## What is behind the window -/

/-- Members that stand far enough in front of one that has started are done. -/
theorem Accounted.behind {Done : Nat → List Event → Prop} {total : Nat} {past : List Event}
    (h : Accounted limit Done total past crew)
    (hwindow : Windowed limit crew) {i j : Nat} (hi : i < crew.next) (hj : j + limit ≤ i) :
    Done j past :=
  h.settled j (by omega) (hwindow.not_running hi hj)

end Crew

end TypedQuery
