import TypedQuery.Proofs.Execution.Windows
/-!
What is seen of one member of a set.  Between the events of other members, a set shows of a member what
that does by itself from some time on, or the beginning of it: `Crew.course_share`.  Where only some
of the events are looked at, their beginnings still belong to steps of the set:
`Crew.Steps.exists_at`.
-/

namespace TypedQuery
namespace Crew

variable {limit : Nat} {crew next : Crew} {events : List Event}

/-! ## Turns of one member -/

/-- What a step keeps of members at other places, and of the member that has its turn, holds of all. -/
theorem Manned.step_apart {Q Q' : Nat → Course → Prop} (h : Manned Q crew)
    (hwindow : Windowed limit crew) (hstep : Step limit crew events next)
    (hothers : ∀ place, (∀ e ∈ events, ∃ turn ∈ crew.running, turn.1 ≠ place ∧ e ∈ turn.2.events) →
      ∀ course, Q place course → Q' place course)
    (hturn : ∀ place course left, (place, course) ∈ crew.running → events = course.first →
      course.rest? = some left → Q place course → Q' place left) : Manned Q' next := by
  have hnodup : (crew.running.map Prod.fst).Nodup := hwindow.increasing.imp Nat.ne_of_lt
  -- those that wait are not among those that run
  have hwait {place : Nat} {course : Course} (hin : (place, course) ∈ crew.running) (i : Nat) :
      place ≠ crew.next + i := by
    have hstarted := hwindow.started _ hin
    omega
  cases hstep with
  | ring =>
    exact ⟨fun m hm => hothers m.1 nofun m.2 (h.running m hm),
      fun i start hget now => hothers _ nofun _ (h.waiting i start hget now)⟩
  | skip =>
    exact ⟨fun m hm => hothers m.1 nofun m.2 (h.running m hm),
      fun i start hget now => hothers _ nofun _ (h.waiting i start hget now)⟩
  | @finish place _ course now _ hl hlast =>
    have hin := mem_of_lookup hl
    have hkeep {other : Nat} (hne : place ≠ other) : ∀ c, Q other c → Q' other c := by
      refine hothers other fun e he => ⟨_, hin, hne, ?_⟩
      rw [(Course.of_rest_none hlast).2]
      exact he
    have hdismiss : Manned Q' (crew.dismiss place) := by
      refine ⟨fun m hm => ?_, fun i start hget now =>
        hkeep (hwait hin i) _ (h.waiting i start hget now)⟩
      exact hkeep (ne_of_mem_drop hnodup hm).symm m.2
        (h.running m ((drop_sublist place crew.running).subset hm))
    exact hdismiss.enlist limit now
  | @pass place _ course left _ hl hleft =>
    have hin := mem_of_lookup hl
    have hkeep {other : Nat} (hne : place ≠ other) : ∀ c, Q other c → Q' other c := by
      refine hothers other fun e he => ⟨_, hin, hne, ?_⟩
      rw [(Course.of_rest_some hleft).2]
      exact List.mem_append_left _ he
    refine ⟨fun m hm => ?_, fun i start hget now =>
      hkeep (hwait hin i) _ (h.waiting i start hget now)⟩
    rcases mem_put_of_nodup hnodup hm with rfl | ⟨hm, hne⟩
    · exact hturn place course left hin rfl hleft (h.running _ hin)
    · exact hkeep (Ne.symm hne) m.2 (h.running m hm)

/-! ## The share of a member -/

/-- What a member is to the share of another one: the events in question are not its own, or what is
past of them and what is left of it make up the share. -/
structure SharedBy (mine : Event → Bool) (place : Nat) (first : Nat → Course) (past : List Event)
    (other : Nat) (c : Course) : Prop where
  apart : other ≠ place → ∀ e ∈ c.events, mine e = false
  own : other = place →
    ∃ now, (first now).events.filter mine = past.filter mine ++ c.events.filter mine

/-- The share of the member at the place, up to some point. -/
structure Shared (limit : Nat) (mine : Event → Bool) (place : Nat) (first : Nat → Course)
    (past : List Event) (crew : Crew) : Prop extends Windowed limit crew,
    Manned (SharedBy mine place first past) crew where
  share : ∃ now, past.filter mine <+: (first now).events.filter mine

variable {mine : Event → Bool} {place : Nat} {first : Nat → Course}

theorem Shared.step {past : List Event} (h : Shared limit mine place first past crew)
    (hstep : Step limit crew events next) :
    Shared limit mine place first (past ++ events) next := by
  refine
    { toWindowed := h.toWindowed.step hstep
      toManned := h.toManned.step_apart h.toWindowed hstep (fun other hothers c hc => ?_)
        fun other c left hin hevents hleft hc => ?_
      share := ?_ }
  · refine ⟨hc.apart, fun hplace => ?_⟩
    subst hplace
    have hnone : events.filter mine = [] := by
      refine List.filter_eq_nil_iff.2 fun e he => ?_
      obtain ⟨turn, hturn, hne, he⟩ := hothers e he
      rw [(h.running turn hturn).apart hne e he]
      exact Bool.false_ne_true
    obtain ⟨now, hshare⟩ := hc.own rfl
    refine ⟨now, ?_⟩
    rw [List.filter_append, hnone, List.append_nil]
    exact hshare
  · have hlater := (Course.of_rest_some hleft).2
    refine ⟨fun hne e he => hc.apart hne e ?_, fun hplace => ?_⟩
    · rw [hlater]
      exact List.mem_append_right _ he
    · obtain ⟨now, hshare⟩ := hc.own hplace
      refine ⟨now, ?_⟩
      rw [hshare, hlater, hevents, List.filter_append, List.filter_append, List.append_assoc]
  · obtain ⟨now, hshare⟩ := h.share
    rw [List.filter_append]
    rcases hstep.events_eq with rfl | ⟨m, hm, rfl, later, hlater⟩
    · refine ⟨now, ?_⟩
      rw [List.filter_nil, List.append_nil]
      exact hshare
    · by_cases hplace : m.1 = place
      · obtain ⟨time, hown⟩ := (h.running m hm).own hplace
        refine ⟨time, ?_⟩
        rw [hown, hlater, List.filter_append, List.prefix_append_right_inj]
        exact List.prefix_append _ _
      · have hnone : m.2.first.filter mine = [] := by
          refine List.filter_eq_nil_iff.2 fun e he => ?_
          rw [(h.running m hm).apart hplace e (hlater ▸ List.mem_append_left _ he)]
          exact Bool.false_ne_true
        refine ⟨now, ?_⟩
        rw [hnone, List.append_nil]
        exact hshare

/-- Of the events that only one member has, a set shows what that member does by itself. -/
theorem course_share {members : List (Nat → Course)} (hget : members[place]? = some first)
    (hothers : ∀ i other, members[i]? = some other → i ≠ place → ∀ now, ∀ e ∈ (other now).events,
      mine e = false) (limit now : Nat) :
    ∃ later, (course limit now members).events.filter mine <+:
      (first later).events.filter mine := by
  obtain ⟨last, hsteps, -⟩ := course_steps limit now members
  have hstart : Shared limit mine place first [] (start limit now members) := by
    refine
      { toWindowed := .start limit now members
        toManned := .start (fun i other hother now => ?_) limit now
        share := ⟨now, List.nil_prefix⟩ }
    refine ⟨fun hne => hothers i other hother hne now, fun hplace => ?_⟩
    rw [hplace, hget] at hother
    obtain rfl := Option.some.inj hother
    exact ⟨now, rfl⟩
  exact (hsteps.keep (fun _ _ _ _ hkeeps hstep => Shared.step hkeeps hstep) hstart).share

/-! ## Points in a sequence of steps -/

theorem Steps.next_le {last : Crew} (h : Steps limit crew events last) : crew.next ≤ last.next := by
  induction h with
  | refl => exact Nat.le_refl _
  | head hstep _ ih => exact Nat.le_trans hstep.next_le ih

/-- Up to where some of the events are seen, the crew has come by steps that show no others of them,
and the members have started that they are of. -/
theorem Steps.exists_at {Of : Nat → Event → Prop} {last : Crew} (h : Steps limit crew events last)
    (hwindow : Windowed limit crew) (hof : Manned (fun i c => ∀ e ∈ c.events, Of i e) crew)
    {seen : List Event} (hseen : seen <+: events.filter mine) :
    ∃ past now, Steps limit crew past now ∧ past.filter mine <+: seen ∧
      ∀ e ∈ seen, ∃ i < now.next, Of i e := by
  induction h generalizing seen with
  | refl crew =>
    rw [List.filter_nil, List.prefix_nil] at hseen
    exact ⟨[], crew, .refl crew, List.nil_prefix, by rw [hseen]; nofun⟩
  | @head crew next last events later hstep hrest ih =>
    have hturn : ∀ e ∈ events, ∃ i < crew.next, Of i e := by
      intro e he
      rcases hstep.events_eq with rfl | ⟨m, hm, rfl, rest, hlater⟩
      · cases he
      · exact ⟨m.1, hwindow.started m hm,
          hof.running m hm e (hlater ▸ List.mem_append_left _ he)⟩
    rw [List.filter_append] at hseen
    rcases List.prefix_or_prefix_of_prefix hseen (List.prefix_append _ _) with hwithin | hbeyond
    · -- the point is within the turn, before which the step has not been made
      refine ⟨[], crew, .refl crew, List.nil_prefix, fun e he => hturn e ?_⟩
      exact List.mem_of_mem_filter (hwithin.subset he)
    · obtain ⟨seen, rfl⟩ := hbeyond
      rw [List.prefix_append_right_inj] at hseen
      have hof' : Manned (fun i c => ∀ e ∈ c.events, Of i e) next := by
        refine hof.step hstep (fun _ _ hc => hc) fun i c left hc _ hleft e he => ?_
        refine hof.running _ hc e ?_
        rw [(Course.of_rest_some hleft).2]
        exact List.mem_append_right _ he
      obtain ⟨past, now, hsteps, hpast, hplaces⟩ := ih (hwindow.step hstep) hof' hseen
      refine ⟨events ++ past, now, .head hstep hsteps, ?_, fun e he => ?_⟩
      · rw [List.filter_append, List.prefix_append_right_inj]
        exact hpast
      · rcases List.mem_append.1 he with he | he
        · obtain ⟨i, hi, hown⟩ := hturn e (List.mem_of_mem_filter he)
          exact ⟨i, Nat.lt_of_lt_of_le hi (Nat.le_trans hstep.next_le hsteps.next_le), hown⟩
        · exact hplaces e he

end Crew
end TypedQuery
