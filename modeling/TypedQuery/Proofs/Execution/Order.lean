import TypedQuery.Proofs.Execution.Windows
/-!
The order of events.  Members of a set keep their own order, and what is ordered between different
members stays so whatever the limit is; with a limit of one, members come one after another even when
one of them never ends: `Crew.course_pairwise`.  An event that comes after the calls it needs within
its member comes after them in the set: `Crew.course_grounded`.
-/

namespace TypedQuery

/-- The path at which an event makes a call. -/
def Event.called? : Event → Option Path
  | started label => some label.path
  | _ => none

/-- Every event comes after the calls that it needs, some of which may be past. -/
def Grounded (Needs : Event → Path → Prop) (past : List Event) : List Event → Prop
  | [] => True
  | e :: rest =>
    (∀ path, Needs e path → ∃ earlier ∈ past, earlier.called? = some path) ∧
      Grounded Needs (e :: past) rest

namespace Grounded

variable {Needs : Event → Path → Prop}

theorem mono {past more events : List Event} (h : Grounded Needs past events)
    (hsub : past ⊆ more) : Grounded Needs more events := by
  induction events generalizing past more with
  | nil => trivial
  | cons e rest ih =>
    obtain ⟨hmet, hrest⟩ := h
    refine ⟨fun path hneeds => ?_, ih hrest (List.cons_subset_cons e hsub)⟩
    obtain ⟨earlier, hearlier, hcalled⟩ := hmet path hneeds
    exact ⟨earlier, hsub hearlier, hcalled⟩

theorem iff_preceded {past events : List Event} :
    Grounded Needs past events ↔
      Preceded (fun past e => ∀ path, Needs e path → ∃ earlier ∈ past, earlier.called? = some path)
        past events := by
  induction events generalizing past with
  | nil => exact Iff.rfl
  | cons e rest ih =>
    have hsub : e :: past ⊆ past ++ [e] ∧ past ++ [e] ⊆ e :: past := by
      constructor <;> intro f hf <;> simp only [List.mem_append, List.mem_cons] at hf ⊢ <;> tauto
    refine and_congr_right fun _ => ⟨fun h => ih.1 (h.mono hsub.1), fun h => (ih.2 h).mono hsub.2⟩

/-- What an event needs is called, now or in the past. -/
theorem exists_called {past events : List Event} (h : Grounded Needs past events) {e : Event}
    (he : e ∈ events) {path : Path} (hneeds : Needs e path) :
    ∃ earlier ∈ past ++ events, earlier.called? = some path := by
  induction events generalizing past with
  | nil => cases he
  | cons first rest ih =>
    obtain ⟨hmet, hrest⟩ := h
    rcases List.mem_cons.1 he with rfl | he
    · obtain ⟨earlier, hearlier, hcalled⟩ := hmet path hneeds
      exact ⟨earlier, List.mem_append_left _ hearlier, hcalled⟩
    · obtain ⟨earlier, hearlier, hcalled⟩ := ih hrest he
      refine ⟨earlier, ?_, hcalled⟩
      rcases List.mem_append.1 hearlier with hearlier | hearlier
      · rcases List.mem_cons.1 hearlier with rfl | hearlier
        · exact List.mem_append_right _ List.mem_cons_self
        · exact List.mem_append_left _ hearlier
      · exact List.mem_append_right _ (List.mem_cons_of_mem _ hearlier)

end Grounded

namespace Crew

/-! ## Members with events of their own

`Own place e` says that the event is one of the member at the place, and `R` is the order that each
member keeps. -/

/-- What is past is of members that have started, and comes before what is left of those that run. -/
structure Ordered (limit : Nat) (R : Event → Event → Prop) (Own : Nat → Event → Prop)
    (past : List Event) (crew : Crew) : Prop extends Windowed limit crew,
    Manned (fun place c => c.events.Pairwise R ∧ ∀ e ∈ c.events, Own place e) crew where
  past_own : ∀ e ∈ past, ∃ i < crew.next, Own i e
  past_before : ∀ e ∈ past, ∀ m ∈ crew.running, ∀ f ∈ m.2.events, R e f

section Ordered

variable {limit : Nat} {R : Event → Event → Prop} {Own : Nat → Event → Prop}
  (hcross : ∀ i j e f, Own i e → Own j f → (i < j ∨ limit ≠ 1 ∧ i ≠ j) → R e f)

include hcross

/-- What a member does in its turn comes before what other members do that run. -/
theorem Ordered.before_others {past : List Event} {crew : Crew} (h : Ordered limit R Own past crew)
    {m other : Nat × Course} (hm : m ∈ crew.running) (hother : other ∈ crew.running)
    (hne : other.1 ≠ m.1) : ∀ e ∈ m.2.events, ∀ f ∈ other.2.events, R e f := by
  intro e he f hf
  refine hcross m.1 other.1 e f ((h.running m hm).2 e he) ((h.running other hother).2 f hf)
    (.inr ⟨fun hlimit => ?_, hne.symm⟩)
  -- a window of one place holds one member
  have := h.started m hm
  have := h.window m hm
  have := h.started other hother
  have := h.window other hother
  omega

theorem Ordered.step {past events : List Event} {crew next : Crew}
    (h : Ordered limit R Own past crew) (hstep : Step limit crew events next) :
    Preceded (fun past f => ∀ e ∈ past, R e f) past events ∧
      Ordered limit R Own (past ++ events) next := by
  have hnodup : (crew.running.map Prod.fst).Nodup := h.increasing.imp Nat.ne_of_lt
  have hmanned : Manned (fun place c => c.events.Pairwise R ∧ ∀ e ∈ c.events, Own place e) next := by
    refine h.toManned.step hstep (fun _ _ hc => hc) fun place c left hc _ hleft => ?_
    obtain ⟨horder, hown⟩ := h.running _ hc
    rw [(Course.of_rest_some hleft).2] at horder hown
    exact ⟨(List.pairwise_append.1 horder).2.1, fun e he => hown e (List.mem_append_right _ he)⟩
  have hevents : ∀ e ∈ events, ∃ i < crew.next, Own i e := by
    intro e he
    rcases hstep.events_eq with rfl | ⟨m, hm, rfl, later, hlater⟩
    · cases he
    · refine ⟨m.1, h.started m hm, (h.running m hm).2 e ?_⟩
      rw [hlater]
      exact List.mem_append_left _ he
  refine ⟨?_, h.toWindowed.step hstep, hmanned, ?_, ?_⟩
  · rcases hstep.events_eq with rfl | ⟨m, hm, rfl, later, hlater⟩
    · trivial
    · have horder := (h.running m hm).1
      have hbefore := fun e he => h.past_before e he m hm
      rw [hlater] at horder hbefore
      exact Preceded.pairwise_iff.2 ⟨fun e he f hf => hbefore e he f (List.mem_append_left _ hf),
        (List.pairwise_append.1 horder).1⟩
  · intro e he
    obtain ⟨i, hi, hown⟩ := (List.mem_append.1 he).elim (h.past_own e) (hevents e)
    exact ⟨i, Nat.lt_of_lt_of_le hi hstep.next_le, hown⟩
  · intro e he m hm f hf
    rcases hstep.running_cases hnodup hm with ⟨hold, hothers⟩ | ⟨turn, hturn, rfl, hleft⟩ | hplace
    · rcases List.mem_append.1 he with he | he
      · exact h.past_before e he m hold f hf
      · obtain ⟨turn, hturn, hne, he⟩ := hothers e he
        exact h.before_others hcross hturn hold hne e he f hf
    · have hlater := (Course.of_rest_some hleft).2
      rcases List.mem_append.1 he with he | he
      · refine h.past_before e he turn hturn f ?_
        rw [hlater]
        exact List.mem_append_right _ hf
      · have horder := (h.running turn hturn).1
        rw [hlater] at horder
        exact (List.pairwise_append.1 horder).2.2 e he f hf
    · obtain ⟨i, hi, hown⟩ := (List.mem_append.1 he).elim (h.past_own e) (hevents e)
      exact hcross i m.1 e f hown ((hmanned.running m hm).2 f hf)
        (.inl (Nat.lt_of_lt_of_le hi hplace))

/-- The order of a set: `R` holds within each member, from one member to those behind it, and when
several run at a time also to those in front of it. -/
theorem course_pairwise {now : Nat} {members : List (Nat → Course)}
    (h : ∀ i start, members[i]? = some start → ∀ now,
      (start now).events.Pairwise R ∧ ∀ e ∈ (start now).events, Own i e) :
    (course limit now members).events.Pairwise R := by
  obtain ⟨last, hsteps, -⟩ := course_steps limit now members
  have hstart : Ordered limit R Own [] (start limit now members) :=
    { toWindowed := .start limit now members
      toManned := .start h limit now
      past_own := nofun
      past_before := nofun }
  have hpreceded := hsteps.preceded (fun _ _ _ _ hkeeps hstep => (hkeeps.step hcross hstep).2)
    (fun _ _ _ _ hkeeps hstep => (hkeeps.step hcross hstep).1) hstart
  exact (Preceded.pairwise_iff.1 hpreceded).2

end Ordered

/-! ## What events need -/

theorem course_grounded {Needs : Event → Path → Prop} {past : List Event} {limit now : Nat}
    {members : List (Nat → Course)}
    (h : ∀ start ∈ members, ∀ now, Grounded Needs past (start now).events) :
    Grounded Needs past (course limit now members).events := by
  rw [Grounded.iff_preceded]
  refine course_preceded (fun past more e hsub hmet path hneeds => ?_)
    (fun start hs now => Grounded.iff_preceded.1 (h start hs now)) limit now
  obtain ⟨earlier, hearlier, hcalled⟩ := hmet path hneeds
  exact ⟨earlier, hsub hearlier, hcalled⟩

end Crew
end TypedQuery
