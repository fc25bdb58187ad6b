import TypedQuery.Proofs.Validation.Reach
/-!
The walk that gathers the fragments which a definition spreads, directly or through others, spread
by spread and with no bound on its length.  Fragments may spread each other in circles, and spread
what is not defined.  The walk ends all the same, because it enters no fragment twice, and it
gathers just the fragments that some spreads lead to from the definition: `reachable_exact`.
-/

namespace TypedQuery
namespace Survey

variable {survey : Survey}

/-! ## The walk without a bound -/

/-- The walk goes through some spreads.  A fragment that is new is reached, and waits behind those
that wait already.  When no spread is left, the walk goes through the spreads of the fragment that
has waited longest, until none waits. -/
inductive Followed (survey : Survey) :
    List Spread → List String → List String → List String → Prop
  | done {reached : List String} : Followed survey [] [] reached reached
  | next {name : String} {pending reached last : List String}
      (hrest : Followed survey (survey.fragmentFindings name).spreads pending reached last) :
      Followed survey [] (name :: pending) reached last
  | skip {spread : Spread} {rest : List Spread} {pending reached last : List String}
      (hskip : survey.isDefined spread.fragment = true → spread.fragment ∈ reached)
      (hrest : Followed survey rest pending reached last) :
      Followed survey (spread :: rest) pending reached last
  | enter {spread : Spread} {rest : List Spread} {pending reached last : List String}
      (hdefined : survey.isDefined spread.fragment = true) (hnew : spread.fragment ∉ reached)
      (hrest : Followed survey rest (pending ++ [spread.fragment]) (reached ++ [spread.fragment])
        last) :
      Followed survey (spread :: rest) pending reached last

/-- The walk comes to one end only. -/
theorem Followed.unique {spreads : List Spread} {pending reached last other : List String}
    (h : survey.Followed spreads pending reached last)
    (hother : survey.Followed spreads pending reached other) : other = last := by
  induction h with
  | done =>
    cases hother
    rfl
  | next _ ih =>
    cases hother with
    | next hrest' => exact ih hrest'
  | skip hskip _ ih =>
    cases hother with
    | skip _ hrest' => exact ih hrest'
    | enter hdefined' hnew' => exact absurd (hskip hdefined') hnew'
  | enter hdefined hnew _ ih =>
    cases hother with
    | skip hskip' => exact absurd (hskip' hdefined) hnew
    | enter _ _ hrest' => exact ih hrest'

/-! ## The bound is never reached -/

/-- Which names are new is a matter of what is known, not of its order. -/
theorem fresh_congr {known others : List String} (h : ∀ name, name ∈ known ↔ name ∈ others)
    (names : List String) : fresh known names = fresh others names := by
  induction names generalizing known others with
  | nil => rfl
  | cons first rest ih =>
    have hfirst : known.contains first = others.contains first := by
      rw [Bool.eq_iff_iff, List.contains_iff_mem, List.contains_iff_mem]
      exact h first
    have hboth (name : String) : name ∈ first :: known ↔ name ∈ first :: others := by
      rw [List.mem_cons, List.mem_cons, h]
    rw [fresh, fresh, hfirst, ih h, ih hboth]

/-- Going through spreads one by one takes in the new fragments among them, all at once. -/
theorem Followed.of_fresh {spreads : List Spread} {pending reached found last : List String}
    (hfound : fresh reached ((spreads.map Spread.fragment).filter survey.isDefined) = found)
    (h : survey.Followed [] (pending ++ found) (reached ++ found) last) :
    survey.Followed spreads pending reached last := by
  induction spreads generalizing pending reached found with
  | nil =>
    obtain rfl : [] = found := hfound
    rwa [List.append_nil, List.append_nil] at h
  | cons spread rest ih =>
    rw [List.map_cons] at hfound
    by_cases hdefined : survey.isDefined spread.fragment = true
    · rw [List.filter_cons_of_pos hdefined, fresh] at hfound
      by_cases hknown : spread.fragment ∈ reached
      · rw [if_pos (List.contains_iff_mem.2 hknown)] at hfound
        exact .skip (fun _ => hknown) (ih hfound h)
      · rw [if_neg fun hc => hknown (List.contains_iff_mem.1 hc)] at hfound
        subst hfound
        have hsame (name : String) :
            name ∈ spread.fragment :: reached ↔ name ∈ reached ++ [spread.fragment] := by
          rw [List.mem_cons, List.mem_append, List.mem_singleton, or_comm]
        refine .enter hdefined hknown (ih (fresh_congr hsame _).symm ?_)
        rwa [List.append_assoc, List.append_assoc]
    · rw [List.filter_cons_of_neg hdefined] at hfound
      exact .skip (fun hd => absurd hd hdefined) (ih hfound h)

/-- Rounds as many as there are fragments are enough for the walk to end. -/
theorem Progress.followed {rounds : Nat} {pending reached : List String}
    (h : survey.Progress rounds pending reached) :
    survey.Followed [] pending reached (survey.follow rounds pending reached) := by
  induction rounds generalizing pending reached with
  | zero =>
    obtain rfl := h.pending_eq_nil
    exact .done
  | succ rounds ih =>
    cases pending with
    | nil => exact .done
    | cons first rest => exact .next (.of_fresh rfl (ih h.step))

theorem followed_reachable (findings : Findings) :
    survey.Followed findings.spreads [] [] (survey.reachable findings) :=
  .of_fresh rfl (Progress.start findings).followed

/-! ## Walks -/

theorem exists_walk_iff {name last : String} :
    (∃ walk, survey.Walk name walk last) ↔ Relation.ReflTransGen survey.Leads name last := by
  constructor
  · rintro ⟨walk, hwalk⟩
    induction hwalk with
    | nil => exact .refl
    | cons hspread hdefined _ ih =>
      exact .head (List.mem_filter.2 ⟨List.mem_map_of_mem hspread, hdefined⟩) ih
  · intro hleads
    induction hleads with
    | refl => exact ⟨[], .nil⟩
    | tail _ hstep ih =>
      obtain ⟨walk, hwalk⟩ := ih
      obtain ⟨hnext, hdefined⟩ := List.mem_filter.1 hstep
      obtain ⟨spread, hspread, rfl⟩ := List.mem_map.1 hnext
      exact ⟨walk ++ [spread], hwalk.concat hspread hdefined⟩

theorem Walk.isDefined_last {name last : String} {walk : List Spread}
    (h : survey.Walk name walk last) (hname : survey.isDefined name = true) :
    survey.isDefined last = true := by
  induction h with
  | nil => exact hname
  | cons _ hdefined _ ih => exact ih hdefined

/-- A fragment is reached when a spread leads to a fragment that is defined, and a walk from there
to it. -/
theorem mem_reachable_iff_walk {findings : Findings} {name : String} :
    name ∈ survey.reachable findings ↔
      ∃ first ∈ findings.spreads, survey.isDefined first.fragment = true ∧
        ∃ walk, survey.Walk first.fragment walk name := by
  simp only [mem_reachable, exists_walk_iff]
  constructor
  · rintro ⟨target, htarget, hleads⟩
    obtain ⟨hspread, hdefined⟩ := List.mem_filter.1 htarget
    obtain ⟨first, hfirst, rfl⟩ := List.mem_map.1 hspread
    exact ⟨first, hfirst, hdefined, hleads⟩
  · rintro ⟨first, hfirst, hdefined, hleads⟩
    exact ⟨first.fragment, List.mem_filter.2 ⟨List.mem_map_of_mem hfirst, hdefined⟩, hleads⟩

end Survey

/-- For every document, and whatever the spreads of a definition, the walk along the spreads that
were recorded ends, with no bound on its length, and it comes to one end only, which is what is
gathered.  No fragment is gathered twice, and one is gathered just when it is defined and some
spreads lead to it, the first of them in the definition and each to a fragment that is defined. -/
theorem reachable_exact (schema : Schema) (doc : Document) (findings : Findings) :
    let survey := Survey.ofDocument schema doc
    (∀ last, survey.Followed findings.spreads [] [] last ↔ last = survey.reachable findings) ∧
    (survey.reachable findings).Nodup ∧
    ∀ name, name ∈ survey.reachable findings ↔
      name ∈ doc.fragments.map (·.name) ∧
        ∃ first ∈ findings.spreads, first.fragment ∈ doc.fragments.map (·.name) ∧
          ∃ walk, survey.Walk first.fragment walk name := by
  intro survey
  have hdefined (name : String) :
      name ∈ doc.fragments.map (·.name) ↔ survey.isDefined name = true := by
    rw [Survey.isDefined_iff]
    rfl
  refine ⟨fun last => ⟨(Survey.followed_reachable findings).unique, ?_⟩,
    Survey.nodup_reachable findings, fun name => ?_⟩
  · rintro rfl
    exact Survey.followed_reachable findings
  · simp only [hdefined, Survey.mem_reachable_iff_walk]
    constructor
    · rintro ⟨first, hfirst, hd, walk, hwalk⟩
      exact ⟨hwalk.isDefined_last hd, first, hfirst, hd, walk, hwalk⟩
    · exact fun h => h.2

end TypedQuery
